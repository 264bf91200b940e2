import Congfs.Metadata.DiskCoding

/-!
# Metadata is read back from disk

Directories and their dentries are, and files with a storage pool in their pattern if they are
stored in the newer format. The older format has no place for a storage pool, but it is written all
the same, and everything behind it is read from the wrong place.
-/

namespace Congfs.Metadata

open Serialization DirInodeFeature Flags

/-! ## Stored and loaded -/

/-- A buffer of the size that was found out is filled, and from there an object is read that stands
for the one that was written; exactly these bytes are read, whatever follows them. -/
def StoresAndLoads {α : Type} (serialize : Option (α × StateM Serializer Unit))
    (deserialize : StateM Deserializer (Decoded α)) (Restored : α → α → Prop) : Prop :=
  ∃ written put, serialize = some (written, put) ∧
    ∀ buffer : List UInt8, buffer.length = (put .dryRun).2.size →
      ∃ bytes, (put (.ofBuffer buffer)).2.buffer = some bytes ∧ bytes.length = buffer.length ∧
        (put (.ofBuffer buffer)).2.good ∧
        ∀ after, (bytes ++ after).length < 4294967296 → ∃ v des,
          deserialize (.ofBuffer (bytes ++ after)) = (.object v, des) ∧ des.good ∧
            des.size = bytes.length ∧ Restored written v

section
variable {α : Type} {put : StateM Serializer Unit} {get : StateM Deserializer (Decoded α)}
  {grammar : Grammar (Decoded α)} {written v : α} {Restored : α → α → Prop} {bytes : List UInt8}

theorem StoresAndLoads.of_codes (hcodes : Codes put grammar (.object v) bytes)
    (hvalid : Valid bytes) (hparses : Parses get grammar) (hrestored : Restored written v) :
    StoresAndLoads (some (written, put)) get Restored := by
  obtain ⟨hne, hlen⟩ := hvalid
  have hwrites := hcodes.encodes.writes hlen
  refine ⟨written, put, rfl, fun buffer hbuf => ?_⟩
  have hbuf : buffer.length = bytes.length := hbuf.trans (hwrites.size_dryRun hlen)
  have hput : (put (.ofBuffer buffer)).2 = ⟨some bytes, bytes.length, bytes.length⟩ :=
    hwrites.put_ofBuffer hne hlen hbuf
  rw [hput]
  refine ⟨bytes, rfl, hbuf.symm, by simp [Serializer.good, hne], fun after hafter => ?_⟩
  obtain ⟨des, hget, hgood, hsize⟩ :=
    (hparses.reads _ _ (hcodes.word hlen)).get_ofBuffer hne hafter
  exact ⟨v, des, hget, hgood, hsize, hrestored⟩

/-- What is loaded was read as a word, which is all that was written. -/
theorem StoresAndLoads.exists_word (hencodes : Encodes put bytes) (hvalid : Valid bytes)
    (hparses : Parses get grammar) (h : StoresAndLoads (some (written, put)) get Restored) :
    ∃ v, grammar.Word (.object v) bytes ∧ Restored written v := by
  obtain ⟨hne, hlen⟩ := hvalid
  have hwrites := hencodes.writes hlen
  obtain ⟨_, _, heq, hbuf⟩ := h
  cases heq
  have hput : (put (.ofBuffer (List.replicate bytes.length 0))).2 =
      ⟨some bytes, bytes.length, bytes.length⟩ :=
    hwrites.put_ofBuffer hne hlen List.length_replicate
  obtain ⟨_, hbytes, -, -, hload⟩ := hbuf (List.replicate bytes.length 0)
    (List.length_replicate.trans (hwrites.size_dryRun hlen).symm)
  rw [hput] at hbytes
  cases hbytes
  obtain ⟨v, des, hget, hgood, hsize, hrestored⟩ := hload [] (by rwa [List.append_nil])
  rw [List.append_nil] at hget
  have hinside : get (inside [] bytes []) = (.object v, des) := hget
  obtain ⟨w, b, after, inspected, hrest, hword, hget'⟩ :=
    hparses.accepts (⟨hne, hlen⟩ : Valid ([] ++ bytes))
    (by rw [hinside]; exact hgood)
  rw [hinside] at hget'
  cases hget'
  have hall : b.length = bytes.length := hsize
  obtain rfl : bytes = b := (List.append_inj ((List.append_nil bytes).trans hrest) hall.symm).1
  exact ⟨v, hword, hrestored⟩

theorem storesAndLoads_iff (hcodes : Codes put grammar (.object v) bytes) (hvalid : Valid bytes)
    (hparses : Parses get grammar) :
    StoresAndLoads (some (written, put)) get Restored ↔ Restored written v := by
  refine ⟨fun h => ?_, .of_codes hcodes hvalid hparses⟩
  obtain ⟨w, hword, hrestored⟩ := h.exists_word hcodes.encodes hvalid hparses
  have hvalid' : Valid (bytes ++ []) := by rwa [List.append_nil]
  cases (hparses.word_unique (hcodes.word hvalid.length_lt) hword hvalid' rfl).1
  exact hrestored

end

/-! ## Dentries -/

theorem encodeInt_ne_nil {α : Type} {width : ℕ} {toNat : α → ℕ} {v : α} :
    encodeInt (width + 1) toNat v ≠ [] := by
  intro hnil
  have hlen := congrArg List.length hnil
  cases hlen

theorem encodeInt_append_ne_nil {α : Type} {toNat : α → ℕ} {v : α} :
    encodeInt (width + 1) toNat v ++ rest ≠ [] :=
  List.append_ne_nil_of_left_ne_nil encodeInt_ne_nil rest

theorem valid_of_append (h : Valid (a ++ b)) (hne : b ≠ []) : Valid b := by
  refine ⟨hne, Nat.lt_of_le_of_lt ?_ h.length_lt⟩
  rw [List.length_append]
  exact Nat.le_add_left ..

namespace DiskMetaData

variable {data out : DiskMetaData} {metaDataType : UInt8} {rest : List UInt8} {app : App}

/-- The header is known, and what it decides; whatever `next` reads behind the dentry. -/
theorem dentry_bind_word_iff {β : Type} {next : Decoded DiskMetaData → Grammar β} {w : β}
    (hvalid : Valid (data.encodeHeader metaDataType ++ rest)) :
    (out.dentryGrammar app >>= next).Word w (data.encodeHeader metaDataType ++ rest) ↔
      checkFeatureFlagsCompat data.dentryDiskData.dentryFeatureFlags.toUInt32
          getSupportedDentryFeatureFlags.toUInt32 ∧
        ((out.setHeader data.dentryDiskData.dentryFeatureFlags
          data.dentryDiskData.entryType).bodyGrammar app data.dentryFormatVersion >>=
          next).Word w rest := by
  simp only [encodeHeader, List.append_assoc] at hvalid ⊢
  have h1 := valid_of_append hvalid encodeInt_append_ne_nil
  have h2 := valid_of_append h1 encodeInt_append_ne_nil
  have h3 := valid_of_append h2 encodeInt_append_ne_nil
  have h4 := valid_of_append h3 (List.append_ne_nil_of_left_ne_nil (by decide) _)
  simp only [dentryGrammar_eq, bind_assoc, Grammar.ite_empty_bind]
  rw [Parses.uint8.word_bind_iff ((Codes.uint8 _).word (by simp [encodeInt])) hvalid,
    Parses.uint8.word_bind_iff ((Codes.uint8 _).word (by simp [encodeInt])) h1,
    Parses.uint16.word_bind_iff (word_uint16 _) h2]
  split_ifs with hflags
  · rw [and_iff_right hflags,
      Parses.uint8.word_bind_iff ((Codes.uint8 _).word (by simp [encodeInt])) h3,
      (Parses.skip 3).word_bind_iff ((Codes.skip 3).word (by simp)) h4]
  · exact iff_of_false id fun h => hflags h.1

theorem dentry_word_iff (hvalid : Valid (data.encodeHeader metaDataType ++ rest)) :
    (out.dentryGrammar app).Word result (data.encodeHeader metaDataType ++ rest) ↔
      checkFeatureFlagsCompat data.dentryDiskData.dentryFeatureFlags.toUInt32
          getSupportedDentryFeatureFlags.toUInt32 ∧
        ((out.setHeader data.dentryDiskData.dentryFeatureFlags
          data.dentryDiskData.entryType).bodyGrammar app data.dentryFormatVersion).Word
          result rest := by
  have hiff := @dentry_bind_word_iff data out metaDataType rest app _ pure result hvalid
  rwa [bind_pure, bind_pure] at hiff

abbrev written (data : DiskMetaData) : DiskMetaData := data.addDentryFeatureFlag
    DentryFeature.ids32Bit

theorem compat_written :
    checkFeatureFlagsCompat data.written.dentryDiskData.dentryFeatureFlags.toUInt32
      getSupportedDentryFeatureFlags.toUInt32 ↔
    checkFeatureFlagsCompat data.dentryDiskData.dentryFeatureFlags.toUInt32
      getSupportedDentryFeatureFlags.toUInt32 := by
  rw [checkFeatureFlagsCompat, checkFeatureFlagsCompat, written, addDentryFeatureFlag,
    UInt16.toUInt32_or, or_and_eq_zero_iff]
  exact and_iff_left (by decide)

theorem written_and_mirrored : data.written.dentryDiskData.dentryFeatureFlags &&&
    DentryFeature.mirrored = 0 ↔
    data.dentryDiskData.dentryFeatureFlags &&& DentryFeature.mirrored = 0 := by
  rw [written, addDentryFeatureFlag, or_and_eq_zero_iff16]
  exact and_iff_left (by decide)

structure FlagsStorable (data : DiskMetaData) : Prop where
  compat : checkFeatureFlagsCompat data.dentryDiskData.dentryFeatureFlags.toUInt32
    getSupportedDentryFeatureFlags.toUInt32
  notMirrored : data.dentryDiskData.dentryFeatureFlags &&& DentryFeature.mirrored = 0

theorem serializeDentry_directory (h : data.dentryDiskData.entryType = DirEntryType.directory) :
    data.serializeDentry = some (data.written, do
      data.written.serializeDentryHeader dirDentry
      data.written.serializeDentryV3) := by
  have hversion : data.written.dentryFormatVersion = 3 := if_pos h
  rw [serializeDentry, if_pos h]
  exact if_pos hversion

theorem serializeInDentryFormat_some (h : data.inodeData.stripePattern = some p)
    (metaDataType : UInt8) (hversion : data.written.dentryFormatVersion ≠ 3) :
    data.serializeInDentryFormat metaDataType = some (data.written, do
      data.written.serializeDentryHeader metaDataType
      if data.written.dentryFormatVersion = 4 then data.written.serializeDentryV4 p
      else data.written.serializeDentryV6 p) := by
  obtain ⟨dentry, flags, statData, entryID, stripePattern, origFeature, uid, parent, version⟩ :=
    data
  cases h
  exact if_neg hversion

/-- A null pattern would be used. -/
theorem serializeInDentryFormat_none (h : data.inodeData.stripePattern = none)
    (hversion : data.written.dentryFormatVersion ≠ 3) :
    data.serializeInDentryFormat metaDataType = none := by
  obtain ⟨dentry, flags, statData, entryID, stripePattern, origFeature, uid, parent, version⟩ :=
    data
  cases h
  exact if_neg hversion

/-- The entry id, the type, the owner and the flags. -/
def DentryRestored (data v : DiskMetaData) : Prop := v.dentryDiskData = data.dentryDiskData

def encodeDirDentry (data : DiskMetaData) : List UInt8 := data.encodeHeader dirDentry ++
    data.encodeV3

theorem encodeHeader_ne_nil : data.encodeHeader metaDataType ++ rest ≠ [] := by
  rw [encodeHeader, List.append_assoc]
  exact encodeInt_append_ne_nil

theorem codes_dirDentry (hdir : data.dentryDiskData.entryType = DirEntryType.directory)
    (hflags : checkFeatureFlagsCompat data.written.dentryDiskData.dentryFeatureFlags.toUInt32
      getSupportedDentryFeatureFlags.toUInt32) :
    Codes (do
        data.written.serializeDentryHeader dirDentry
        data.written.serializeDentryV3)
      (out.dentryGrammar app)
      (.object { (out.setHeader data.written.dentryDiskData.dentryFeatureFlags
          data.written.dentryDiskData.entryType).setEntryID data.dentryDiskData.entryID with
        dentryDiskData.ownerNodeID := data.dentryDiskData.ownerNodeID })
      data.written.encodeDirDentry := by
  have hversion : data.written.dentryFormatVersion = 3 := if_pos hdir
  have hlong : data.written.dentryDiskData.dentryFeatureFlags &&& ~~~DentryFeature.mirrored &&&
      DentryFeature.ids32Bit ≠ 0 := by
    rw [UInt16.and_assoc]
    exact or_and_ne_zero16 (by decide)
  refine (codes_serializeDentryHeader hflags).bind ?_
  rw [hversion]
  exact (codes_serializeDentryV3 hlong).map _

theorem dirDentry_iff (hdir : data.dentryDiskData.entryType = DirEntryType.directory)
    (hlen : data.written.encodeDirDentry.length < 4294967296) (app : App) (out : DiskMetaData) :
    StoresAndLoads data.serializeDentry (out.deserializeDentry app) DentryRestored ↔
      data.FlagsStorable := by
  have hvalid : Valid data.written.encodeDirDentry := ⟨encodeHeader_ne_nil, hlen⟩
  have hparses := parses_deserializeDentry app out
  rw [serializeDentry_directory hdir]
  by_cases hflags : checkFeatureFlagsCompat data.dentryDiskData.dentryFeatureFlags.toUInt32
    getSupportedDentryFeatureFlags.toUInt32
  · rw [storesAndLoads_iff (codes_dirDentry hdir (compat_written.mpr hflags)) hvalid hparses]
    constructor
    · intro hrestored
      have hsame := congrArg DentryStoreData.dentryFeatureFlags hrestored
      exact ⟨hflags, written_and_mirrored.mp (and_not_eq_self_iff16.mp hsame)⟩
    · intro hstorable
      have hsame := and_not_eq_self_iff16.mpr (written_and_mirrored.mpr hstorable.notMirrored)
      rw [DentryRestored, setHeader, hsame]
      rfl
  · refine iff_of_false (fun h => ?_) fun hstorable => hflags hstorable.compat
    have hencodes := (encodes_serializeDentryHeader data.written dirDentry).bind
      (@codes_serializeDentryV3 data.written data.written (or_and_ne_zero16 (by decide))).encodes
    obtain ⟨v, hword, -⟩ := h.exists_word hencodes hvalid hparses
    exact hflags (compat_written.mp ((dentry_word_iff hvalid).mp hword).1)

end DiskMetaData

/-! ## Directory inodes -/

namespace DirInode

variable {inode out v : DirInode} {bytes : List UInt8}

/-- The flags of a directory that can be read back. -/
structure FlagsStorable (inode : DirInode) : Prop where
  compat : checkFeatureFlagsCompat inode.featureFlags.toUInt32
    getSupportedDirInodeFeatureFlags.toUInt32
  notMirrored : inode.featureFlags &&& mirrored = 0

theorem featureFlags_of_commonData (h : out.commonDataGrammar.Word v bytes) :
    v.featureFlags = out.featureFlags := by
  obtain ⟨_, _, _, -,
    ⟨_, _, _, -, ⟨_, _, _, -, ⟨_, _, _, -, ⟨_, _, _, -, ⟨_, _, _, -, ⟨rfl, -⟩, -⟩, -⟩, -⟩,
    -⟩, -⟩, -⟩ := h
  rfl

theorem featureFlags_of_nodes [Decidable long] (h : (out.nodesGrammar long).Word v bytes) :
    v.featureFlags = out.featureFlags &&& ~~~mirrored := by
  obtain ⟨_, _, _, -, ⟨_, _, _, -, ⟨_, _, _, -, ⟨rfl, -⟩, -⟩, -⟩, -⟩ := h
  rfl

theorem featureFlags_of_setPattern (h : out.setPattern hasStoragePool pattern = .object v) :
    v.featureFlags = out.featureFlags := by
  cases pattern <;> cases hasStoragePool <;> cases h <;> rfl

theorem flagsStorable_of_stripped
    (hflags : checkFeatureFlagsCompat flags.toUInt32 getSupportedDirInodeFeatureFlags.toUInt32)
    (h : v.featureFlags = flags &&& ~~~mirrored) : v.FlagsStorable where
  compat := by
    rw [checkFeatureFlagsCompat] at hflags ⊢
    rw [h, UInt16.toUInt32_and, UInt32.and_comm flags.toUInt32, UInt32.and_assoc, hflags,
      UInt32.and_zero]
  notMirrored := by
    rw [h, UInt16.and_assoc]
    exact UInt16.and_zero

theorem flagsStorable_of_word (h : out.dirInodeGrammar.Word (.object v) bytes) :
    v.FlagsStorable := by
  rw [dirInodeGrammar_eq] at h
  obtain ⟨metaDataType, _, _, -, h, -⟩ := h
  dsimp only at h
  split at h
  · obtain ⟨formatVersion, _, _, -, ⟨featureFlags, _, _, -, h, -⟩, -⟩ := h
    dsimp only at h
    split at h
    · rename_i hflags
      obtain ⟨common, _, _, hcommon, h, -⟩ := h
      split at h
      · obtain ⟨nodes, _, _, hnodes, ⟨pattern, _, _, -, ⟨hobject, -⟩, -⟩, -⟩ := h
        refine flagsStorable_of_stripped hflags ?_
        rw [featureFlags_of_setPattern hobject.symm, featureFlags_of_nodes hnodes,
          featureFlags_of_commonData hcommon]
      · exact h.elim
    · exact h.elim
  · exact h.elim

abbrev written (inode : DirInode) : DirInode :=
  { inode with
    featureFlags := inode.featureFlags ||| (earlySubdirs ||| statFlags) }

theorem flagsStorable_written : inode.written.FlagsStorable ↔ inode.FlagsStorable := by
  have hcompat : checkFeatureFlagsCompat inode.written.featureFlags.toUInt32
        getSupportedDirInodeFeatureFlags.toUInt32 ↔
      checkFeatureFlagsCompat inode.featureFlags.toUInt32
      getSupportedDirInodeFeatureFlags.toUInt32 := by
    rw [checkFeatureFlagsCompat, checkFeatureFlagsCompat, UInt16.toUInt32_or, or_and_eq_zero_iff]
    exact and_iff_left (by decide)
  have hmirrored : inode.written.featureFlags &&& mirrored = 0 ↔
      inode.featureFlags &&& mirrored = 0 := by
    rw [or_and_eq_zero_iff16]
    exact and_iff_left (by decide)
  constructor
  · exact fun h => ⟨hcompat.mp h.compat, hmirrored.mp h.notMirrored⟩
  · exact fun h => ⟨hcompat.mpr h.compat, hmirrored.mpr h.notMirrored⟩

/-- Everything that is stored, read into `out`. -/
structure Restored (out inode v : DirInode) : Prop where
  id : v.id = inode.id
  ownerNodeID : v.ownerNodeID = inode.ownerNodeID
  parentDirID : v.parentDirID = inode.parentDirID
  parentNodeID : v.parentNodeID = inode.parentNodeID
  featureFlags : v.featureFlags = inode.featureFlags
  statData : v.statData = inode.statData.storedInto .dirInode out.statData
  numSubdirs : v.numSubdirs = inode.numSubdirs
  numFiles : v.numFiles = inode.numFiles
  stripePattern : ∃ p q, inode.stripePattern = some p ∧ v.stripePattern = some q ∧
    p.stripePatternEquals q

theorem serializeDirInode_some (h : inode.stripePattern = some p) :
    inode.serializeDirInode = some (inode.written, inode.written.serializeDirInodeFields p) := by
  obtain ⟨id, ownerNodeID, stripePattern, parentDirID, parentNodeID, featureFlags,
    statData, numSubdirs, numFiles⟩ := inode
  cases h
  rfl

theorem restored_loaded_iff {p : Transport.StripePattern} (h : inode.stripePattern = some p) :
    Restored out inode (inode.loaded out p.received) ↔ p.header.hasPoolId := by
  rw [← p.stripePatternEquals_received]
  constructor
  · intro hrestored
    obtain ⟨p', q, hp', hq, hequals⟩ := hrestored.stripePattern
    cases h.symm.trans hp'
    cases hq
    exact hequals
  · intro hequals
    exact ⟨rfl, rfl, rfl, rfl, rfl, rfl, rfl, rfl, p, p.received, h, rfl, hequals⟩

theorem dirInode_iff
    (hlen : ∀ p, inode.stripePattern = some p → (inode.written.encode p).length < 4294967296) :
    StoresAndLoads inode.serializeDirInode out.deserializeDirInode (Restored out) ↔
      inode.FlagsStorable ∧ ∃ p, inode.stripePattern = some p ∧ p.header.hasPoolId := by
  have hparses := parses_deserializeDirInode out
  cases hpattern : inode.stripePattern with
  | none =>
    refine iff_of_false ?_ fun h => by cases h.2.choose_spec.1
    rw [serializeDirInode]
    rw [hpattern]
    rintro ⟨_, _, heq, -⟩
    cases heq
  | some p =>
    have hearly : inode.written.featureFlags &&& earlySubdirs ≠ 0 :=
      or_and_ne_zero16 (by decide)
    have hstat : inode.written.featureFlags &&& statFlags ≠ 0 :=
      or_and_ne_zero16 (by decide)
    have hvalid : Valid (inode.written.encode p) := ⟨encodeInt_append_ne_nil, hlen p hpattern⟩
    rw [serializeDirInode_some hpattern]
    by_cases hflags : inode.FlagsStorable
    · have hwritten := flagsStorable_written.mpr hflags
      rw [storesAndLoads_iff (codes_serializeDirInodeFields hearly hstat hwritten.compat
        hwritten.notMirrored) hvalid hparses, @restored_loaded_iff inode.written out p hpattern]
      simp [hflags]
    · refine iff_of_false (fun h => ?_) fun h => hflags h.1
      obtain ⟨v, hword, hrestored⟩ :=
        h.exists_word (encodes_serializeDirInodeFields hearly hstat) hvalid hparses
      have hv := flagsStorable_of_word hword
      refine hflags (flagsStorable_written.mp ⟨?_, ?_⟩)
      · rw [← hrestored.featureFlags]
        exact hv.compat
      · rw [← hrestored.featureFlags]
        exact hv.notMirrored

end DirInode

end Congfs.Metadata
