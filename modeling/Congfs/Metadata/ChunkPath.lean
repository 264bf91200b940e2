import Congfs.Lib.Run
import Congfs.Metadata.FileInode
import Congfs.Metadata.FileRoundTrip

/-!
# The chunks of a file stay where they are

The path of the chunks is made from the orig. user and the orig. parent. What is not stored of them
has to be found out again when the inode is loaded, which `OrigStored` says: without the flag for
it, the orig. user is the user, and the orig. parent is that of the dentry, in which the inode has
to be inlined.
-/

namespace Congfs.Metadata

open Serialization FileInodeFeature DiskMetaData DirEntryType StoredFile FlatFile Flags

/-! ## What is read of the orig. user and parent -/

namespace DiskMetaData

variable {data out v : DiskMetaData} {p : Transport.StripePattern} {app : App} {bytes : List UInt8}

theorem eq_of_patternGrammar (h : (out.patternGrammar hasPoolId).Word (.object v) bytes) :
    ∃ pattern version, v = { out with
      inodeData.stripePattern := pattern
      inodeData.version := version
      inodeData.inodeFeatureFlags := out.inodeData.inodeFeatureFlags ||| hasVersions } := by
  obtain ⟨result, _, _, -, h, -⟩ := h
  cases result with
  | nullDereferenced => cases h.1
  | null =>
    obtain ⟨version, _, _, -, ⟨hobject, -⟩, -⟩ := h
    cases hobject
    exact ⟨none, version, rfl⟩
  | pattern pattern =>
    obtain ⟨version, _, _, -, ⟨hobject, -⟩, -⟩ := h
    cases hobject
    exact ⟨some pattern, version, rfl⟩

/-- What an inode of version 6 is read back with, whatever its flags are. -/
structure OrigLoaded (data out v : DiskMetaData) : Prop where
  inodeFeatureFlags : v.inodeData.inodeFeatureFlags =
    data.inodeData.inodeFeatureFlags &&& ~~~mirrored ||| hasVersions
  origFeature : v.inodeData.origFeature = .true
  userID : v.inodeData.inodeStatData.settableFileAttribs.userID =
    data.inodeData.inodeStatData.settableFileAttribs.userID
  origParentUID : v.inodeData.origParentUID =
    if data.inodeData.inodeFeatureFlags &&& hasOrigUID ≠ 0 then
      data.inodeData.origParentUID
    else data.inodeData.inodeStatData.settableFileAttribs.userID
  origParentEntryID : v.inodeData.origParentEntryID =
    if data.inodeData.inodeFeatureFlags &&& hasOrigParentID ≠ 0 then
      data.inodeData.origParentEntryID
    else out.inodeData.origParentEntryID

/-- The flag of an old mirror would be followed by two bytes that were not written, but everything
before is read as it was written. -/
theorem origLoaded_of_startsWith {metaDataType : UInt8} (hversion : data.dentryFormatVersion = 6)
    (hlen : (data.encodeHeader metaDataType ++ data.encodeV6 p).length < 4294967296)
    (h : (out.dentryGrammar app).StartsWith (.object v)
      (data.encodeHeader metaDataType ++ data.encodeV6 p)) : OrigLoaded data out v := by
  have hvalid : Valid (data.encodeHeader metaDataType ++ data.encodeV6 p) :=
    ⟨encodeHeader_ne_nil, hlen⟩
  have hbody := ((dentry_bind_word_iff hvalid).mp (Grammar.startsWith_iff.mp h)).2
  have h1 := valid_of_append hvalid encodeInt_append_ne_nil
  have h2 := valid_of_append h1 (List.append_ne_nil_of_left_ne_nil (by decide) _)
  have htail : ∀ {tail : List UInt8}, encodeString 4 data.dentryDiskData.entryID ++ tail ≠ [] :=
    List.append_ne_nil_of_left_ne_nil encodeString_ne_nil _
  have h5 := valid_of_append h2 (List.append_ne_nil_of_right_ne_nil _
    (List.append_ne_nil_of_right_ne_nil _ (List.append_ne_nil_of_right_ne_nil _ htail)))
  have h4 := valid_of_append h5 (List.append_ne_nil_of_right_ne_nil _
    (List.append_ne_nil_of_right_ne_nil _ htail))
  have h6 := valid_of_append h4 (List.append_ne_nil_of_right_ne_nil _ htail)
  have h7 := valid_of_append h6 htail
  rw [hversion] at hbody
  simp only [bodyGrammar, if_neg (show ¬(6 : UInt8) = 3 by decide),
    if_neg (show ¬(6 : UInt8) = 4 by decide),
    if_neg (show ¬(6 : UInt8) = 5 by decide), if_true, inodeV5V6Grammar, inodeGrammar, bind_assoc,
    Grammar.ite_empty_bind, encodeV6] at hbody
  rw [Parses.uint32.word_bind_iff (word_uint32 _) h1] at hbody
  split at hbody
  · simp only [fieldsV5V6Grammar, bind_assoc, pure_bind] at hbody
    rw [(Parses.skip 4).word_bind_iff ((Codes.skip 4).word (by simp)) h2,
      StatData.parses_deserializeAs.word_bind_iff
        ((StatData.codes_serializeAs ..).word h5.left_lt) h5,
      (Parses.uint32.readIf _).word_bind_iff
        ((Codes.writeIf Iff.rfl (fun _ => Codes.uint32 _) _).word h4.left_lt) h4,
      (parses_stringAlign4.readIf _).word_bind_iff
        ((Codes.writeIf Iff.rfl (fun _ => codes_string _) _).word h6.left_lt) h6,
      parses_stringAlign4.word_bind_iff ((codes_string _).word h7.left_lt) h7] at hbody
    obtain ⟨_, _, _, -, ⟨result, _, _, hpattern, ⟨_, _, _, -, ⟨hresult, -⟩, -⟩, -⟩, -⟩ := hbody
    cases result with
    | nullDereferenced => cases hresult
    | object fields =>
      cases hresult
      obtain ⟨pattern, version, rfl⟩ := eq_of_patternGrammar hpattern
      exact ⟨rfl, rfl, rfl, rfl, rfl⟩
  · exact hbody.elim

def encodeFileV6 (data : DiskMetaData) (p : Transport.StripePattern) : List UInt8 :=
  data.setMissingEntryType.written.encodeHeader
      (if data.setMissingEntryType.dentryDiskData.dentryFeatureFlags &&&
      DentryFeature.inodeInline ≠ 0 then
        fileDentry
      else fileInode) ++
    data.setMissingEntryType.written.encodeV6 p

theorem written_version_of_orig (horig : data.inodeData.origFeature = .true)
    (hfile : data.setMissingEntryType.dentryDiskData.entryType ≠ directory) :
    data.setMissingEntryType.written.dentryFormatVersion = 6 := by
  have horig : data.setMissingEntryType.written.inodeData.origFeature = .true :=
    (congrArg _ (setMissingEntryType_inodeData data)).trans horig
  exact (if_neg hfile).trans (if_pos horig)

theorem encodes_fileV6 (horig : data.inodeData.origFeature = .true)
    (hfile : data.setMissingEntryType.dentryDiskData.entryType ≠ directory)
    (hpattern : data.inodeData.stripePattern = some p) :
    ∃ put, data.serializeFileInode = some (data.setMissingEntryType.written, put) ∧
      Encodes put (data.encodeFileV6 p) := by
  have hversion := written_version_of_orig horig hfile
  have hpattern : data.setMissingEntryType.inodeData.stripePattern = some p := by
    rw [setMissingEntryType_inodeData, hpattern]
  refine ⟨_, serializeInDentryFormat_some hpattern _ (by rw [hversion]; decide), ?_⟩
  rw [hversion]
  exact (encodes_serializeDentryHeader ..).bind (encodes_serializeDentryV6 ..)

/-- The orig. user is found out if it is not stored. -/
theorem origUID_of_fields (h : (out.fieldsV5V6Grammar flags).Word v bytes) :
    v.inodeData.inodeFeatureFlags = flags &&& ~~~mirrored ∧ (flags &&& hasOrigUID = 0 →
        v.inodeData.inodeStatData.settableFileAttribs.userID = v.inodeData.origParentUID) := by
  obtain ⟨_, _, _, -, ⟨statData, _, _, -, ⟨uid, _, _, huid, ⟨_, _, _, -, ⟨_, _, _, -, ⟨_, _, _, -,
    ⟨rfl, -⟩, -⟩, -⟩, -⟩, -⟩, -⟩, -⟩ := h
  refine ⟨rfl, fun hflag => ?_⟩
  rw [Grammar.readIf, if_neg (not_not.mpr hflag)] at huid
  exact huid.1.symm

theorem inodeData_of_header (h : out.headerGrammar.Word (version, v) bytes) :
    v.inodeData = out.inodeData := by
  obtain ⟨_, _, _, -, ⟨_, _, _, -, ⟨_, _, _, -, h, -⟩, -⟩, -⟩ := h
  dsimp only at h
  split at h
  · obtain ⟨_, _, _, -, ⟨_, _, _, -, ⟨hpair, -⟩, -⟩, -⟩ := h
    cases hpair
    rfl
  · exact h.elim

theorem origUID_of_inode (h : (out.inodeV5V6Grammar hasStoragePool).Word (.object v) bytes)
    (hflag : v.inodeData.inodeFeatureFlags &&& hasOrigUID = 0) :
    v.inodeData.inodeStatData.settableFileAttribs.userID = v.inodeData.origParentUID := by
  obtain ⟨flags, _, _, -, h, -⟩ := h
  dsimp only at h
  split at h
  · obtain ⟨fields, _, _, hfields, hpattern, -⟩ := h
    obtain ⟨pattern, version, rfl⟩ := eq_of_patternGrammar hpattern
    obtain ⟨hflags, huid⟩ := origUID_of_fields hfields
    have hzero := (or_and_eq_zero_iff.mp hflag).1
    rw [hflags, UInt32.and_assoc] at hzero
    exact huid hzero
  · exact h.elim

/-- A file with an orig. user was stored in one of the last two versions. -/
theorem origUID_of_body (h : (out.bodyGrammar app formatVersion).Word (.object v) bytes)
    (hout : out.inodeData.origFeature ≠ .true) (hv : v.inodeData.origFeature = .true)
    (hflag : v.inodeData.inodeFeatureFlags &&& hasOrigUID = 0) :
    v.inodeData.inodeStatData.settableFileAttribs.userID = v.inodeData.origParentUID := by
  rw [bodyGrammar] at h
  split at h
  · obtain ⟨_, _, _, ⟨_, _, _, -, ⟨_, _, _, -, ⟨rfl, -⟩, -⟩, -⟩, ⟨hobject, -⟩, -⟩ := h
    cases hobject
    exact (hout hv).elim
  split at h
  · obtain ⟨result, _, _, -, ⟨hobject, -⟩, -⟩ := h
    cases result <;> cases hobject
    cases hv
  split at h
  · obtain ⟨result, _, _, hresult, ⟨hobject, -⟩, -⟩ := h
    cases result with
    | nullDereferenced => cases hobject
    | object w =>
      cases hpattern : w.inodeData.stripePattern with
      | none =>
        rw [finished, upgradeToV6, setOwner, hpattern] at hobject
        cases hobject
      | some pattern =>
        rw [finished, upgradeToV6, setOwner, hpattern] at hobject
        cases hobject
        have huid := origUID_of_inode hresult hflag
        exact huid
  split at h
  · obtain ⟨result, _, _, hresult, ⟨hobject, -⟩, -⟩ := h
    cases result <;> cases hobject
    have huid := origUID_of_inode hresult hflag
    exact huid
  · exact h.elim

end DiskMetaData

/-! ## What is stored of them -/

namespace FileInode

variable {parentEntryID : List UInt8} {inode : FileInode} {input : StoreInput}

/-- Enough is stored to find the chunks after a reload. -/
structure OrigStored (parentEntryID : List UInt8) (inode : FileInode) : Prop where
  origFeature : inode.inodeDiskData.origFeature = .true
  origUID : inode.inodeDiskData.inodeFeatureFlags &&& hasOrigUID = 0 →
    inode.inodeDiskData.inodeStatData.settableFileAttribs.userID = inode.inodeDiskData.origParentUID
  origParent : inode.inodeDiskData.inodeFeatureFlags &&& hasOrigParentID = 0 →
    inode.isInlined ∧ inode.inodeDiskData.origParentEntryID = parentEntryID

theorem OrigStored.updateDynamicAttribs (h : inode.OrigStored parentEntryID)
    (update : Congfs.StatData → Congfs.StatData) :
    (inode.updateDynamicAttribs update).OrigStored parentEntryID :=
  ⟨h.origFeature, h.origUID, h.origParent⟩

theorem origStored_create {featureFlags origParentUID dentryFeatureFlags : UInt32}
    {entryType : DirEntryType} :
    OrigStored parentEntryID ⟨.create entryID statData stripePattern featureFlags origParentUID
      parentEntryID .true, true, entryType, dentryFeatureFlags⟩ := by
  rw [FileInodeStoreData.create]
  by_cases huid : statData.settableFileAttribs.userID = origParentUID
  · rw [if_neg fun h => h.1 huid]
    exact ⟨rfl, fun _ => huid, fun _ => ⟨rfl, rfl⟩⟩
  · rw [if_pos ⟨huid, rfl⟩]
    exact ⟨rfl, fun hflag => (or_and_ne_zero (by decide) hflag).elim, fun _ => ⟨rfl, rfl⟩⟩

/-! ## Changing attributes -/

theorem inodeDiskData_changeAttribs (inode : FileInode) (validAttribs : UInt32)
    (attribs : SettableFileAttribs) (now : Int64) :
    ∃ flags statData, inode.changeAttribs validAttribs attribs now = { inode with
      inodeDiskData.inodeFeatureFlags := inode.inodeDiskData.inodeFeatureFlags ||| flags
      inodeDiskData.inodeStatData := statData } := by
  rw [changeAttribs]
  split
  · exact ⟨_, _, rfl⟩
  · exact ⟨0, _, by rw [UInt32.or_zero]⟩

/-- A new user is not the orig. one, so that one is stored from now on. -/
theorem OrigStored.changeAttribs (h : inode.OrigStored parentEntryID) (validAttribs : UInt32)
    (attribs : SettableFileAttribs) (now : Int64) :
    (inode.changeAttribs validAttribs attribs now).OrigStored parentEntryID := by
  rw [FileInode.changeAttribs]
  split_ifs with hsame
  · exact ⟨h.origFeature, fun hflag => (or_and_ne_zero (by decide) hflag).elim,
      fun hflag => h.origParent (or_and_eq_zero_iff.mp hflag).1⟩
  · refine ⟨h.origFeature, fun hflag => ?_, h.origParent⟩
    change (if validAttribs &&& SetAttr.userID ≠ 0 then attribs.userID
      else inode.inodeDiskData.inodeStatData.settableFileAttribs.userID) = _
    split_ifs with hvalid
    · by_contra hne
      exact hsame ⟨hvalid, hne, h.origFeature⟩
    · exact h.origUID hflag

/-- What storing does to an inode: the inode may turn out not to be inlined. -/
theorem storeUpdatedInodeUnlocked_spec (inode : FileInode) (input : StoreInput) :
    ∃ isInlined statData, (inode.storeUpdatedInodeUnlocked input).2 = { inode with
        inodeDiskData.inodeStatData := statData
        isInlined := isInlined } ∧
      statData.settableFileAttribs.userID =
        inode.inodeDiskData.inodeStatData.settableFileAttribs.userID ∧
      (isInlined = inode.isInlined ∨ inode.isInlined ∧ input.isInodeInlined = some false) := by
  rw [storeUpdatedInodeUnlocked]
  by_cases hinlined : inode.isInlined
  · rw [if_pos hinlined, storeUpdatedInlinedInodeUnlocked]
    cases hdentry : input.isInodeInlined with
    | none => exact ⟨_, _, rfl, rfl, .inl rfl⟩
    | some found =>
      cases found with
      | false => exact ⟨_, _, rfl, rfl, .inr ⟨hinlined, rfl⟩⟩
      | true => cases input.dentryStored <;> exact ⟨_, _, rfl, rfl, .inl rfl⟩
  · rw [if_neg hinlined]
    exact ⟨_, _, rfl, rfl, .inl rfl⟩

section
variable (inode : FileInode) (validAttribs : UInt32) (attribs : SettableFileAttribs) (now : Int64)
  (input : StoreInput)

theorem setAttrData_snd : (inode.setAttrData validAttribs attribs now input).2 =
      ((inode.changeAttribs validAttribs attribs now).storeUpdatedInodeUnlocked input).2 ∨
    (inode.setAttrData validAttribs attribs now input).2 =
      { ((inode.changeAttribs validAttribs attribs now).storeUpdatedInodeUnlocked input).2 with
        inodeDiskData.inodeStatData.settableFileAttribs :=
          inode.inodeDiskData.inodeStatData.settableFileAttribs } := by
  rw [setAttrData]
  dsimp only
  split
  · exact .inl rfl
  · exact .inr rfl

theorem getPathInfo_setAttrData :
    (inode.setAttrData validAttribs attribs now input).2.getPathInfo = inode.getPathInfo := by
  obtain ⟨flags, changed, hchange⟩ := inode.inodeDiskData_changeAttribs validAttribs attribs now
  obtain ⟨isInlined, statData, hstore, -, -⟩ :=
    (inode.changeAttribs validAttribs attribs now).storeUpdatedInodeUnlocked_spec input
  rcases inode.setAttrData_snd validAttribs attribs now input with hset | hset <;>
    rw [hset, hstore, hchange] <;> rfl

end

/-- The user that is restored after an error needs no more flags than before. -/
theorem OrigStored.setAttrData (h : inode.OrigStored parentEntryID) (validAttribs : UInt32)
    (attribs : SettableFileAttribs) (now : Int64)
    (hinput : inode.isInlined → inode.inodeDiskData.inodeFeatureFlags &&& hasOrigParentID = 0 →
      input.isInodeInlined ≠ some false) :
    (inode.setAttrData validAttribs attribs now input).2.OrigStored parentEntryID := by
  have hchanged := h.changeAttribs validAttribs attribs now
  obtain ⟨flags, changed, hchange⟩ := inode.inodeDiskData_changeAttribs validAttribs attribs now
  obtain ⟨isInlined, statData, hstore, huser, hinlined⟩ :=
    (inode.changeAttribs validAttribs attribs now).storeUpdatedInodeUnlocked_spec input
  rw [hchange] at hchanged hstore huser hinlined
  have hparent : (inode.inodeDiskData.inodeFeatureFlags ||| flags) &&& hasOrigParentID = 0 →
      isInlined ∧ inode.inodeDiskData.origParentEntryID = parentEntryID := by
    intro hflag
    obtain ⟨hinode, heq⟩ := hchanged.origParent hflag
    refine ⟨?_, heq⟩
    rcases hinlined with hsame | ⟨-, hnot⟩
    · exact hsame.trans hinode
    · exact (hinput hinode (or_and_eq_zero_iff.mp hflag).1 hnot).elim
  rcases inode.setAttrData_snd validAttribs attribs now input with hset | hset
  · rw [hset, hchange, hstore]
    exact ⟨h.origFeature, fun hflag => huser.trans (hchanged.origUID hflag), hparent⟩
  · rw [hset, hchange, hstore]
    exact ⟨h.origFeature, fun hflag => h.origUID (or_and_eq_zero_iff.mp hflag).1, hparent⟩

/-! ## Inlining -/

theorem OrigStored.of_deInlined (horig : inode.inodeDiskData.origFeature = .true)
    (huid : inode.inodeDiskData.inodeFeatureFlags &&& hasOrigUID = 0 →
      inode.inodeDiskData.inodeStatData.settableFileAttribs.userID =
      inode.inodeDiskData.origParentUID) :
    (inode.setIsInlinedUnlocked false).OrigStored parentEntryID := by
  have heq : (inode.setIsInlinedUnlocked false).inodeDiskData =
      inode.inodeDiskData.addInodeFeatureFlag hasOrigParentID := by
    simp only [setIsInlinedUnlocked, Bool.false_eq_true, if_false, horig, if_true]
    rfl
  constructor <;> rw [heq]
  · exact horig
  · exact fun hflag => huid (or_and_eq_zero_iff.mp hflag).1
  · exact fun hflag => (or_and_ne_zero (by decide) hflag).elim

theorem getPathInfo_setIsInlined (inode : FileInode) (value : Bool) :
    (inode.setIsInlinedUnlocked value).getPathInfo = inode.getPathInfo := by
  cases value with
  | true => rfl
  | false =>
    simp only [setIsInlinedUnlocked, Bool.false_eq_true, if_false]
    split <;> rfl

theorem origFeature_setIsInlined :
    (inode.setIsInlinedUnlocked value).inodeDiskData.origFeature =
    inode.inodeDiskData.origFeature := by
  cases value with
  | true => rfl
  | false =>
    simp only [setIsInlinedUnlocked, Bool.false_eq_true, if_false]
    split <;> rfl

/-! ## Storing -/

theorem storedBytes_of_encodes (h : Encodes put bytes) (hne : bytes ≠ [])
    (hlen : bytes.length < 4294967296) (hstored : storedBytes put buf = some stored) :
    stored = bytes := by
  rw [storedBytes] at hstored
  split at hstored
  · rename_i hgood
    have hbuf : buf.val.length < 4294967296 := by
      rw [buf.property]
      decide
    have hput := (h.writes hlen).put_of_good (h.counts hlen) hlen hbuf hgood
    rw [hput] at hstored
    cases hstored
    rw [overwrite_of_ne_nil hne]
    simp [padded, Serializer.size]
  · cases hstored

theorem storedBytes_eq_some (h : Encodes put bytes) (hne : bytes ≠ [])
    (hfit : bytes.length ≤ metaSerBufSize) :
    storedBytes put buf = some bytes := by
  have hlen : bytes.length < 4294967296 := hfit.trans_lt (by decide)
  have hbuf : buf.val.length = metaSerBufSize := buf.property
  have hwet := (h.writes hlen).wet buf 0 (by omega) (by rw [hbuf]; decide)
  have hput : (put (.ofBuffer buf)).2 =
      ⟨some (overwrite 0 buf.val 0 bytes), buf.val.length, bytes.length⟩ := by
    rw [Nat.zero_add] at hwet
    exact hwet
  rw [storedBytes, hput, hbuf]
  have hgood : (⟨some (overwrite 0 buf.val 0 bytes), metaSerBufSize, bytes.length⟩ :
      Serializer).good := by
    rw [Serializer.good, decide_eq_true_eq]
    exact ⟨(by decide : metaSerBufSize ≠ 0), hfit⟩
  rw [if_pos hgood, overwrite_of_ne_nil hne]
  simp [padded, Serializer.size]

/-- The inode can be stored as that of a file. The size of everything is an `unsigned`. -/
structure Storable (inode : FileInode) : Prop where
  notDirectory : inode.diskMetaData.setMissingEntryType.dentryDiskData.entryType ≠ directory
  length_lt : ∀ p, inode.inodeDiskData.stripePattern = some p →
    (inode.diskMetaData.encodeFileV6 p).length < 4294967296

theorem exists_of_storeMetaData (horig : inode.inodeDiskData.origFeature = .true)
    (hstorable : inode.Storable) (h : inode.storeMetaData buf = some bytes) :
    ∃ p, bytes = inode.diskMetaData.encodeFileV6 p ∧ bytes.length < 4294967296 := by
  obtain ⟨put, hput, hbytes⟩ := Option.bind_eq_some_iff.mp h
  obtain ⟨⟨written, _⟩, hwritten, rfl⟩ := Option.map_eq_some_iff.mp hput
  cases hpattern : inode.inodeDiskData.stripePattern with
  | none =>
    have hnone : inode.diskMetaData.setMissingEntryType.inodeData.stripePattern = none := by
      rw [setMissingEntryType_inodeData]
      exact hpattern
    have hversion := written_version_of_orig horig hstorable.notDirectory
    rw [serializeFileInode, serializeInDentryFormat_none hnone
      (by rw [hversion]; decide)] at hwritten
    cases hwritten
  | some p =>
    have hlen := hstorable.length_lt p hpattern
    obtain ⟨put, hput, hencodes⟩ := encodes_fileV6 horig hstorable.notDirectory hpattern
    cases hput.symm.trans hwritten
    obtain rfl := storedBytes_of_encodes hencodes encodeHeader_ne_nil hlen hbytes
    exact ⟨p, rfl, hlen⟩

theorem storeMetaData_eq_some (horig : inode.inodeDiskData.origFeature = .true)
    (hfile : inode.diskMetaData.setMissingEntryType.dentryDiskData.entryType ≠ directory)
    (hpattern : inode.inodeDiskData.stripePattern = some p)
    (hfit : (inode.diskMetaData.encodeFileV6 p).length ≤ metaSerBufSize) :
    inode.storeMetaData buf = some (inode.diskMetaData.encodeFileV6 p) := by
  obtain ⟨put, hput, hencodes⟩ := encodes_fileV6 horig hfile hpattern
  rw [storeMetaData, serializeMetaData, hput]
  exact storedBytes_eq_some hencodes encodeHeader_ne_nil hfit

/-! ## Loading -/

abbrev loadTarget (fresh : FileInode) : DiskMetaData :=
  ⟨⟨[], invalid, 0, 0⟩, fresh.inodeDiskData⟩

theorem exists_of_load {app : App} {fresh : FileInode} {inlined : Bool} {bytes : List UInt8}
    (hlen : bytes.length < 4294967296) (h : fresh.load app inlined parentEntryID bytes =
    some inode) : ∃ v, (fresh.loadTarget.dentryGrammar app).StartsWith (.object v) bytes ∧
      inode = FileInode.finishLoad ⟨v.inodeData, fresh.isInlined, v.dentryDiskData.entryType,
        v.dentryDiskData.dentryFeatureFlags.toUInt32⟩ inlined parentEntryID := by
  have hstart := (parses_file app fresh.loadTarget).startsWith_of_good hlen
  cases hget : fresh.loadTarget.deserializeFileInode app (.ofBuffer bytes) with
  | mk result des =>
    rw [hget] at hstart
    rw [load, deserializeMetaData, bind_apply, hget] at h
    cases result with
    | nullDereferenced => cases h
    | object v =>
      dsimp only at h
      cases hgood : des.good with
      | false =>
        rw [returnIfBad_of_bad hgood] at h
        dsimp only at h
        rw [hgood, if_neg Bool.false_ne_true] at h
        cases h
      | true =>
        rw [returnIfBad_of_good hgood] at h
        have hfinish := (if_pos hgood).symm.trans h
        cases hfinish
        exact ⟨v, hstart hgood, rfl⟩

theorem origStored_load {fresh : FileInode} (hlen : bytes.length < 4294967296)
    (hfresh : fresh.inodeDiskData.origFeature ≠ .true)
    (h : fresh.load app inlined parentEntryID bytes = some inode)
    (horig : inode.inodeDiskData.origFeature = .true) : inode.OrigStored parentEntryID := by
  obtain ⟨v, ⟨b, _, ⟨⟨version, out⟩, _, _, hheader, hbody, -⟩, -⟩, rfl⟩ := exists_of_load hlen h
  have hout : out.inodeData.origFeature ≠ .true := by
    rw [inodeData_of_header hheader]
    exact hfresh
  have huid := origUID_of_body hbody hout
  rw [finishLoad] at horig ⊢
  cases inlined with
  | true =>
    rw [if_pos rfl, FileInodeStoreData.setDynamicOrigParentEntryID] at horig ⊢
    by_cases hflag : v.inodeData.inodeFeatureFlags &&& hasOrigParentID = 0
    · rw [if_pos hflag] at horig ⊢
      exact ⟨horig, huid horig, fun _ => ⟨rfl, rfl⟩⟩
    · rw [if_neg hflag] at horig ⊢
      exact ⟨horig, huid horig, fun hzero => (hflag hzero).elim⟩
  | false =>
    rw [if_neg Bool.false_ne_true] at horig ⊢
    have hv : v.inodeData.origFeature = .true := by
      rw [origFeature_setIsInlined] at horig
      exact horig
    exact .of_deInlined hv (huid hv)

theorem loaded_and (hkept : ~~~mirrored &&& flag = flag) (hversions : hasVersions &&& flag = 0) :
    (flags &&& ~~~mirrored ||| hasVersions) &&& flag = 0 ↔ flags &&& flag = 0 := by
  rw [or_and_eq_zero_iff, UInt32.and_assoc, hkept]
  exact and_iff_left hversions

theorem getPathInfo_congr {data data' : FileInodeStoreData}
    (hfeature : data.origFeature = data'.origFeature)
    (huid : data.origParentUID = data'.origParentUID)
    (hparent : data.origParentEntryID = data'.origParentEntryID) :
    data.getPathInfo = data'.getPathInfo := by
  rw [FileInodeStoreData.getPathInfo, FileInodeStoreData.getPathInfo, hfeature, huid, hparent]

section
variable {data out v : DiskMetaData} {isInlined : Bool} {entryType : DirEntryType} {flags : UInt32}

section
variable (h : inode.OrigStored parentEntryID) (hdata : data.inodeData = inode.inodeDiskData)
  (hloaded : DiskMetaData.OrigLoaded data out v)
include h hdata hloaded

theorem OrigStored.origParentUID_loaded :
    v.inodeData.origParentUID = inode.inodeDiskData.origParentUID := by
  rw [hloaded.origParentUID, hdata]
  split_ifs with hflag
  · rfl
  · exact h.origUID (not_not.mp hflag)

theorem OrigStored.origUID_loaded (hflag : v.inodeData.inodeFeatureFlags &&& hasOrigUID = 0) :
    v.inodeData.inodeStatData.settableFileAttribs.userID = v.inodeData.origParentUID := by
  rw [hloaded.inodeFeatureFlags, loaded_and (by decide) (by decide), hdata] at hflag
  rw [hloaded.userID, h.origParentUID_loaded hdata hloaded, hdata]
  exact h.origUID hflag

theorem OrigStored.finishLoad :
    (FileInode.finishLoad ⟨v.inodeData, isInlined, entryType, flags⟩ inode.isInlined
        parentEntryID).OrigStored parentEntryID ∧
      (FileInode.finishLoad ⟨v.inodeData, isInlined, entryType, flags⟩ inode.isInlined
        parentEntryID).getPathInfo = inode.getPathInfo := by
  have huid := h.origParentUID_loaded hdata hloaded
  have hfeature := hloaded.origFeature.trans h.origFeature.symm
  have hflags : v.inodeData.inodeFeatureFlags &&& hasOrigParentID = 0 ↔
      inode.inodeDiskData.inodeFeatureFlags &&& hasOrigParentID = 0 := by
    rw [hloaded.inodeFeatureFlags, loaded_and (by decide) (by decide), hdata]
  have hparent : inode.inodeDiskData.inodeFeatureFlags &&& hasOrigParentID ≠ 0 →
      v.inodeData.origParentEntryID = inode.inodeDiskData.origParentEntryID := by
    intro hflag
    rw [hloaded.origParentEntryID, hdata, if_pos hflag]
  have horigUID := h.origUID_loaded hdata hloaded
  rw [FileInode.finishLoad]
  by_cases hflag : inode.inodeDiskData.inodeFeatureFlags &&& hasOrigParentID = 0
  · obtain ⟨hinlined, heq⟩ := h.origParent hflag
    rw [if_pos hinlined, FileInodeStoreData.setDynamicOrigParentEntryID, if_pos (hflags.mpr hflag)]
    exact ⟨⟨hloaded.origFeature, horigUID, fun _ => ⟨rfl, rfl⟩⟩,
      getPathInfo_congr hfeature huid heq.symm⟩
  · have hpath := getPathInfo_congr hfeature huid (hparent hflag)
    cases inode.isInlined with
    | true =>
      rw [if_pos rfl, FileInodeStoreData.setDynamicOrigParentEntryID,
        if_neg fun hzero => hflag (hflags.mp hzero)]
      exact ⟨⟨hloaded.origFeature, horigUID, fun hzero => (hflag (hflags.mp hzero)).elim⟩, hpath⟩
    | false =>
      exact ⟨OrigStored.of_deInlined hloaded.origFeature horigUID,
        (getPathInfo_setIsInlined _ false).trans hpath⟩

end

end

theorem reload_eq {app : App} {fresh loaded : FileInode}
    {update : Congfs.StatData → Congfs.StatData} {buf : MetaBuf} {bytes : List UInt8}
    (hstore : (inode.updateDynamicAttribs update).storeMetaData buf = some bytes)
    (hload : fresh.load app (inode.updateDynamicAttribs update).isInlined parentEntryID bytes =
    some loaded) : inode.reload app fresh parentEntryID update buf = loaded := by
  rw [FileInode.reload, hstore, Option.bind_some, hload, Option.getD_some]

theorem OrigStored.reload (h : inode.OrigStored parentEntryID) (app : App) (fresh : FileInode)
    (update : Congfs.StatData → Congfs.StatData) (buf : MetaBuf)
    (hstorable : (inode.updateDynamicAttribs update).Storable) :
    (inode.reload app fresh parentEntryID update buf).OrigStored parentEntryID ∧
      (inode.reload app fresh parentEntryID update buf).getPathInfo = inode.getPathInfo := by
  have hupdated := h.updateDynamicAttribs update
  rw [FileInode.reload]
  cases hload : ((inode.updateDynamicAttribs update).storeMetaData buf).bind
    (fresh.load app (inode.updateDynamicAttribs update).isInlined parentEntryID) with
  | none => exact ⟨hupdated, rfl⟩
  | some loaded =>
    obtain ⟨bytes, hstore, hload⟩ := Option.bind_eq_some_iff.mp hload
    obtain ⟨p, rfl, hlen⟩ := exists_of_storeMetaData hupdated.origFeature hstorable hstore
    obtain ⟨v, hstart, rfl⟩ := exists_of_load hlen hload
    have hversion := written_version_of_orig hupdated.origFeature hstorable.notDirectory
    exact hupdated.finishLoad (setMissingEntryType_inodeData _)
      (origLoaded_of_startsWith hversion hlen hstart)

/-! ## Runs -/

/-- The steps that keep the path: a dentry that is thought to hold the inode does so, unless the
orig. parent is stored, and the inode is not stored as that of a directory. -/
def KeepsPath (inode : FileInode) : Action → Prop
  | .setAttrData _ _ _ input => inode.isInlined →
      inode.inodeDiskData.inodeFeatureFlags &&& hasOrigParentID = 0 →
      input.isInodeInlined ≠ some false
  | .deInline => True
  | .reload _ _ update _ => (inode.updateDynamicAttribs update).Storable

theorem OrigStored.step (h : inode.OrigStored parentEntryID) (hkeeps : inode.KeepsPath action) :
    (inode.step parentEntryID action).OrigStored parentEntryID ∧
      (inode.step parentEntryID action).getPathInfo = inode.getPathInfo := by
  cases action with
  | setAttrData validAttribs attribs now input =>
    exact ⟨h.setAttrData validAttribs attribs now hkeeps,
      inode.getPathInfo_setAttrData validAttribs attribs now input⟩
  | deInline => exact ⟨.of_deInlined h.origFeature h.origUID, inode.getPathInfo_setIsInlined false⟩
  | reload app fresh update buf => exact h.reload app fresh update buf hkeeps

theorem pathInfo_kept (h : inode.OrigStored parentEntryID) {actions : List Action}
    (hsteps : EveryStep (step parentEntryID) KeepsPath inode actions) :
    EveryState (step parentEntryID) (fun s => s.getPathInfo = inode.getPathInfo) inode actions := by
  have hstep : ∀ s action, KeepsPath s action →
      s.OrigStored parentEntryID ∧ s.getPathInfo = inode.getPathInfo →
      (s.step parentEntryID action).OrigStored parentEntryID ∧
        (s.step parentEntryID action).getPathInfo = inode.getPathInfo := by
    rintro s action hkeeps ⟨hs, hpath⟩
    obtain ⟨hs', hpath'⟩ := hs.step hkeeps
    exact ⟨hs', hpath'.trans hpath⟩
  exact everyState_of_inv hstep (fun _ hs => hs.2) ⟨h, rfl⟩ hsteps

section

/-- A file in the directory `P`, inlined. -/
def sampleInode : FileInode where
  inodeDiskData := .create [65] sampleStatData pooled hasVersions 5 [80] .true
  isInlined := true
  entryType := regularFile
  dentryFeatureFlags := DentryFeature.inodeInline.toUInt32

def newInode : FileInode := ⟨blankData.inodeData, false, invalid, 0⟩

def zeroBuf : MetaBuf := ⟨List.replicate metaSerBufSize 0, List.length_replicate⟩

def sampleInput (isInodeInlined : Bool) :
    StoreInput := ⟨zeroBuf, id, some isInodeInlined, true, true⟩

/-- The user changes from 5 to 9. -/
def chown : Action :=
  .setAttrData SetAttr.userID ⟨0, 9, 0, 0, 0⟩ 2 (sampleInput true)

def sampleReload : Action := .reload ⟨1, 1⟩ newInode id zeroBuf

theorem pathInfo_kept_chown : sampleInode.OrigStored [80] ∧
    EveryState (step [80]) (fun s => s.getPathInfo = sampleInode.getPathInfo) sampleInode
      [chown, sampleReload] := by
  have hinode : sampleInode.OrigStored [80] := origStored_create
  refine ⟨hinode, pathInfo_kept hinode ⟨fun _ _ => by decide, ⟨?_, ?_⟩, trivial⟩⟩
  · decide
  · rintro p ⟨⟩
    decide +kernel

theorem origStored_load_sampleInode : ∃ inode,
    newInode.load ⟨1, 1⟩ true [80] (sampleInode.diskMetaData.encodeFileV6 pooled) = some inode ∧
      inode.OrigStored [80] := by
  have hload : (newInode.load ⟨1, 1⟩ true [80] (sampleInode.diskMetaData.encodeFileV6 pooled)).map
      (·.inodeDiskData.origFeature) = some .true := by
    decide +kernel
  obtain ⟨inode, hinode, horig⟩ := Option.map_eq_some_iff.mp hload
  exact ⟨inode, hinode, origStored_load (by decide +kernel) (by decide) hinode horig⟩

/-- The server finds no inode in the dentry, and loses the orig. parent with the next reload. -/
def notInlined : Action := .setAttrData 0 ⟨0, 0, 0, 0, 0⟩ 2 (sampleInput false)

def deInlinedInode : FileInode :=
  { sampleInode with
    isInlined := false
    inodeDiskData.inodeStatData.attribChangeTimeSecs := 2 }

theorem pathInfo_lost : sampleInode.OrigStored [80] ∧ sampleInode.getPathInfo = ⟨5, [80], 1⟩ ∧
    (run (step [80]) sampleInode [notInlined, sampleReload]).getPathInfo = ⟨5, [], 1⟩ := by
  refine ⟨origStored_create, rfl, ?_⟩
  have hstate : sampleInode.step [80] notInlined = deInlinedInode := by
    rcases sampleInode.setAttrData_snd 0 ⟨0, 0, 0, 0, 0⟩ 2 (sampleInput false) with hset | hset
    · exact hset
    · exact hset
  have hstored : (deInlinedInode.updateDynamicAttribs id).storeMetaData zeroBuf =
      some (deInlinedInode.diskMetaData.encodeFileV6 pooled) :=
    storeMetaData_eq_some rfl (by decide) rfl (by decide +kernel)
  have hload :
    (newInode.load ⟨1, 1⟩ false [80] (deInlinedInode.diskMetaData.encodeFileV6 pooled)).map
      getPathInfo = some ⟨5, [], 1⟩ := by
    decide +kernel
  obtain ⟨loaded, hloaded, hpath⟩ := Option.map_eq_some_iff.mp hload
  have hreload : deInlinedInode.step [80] sampleReload = loaded := reload_eq hstored hloaded
  change (FileInode.step [80] (sampleInode.step [80] notInlined) sampleReload).getPathInfo = _
  rw [hstate, hreload, hpath]

end

end FileInode
end Congfs.Metadata
