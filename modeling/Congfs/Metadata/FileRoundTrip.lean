import Congfs.Metadata.DecodeTotality
import Congfs.Metadata.DiskRoundTrip

/-!
# File inodes are read back from disk

In the format of version 6 if the pattern has a storage pool, and in that of version 4 if it has
none. The fields of version 4 do not include the orig. user, which therefore stays what it was in
the object that is read into.
-/

namespace Congfs.Metadata

open Serialization DiskMetaData Transport.Content DirEntryType
open FileInodeFeature

/-- The state of a file inode: which version is written, which flags there may be, and when the
orig. user need not be stored. -/
structure StoredFile where
  data : DiskMetaData
  pattern : Transport.StripePattern
  pattern_eq : data.inodeData.stripePattern = some pattern
  notDirectory : data.setMissingEntryType.dentryDiskData.entryType ≠ directory
  origFeature_ne : data.inodeData.origFeature ≠ .unset
  compat : checkFeatureFlagsCompat data.inodeData.inodeFeatureFlags
    (if data.inodeData.origFeature = .true then getSupportedDentryV5FileInodeFeatureFlags
      else getSupportedDentryV4FileInodeFeatureFlags)
  notMirrored : data.inodeData.inodeFeatureFlags &&& mirrored = 0
  origUID : data.inodeData.inodeFeatureFlags &&& hasOrigUID = 0 →
    data.inodeData.inodeStatData.settableFileAttribs.userID = data.inodeData.origParentUID

/-- Everything that is stored, read into `out`. -/
structure FileRestored (out data v : DiskMetaData) : Prop where
  dentryFeatureFlags : v.dentryDiskData.dentryFeatureFlags = data.dentryDiskData.dentryFeatureFlags
  entryType : v.dentryDiskData.entryType = data.dentryDiskData.entryType
  dentryEntryID : v.dentryDiskData.entryID = data.dentryDiskData.entryID
  entryID : v.inodeData.entryID = data.inodeData.entryID
  statData : v.inodeData.inodeStatData = data.inodeData.inodeStatData.storedInto
    (if data.inodeData.origFeature = .true then .fileInode else .dentryV4)
    out.inodeData.inodeStatData
  stripePattern : ∃ p q, data.inodeData.stripePattern = some p ∧
    v.inodeData.stripePattern = some q ∧ p.stripePatternEquals q
  version : v.inodeData.version = data.inodeData.version
  inodeFeatureFlags : v.inodeData.inodeFeatureFlags = data.inodeData.inodeFeatureFlags
  origFeature : v.inodeData.origFeature = data.inodeData.origFeature
  origParentUID : v.inodeData.origParentUID = data.inodeData.origParentUID
  origParentEntryID : data.inodeData.inodeFeatureFlags &&& hasOrigParentID ≠ 0 →
    v.inodeData.origParentEntryID = data.inodeData.origParentEntryID

namespace StoredFile

variable {file : StoredFile} {app : App} {out v : DiskMetaData}

section

variable (file : StoredFile)

def written : DiskMetaData := file.data.setMissingEntryType.written

def metaDataType : UInt8 :=
  if file.data.setMissingEntryType.dentryDiskData.dentryFeatureFlags &&&
    DentryFeature.inodeInline ≠ 0 then
    fileDentry
  else fileInode

def encode : List UInt8 :=
  file.written.encodeHeader file.metaDataType ++
    if file.data.inodeData.origFeature = .true then file.written.encodeV6 file.pattern
    else file.written.encodeV4 file.pattern

variable (data : DiskMetaData)

theorem setMissingEntryType_inodeData : data.setMissingEntryType.inodeData = data.inodeData := by
  rw [setMissingEntryType]
  split <;> rfl

theorem setMissingEntryType_flags :
    data.setMissingEntryType.dentryDiskData.dentryFeatureFlags =
    data.dentryDiskData.dentryFeatureFlags := by
  rw [setMissingEntryType]
  split <;> rfl

theorem setMissingEntryType_entryID :
    data.setMissingEntryType.dentryDiskData.entryID = data.dentryDiskData.entryID := by
  rw [setMissingEntryType]
  split <;> rfl

@[simp] theorem written_inodeData : file.written.inodeData = file.data.inodeData :=
  setMissingEntryType_inodeData file.data

theorem written_version : file.written.dentryFormatVersion =
    if file.data.inodeData.origFeature = .true then 6 else 4 := by
  have hfile : file.written.dentryDiskData.entryType ≠ directory := file.notDirectory
  rw [dentryFormatVersion, if_neg hfile, written_inodeData]

/-- Which version is written depends on the orig. feature. -/
def serializer : StateM Serializer Unit := do
  file.written.serializeDentryHeader file.metaDataType
  if file.data.inodeData.origFeature = .true then file.written.serializeDentryV6 file.pattern
  else file.written.serializeDentryV4 file.pattern

theorem serializeFileInode_eq :
    file.data.serializeFileInode = some (file.written, file.serializer) := by
  have hversion := file.written_version
  have hpattern : file.data.setMissingEntryType.inodeData.stripePattern = some file.pattern := by
    rw [setMissingEntryType_inodeData, file.pattern_eq]
  have hput := serializeInDentryFormat_some hpattern file.metaDataType
  change file.data.setMissingEntryType.serializeInDentryFormat file.metaDataType = _
  rw [hput]
  · change some (file.written, do
      file.written.serializeDentryHeader file.metaDataType
      if file.written.dentryFormatVersion = 4 then file.written.serializeDentryV4 file.pattern
      else file.written.serializeDentryV6 file.pattern) = _
    rw [hversion, serializer]
    by_cases horig : file.data.inodeData.origFeature = .true
    · rw [if_pos horig, if_pos horig]
      rfl
    · rw [if_neg horig, if_neg horig]
      rfl
  · change file.written.dentryFormatVersion ≠ 3
    rw [hversion]
    split <;> decide

end

/-- The files that are read back. In version 4 the orig. user has to be there already. -/
structure Restorable (file : StoredFile) (out : DiskMetaData) : Prop where
  flags : file.data.FlagsStorable
  entryID : file.data.inodeData.entryID = file.data.dentryDiskData.entryID
  hasVersions : file.data.inodeData.inodeFeatureFlags &&& FileInodeFeature.hasVersions ≠ 0
  pool : file.pattern.header.hasPoolId ↔ file.data.inodeData.origFeature = .true
  origParentUID : file.data.inodeData.origFeature = .false →
    out.inodeData.origParentUID = file.data.inodeData.origParentUID

theorem flagsStorable_written : file.written.FlagsStorable ↔ file.data.FlagsStorable := by
  have hflags := setMissingEntryType_flags file.data
  constructor
  · rintro ⟨hcompat, hmirrored⟩
    have hcompat := compat_written.mp hcompat
    have hmirrored := written_and_mirrored.mp hmirrored
    rw [hflags] at hcompat hmirrored
    exact ⟨hcompat, hmirrored⟩
  · rintro ⟨hcompat, hmirrored⟩
    rw [← hflags] at hcompat hmirrored
    exact ⟨compat_written.mpr hcompat, written_and_mirrored.mpr hmirrored⟩

theorem written_entryID : file.written.dentryDiskData.entryID = file.data.dentryDiskData.entryID :=
  setMissingEntryType_entryID file.data

/-- What both versions read from the pattern on, and the ids. -/
theorem restored_withPattern_iff {fields : DiskMetaData} {p : Transport.StripePattern}
    {origFeature : FileInodeOrigFeature}
    (hcompat : checkFeatureFlagsCompat file.written.dentryDiskData.dentryFeatureFlags.toUInt32
      getSupportedDentryFeatureFlags.toUInt32)
    (hflags : fields.dentryDiskData.dentryFeatureFlags =
      file.written.dentryDiskData.dentryFeatureFlags &&& ~~~DentryFeature.mirrored)
    (htype : fields.dentryDiskData.entryType = file.written.dentryDiskData.entryType)
    (hdentryID : fields.dentryDiskData.entryID = file.written.dentryDiskData.entryID)
    (hid : fields.inodeData.entryID = file.written.dentryDiskData.entryID)
    (horig : origFeature = file.data.inodeData.origFeature)
    (hstat : fields.inodeData.inodeStatData = file.data.inodeData.inodeStatData.storedInto
      (if file.data.inodeData.origFeature = .true then .fileInode else .dentryV4)
      out.inodeData.inodeStatData)
    (hparent : file.data.inodeData.inodeFeatureFlags &&& hasOrigParentID ≠ 0 →
      fields.inodeData.origParentEntryID = file.data.inodeData.origParentEntryID) :
    FileRestored out file.written ((fields.withPattern file.written p).setOwner app origFeature) ↔
      file.data.FlagsStorable ∧ file.data.inodeData.entryID = file.data.dentryDiskData.entryID ∧
        file.data.inodeData.inodeFeatureFlags &&& FileInodeFeature.hasVersions ≠ 0 ∧
        file.pattern.stripePatternEquals p ∧
        fields.inodeData.origParentUID = file.data.inodeData.origParentUID := by
  have hpattern : file.written.inodeData.stripePattern = some file.pattern := by
    rw [written_inodeData, file.pattern_eq]
  have hversions := @Flags.or_eq_self_iff file.written.inodeData.inodeFeatureFlags
    FileInodeFeature.hasVersions 7 rfl (by decide)
  constructor
  · intro h
    refine ⟨?_, ?_, ?_, ?_, ?_⟩
    · have hsame := hflags.symm.trans h.dentryFeatureFlags
      exact flagsStorable_written.mp ⟨hcompat, Flags.and_not_eq_self_iff16.mp hsame⟩
    · have hsame := hid.symm.trans h.entryID
      rw [written_entryID, written_inodeData] at hsame
      exact hsame.symm
    · rw [← written_inodeData]
      exact hversions.mp h.inodeFeatureFlags
    · obtain ⟨p', q, hp', hq, hequals⟩ := h.stripePattern
      cases hpattern.symm.trans hp'
      cases hq
      exact hequals
    · have hsame := h.origParentUID
      rw [written_inodeData] at hsame
      exact hsame
  · rintro ⟨hstorable, hentryID, hhas, hequals, huid⟩
    have hmirrored := (flagsStorable_written.mpr hstorable).notMirrored
    rw [← written_inodeData] at hhas
    refine
      { dentryFeatureFlags := hflags.trans (Flags.and_not_eq_self_iff16.mpr hmirrored)
        entryType := htype, dentryEntryID := hdentryID
        version := if_pos hhas, inodeFeatureFlags := hversions.mpr hhas
        entryID := ?_, statData := ?_, origFeature := ?_, origParentUID :=
        ?_, origParentEntryID := ?_
        stripePattern := ⟨file.pattern, p, hpattern, rfl, hequals⟩ }
    all_goals rw [written_inodeData]
    · rw [hentryID, ← written_entryID]
      exact hid
    · exact hstat
    · exact horig
    · exact huid
    · exact hparent

theorem compat_true (horig : file.data.inodeData.origFeature = .true) :
    checkFeatureFlagsCompat file.written.inodeData.inodeFeatureFlags
      getSupportedDentryV5FileInodeFeatureFlags := by
  have hcompat := file.compat
  rw [if_pos horig] at hcompat
  rw [written_inodeData]
  exact hcompat

theorem compat_false (horig : file.data.inodeData.origFeature ≠ .true) :
    checkFeatureFlagsCompat file.written.inodeData.inodeFeatureFlags
      getSupportedDentryV4FileInodeFeatureFlags := by
  have hcompat := file.compat
  rw [if_neg horig] at hcompat
  rw [written_inodeData]
  exact hcompat

theorem written_notMirrored (file : StoredFile) :
    file.written.inodeData.inodeFeatureFlags &&& mirrored = 0 := by
  rw [written_inodeData]
  exact file.notMirrored

theorem encodes_encode (file : StoredFile) : Encodes file.serializer file.encode := by
  refine (encodes_serializeDentryHeader file.written file.metaDataType).bind ?_
  by_cases horig : file.data.inodeData.origFeature = .true
  · rw [if_pos horig, if_pos horig]
    exact encodes_serializeDentryV6 file.written file.pattern
  · rw [if_neg horig, if_neg horig]
    exact encodes_serializeDentryV4 file.written file.pattern

theorem parses_file (app : App) (out : DiskMetaData) :
    Parses (out.deserializeFileInode app) (out.dentryGrammar app) :=
  parses_deserializeDentry app out

def RoundTrips (file : StoredFile) (app : App) (out : DiskMetaData) : Prop :=
  StoresAndLoads file.data.serializeFileInode (out.deserializeFileInode app) (FileRestored out)

section
variable (hlen : file.encode.length < 4294967296)
include hlen

theorem valid_encode : Valid file.encode :=
  ⟨encodeHeader_ne_nil, hlen⟩

theorem word_of_storesAndLoads (h : file.RoundTrips app out) :
    ∃ v, FileRestored out file.written v ∧
      checkFeatureFlagsCompat file.written.dentryDiskData.dentryFeatureFlags.toUInt32
        getSupportedDentryFeatureFlags.toUInt32 ∧
      ((out.setHeader file.written.dentryDiskData.dentryFeatureFlags
        file.written.dentryDiskData.entryType).bodyGrammar app
        file.written.dentryFormatVersion).Word
        (.object v) (if file.data.inodeData.origFeature = .true then
        file.written.encodeV6 file.pattern
          else file.written.encodeV4 file.pattern) := by
  rw [RoundTrips, serializeFileInode_eq] at h
  obtain ⟨v, hword, hrestored⟩ := h.exists_word file.encodes_encode (valid_encode hlen)
    (parses_file app out)
  exact ⟨v, hrestored, (dentry_word_iff (valid_encode hlen)).mp hword⟩

theorem iff_of_compat
    (h : checkFeatureFlagsCompat file.written.dentryDiskData.dentryFeatureFlags.toUInt32
        getSupportedDentryFeatureFlags.toUInt32 →
      (file.RoundTrips app out ↔ file.Restorable out)) :
    file.RoundTrips app out ↔ file.Restorable out := by
  by_cases hcompat : checkFeatureFlagsCompat file.written.dentryDiskData.dentryFeatureFlags.toUInt32
    getSupportedDentryFeatureFlags.toUInt32
  · exact h hcompat
  · refine iff_of_false (fun h => ?_) fun h => hcompat (flagsStorable_written.mpr h.flags).compat
    obtain ⟨-, -, hflags, -⟩ := word_of_storesAndLoads hlen h
    exact hcompat hflags

end

/-- In version 6 a pattern without a pool is read with the pool 0. -/
theorem v6_iff (horig : file.data.inodeData.origFeature = .true)
    (hlen : file.encode.length < 4294967296) :
    file.RoundTrips app out ↔ file.Restorable out := by
  have huid : (if file.written.inodeData.inodeFeatureFlags &&& hasOrigUID ≠ 0 then
        file.written.inodeData.origParentUID
      else file.written.inodeData.inodeStatData.settableFileAttribs.userID) =
      file.data.inodeData.origParentUID := by
    rw [written_inodeData]
    split_ifs with hzero
    · rfl
    · exact file.origUID (not_not.mp hzero)
  have hparent : file.data.inodeData.inodeFeatureFlags &&& hasOrigParentID ≠ 0 →
      (if file.written.inodeData.inodeFeatureFlags &&& hasOrigParentID ≠ 0 then
        file.written.inodeData.origParentEntryID else out.inodeData.origParentEntryID) =
      file.data.inodeData.origParentEntryID := by
    intro hflag
    rw [written_inodeData, if_pos hflag]
  refine iff_of_compat hlen fun hcompat => ?_
  have hcodes : Codes file.serializer (out.dentryGrammar app)
      (.object ((file.written.loadedV6 (out.setHeader file.written.dentryDiskData.dentryFeatureFlags
        file.written.dentryDiskData.entryType) file.pattern.received).setOwner app .true))
      file.encode := by
    refine (codes_serializeDentryHeader hcompat).bind ?_
    rw [file.written_version, if_pos horig, if_pos horig, if_pos horig]
    exact (codes_serializeDentryV6 (compat_true horig) file.written_notMirrored).map _
  rw [RoundTrips, serializeFileInode_eq,
    storesAndLoads_iff hcodes (valid_encode hlen) (parses_file app out)]
  refine Iff.trans (restored_withPattern_iff hcompat (by rfl) (by rfl) (by rfl) (by rfl)
    horig.symm ?_ (by exact hparent)) ?_
  · rw [if_pos horig, ← written_inodeData]
    rfl
  rw [file.pattern.stripePatternEquals_received]
  constructor
  · rintro ⟨hflags, hid, hversions, hpool, -⟩
    refine ⟨hflags, hid, hversions, iff_of_true hpool horig, fun hfalse => ?_⟩
    rw [horig] at hfalse
    cases hfalse
  · intro h
    exact ⟨h.flags, h.entryID, h.hasVersions, h.pool.mpr horig, huid⟩

/-- In version 4 there must be no pool, and the orig. user is that of the object read into. -/
theorem v4_poolless_iff (horig : file.data.inodeData.origFeature = .false)
    (hpool : file.pattern.header.hasPoolId = false) (hlen : file.encode.length < 4294967296) :
    file.RoundTrips app out ↔ file.Restorable out := by
  have hfalse : ¬file.data.inodeData.origFeature = .true := by
    rw [horig]
    exact nofun
  refine iff_of_compat hlen fun hcompat => ?_
  have hcodes : Codes file.serializer (out.dentryGrammar app)
      (.object ((file.written.loadedV4 (out.setHeader file.written.dentryDiskData.dentryFeatureFlags
        file.written.dentryDiskData.entryType) (readPattern false file.pattern)).setOwner app
        .false))
      file.encode := by
    refine (codes_serializeDentryHeader hcompat).bind ?_
    rw [file.written_version, if_neg hfalse, if_neg hfalse, if_neg hfalse]
    exact (codes_serializeDentryV4 hpool (compat_false hfalse) file.written_notMirrored).map _
  have hparent : file.data.inodeData.inodeFeatureFlags &&& hasOrigParentID ≠ 0 →
      out.inodeData.origParentEntryID = file.data.inodeData.origParentEntryID := by
    intro hflag
    rw [← written_inodeData] at hflag
    exact (hflag (Flags.and_eq_zero_of_unsupported (compat_false hfalse) (by decide))).elim
  rw [RoundTrips, serializeFileInode_eq,
    storesAndLoads_iff hcodes (valid_encode hlen) (parses_file app out)]
  refine Iff.trans (restored_withPattern_iff hcompat (by rfl) (by rfl) (by rfl) (by rfl)
    horig.symm ?_ (by exact hparent)) ?_
  · rw [if_neg hfalse, ← written_inodeData]
    rfl
  have hequals : file.pattern.stripePatternEquals (readPattern false file.pattern) :=
    file.pattern.stripePatternEquals_poolless hpool
  constructor
  · rintro ⟨hflags, hid, hversions, -, huid⟩
    refine ⟨hflags, hid, hversions, iff_of_false (by simp [hpool]) hfalse, fun _ => huid⟩
  · intro h
    exact ⟨h.flags, h.entryID, h.hasVersions, hequals, h.origParentUID horig⟩

end StoredFile

/-! ## Version 4 with a storage pool -/

theorem storedSize_of_patternEquals {content content' : Transport.Content}
    (h : content.patternEquals content') : content.storedSize = content'.storedSize := by
  cases content <;> cases content' <;>
    simp only [patternEquals, decide_eq_true_eq, Bool.false_eq_true] at h
  · rw [storedSize, storedSize, h.2]
  · rw [storedSize, storedSize, h.2.1, h.2.2]
  · rw [storedSize, storedSize, h.2]

namespace DiskMetaData

variable {data out v : DiskMetaData} {p : Transport.StripePattern}

theorem length_encodeVersion : data.encodeVersion.length =
    if data.inodeData.inodeFeatureFlags &&& FileInodeFeature.hasVersions ≠ 0 then 8 else 0 := by
  rw [encodeVersion]
  split
  · exact LittleEndian.length_bytes ..
  · rfl

theorem length_version (h : (out.versionGrammar pattern).Word (.object v) bytes) :
    v.inodeData.stripePattern = pattern ∧ bytes.length =
      if out.inodeData.inodeFeatureFlags &&& FileInodeFeature.hasVersions ≠ 0 then 8 else 0 := by
  obtain ⟨version, b, _, hversion, ⟨hobject, rfl⟩, rfl⟩ := h
  cases hobject
  refine ⟨rfl, ?_⟩
  rw [List.append_nil]
  rw [Grammar.readIf] at hversion
  split at hversion
  · rw [if_pos ‹_›]
    exact hversion.1
  · rw [if_neg ‹_›, hversion.2]
    rfl

/-- The pool is two bytes too many. -/
theorem not_pattern_pooled (hpool : p.header.hasPoolId) (hlen : p.encode.length < 4294967296)
    (hflags : out.inodeData.inodeFeatureFlags = data.inodeData.inodeFeatureFlags)
    (hequals : ∃ q, v.inodeData.stripePattern = some q ∧ p.stripePatternEquals q) :
    ¬(out.patternGrammar false).Word (.object v) (p.encode ++ data.encodeVersion) := by
  rintro ⟨result, b, b', hresult, hrest, heq⟩
  cases result with
  | nullDereferenced => cases hrest.1
  | null => exact hresult.elim
  | pattern q =>
    obtain ⟨hq, hversion⟩ := length_version hrest
    have hb : b.length = 12 + q.content.storedSize :=
      Transport.StripePattern.length_grammar_poolless hresult
    have hp := p.length_encode_pooled hpool hlen
    have hsize : p.content.storedSize = q.content.storedSize := by
      obtain ⟨q', hq', hequals⟩ := hequals
      cases hq'.symm.trans hq
      simp only [Transport.StripePattern.stripePatternEquals, decide_eq_true_eq] at hequals
      exact storedSize_of_patternEquals hequals.2.2.2
    have hlengths := congrArg List.length heq
    rw [List.length_append, List.length_append, length_encodeVersion, hversion, hflags] at hlengths
    omega

theorem codes_fieldsV4 (hmirrored : data.inodeData.inodeFeatureFlags &&& mirrored = 0) :
    Codes (do
        Writer.skip 4
        data.inodeData.inodeStatData.serializeAs .dentryV4
        Writer.write stringAlign4 data.dentryDiskData.entryID)
      (out.fieldsV4Grammar data.inodeData.inodeFeatureFlags)
      { out.setEntryID data.dentryDiskData.entryID with
        inodeData.inodeFeatureFlags := data.inodeData.inodeFeatureFlags
        inodeData.inodeStatData :=
          data.inodeData.inodeStatData.storedInto .dentryV4 out.inodeData.inodeStatData }
      (List.replicate 4 0 ++ (data.inodeData.inodeStatData.encode .dentryV4 ++
        encodeString 4 data.dentryDiskData.entryID)) := by
  rw [fieldsV4Grammar]
  simp only [pure_bind, readIf_mirrored hmirrored, Flags.and_not_eq_self_iff.mpr hmirrored]
  exact (Codes.skip 4).bind <| (StatData.codes_serializeAs ..).bind <| (codes_string _).map _

theorem not_inodeV4_pooled (hpool : p.header.hasPoolId) (hvalid : Valid (data.encodeV4 p))
    (hcompat : checkFeatureFlagsCompat data.inodeData.inodeFeatureFlags
      getSupportedDentryV4FileInodeFeatureFlags)
    (hmirrored : data.inodeData.inodeFeatureFlags &&& mirrored = 0)
    (hequals : ∃ q, v.inodeData.stripePattern = some q ∧ p.stripePatternEquals q) :
    ¬out.inodeV4Grammar.Word (.object v) (data.encodeV4 p) := by
  have hbytes : data.encodeV4 p = encodeInt 4 UInt32.toNat data.inodeData.inodeFeatureFlags ++
      ((List.replicate 4 0 ++ (data.inodeData.inodeStatData.encode .dentryV4 ++
        encodeString 4 data.dentryDiskData.entryID)) ++ (p.encode ++ data.encodeVersion)) := by
    simp only [encodeV4, List.append_assoc]
  rw [hbytes] at hvalid ⊢
  have hfields := valid_of_append hvalid (List.append_ne_nil_of_right_ne_nil _
    (List.append_ne_nil_of_left_ne_nil p.encode_ne_nil _))
  have hlen := hfields.length_lt
  have htail := @List.length_append _ p.encode data.encodeVersion
  rw [List.length_append] at hlen
  rw [inodeV4Grammar, inodeGrammar, Parses.uint32.word_bind_iff (word_uint32 _) hvalid,
    if_pos hcompat, (parses_deserializeDentryV4Fields out _).word_bind_iff
      ((codes_fieldsV4 hmirrored).word (by omega)) hfields]
  exact not_pattern_pooled hpool (by omega) rfl hequals

end DiskMetaData

namespace StoredFile

variable {file : StoredFile}

theorem not_v4_pooled (horig : ¬file.data.inodeData.origFeature = .true)
    (hpool : file.pattern.header.hasPoolId) (hlen : file.encode.length < 4294967296) :
    ¬file.RoundTrips app out := by
  intro h
  obtain ⟨v, hrestored, -, hword⟩ := word_of_storesAndLoads hlen h
  have hvalid := valid_encode hlen
  rw [encode, if_neg horig] at hvalid
  have hvalid := valid_of_append hvalid encodeInt_append_ne_nil
  rw [file.written_version, if_neg horig, if_neg horig] at hword
  obtain ⟨result, b, _, hinode, ⟨hobject, rfl⟩, heq⟩ := hword
  rw [List.append_nil] at heq
  cases result with
  | nullDereferenced => cases hobject
  | object v' =>
    cases hobject
    obtain ⟨p, q, hp, hq, hequals⟩ := hrestored.stripePattern
    rw [written_inodeData, file.pattern_eq] at hp
    cases hp
    have hq : v'.inodeData.stripePattern = some q := hq
    subst heq
    exact not_inodeV4_pooled hpool hvalid (compat_false horig) file.written_notMirrored
      ⟨q, hq, hequals⟩ hinode

theorem file_iff (hlen : file.encode.length < 4294967296) :
    file.RoundTrips app out ↔ file.Restorable out := by
  cases horig : file.data.inodeData.origFeature with
  | unset => exact (file.origFeature_ne horig).elim
  | true => exact v6_iff horig hlen
  | false =>
    have hfalse : ¬file.data.inodeData.origFeature = .true := by
      rw [horig]
      exact nofun
    cases hpool : file.pattern.header.hasPoolId with
    | false => exact v4_poolless_iff horig hpool hlen
    | true => exact iff_of_false (not_v4_pooled hfalse hpool hlen) fun h => hfalse (h.pool.mp hpool)

end StoredFile

open StoredFile

theorem disk_roundTrip_iff (app : App) (file : StoredFile) (hfile : file.encode.length < 4294967296)
    (inode : DirInode)
    (hinode : ∀ p, inode.stripePattern = some p → (inode.written.encode p).length < 4294967296)
    (dentry : DiskMetaData) (hdir : dentry.dentryDiskData.entryType = directory)
    (hdentry : dentry.written.encodeDirDentry.length < 4294967296) (out : DiskMetaData)
    (outInode : DirInode) :
    (StoresAndLoads file.data.serializeFileInode (out.deserializeFileInode app) (FileRestored out) ↔
      file.Restorable out) ∧
    (StoresAndLoads inode.serializeDirInode outInode.deserializeDirInode
    (DirInode.Restored outInode) ↔
      inode.FlagsStorable ∧ ∃ p, inode.stripePattern = some p ∧ p.header.hasPoolId) ∧
    (StoresAndLoads dentry.serializeDentry (out.deserializeDentry app) DiskMetaData.DentryRestored ↔
      dentry.FlagsStorable) :=
  ⟨file_iff hfile, DirInode.dirInode_iff hinode, dirDentry_iff hdir hdentry app out⟩

/-! ## Objects -/

section
open Transport.StripePattern

/-- A regular file that belongs to the user 5. -/
def sampleStatData : StatData := ⟨0, 7, 1, 2, 1, ⟨0o100644, 5, 5, 3, 4⟩, 0, []⟩

def sampleFlags (hasVersions : Bool) :
    UInt32 := if hasVersions then FileInodeFeature.hasVersions else 0

def sampleFeature (newer : Bool) : FileInodeOrigFeature := if newer then .true else .false

theorem sampleFlags_compat : ∀ newer hasVersions, checkFeatureFlagsCompat (sampleFlags hasVersions)
    (if sampleFeature newer = .true then getSupportedDentryV5FileInodeFeatureFlags
      else getSupportedDentryV4FileInodeFeatureFlags) := by
  decide

theorem sampleFlags_notMirrored : ∀ hasVersions, sampleFlags hasVersions &&& mirrored = 0 := by
  decide

theorem sampleFeature_ne : ∀ newer, sampleFeature newer ≠ .unset := by
  decide

variable (pattern : Transport.StripePattern)

def sampleFile (newer hasVersions : Bool) : StoredFile where
  data := ⟨⟨[65], .regularFile, 0, 0⟩, ⟨sampleFlags hasVersions, sampleStatData, [65], some pattern,
    sampleFeature newer, 5, [], 3⟩⟩
  pattern := pattern
  pattern_eq := rfl
  notDirectory := (by decide : regularFile ≠ directory)
  origFeature_ne := sampleFeature_ne newer
  compat := sampleFlags_compat newer hasVersions
  notMirrored := sampleFlags_notMirrored hasVersions
  origUID _ := rfl

def pooled : Transport.StripePattern := construct 524288 (some 7) (.raid0 4 [1, 2])

def poolless : Transport.StripePattern := construct 524288 none (.raid0 4 [1, 2])

def sampleDir : DirInode :=
  ⟨[66], 1, some pattern, [67], 1, 0, sampleStatData, 0, 1⟩

def sampleDentry : DiskMetaData :=
  { blankData with dentryDiskData := ⟨[66], .directory, 1, 0⟩ }

end

theorem disk_roundTrip_pooled :
    StoresAndLoads (sampleFile pooled true true).data.serializeFileInode
        (blankData.deserializeFileInode ⟨1, 1⟩) (FileRestored blankData) ∧
      StoresAndLoads (sampleDir pooled).serializeDirInode blankDirInode.deserializeDirInode
        (DirInode.Restored blankDirInode) ∧
      StoresAndLoads sampleDentry.serializeDentry (blankData.deserializeDentry ⟨1, 1⟩)
        DiskMetaData.DentryRestored := by
  have hdir : ∀ p, (sampleDir pooled).stripePattern = some p →
      ((sampleDir pooled).written.encode p).length < 4294967296 := by
    rintro p ⟨⟩
    decide
  obtain ⟨hfile, hinode, hdentry⟩ := disk_roundTrip_iff ⟨1, 1⟩ (sampleFile pooled true true)
    (by decide +kernel) (sampleDir pooled) hdir sampleDentry rfl (by decide) blankData blankDirInode
  refine ⟨hfile.mpr ?_, hinode.mpr ?_, hdentry.mpr ?_⟩
  · exact ⟨⟨by decide, by decide⟩, rfl, by decide, by decide, nofun⟩
  · exact ⟨⟨by decide, by decide⟩, pooled, rfl, rfl⟩
  · exact ⟨by decide, by decide⟩

/-- A pool in the older format, after which nothing is read any more, and the orig. user in it; no
pool in the newer one, and a version that is not stored; a directory without a pool. -/
theorem disk_roundTrip_lost :
    (¬StoresAndLoads (sampleFile pooled false true).data.serializeFileInode
        (blankData.deserializeFileInode ⟨1, 1⟩) (FileRestored blankData) ∧
      (blankData.deserializeFileInode ⟨1, 1⟩
        (.ofBuffer (sampleFile pooled false true).encode)).2.good = false) ∧
      ¬StoresAndLoads (sampleFile poolless false true).data.serializeFileInode
        (blankData.deserializeFileInode ⟨1, 1⟩) (FileRestored blankData) ∧
      ¬StoresAndLoads (sampleFile poolless true true).data.serializeFileInode
        (blankData.deserializeFileInode ⟨1, 1⟩) (FileRestored blankData) ∧
      ¬StoresAndLoads (sampleFile pooled true false).data.serializeFileInode
        (blankData.deserializeFileInode ⟨1, 1⟩) (FileRestored blankData) ∧
      ¬StoresAndLoads (sampleDir poolless).serializeDirInode blankDirInode.deserializeDirInode
        (DirInode.Restored blankDirInode) := by
  have hdir : ∀ p, (sampleDir poolless).stripePattern = some p →
      ((sampleDir poolless).written.encode p).length < 4294967296 := by
    rintro p ⟨⟩
    decide
  refine ⟨⟨fun h => ?_, by decide +kernel⟩, fun h => ?_, fun h => ?_, fun h => ?_, fun h => ?_⟩
  · have hrestorable := (file_iff (by decide +kernel)).mp h
    exact absurd (hrestorable.pool.mp rfl) (by decide)
  · have hrestorable := (file_iff (by decide +kernel)).mp h
    exact absurd (hrestorable.origParentUID rfl) (by decide)
  · have hrestorable := (file_iff (by decide +kernel)).mp h
    exact absurd (hrestorable.pool.mpr rfl) (by decide)
  · have hrestorable := (file_iff (by decide +kernel)).mp h
    exact absurd rfl hrestorable.hasVersions
  · obtain ⟨-, p, hp, hpool⟩ := (DirInode.dirInode_iff hdir).mp h
    cases hp
    cases hpool

end Congfs.Metadata
