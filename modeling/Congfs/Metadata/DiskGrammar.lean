import Congfs.Metadata.DiskFormat
import Congfs.Striping.TransportGrammar

/-!
# The words that are read as metadata

The grammars of dentries, file inodes and directory inodes. A word stands for the object that is
read into `out`: what is not stored is that of `out`.
-/

namespace Congfs.Metadata

open Serialization Grammar FileInodeFeature Transport.StripePattern DiskMetaData
open Transport
open Parses

/-! ## Stat data -/

def blocksGrammar : Grammar (List UInt64) := list true uint64

theorem parses_blocks : Parses (Reader.read blocksVec) blocksGrammar := by
  refine uint64.list ?_ true
  rintro v _ ⟨hlen, -⟩ rfl
  cases hlen

namespace StatData

def grammar (format : StatDataFormat) (out : StatData) : Grammar StatData := do
  let flags ← readIf (format.hasFlags) uint32 out.flags
  let mode ← readIf (format.hasFlags) int32 out.settableFileAttribs.mode
  let chunkBlocksVec ← readIf (format.hasFlags ∧ { out with flags := flags }.getIsSparseFile)
    blocksGrammar out.chunkBlocksVec
  let creationTimeSecs ← int64
  let lastAccessTimeSecs ← int64
  let modificationTimeSecs ← int64
  let attribChangeTimeSecs ← int64
  let fileSize ← readIf (format.isDir = false) int64 out.fileSize
  let nlink ← readIf (format.isDir = false) uint32 out.nlink
  let contentsVersion ← readIf (format.isDir = false) uint32 out.contentsVersion
  let userID ← uint32
  let groupID ← uint32
  let mode ← readIf (format.hasFlags = false) int32 mode
  return ⟨flags, fileSize, creationTimeSecs, attribChangeTimeSecs, nlink,
    ⟨mode, userID, groupID, modificationTimeSecs, lastAccessTimeSecs⟩, contentsVersion,
    chunkBlocksVec⟩

theorem parses_deserializeAs : Parses (deserializeAs format out) (grammar format out) := by
  refine (Parses.uint32.readIf _).bind fun flags => (Parses.int32.readIf _).bind fun mode =>
    (parses_blocks.readIf _).bind fun chunkBlocksVec => ?_
  refine int64.bind fun creationTimeSecs => int64.bind fun lastAccessTimeSecs =>
    int64.bind fun modificationTimeSecs => int64.bind fun attribChangeTimeSecs => ?_
  refine (Parses.int64.readIf _).bind fun fileSize => (Parses.uint32.readIf _).bind fun nlink =>
    (Parses.uint32.readIf _).bind fun contentsVersion => ?_
  exact uint32.bind fun userID => uint32.bind fun groupID =>
    (Parses.int32.readIf _).bind fun mode => pure _

end StatData

/-! ## Dentries and file inodes -/

namespace DiskMetaData

theorem parses_stringAlign4 : Parses (Reader.read stringAlign4) (string 4) := Parses.string 4

def nodeIDGrammar (long : Prop) [Decidable long] : Grammar UInt32 :=
  if long then uint32
  else do
    let nodeID ← uint16
    return nodeID.toUInt32

theorem parses_readNodeID [Decidable long] : Parses (readNodeID long) (nodeIDGrammar long) :=
  ite (fun _ => uint32) fun _ => uint16.bind fun _ => pure _

variable (out : DiskMetaData)

def dentryV3Grammar : Grammar DiskMetaData := do
  let entryID ← string 4
  let ownerNodeID ← nodeIDGrammar (out.dentryDiskData.dentryFeatureFlags &&&
    DentryFeature.ids32Bit ≠ 0)
  return { out.setEntryID entryID with dentryDiskData.ownerNodeID := ownerNodeID }

theorem parses_deserializeDentryV3 : Parses out.deserializeDentryV3 out.dentryV3Grammar :=
  parses_stringAlign4.bind fun _ => parses_readNodeID.bind fun _ => pure _

variable (inodeFeatureFlags : UInt32)

/-- The fields of version 4 in front of the pattern. -/
def fieldsV4Grammar : Grammar DiskMetaData := do
  unused 4
  let statData ← out.inodeData.inodeStatData.grammar .dentryV4
  let entryID ← string 4
  let _ ← readIf (inodeFeatureFlags &&& mirrored ≠ 0) uint16 0
  return { out.setEntryID entryID with
    inodeData.inodeFeatureFlags := inodeFeatureFlags &&& ~~~mirrored
    inodeData.inodeStatData := statData }

theorem parses_deserializeDentryV4Fields :
    Parses (out.deserializeDentryV4Fields inodeFeatureFlags)
    (out.fieldsV4Grammar inodeFeatureFlags) :=
  (skip 4).bind fun _ => StatData.parses_deserializeAs.bind fun _ =>
    parses_stringAlign4.bind fun _ => (uint16.readIf 0).bind fun _ => pure _

/-- The fields of the versions 5 and 6 in front of the pattern. -/
def fieldsV5V6Grammar : Grammar DiskMetaData := do
  unused 4
  let statData ← out.inodeData.inodeStatData.grammar .fileInode
  let origParentUID ← readIf (inodeFeatureFlags &&& hasOrigUID ≠ 0)
    uint32 statData.settableFileAttribs.userID
  let origParentEntryID ← readIf (inodeFeatureFlags &&& hasOrigParentID ≠ 0)
    (string 4) out.inodeData.origParentEntryID
  let entryID ← string 4
  let _ ← readIf (inodeFeatureFlags &&& mirrored ≠ 0) uint16 0
  return { out.setEntryID entryID with
    inodeData.inodeFeatureFlags := inodeFeatureFlags &&& ~~~mirrored
    inodeData.inodeStatData := statData
    inodeData.origParentUID := origParentUID
    inodeData.origParentEntryID := origParentEntryID }

theorem parses_deserializeDentryV5V6Fields :
    Parses (out.deserializeDentryV5V6Fields inodeFeatureFlags)
      (out.fieldsV5V6Grammar inodeFeatureFlags) := by
  refine (skip 4).bind fun _ => StatData.parses_deserializeAs.bind fun statData => ?_
  exact (Parses.uint32.readIf _).bind fun _ => (parses_stringAlign4.readIf _).bind fun _ =>
    parses_stringAlign4.bind fun _ => (uint16.readIf 0).bind fun _ => pure _

def versionGrammar (pattern : Option Transport.StripePattern) : Grammar (Decoded DiskMetaData) := do
  let inodeFeatureFlags := out.inodeData.inodeFeatureFlags
  let version ← readIf (inodeFeatureFlags &&& hasVersions ≠ 0) uint64
    out.inodeData.version
  return .object { out with
    inodeData.stripePattern := pattern
    inodeData.version := version
    inodeData.inodeFeatureFlags := inodeFeatureFlags ||| hasVersions }

def patternGrammar (hasPoolId : Bool) : Grammar (Decoded DiskMetaData) := do
  let pattern ← results hasPoolId
  match pattern with
  | .nullDereferenced => return .nullDereferenced
  | .null => out.versionGrammar none
  | .pattern pattern => out.versionGrammar (some pattern)

theorem parses_deserializePattern (hasPoolId : Bool) :
    Parses (out.deserializePattern hasPoolId) (out.patternGrammar hasPoolId) := by
  have hversion : ∀ pattern, Parses (deserializePattern.setPattern out pattern)
      (out.versionGrammar pattern) :=
    fun pattern => (Parses.uint64.readIf _).bind fun _ => pure _
  refine (parses_deserialize hasPoolId).bind fun pattern => ?_
  cases pattern with
  | nullDereferenced => exact pure _
  | null => exact hversion none
  | pattern pattern => exact hversion (some pattern)

/-- What the versions with an inode have in common: the flags, the fields and the pattern. -/
def inodeGrammar (supported : UInt32) (fields : UInt32 → Grammar DiskMetaData) (hasPoolId : Bool) :
    Grammar (Decoded DiskMetaData) := do
  let inodeFeatureFlags ← uint32
  if checkFeatureFlagsCompat inodeFeatureFlags supported then do
    let out ← fields inodeFeatureFlags
    out.patternGrammar hasPoolId
  else empty

def inodeV4Grammar : Grammar (Decoded DiskMetaData) :=
  inodeGrammar getSupportedDentryV4FileInodeFeatureFlags out.fieldsV4Grammar false

def inodeV5V6Grammar (hasStoragePool : Bool) : Grammar (Decoded DiskMetaData) :=
  inodeGrammar getSupportedDentryV5FileInodeFeatureFlags out.fieldsV5V6Grammar hasStoragePool

theorem parses_deserializeDentryV4 : Parses out.deserializeDentryV4 out.inodeV4Grammar := by
  refine uint32.bind fun inodeFeatureFlags => returnIfBad ?_ _
  refine ite (fun _ => ?_) fun _ => fail _
  exact (parses_deserializeDentryV4Fields out inodeFeatureFlags).bind fun out =>
    parses_deserializePattern out false

theorem parses_deserializeDentryV5V6 (hasPool : Bool) :
    Parses (out.deserializeDentryV5V6 hasPool) (out.inodeV5V6Grammar hasPool) := by
  refine uint32.bind fun inodeFeatureFlags => returnIfBad ?_ _
  refine ite (fun _ => ?_) fun _ => fail _
  exact (parses_deserializeDentryV5V6Fields out inodeFeatureFlags).bind fun out =>
    parses_deserializePattern out hasPool

variable (app : App)

/-- Nothing is read any more. -/
def finished (origFeature : FileInodeOrigFeature)
    (finish : DiskMetaData → Decoded DiskMetaData) : Decoded DiskMetaData → Decoded DiskMetaData
  | .nullDereferenced => .nullDereferenced
  | .object out => finish (out.setOwner app origFeature)

theorem parses_finishInode :
    Parses (finishInode app origFeature finish result)
    (pure (finished app origFeature finish result)) := by
  cases result with
  | nullDereferenced => exact pure _
  | object out => exact (pure _).returnIfBad _

variable (out : DiskMetaData)

def bodyGrammar (formatVersion : UInt8) : Grammar (Decoded DiskMetaData) :=
  if formatVersion = 3 then do
    let out ← out.dentryV3Grammar
    return .object out
  else if formatVersion = 4 then do
    let result ← out.inodeV4Grammar
    return finished app .false .object result
  else if formatVersion = 5 then do
    let result ← out.inodeV5V6Grammar false
    return finished app .true upgradeToV6 result
  else if formatVersion = 6 then do
    let result ← out.inodeV5V6Grammar true
    return finished app .true .object result
  else empty

theorem parses_deserializeDentryVersion (version : UInt8) :
    Parses (out.deserializeDentryVersion app version) (out.bodyGrammar app version) := by
  refine ite (fun _ => ?_) fun _ => ite (fun _ => ?_) fun _ =>
    ite (fun _ => ?_) fun _ => ite (fun _ => ?_) fun _ => fail _
  · exact (parses_deserializeDentryV3 out).bind fun out => pure _
  · exact (parses_deserializeDentryV4 out).bind fun result => parses_finishInode ..
  · exact (parses_deserializeDentryV5V6 out false).bind fun result => parses_finishInode ..
  · exact (parses_deserializeDentryV5V6 out true).bind fun result => parses_finishInode ..

def setHeader (dentryFeatureFlags : UInt16) (entryType : DirEntryType) : DiskMetaData :=
  { out with
    dentryDiskData.dentryFeatureFlags := dentryFeatureFlags &&& ~~~DentryFeature.mirrored
    dentryDiskData.entryType := entryType }

/-- The eight bytes in front of everything: the version, and the object with what was read. -/
def headerGrammar : Grammar (UInt8 × DiskMetaData) := do
  let _ ← uint8
  let formatVersion ← uint8
  let dentryFeatureFlags ← uint16
  if checkFeatureFlagsCompat dentryFeatureFlags.toUInt32
    getSupportedDentryFeatureFlags.toUInt32 then do
    let entryType ← uint8
    unused 3
    return (formatVersion, out.setHeader dentryFeatureFlags entryType)
  else empty

def dentryGrammar : Grammar (Decoded DiskMetaData) := do
  let header ← out.headerGrammar
  header.2.bodyGrammar app header.1

/-- With or without the old mirror, these are three bytes. -/
theorem parses_skipHeaderEnd (mirrored : Prop) [Decidable mirrored] :
    Parses (skipHeaderEnd mirrored) (unused 3) := by
  rw [skipHeaderEnd]
  split
  · refine (uint16.bind fun _ => skip 1).congr fun _ bytes => ?_
    constructor
    · rintro ⟨v, b, b', ⟨hb, -⟩, hb', rfl⟩
      have hlen : b'.length = 1 := hb'
      exact (List.length_append ..).trans (by rw [hb, hlen])
    · intro hlen
      refine ⟨_, bytes.take 2, bytes.drop 2, ⟨?_, rfl⟩, ?_, (List.take_append_drop ..).symm⟩
      · rw [List.length_take, hlen]
        rfl
      · exact (List.length_drop ..).trans (by rw [hlen])
  · exact skip 3

theorem dentryGrammar_eq : out.dentryGrammar app = (do
      let _ ← uint8
      let version ← uint8
      let flags ← uint16
      if checkFeatureFlagsCompat flags.toUInt32 getSupportedDentryFeatureFlags.toUInt32 then do
        let entryType ← uint8
        unused 3
        (out.setHeader flags entryType).bodyGrammar app version
      else empty) := by
  simp only [dentryGrammar, headerGrammar, bind_assoc, pure_bind, ite_empty_bind]

theorem parses_deserializeDentry : Parses (out.deserializeDentry app) (out.dentryGrammar app) := by
  rw [dentryGrammar_eq]
  refine uint8.bind fun _ => uint8.bind fun version =>
    uint16.bind fun flags => returnIfBad ?_ _
  refine ite (fun _ => ?_) fun _ => fail _
  exact uint8.bind fun entryType => (parses_skipHeaderEnd _).bind fun _ =>
    parses_deserializeDentryVersion app (out.setHeader flags entryType) version

end DiskMetaData

/-! ## Directory inodes -/

namespace DirInode

variable (out : DirInode)

def commonDataGrammar : Grammar DirInode := do
  let early := out.featureFlags &&& DirInodeFeature.earlySubdirs ≠ 0
  let numSubdirs ← readIf early uint32 out.numSubdirs
  let statData ← out.statData.grammar
    (if out.featureFlags &&& DirInodeFeature.statFlags ≠ 0 then .dirInode else .dirInodeNoFlags)
  let numSubdirs ← readIf (¬early) uint32 numSubdirs
  let numFiles ← uint32
  let id ← string 4
  let parentDirID ← string 4
  return { out with
    numSubdirs := numSubdirs, statData := statData, numFiles := numFiles, id := id
    parentDirID := parentDirID }

theorem parses_deserializeDirInodeCommonData :
    Parses out.deserializeDirInodeCommonData out.commonDataGrammar := by
  refine (Parses.uint32.readIf _).bind fun _ => StatData.parses_deserializeAs.bind fun _ =>
    (Parses.uint32.readIf _).bind fun _ => ?_
  exact uint32.bind fun _ => (Parses.string 4).bind fun _ => (Parses.string 4).bind fun _ =>
    pure _

def nodesGrammar (long : Prop) [Decidable long] : Grammar DirInode := do
  let ownerNodeID ← nodeIDGrammar long
  let parentNodeID ← nodeIDGrammar long
  let _ ← readIf (out.featureFlags &&& DirInodeFeature.mirrored ≠ 0) uint16 0
  return { out with
    ownerNodeID := ownerNodeID, parentNodeID := parentNodeID
    featureFlags := out.featureFlags &&& ~~~DirInodeFeature.mirrored }

theorem parses_deserializeNodes [Decidable long] :
    Parses (out.deserializeNodes long) (out.nodesGrammar long) :=
  parses_readNodeID.bind fun _ => parses_readNodeID.bind fun _ =>
    (uint16.readIf 0).bind fun _ => pure _

/-- Everything in front of the pattern: the version, and the object with what was read. -/
def fieldsGrammar : Grammar (UInt8 × DirInode) := do
  let metaDataType ← uint8
  if metaDataType = dirInode then do
    let formatVersion ← uint8
    let featureFlags ← uint16
    if checkFeatureFlagsCompat featureFlags.toUInt32
      getSupportedDirInodeFeatureFlags.toUInt32 then do
      let out ← { out with featureFlags := featureFlags }.commonDataGrammar
      if formatVersion = 1 ∨ formatVersion = 2 ∨ formatVersion = 3 then do
        let out ← out.nodesGrammar (formatVersion ≠ 1)
        return (formatVersion, out)
      else empty
    else empty
  else empty

def dirInodeGrammar : Grammar (Decoded DirInode) := do
  let fields ← out.fieldsGrammar
  let pattern ← results (fields.1 = 3)
  return fields.2.setPattern (fields.1 = 3) pattern

def versionedGrammar : Grammar (Decoded DirInode) := do
  let formatVersion ← uint8
  let featureFlags ← uint16
  if checkFeatureFlagsCompat featureFlags.toUInt32 getSupportedDirInodeFeatureFlags.toUInt32 then do
    let out ← { out with featureFlags := featureFlags }.commonDataGrammar
    if formatVersion = 1 ∨ formatVersion = 2 ∨ formatVersion = 3 then do
      let out ← out.nodesGrammar (formatVersion ≠ 1)
      let pattern ← results (formatVersion = 3)
      return out.setPattern (formatVersion = 3) pattern
    else empty
  else empty

theorem dirInodeGrammar_eq : out.dirInodeGrammar = (do
      let metaDataType ← uint8
      if metaDataType = dirInode then out.versionedGrammar else empty) := by
  simp only [dirInodeGrammar, fieldsGrammar, versionedGrammar, bind_assoc, pure_bind,
    ite_empty_bind]

theorem parses_deserializeDirInodeFields :
    Parses out.deserializeDirInodeFields out.versionedGrammar := by
  refine uint8.bind fun version => uint16.bind fun featureFlags =>
    returnIfBad ?_ _
  refine ite (fun _ => ?_) fun _ => fail _
  refine (parses_deserializeDirInodeCommonData _).bind fun out => ?_
  refine ite (fun _ => ?_) fun _ => fail _
  exact (parses_deserializeNodes _).bind fun out =>
    (parses_deserialize _).bind fun pattern => pure _

theorem parses_deserializeDirInode : Parses out.deserializeDirInode out.dirInodeGrammar := by
  rw [dirInodeGrammar_eq]
  exact uint8.bind fun metaDataType => (parses_deserializeDirInodeFields out).failUnless _

end DirInode

end Congfs.Metadata
