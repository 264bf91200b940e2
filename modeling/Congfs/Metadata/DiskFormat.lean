import Congfs.Striping.Transport

/-!
# Metadata on disk

File inodes are stored in the format of dentries, in which they may be inlined. There are five
versions of that format, of which three are written, and three versions of the format of directory
inodes, of which the last is written. Which fields there are depends on the version, on feature
flags and on the type of the entry. A reader sets the fields of an object that is there already, so
that what is not stored keeps its value.

A stripe pattern is a pointer. Whether it is null is not checked when it is used.
-/

namespace Congfs.Metadata

open Format

open Writer
open Reader

/-! ## Stat data -/

structure SettableFileAttribs where
  mode : Int32
  userID : UInt32
  groupID : UInt32
  modificationTimeSecs : Int64
  lastAccessTimeSecs : Int64
  deriving DecidableEq, Repr

structure StatData where
  flags : UInt32
  fileSize : Int64
  creationTimeSecs : Int64
  attribChangeTimeSecs : Int64
  nlink : UInt32
  settableFileAttribs : SettableFileAttribs
  contentsVersion : UInt32
  chunkBlocksVec : List UInt64
  deriving DecidableEq, Repr

/-- The formats on disk; that of the network is not used here. -/
inductive StatDataFormat
  | fileInode
  | dentryV4
  | dirInode
  | dirInodeNoFlags
  deriving DecidableEq, Repr

/-- `StatDataFormat_Flag_HasFlags` -/
def StatDataFormat.hasFlags : StatDataFormat → Bool
  | fileInode | dirInode => true
  | dentryV4 | dirInodeNoFlags => false

/-- `StatDataFormat_Flag_DiskDirInode` -/
def StatDataFormat.isDir : StatDataFormat → Bool
  | dirInode | dirInodeNoFlags => true
  | fileInode | dentryV4 => false

/-- `STATDATA_FEATURE_SPARSE_FILE` -/
def sparseFile : UInt32 := 1

/-- `UInt64Vector` -/
def blocksVec : Format (List UInt64) := list true uint64

namespace StatData

variable (format : StatDataFormat) (statData : StatData)

def getIsSparseFile : Prop := statData.flags &&& sparseFile ≠ 0

instance decidableGetIsSparseFile (statData : StatData) : Decidable statData.getIsSparseFile :=
  inferInstanceAs (Decidable (_ ≠ _))

/-- `serializeFmt`, for a serializer. -/
def serializeAs : StateM Serializer Unit := do
  writeIf (format.hasFlags) uint32 statData.flags
  writeIf (format.hasFlags) int32 statData.settableFileAttribs.mode
  writeIf (format.hasFlags ∧ statData.getIsSparseFile) blocksVec statData.chunkBlocksVec
  write int64 statData.creationTimeSecs
  write int64 statData.settableFileAttribs.lastAccessTimeSecs
  write int64 statData.settableFileAttribs.modificationTimeSecs
  write int64 statData.attribChangeTimeSecs
  writeIf (format.isDir = false) int64 statData.fileSize
  writeIf (format.isDir = false) uint32 statData.nlink
  writeIf (format.isDir = false) uint32 statData.contentsVersion
  write uint32 statData.settableFileAttribs.userID
  write uint32 statData.settableFileAttribs.groupID
  writeIf (format.hasFlags = false) int32 statData.settableFileAttribs.mode

/-- `serializeFmt`, for a deserializer. Whether there are blocks depends on the flags just read. -/
def deserializeAs (out : StatData) : StateM Deserializer StatData := do
  let flags ← readIf (format.hasFlags) uint32 out.flags
  let mode ← readIf (format.hasFlags) int32 out.settableFileAttribs.mode
  let chunkBlocksVec ← readIf (format.hasFlags ∧ { out with flags := flags }.getIsSparseFile)
    blocksVec out.chunkBlocksVec
  let creationTimeSecs ← read int64
  let lastAccessTimeSecs ← read int64
  let modificationTimeSecs ← read int64
  let attribChangeTimeSecs ← read int64
  let fileSize ← readIf (format.isDir = false) int64 out.fileSize
  let nlink ← readIf (format.isDir = false) uint32 out.nlink
  let contentsVersion ← readIf (format.isDir = false) uint32 out.contentsVersion
  let userID ← read uint32
  let groupID ← read uint32
  let mode ← readIf (format.hasFlags = false) int32 mode
  return ⟨flags, fileSize, creationTimeSecs, attribChangeTimeSecs, nlink,
    ⟨mode, userID, groupID, modificationTimeSecs, lastAccessTimeSecs⟩, contentsVersion,
    chunkBlocksVec⟩

end StatData

/-! ## Feature flags -/

namespace DentryFeature

def inodeInline : UInt16 := 1
def isFileInode : UInt16 := 2
def mirrored : UInt16 := 4
def buddyMirrored : UInt16 := 8
def ids32Bit : UInt16 := 16

end DentryFeature

namespace FileInodeFeature

def mirrored : UInt32 := 1
def buddyMirrored : UInt32 := 8
def hasOrigParentID : UInt32 := 16
def hasOrigUID : UInt32 := 32
def hasVersions : UInt32 := 128

end FileInodeFeature

namespace DirInodeFeature

def earlySubdirs : UInt16 := 2
def mirrored : UInt16 := 4
def statFlags : UInt16 := 8
def buddyMirrored : UInt16 := 16

end DirInodeFeature

def getSupportedDentryFeatureFlags : UInt16 :=
  DentryFeature.inodeInline ||| DentryFeature.isFileInode ||| DentryFeature.mirrored |||
    DentryFeature.buddyMirrored ||| DentryFeature.ids32Bit

open FileInodeFeature

def getSupportedDentryV4FileInodeFeatureFlags : UInt32 :=
  mirrored ||| buddyMirrored ||| hasVersions

def getSupportedDentryV5FileInodeFeatureFlags : UInt32 :=
  mirrored ||| buddyMirrored ||| hasOrigParentID ||| hasOrigUID ||| hasVersions

def getSupportedDirInodeFeatureFlags : UInt16 :=
  DirInodeFeature.earlySubdirs ||| DirInodeFeature.mirrored ||| DirInodeFeature.statFlags |||
    DirInodeFeature.buddyMirrored

/-- All flags are `unsigned` here. -/
def checkFeatureFlagsCompat (usedFeatureFlags supportedFeatureFlags : UInt32) : Prop :=
  usedFeatureFlags &&& ~~~supportedFeatureFlags = 0

instance decidableCheckFeatureFlagsCompat (used supported : UInt32) :
    Decidable (checkFeatureFlagsCompat used supported) := inferInstanceAs (Decidable (_ = _))

/-! ## Types of entries -/

/-- `DirEntryType`. Any byte may have been read into it. -/
abbrev DirEntryType := UInt8

namespace DirEntryType

def invalid : DirEntryType := 0
def directory : DirEntryType := 1
def regularFile : DirEntryType := 2
def symlink : DirEntryType := 3
def blockDev : DirEntryType := 4
def charDev : DirEntryType := 5
def fifo : DirEntryType := 6
def socket : DirEntryType := 7

end DirEntryType

/-- The bits of a mode that tell the type of a file. -/
def posixFileTypeToDirEntryType (posixFileMode : UInt32) : DirEntryType :=
  let fileType := posixFileMode &&& 0o170000
  if fileType = 0o040000 then .directory
  else if fileType = 0o100000 then .regularFile
  else if fileType = 0o120000 then .symlink
  else if fileType = 0o060000 then .blockDev
  else if fileType = 0o020000 then .charDev
  else if fileType = 0o010000 then .fifo
  else if fileType = 0o140000 then .socket
  else .invalid

/-- The values of `DiskMetaDataType`. -/
def fileDentry : UInt8 := 1
def dirDentry : UInt8 := 2
def fileInode : UInt8 := 3
def dirInode : UInt8 := 4

/-! ## The objects -/

structure DentryStoreData where
  entryID : List UInt8
  entryType : DirEntryType
  ownerNodeID : UInt32
  dentryFeatureFlags : UInt16

/-- Whether the orig. parent and user are known; it goes with the version of the format. -/
inductive FileInodeOrigFeature
  | unset
  | true
  | false
  deriving DecidableEq, Repr

structure FileInodeStoreData where
  inodeFeatureFlags : UInt32
  inodeStatData : StatData
  entryID : List UInt8
  stripePattern : Option Transport.StripePattern
  origFeature : FileInodeOrigFeature
  origParentUID : UInt32
  origParentEntryID : List UInt8
  version : UInt64

/-- The two objects that are written and read together. -/
structure DiskMetaData where
  dentryDiskData : DentryStoreData
  inodeData : FileInodeStoreData

structure DirInode where
  id : List UInt8
  ownerNodeID : UInt32
  stripePattern : Option Transport.StripePattern
  parentDirID : List UInt8
  parentNodeID : UInt32
  featureFlags : UInt16
  statData : StatData
  numSubdirs : UInt32
  numFiles : UInt32

/-- What a reader takes from the running server: the node and the group of a file it owns. -/
structure App where
  localNodeID : UInt32
  localGroupID : UInt16

/-- What a function ends with that uses a pattern. -/
inductive Decoded (α : Type)
  | object (v : α)
  | nullDereferenced

/-- `serdes::stringAlign4` -/
def stringAlign4 : Format (List UInt8) := string 4

/-- `setStoragePoolId`: the pattern has a pool from now on. -/
def setStoragePoolId (pattern : Transport.StripePattern) (storagePoolId : UInt16) :
    Transport.StripePattern where
  header := { pattern.header with storagePoolId := storagePoolId, hasPoolId := true }
  content := pattern.content
  type_eq := pattern.type_eq
  chunkSize_ne := pattern.chunkSize_ne
  pool_eq h := by cases h

/-- `ser % stripePattern` -/
def writePattern (pattern : Transport.StripePattern) : StateM Serializer Unit :=
  modify pattern.serialize

/-! ## Writing dentries and file inodes

Nothing is written by a writer that would use a null pattern. -/

namespace DiskMetaData

variable (data : DiskMetaData)

def serializeDentryV3 : StateM Serializer Unit := do
  write stringAlign4 data.dentryDiskData.entryID
  write uint32 data.dentryDiskData.ownerNodeID

variable (stripePattern : Transport.StripePattern)

/-- Files without an orig. parent and user. -/
def serializeDentryV4 : StateM Serializer Unit := do
  let inode := data.inodeData
  write uint32 inode.inodeFeatureFlags
  skip 4
  inode.inodeStatData.serializeAs .dentryV4
  write stringAlign4 data.dentryDiskData.entryID
  writePattern stripePattern
  writeIf (inode.inodeFeatureFlags &&& hasVersions ≠ 0) uint64 inode.version

def serializeDentryV6 : StateM Serializer Unit := do
  let inode := data.inodeData
  write uint32 inode.inodeFeatureFlags
  skip 4
  inode.inodeStatData.serializeAs .fileInode
  writeIf (inode.inodeFeatureFlags &&& hasOrigUID ≠ 0) uint32 inode.origParentUID
  writeIf (inode.inodeFeatureFlags &&& hasOrigParentID ≠ 0) stringAlign4 inode.origParentEntryID
  write stringAlign4 data.dentryDiskData.entryID
  writePattern stripePattern
  writeIf (inode.inodeFeatureFlags &&& hasVersions ≠ 0) uint64 inode.version

def addDentryFeatureFlag (flag : UInt16) : DiskMetaData :=
  { data with
    dentryDiskData.dentryFeatureFlags := data.dentryDiskData.dentryFeatureFlags ||| flag }

/-- The version that is written: it goes with the type and the orig. feature. -/
def dentryFormatVersion : UInt8 :=
  if data.dentryDiskData.entryType = DirEntryType.directory then 3
  else if data.inodeData.origFeature = .true then 6
  else 4

/-- The eight bytes all dentries start with. -/
def serializeDentryHeader (metaDataType : UInt8) : StateM Serializer Unit := do
  write uint8 metaDataType
  write uint8 data.dentryFormatVersion
  write uint16 data.dentryDiskData.dentryFeatureFlags
  write uint8 data.dentryDiskData.entryType
  skip 3

/-- The object with its new flags, and what is written. -/
def serializeInDentryFormat (metaDataType : UInt8) :
    Option (DiskMetaData × StateM Serializer Unit) :=
  -- new dentries always have the long ids of nodes
  let data := data.addDentryFeatureFlag DentryFeature.ids32Bit
  if data.dentryFormatVersion = 3 then
    some (data, do
      data.serializeDentryHeader metaDataType
      data.serializeDentryV3)
  else
    match data.inodeData.stripePattern with
    | none => none
    | some pattern =>
      some (data, do
        data.serializeDentryHeader metaDataType
        if data.dentryFormatVersion = 4 then data.serializeDentryV4 pattern
        else data.serializeDentryV6 pattern)

/-- An entry type that is not set is found out from the mode. -/
def setMissingEntryType : DiskMetaData :=
  if data.dentryDiskData.entryType = DirEntryType.invalid then
    { data with
      dentryDiskData.entryType := posixFileTypeToDirEntryType
        data.inodeData.inodeStatData.settableFileAttribs.mode.toUInt32 }
  else data

/-- Also for clones of inodes that are inlined into a dentry. -/
def serializeFileInode : Option (DiskMetaData × StateM Serializer Unit) :=
  let data := data.setMissingEntryType
  data.serializeInDentryFormat
    (if data.dentryDiskData.dentryFeatureFlags &&& DentryFeature.inodeInline ≠ 0 then fileDentry
      else fileInode)

def serializeDentry : Option (DiskMetaData × StateM Serializer Unit) :=
  data.serializeInDentryFormat
    (if data.dentryDiskData.entryType = DirEntryType.directory then dirDentry else fileDentry)

/-! ## Reading dentries and file inodes -/

def setEntryID (entryID : List UInt8) : DiskMetaData :=
  { data with dentryDiskData.entryID := entryID, inodeData.entryID := entryID }

/-- The old ids of nodes have 16 bits. -/
def readNodeID (long : Prop) [Decidable long] : StateM Deserializer UInt32 :=
  if long then read uint32
  else do
    let nodeID ← read uint16
    return nodeID.toUInt32

def deserializeDentryV3 (out : DiskMetaData) : StateM Deserializer DiskMetaData := do
  let entryID ← read stringAlign4
  let ownerNodeID ← readNodeID (out.dentryDiskData.dentryFeatureFlags &&&
    DentryFeature.ids32Bit ≠ 0)
  return { out.setEntryID entryID with dentryDiskData.ownerNodeID := ownerNodeID }

/-- The pattern, and the version behind it. Files without a version get one. -/
def deserializePattern (out : DiskMetaData) (hasPoolId : Bool) :
    StateM Deserializer (Decoded DiskMetaData) := do
  let pattern ← Transport.StripePattern.deserialize hasPoolId
  match pattern with
  | .nullDereferenced => return .nullDereferenced
  | .null => setPattern none
  | .pattern pattern => setPattern (some pattern)
where
  setPattern (pattern : Option Transport.StripePattern) :
    StateM Deserializer (Decoded DiskMetaData) := do
    let inodeFeatureFlags := out.inodeData.inodeFeatureFlags
    let version ← readIf (inodeFeatureFlags &&& hasVersions ≠ 0) uint64
      out.inodeData.version
    return .object { out with
      inodeData.stripePattern := pattern
      inodeData.version := version
      inodeData.inodeFeatureFlags := inodeFeatureFlags ||| hasVersions }

variable (out : DiskMetaData)

/-- What is in front of the pattern. The flag and the node of an old mirror are thrown away. -/
def deserializeDentryV4Fields (inodeFeatureFlags : UInt32) : StateM Deserializer DiskMetaData := do
  skip 4
  let statData ← out.inodeData.inodeStatData.deserializeAs .dentryV4
  let entryID ← read stringAlign4
  let _ ← readIf (inodeFeatureFlags &&& mirrored ≠ 0) uint16 0
  return { out.setEntryID entryID with
    inodeData.inodeFeatureFlags := inodeFeatureFlags &&& ~~~mirrored
    inodeData.inodeStatData := statData }

def deserializeDentryV4 : StateM Deserializer (Decoded DiskMetaData) := do
  let inodeFeatureFlags ← read uint32
  returnIfBad (.object out) do
    if checkFeatureFlagsCompat inodeFeatureFlags getSupportedDentryV4FileInodeFeatureFlags then
      let out ← out.deserializeDentryV4Fields inodeFeatureFlags
      out.deserializePattern false
    else fail (.object out)

/-- Without an orig. user of its own, it is the user. -/
def deserializeDentryV5V6Fields (inodeFeatureFlags : UInt32) :
    StateM Deserializer DiskMetaData := do
  skip 4
  let statData ← out.inodeData.inodeStatData.deserializeAs .fileInode
  let origParentUID ← readIf (inodeFeatureFlags &&& hasOrigUID ≠ 0) uint32
    statData.settableFileAttribs.userID
  let origParentEntryID ← readIf (inodeFeatureFlags &&& hasOrigParentID ≠ 0)
    stringAlign4 out.inodeData.origParentEntryID
  let entryID ← read stringAlign4
  let _ ← readIf (inodeFeatureFlags &&& mirrored ≠ 0) uint16 0
  return { out.setEntryID entryID with
    inodeData.inodeFeatureFlags := inodeFeatureFlags &&& ~~~mirrored
    inodeData.inodeStatData := statData
    inodeData.origParentUID := origParentUID
    inodeData.origParentEntryID := origParentEntryID }

def deserializeDentryV5V6 (hasStoragePool : Bool) : StateM Deserializer (Decoded DiskMetaData) := do
  let inodeFeatureFlags ← read uint32
  returnIfBad (.object out) do
    if checkFeatureFlagsCompat inodeFeatureFlags getSupportedDentryV5FileInodeFeatureFlags then
      let out ← out.deserializeDentryV5V6Fields inodeFeatureFlags
      out.deserializePattern hasStoragePool
    else fail (.object out)

variable (app : App) (out : DiskMetaData)

variable (origFeature : FileInodeOrigFeature)

/-- The inode is inlined, so this node is the owner, or its group if the file is mirrored. -/
def setOwner : DiskMetaData :=
  { out with
    dentryDiskData.ownerNodeID :=
      if out.inodeData.inodeFeatureFlags &&& buddyMirrored ≠ 0 then
        app.localGroupID.toUInt32
      else app.localNodeID
    inodeData.origFeature := origFeature }

/-- A file of version 5 is put into the default pool. -/
def upgradeToV6 : Decoded DiskMetaData :=
  match out.inodeData.stripePattern with
  | none => .nullDereferenced
  | some pattern =>
    .object { out with
      inodeData.stripePattern := some (setStoragePoolId pattern Transport.defaultPoolId) }

/-- The end of `deserializeDentry` for a version with an inode. -/
def finishInode (finish : DiskMetaData → Decoded DiskMetaData) :
    Decoded DiskMetaData → StateM Deserializer (Decoded DiskMetaData)
  | .nullDereferenced => return .nullDereferenced
  | .object out => returnIfBad (.object out) do
      return finish (out.setOwner app origFeature)

/-- The version decides what follows the header. -/
def deserializeDentryVersion (formatVersion : UInt8) : StateM Deserializer (Decoded DiskMetaData) :=
  if formatVersion = 3 then do
    let out ← out.deserializeDentryV3
    return .object out
  else if formatVersion = 4 then do
    let result ← out.deserializeDentryV4
    finishInode app .false .object result
  else if formatVersion = 5 then do
    let result ← out.deserializeDentryV5V6 false
    finishInode app .true upgradeToV6 result
  else if formatVersion = 6 then do
    let result ← out.deserializeDentryV5V6 true
    finishInode app .true .object result
  else fail (.object out)

/-- Three bytes, of which two may be the old mirror. -/
def skipHeaderEnd (mirrored : Prop) [Decidable mirrored] : StateM Deserializer Unit :=
  if mirrored then do
    let _ ← read uint16
    skip 1
  else skip 3

def deserializeDentry : StateM Deserializer (Decoded DiskMetaData) := do
  let _ ← read uint8
  let formatVersion ← read uint8
  let dentryFeatureFlags ← read uint16
  returnIfBad (.object out) do
    if checkFeatureFlagsCompat dentryFeatureFlags.toUInt32
      getSupportedDentryFeatureFlags.toUInt32 then
      let entryType ← read uint8
      skipHeaderEnd (dentryFeatureFlags &&& DentryFeature.mirrored ≠ 0)
      let out := { out with
        dentryDiskData.dentryFeatureFlags := dentryFeatureFlags &&& ~~~DentryFeature.mirrored
        dentryDiskData.entryType := entryType }
      out.deserializeDentryVersion app formatVersion
    else fail (.object out)

/-- File inodes are stored in the format of dentries. -/
def deserializeFileInode : StateM Deserializer (Decoded DiskMetaData) :=
  out.deserializeDentry app

end DiskMetaData

/-! ## Directory inodes -/

namespace DirInode

variable (inode : DirInode)

/-- The number of subdirectories comes first, so that what follows is aligned. -/
def serializeDirInodeCommonData : StateM Serializer Unit := do
  let early := inode.featureFlags &&& DirInodeFeature.earlySubdirs ≠ 0
  writeIf early uint32 inode.numSubdirs
  inode.statData.serializeAs
    (if inode.featureFlags &&& DirInodeFeature.statFlags ≠ 0 then .dirInode else .dirInodeNoFlags)
  writeIf (¬early) uint32 inode.numSubdirs
  write uint32 inode.numFiles
  write stringAlign4 inode.id
  write stringAlign4 inode.parentDirID

/-- The last version of the format. -/
def serializeDirInodeFields (stripePattern : Transport.StripePattern) : StateM Serializer Unit := do
  write uint8 dirInode
  write uint8 3
  write uint16 inode.featureFlags
  inode.serializeDirInodeCommonData
  write uint32 inode.ownerNodeID
  write uint32 inode.parentNodeID
  writePattern stripePattern

/-- The object with its new flags, and what is written. -/
def serializeDirInode : Option (DirInode × StateM Serializer Unit) :=
  let inode := { inode with
    featureFlags := inode.featureFlags ||| (DirInodeFeature.earlySubdirs |||
      DirInodeFeature.statFlags) }
  match inode.stripePattern with
  | none => none
  | some pattern => some (inode, inode.serializeDirInodeFields pattern)

variable (out : DirInode)

def deserializeDirInodeCommonData : StateM Deserializer DirInode := do
  let early := out.featureFlags &&& DirInodeFeature.earlySubdirs ≠ 0
  let numSubdirs ← readIf early uint32 out.numSubdirs
  let statData ← out.statData.deserializeAs
    (if out.featureFlags &&& DirInodeFeature.statFlags ≠ 0 then .dirInode else .dirInodeNoFlags)
  let numSubdirs ← readIf (¬early) uint32 numSubdirs
  let numFiles ← read uint32
  let id ← read stringAlign4
  let parentDirID ← read stringAlign4
  return { out with
    numSubdirs := numSubdirs, statData := statData, numFiles := numFiles, id := id
    parentDirID := parentDirID }

/-- The nodes, which were stored with 16 bits before, and the old mirror, which is thrown away. -/
def deserializeNodes (long : Prop) [Decidable long] : StateM Deserializer DirInode := do
  let ownerNodeID ← DiskMetaData.readNodeID long
  let parentNodeID ← DiskMetaData.readNodeID long
  let _ ← readIf (out.featureFlags &&& DirInodeFeature.mirrored ≠ 0) uint16 0
  return { out with
    ownerNodeID := ownerNodeID, parentNodeID := parentNodeID
    featureFlags := out.featureFlags &&& ~~~DirInodeFeature.mirrored }

/-- The end of `deserializeDirInode`. In the old formats the pattern is put into the default pool,
whether there is one or not. -/
def setPattern (hasStoragePool : Bool) : Transport.StripePattern.Deserialized → Decoded DirInode
  | .nullDereferenced => .nullDereferenced
  | .null => if hasStoragePool then .object { out with stripePattern := none } else
    .nullDereferenced
  | .pattern pattern => .object { out with
      stripePattern := some (if hasStoragePool then pattern
        else setStoragePoolId pattern Transport.defaultPoolId) }

/-- What follows the common data in a version. -/
def deserializeDirInodeVersion (formatVersion : UInt8) : StateM Deserializer (Decoded DirInode) :=
  if formatVersion = 1 ∨ formatVersion = 2 ∨ formatVersion = 3 then do
    let out ← out.deserializeNodes (formatVersion ≠ 1)
    let pattern ← Transport.StripePattern.deserialize (formatVersion = 3)
    return out.setPattern (formatVersion = 3) pattern
  else fail (.object out)

/-- What follows the type. -/
def deserializeDirInodeFields : StateM Deserializer (Decoded DirInode) := do
  let formatVersion ← read uint8
  let featureFlags ← read uint16
  let out := { out with featureFlags := featureFlags }
  returnIfBad (.object out) do
    if checkFeatureFlagsCompat featureFlags.toUInt32 getSupportedDirInodeFeatureFlags.toUInt32 then
      let out ← out.deserializeDirInodeCommonData
      out.deserializeDirInodeVersion formatVersion
    else fail (.object out)

def deserializeDirInode : StateM Deserializer (Decoded DirInode) := do
  let metaDataType ← read uint8
  if (← get).good ∧ metaDataType ≠ dirInode then fail (.object out)
  else out.deserializeDirInodeFields

end DirInode
end Congfs.Metadata
