import Congfs.Metadata.DiskFormat
import Congfs.Striping.StatData

/-!
# File inodes in memory

A file inode is inlined into the dentry of the file, or stored in a file of its own. Its chunks are
found through the user and the parent it was created with, which are only stored if they cannot be
found out otherwise: the orig. user if the flag `hasOrigUID` is set, and the orig. parent if
`hasOrigParentID` is.

The disk decides how storing ends; what it does is part of the input of a call. So is what the
storage targets have reported about the chunk files, from which the dynamic attributes are updated
whenever an inode is written (`Congfs.StatData.updateDynamicFileAttribs`). Nothing happens where a
null pattern would be used.
-/

namespace Congfs.Metadata

open FileInodeFeature

open Reader

/-! ## Where the chunks are -/

structure PathInfo where
  origParentUID : UInt32
  origParentEntryID : List UInt8
  flags : Int32
  deriving DecidableEq, Repr

namespace PathInfo

/-- `PATHINFO_FEATURE_ORIG` -/
def featureOrig : Int32 := 1

/-- `PATHINFO_FEATURE_ORIG_UNKNOWN` -/
def featureOrigUnknown : Int32 := 2

end PathInfo

namespace FileInodeStoreData

variable (data : FileInodeStoreData)

def getPathInfo : PathInfo where
  origParentUID := data.origParentUID
  origParentEntryID := data.origParentEntryID
  flags :=
    match data.origFeature with
    | .true => PathInfo.featureOrig
    | .false => 0
    | .unset => PathInfo.featureOrigUnknown

def addInodeFeatureFlag (flag : UInt32) : FileInodeStoreData :=
  { data with inodeFeatureFlags := data.inodeFeatureFlags ||| flag }

def create (entryID : List UInt8) (statData : StatData) (stripePattern : Transport.StripePattern)
    (featureFlags origParentUID : UInt32) (origParentEntryID : List UInt8)
    (origFeature : FileInodeOrigFeature) : FileInodeStoreData :=
  let data : FileInodeStoreData :=
    { inodeFeatureFlags := featureFlags
      inodeStatData := statData
      entryID := entryID
      stripePattern := some stripePattern
      origFeature := origFeature
      origParentUID := origParentUID
      origParentEntryID := origParentEntryID
      version := 0 }
  if statData.settableFileAttribs.userID ≠ origParentUID ∧ origFeature = .true then
    data.addInodeFeatureFlag hasOrigUID
  else data

/-- An orig. parent that is stored is never overwritten. -/
def setDynamicOrigParentEntryID (origParentEntryID : List UInt8) : FileInodeStoreData :=
  if data.inodeFeatureFlags &&& hasOrigParentID = 0 then
    { data with origParentEntryID := origParentEntryID }
  else data

end FileInodeStoreData

/-! ## Dynamic attributes -/

namespace StatData

/-- What is updated from the chunk files. -/
def dynamicAttribs (statData : StatData) : Congfs.StatData where
  flags := statData.flags
  fileSize := statData.fileSize
  attribChangeTimeSecs := statData.attribChangeTimeSecs
  settableFileAttribs :=
    { modificationTimeSecs := statData.settableFileAttribs.modificationTimeSecs
      lastAccessTimeSecs := statData.settableFileAttribs.lastAccessTimeSecs }
  chunkBlocksVec := statData.chunkBlocksVec

def setDynamicAttribs (statData : StatData) (attribs : Congfs.StatData) : StatData :=
  { statData with
    flags := attribs.flags
    fileSize := attribs.fileSize
    attribChangeTimeSecs := attribs.attribChangeTimeSecs
    settableFileAttribs.modificationTimeSecs := attribs.settableFileAttribs.modificationTimeSecs
    settableFileAttribs.lastAccessTimeSecs := attribs.settableFileAttribs.lastAccessTimeSecs
    chunkBlocksVec := attribs.chunkBlocksVec }

end StatData

/-- `META_SERBUF_SIZE` -/
def metaSerBufSize : ℕ := 8192

/-- A buffer on the stack, with anything in it. -/
abbrev MetaBuf := { buf : List UInt8 // buf.length = metaSerBufSize }

/-- What a call does not find in the inode: its buffer, the update of the dynamic attributes, and
the disk. -/
structure StoreInput where
  buf : MetaBuf
  update : Congfs.StatData → Congfs.StatData
  /-- Whether there is an inode in the dentry, if the dentry can be loaded. -/
  isInodeInlined : Option Bool
  dentryStored : Bool
  inodeFileStored : Bool

inductive DentrySaveRes
  | success
  | internal
  | inodeNotInlined
  | saveError
  deriving DecidableEq, Repr

/-- `serializeMetaData` has filled a buffer, which is stored up to the size of the serializer if
there was no error. -/
def storedBytes (put : StateM Serializer Unit) (buf : MetaBuf) : Option (List UInt8) :=
  let ser := (put (.ofBuffer buf)).2
  if ser.good then ser.buffer.map (·.take ser.size) else none

/-- `entryType` and `dentryFeatureFlags` are its `DentryCompatData`. -/
structure FileInode where
  inodeDiskData : FileInodeStoreData
  isInlined : Bool
  entryType : DirEntryType
  dentryFeatureFlags : UInt32

namespace FileInode

variable (inode : FileInode)

def getPathInfo : PathInfo := inode.inodeDiskData.getPathInfo

def addFeatureFlagUnlocked (flag : UInt32) : FileInode :=
  { inode with inodeDiskData := inode.inodeDiskData.addInodeFeatureFlag flag }

/-- Without the dentry the orig. parent is not known any more, so it has to be stored. -/
def setIsInlinedUnlocked (value : Bool) : FileInode :=
  let inode := { inode with isInlined := value }
  if value then
    { inode with
      dentryFeatureFlags := inode.dentryFeatureFlags ||| DentryFeature.inodeInline.toUInt32 }
  else
    let inode :=
      if inode.inodeDiskData.origFeature = .true then
        inode.addFeatureFlagUnlocked hasOrigParentID
      else inode
    { inode with
      dentryFeatureFlags := inode.dentryFeatureFlags &&& ~~~DentryFeature.inodeInline.toUInt32 }

def updateDynamicAttribs (update : Congfs.StatData → Congfs.StatData) : FileInode :=
  let statData := inode.inodeDiskData.inodeStatData
  { inode with
    inodeDiskData.inodeStatData := statData.setDynamicAttribs (update statData.dynamicAttribs) }

/-! ## Storing -/

/-- The object `serializeMetaData` hands to `serializeFileInode`. -/
def diskMetaData : DiskMetaData where
  dentryDiskData :=
    { entryID := inode.inodeDiskData.entryID
      entryType := inode.entryType
      ownerNodeID := 0
      dentryFeatureFlags := inode.dentryFeatureFlags.toUInt16 }
  inodeData := inode.inodeDiskData

/-- The dynamic attributes are updated before. -/
def serializeMetaData : Option (StateM Serializer Unit) :=
  inode.diskMetaData.serializeFileInode.map Prod.snd

def storeMetaData (buf : MetaBuf) : Option (List UInt8) :=
  inode.serializeMetaData.bind fun put => storedBytes put buf

section
variable (app : App) (fresh : FileInode) (validAttribs : UInt32) (attribs : SettableFileAttribs)
  (now : Int64) (input : StoreInput)

def storeUpdatedInlinedInodeUnlocked : DentrySaveRes :=
  match input.isInodeInlined with
  | none => .internal
  | some false => .inodeNotInlined
  | some true => if input.dentryStored then .success else .saveError

/-- The not inlined handling. -/
def storeInodeFile : Bool × FileInode :=
  let inode := inode.updateDynamicAttribs input.update
  ((inode.storeMetaData input.buf).isSome && input.inodeFileStored, inode)

/-- If there is no inode in the dentry, the inode is not inlined any more: `setIsInlinedUnlocked` is
not called here. -/
def storeUpdatedInodeUnlocked : Bool × FileInode :=
  if inode.isInlined then
    let inode := inode.updateDynamicAttribs input.update
    match storeUpdatedInlinedInodeUnlocked input with
    | .success => (true, inode)
    | .inodeNotInlined => { inode with isInlined := false }.storeInodeFile input
    | _ => inode.storeInodeFile input
  else inode.storeInodeFile input

/-! ## Changing attributes -/

namespace SetAttr

def mode : UInt32 := 1
def userID : UInt32 := 2
def groupID : UInt32 := 4
def modificationTime : UInt32 := 8
def lastAccessTime : UInt32 := 16

end SetAttr

def applyAttribs (old : SettableFileAttribs) (validAttribs : UInt32)
    (attribs : SettableFileAttribs) : SettableFileAttribs where
  mode := if validAttribs &&& SetAttr.mode ≠ 0 then attribs.mode else old.mode
  userID := if validAttribs &&& SetAttr.userID ≠ 0 then attribs.userID else old.userID
  groupID := if validAttribs &&& SetAttr.groupID ≠ 0 then attribs.groupID else old.groupID
  modificationTimeSecs :=
    if validAttribs &&& SetAttr.modificationTime ≠ 0 then attribs.modificationTimeSecs
    else old.modificationTimeSecs
  lastAccessTimeSecs :=
    if validAttribs &&& SetAttr.lastAccessTime ≠ 0 then attribs.lastAccessTimeSecs
    else old.lastAccessTimeSecs

/-- What `setAttrData` does before the inode is stored. -/
def changeAttribs : FileInode :=
  let statData := inode.inodeDiskData.inodeStatData
  let inode := { inode with
    inodeDiskData.inodeStatData := { statData with
      attribChangeTimeSecs := now
      settableFileAttribs := applyAttribs statData.settableFileAttribs validAttribs attribs } }
  if validAttribs &&& SetAttr.userID ≠ 0 ∧ attribs.userID ≠ inode.inodeDiskData.origParentUID ∧
      inode.inodeDiskData.origFeature = .true then
    inode.addFeatureFlagUnlocked hasOrigUID
  else inode

/-- If the inode cannot be stored, the attributes are restored, but not the flags. -/
def setAttrData : Bool × FileInode :=
  let oldAttribs := inode.inodeDiskData.inodeStatData.settableFileAttribs
  let (storeRes, inode) :=
    (inode.changeAttribs validAttribs attribs now).storeUpdatedInodeUnlocked input
  if storeRes then (true, inode)
  else (false, { inode with
    inodeDiskData.inodeStatData.settableFileAttribs := oldAttribs })

/-! ## Loading -/

/-- The object is filled in place. -/
def deserializeMetaData (inode : FileInode) : StateM Deserializer (Decoded FileInode) := do
  let out : DiskMetaData := ⟨⟨[], DirEntryType.invalid, 0, 0⟩, inode.inodeDiskData⟩
  let result ← out.deserializeFileInode app
  match result with
  | .nullDereferenced => return .nullDereferenced
  | .object out =>
    let inode := { inode with inodeDiskData := out.inodeData }
    returnIfBad (.object inode) do
      return .object { inode with
        entryType := out.dentryDiskData.entryType
        dentryFeatureFlags := out.dentryDiskData.dentryFeatureFlags.toUInt32 }

variable (inlined : Bool) (parentEntryID : List UInt8)

/-- The ends of `createFromInlinedInode` and of `createFromInodeFile`: only the first knows the
parent. -/
def finishLoad : FileInode :=
  if inlined then
    { inode with
      inodeDiskData := inode.inodeDiskData.setDynamicOrigParentEntryID parentEntryID
      }.setIsInlinedUnlocked true
  else inode.setIsInlinedUnlocked false

/-- An inode from what is stored, read into a `fresh` one. -/
def load (parentEntryID bytes : List UInt8) : Option FileInode :=
  match fresh.deserializeMetaData app (.ofBuffer bytes) with
  | (.nullDereferenced, _) => none
  | (.object inode, des) =>
    if des.good then some (inode.finishLoad inlined parentEntryID) else none

/-- The inode is stored, and loaded again from there. If that fails, it stays. -/
def reload (update : Congfs.StatData → Congfs.StatData) (buf : MetaBuf) : FileInode :=
  let inode := inode.updateDynamicAttribs update
  ((inode.storeMetaData buf).bind (fresh.load app inode.isInlined parentEntryID)).getD inode

end

/-! ## Runs -/

/-- What happens to an inode. The parent of the dentry stays the same. -/
inductive Action
  | setAttrData (validAttribs : UInt32) (attribs : SettableFileAttribs) (now : Int64)
      (input : StoreInput)
  | deInline
  | reload (app : App) (fresh : FileInode) (update : Congfs.StatData → Congfs.StatData)
    (buf : MetaBuf)

def step (parentEntryID : List UInt8) (inode : FileInode) : Action → FileInode
  | .setAttrData validAttribs attribs now input =>
    (inode.setAttrData validAttribs attribs now input).2
  | .deInline => inode.setIsInlinedUnlocked false
  | .reload app fresh update buf => inode.reload app fresh parentEntryID update buf

end FileInode
end Congfs.Metadata
