import Congfs.Lib.Flags
import Congfs.Metadata.DiskGrammar
import Congfs.Striping.TransportRoundTrip

/-!
# What metadata is written as

The bytes of dentries, file inodes and directory inodes, which are words of the grammars they are
read with; but for one case: a file inode of version 4 whose pattern has a storage pool.
-/

namespace Congfs.Metadata

open Serialization Codes FileInodeFeature
open DirInodeFeature (statFlags)

/-! ## Stat data -/

theorem codes_blocksVec : Codes (Writer.write blocksVec blocks) blocksGrammar blocks
      (encodeCollection true (encodeInt 8 UInt64.toNat) blocks) :=
  of_wire (Wire.list true Wire.uint64) parses_blocks fun _ _ => trivial

theorem codes_string (str : List UInt8) :
    Codes (Writer.write stringAlign4 str) (Grammar.string 4) str (encodeString 4 str) :=
  of_wire Wire.stringAlign4 (Parses.string 4) trivial

namespace StatData

def encodeTime : Int64 → List UInt8 := encodeInt 8 fun v => v.toUInt64.toNat

def encodeMode : Int32 → List UInt8 := encodeInt 4 fun v => v.toUInt32.toNat

variable (format : StatDataFormat)

def encode (s : StatData) : List UInt8 :=
  (if format.hasFlags then encodeInt 4 UInt32.toNat s.flags else []) ++
  ((if format.hasFlags then encodeMode s.settableFileAttribs.mode else []) ++
  ((if format.hasFlags ∧ s.getIsSparseFile then
      encodeCollection true (encodeInt 8 UInt64.toNat) s.chunkBlocksVec else []) ++
  (encodeTime s.creationTimeSecs ++
  (encodeTime s.settableFileAttribs.lastAccessTimeSecs ++
  (encodeTime s.settableFileAttribs.modificationTimeSecs ++
  (encodeTime s.attribChangeTimeSecs ++
  ((if format.isDir = false then encodeTime s.fileSize else []) ++
  ((if format.isDir = false then encodeInt 4 UInt32.toNat s.nlink else []) ++
  ((if format.isDir = false then encodeInt 4 UInt32.toNat s.contentsVersion else []) ++
  (encodeInt 4 UInt32.toNat s.settableFileAttribs.userID ++
  (encodeInt 4 UInt32.toNat s.settableFileAttribs.groupID ++
  (if format.hasFlags = false then encodeMode s.settableFileAttribs.mode else []))))))))))))

def storedInto (s out : StatData) : StatData where
  flags := if format.hasFlags then s.flags else out.flags
  fileSize := if format.isDir = false then s.fileSize else out.fileSize
  creationTimeSecs := s.creationTimeSecs
  attribChangeTimeSecs := s.attribChangeTimeSecs
  nlink := if format.isDir = false then s.nlink else out.nlink
  settableFileAttribs := s.settableFileAttribs
  contentsVersion := if format.isDir = false then s.contentsVersion else out.contentsVersion
  chunkBlocksVec :=
    if format.hasFlags ∧ s.getIsSparseFile then s.chunkBlocksVec else out.chunkBlocksVec

theorem codes_serializeAs (s out : StatData) :
    Codes (s.serializeAs format) (grammar format out) (s.storedInto format out)
    (s.encode format) := by
  have hsparse : format.hasFlags ∧ s.getIsSparseFile ↔ format.hasFlags ∧
      { out with flags := if format.hasFlags then s.flags else out.flags }.getIsSparseFile := by
    refine and_congr_right fun hflags => ?_
    rw [if_pos hflags]
    exact Iff.rfl
  have hmode : s.settableFileAttribs.mode = if format.hasFlags = false then
    s.settableFileAttribs.mode
      else if format.hasFlags then s.settableFileAttribs.mode else
      out.settableFileAttribs.mode := by
    cases format <;> rfl
  refine (writeIf Iff.rfl (fun _ => uint32 _) _).bind ?_
  refine (writeIf Iff.rfl (fun _ => int32 _) _).bind ?_
  refine (writeIf hsparse (fun _ => codes_blocksVec) _).bind ?_
  refine (int64 _).bind <| (int64 _).bind <| (int64 _).bind <| (int64 _).bind ?_
  refine (writeIf Iff.rfl (fun _ => int64 _) _).bind ?_
  refine (writeIf Iff.rfl (fun _ => uint32 _) _).bind ?_
  refine (writeIf Iff.rfl (fun _ => uint32 _) _).bind ?_
  refine (uint32 _).bind <| (uint32 _).bind ?_
  refine ((writeIf Iff.rfl (fun _ => int32 _) _).map _).of_eq ?_
  rw [← hmode]
  rfl

end StatData

/-! ## Patterns -/

def readPattern (hasPoolId : Bool) (p : Transport.StripePattern) : Transport.StripePattern :=
  if hasPoolId then p.received else .construct p.header.chunkSize none p.content

theorem encodes_writePattern : Encodes (writePattern p) p.encode :=
  ⟨p.writes_serialize, p.counts_serialize⟩

theorem codes_writePattern (hpool : hasPoolId = true ∨ p.header.hasPoolId = false) :
    Codes (writePattern p) (Transport.StripePattern.results hasPoolId)
      (.pattern (readPattern hasPoolId p)) p.encode where
  encodes := encodes_writePattern
  word hlen := by
    cases hasPoolId with
    | true => exact p.word_encode hlen
    | false => exact p.word_encode_poolless (hpool.resolve_left Bool.false_ne_true) hlen

/-! ## File inodes -/

namespace DiskMetaData

variable {data out : DiskMetaData} {p : Transport.StripePattern}

def encodeVersion (data : DiskMetaData) : List UInt8 :=
  if data.inodeData.inodeFeatureFlags &&& hasVersions ≠ 0 then
    encodeInt 8 UInt64.toNat data.inodeData.version
  else []

/-- The object with what stands from the pattern on. -/
def withPattern (out data : DiskMetaData) (p : Transport.StripePattern) : DiskMetaData :=
  { out with
    inodeData.stripePattern := some p
    inodeData.version :=
      if data.inodeData.inodeFeatureFlags &&& hasVersions ≠ 0 then data.inodeData.version
      else out.inodeData.version
    inodeData.inodeFeatureFlags := data.inodeData.inodeFeatureFlags ||| hasVersions }

theorem codes_pattern (hpool : hasPoolId = true ∨ p.header.hasPoolId = false)
    (hflags : out.inodeData.inodeFeatureFlags = data.inodeData.inodeFeatureFlags) :
    Codes (do
        writePattern p
        Writer.writeIf (data.inodeData.inodeFeatureFlags &&& hasVersions ≠ 0)
          Format.uint64 data.inodeData.version)
      (out.patternGrammar hasPoolId) (.object (out.withPattern data (readPattern hasPoolId p)))
      (p.encode ++ data.encodeVersion) := by
  refine (codes_writePattern hpool).bind ?_
  refine ((writeIf (by rw [hflags]) (fun _ => uint64 _) _).map _).of_eq ?_
  rw [hflags]
  rfl

section
variable (data : DiskMetaData) (p : Transport.StripePattern)

/-- What version 4 writes behind the header. -/
def encodeV4 : List UInt8 :=
  encodeInt 4 UInt32.toNat data.inodeData.inodeFeatureFlags ++
  (List.replicate 4 0 ++
  (data.inodeData.inodeStatData.encode .dentryV4 ++
  (encodeString 4 data.dentryDiskData.entryID ++
  (p.encode ++ data.encodeVersion))))

theorem encodes_serializeDentryV4 : Encodes (data.serializeDentryV4 p) (data.encodeV4 p) := by
  have hstat := (StatData.codes_serializeAs .dentryV4 data.inodeData.inodeStatData
    data.inodeData.inodeStatData).encodes
  refine (uint32 _).encodes.bind <| (skip 4).encodes.bind <| hstat.bind ?_
  refine (codes_string _).encodes.bind <| encodes_writePattern.bind ?_
  exact (writeIf Iff.rfl (fun _ => uint64 _) data.inodeData.version).encodes

end

/-- The object that is read in version 4: the orig. parent and user stay as they are. -/
def loadedV4 (data out : DiskMetaData) (p : Transport.StripePattern) : DiskMetaData :=
  { out.setEntryID data.dentryDiskData.entryID with
    inodeData.inodeStatData :=
      data.inodeData.inodeStatData.storedInto .dentryV4 out.inodeData.inodeStatData }.withPattern
        data p

theorem readIf_mirrored (h : flags &&& mirrored = 0) :
    Grammar.readIf (flags &&& mirrored ≠ 0) Grammar.uint16 0 = pure 0 :=
  if_neg (not_not.mpr h)

/-- A pattern with a pool would have two bytes that nobody reads. -/
theorem codes_serializeDentryV4 (hpool : p.header.hasPoolId = false)
    (hflags : checkFeatureFlagsCompat data.inodeData.inodeFeatureFlags
      getSupportedDentryV4FileInodeFeatureFlags)
    (hmirrored : data.inodeData.inodeFeatureFlags &&& mirrored = 0) :
    Codes (data.serializeDentryV4 p) out.inodeV4Grammar
      (.object (data.loadedV4 out (readPattern false p))) (data.encodeV4 p) := by
  refine (uint32 _).bind ?_
  rw [if_pos hflags]
  simp only [fieldsV4Grammar, bind_assoc, pure_bind, readIf_mirrored hmirrored,
    Flags.and_not_eq_self_iff.mpr hmirrored]
  refine (skip 4).bind <| (StatData.codes_serializeAs ..).bind <| (codes_string _).bind ?_
  exact codes_pattern (.inr hpool) rfl

section
variable (data : DiskMetaData) (p : Transport.StripePattern)

/-- What version 6 writes behind the header. -/
def encodeV6 : List UInt8 :=
  encodeInt 4 UInt32.toNat data.inodeData.inodeFeatureFlags ++
  (List.replicate 4 0 ++
  (data.inodeData.inodeStatData.encode .fileInode ++
  ((if data.inodeData.inodeFeatureFlags &&& hasOrigUID ≠ 0 then
      encodeInt 4 UInt32.toNat data.inodeData.origParentUID else []) ++
  ((if data.inodeData.inodeFeatureFlags &&& hasOrigParentID ≠ 0 then
      encodeString 4 data.inodeData.origParentEntryID else []) ++
  (encodeString 4 data.dentryDiskData.entryID ++
  (p.encode ++ data.encodeVersion))))))

theorem encodes_serializeDentryV6 : Encodes (data.serializeDentryV6 p) (data.encodeV6 p) := by
  have hstat := (StatData.codes_serializeAs .fileInode data.inodeData.inodeStatData
    data.inodeData.inodeStatData).encodes
  refine (uint32 _).encodes.bind <| (skip 4).encodes.bind <| hstat.bind ?_
  refine (writeIf Iff.rfl (fun _ => uint32 _) data.inodeData.origParentUID).encodes.bind ?_
  refine (writeIf Iff.rfl (fun _ => codes_string _) data.inodeData.origParentEntryID).encodes.bind
    ?_
  refine (codes_string _).encodes.bind <| encodes_writePattern.bind ?_
  exact (writeIf Iff.rfl (fun _ => uint64 _) data.inodeData.version).encodes

end

def loadedV6 (data out : DiskMetaData) (p : Transport.StripePattern) : DiskMetaData :=
  { out.setEntryID data.dentryDiskData.entryID with
    inodeData.inodeStatData :=
      data.inodeData.inodeStatData.storedInto .fileInode out.inodeData.inodeStatData
    inodeData.origParentUID :=
      if data.inodeData.inodeFeatureFlags &&& hasOrigUID ≠ 0 then
        data.inodeData.origParentUID
      else data.inodeData.inodeStatData.settableFileAttribs.userID
    inodeData.origParentEntryID :=
      if data.inodeData.inodeFeatureFlags &&& hasOrigParentID ≠ 0 then
        data.inodeData.origParentEntryID
      else out.inodeData.origParentEntryID }.withPattern data p

theorem codes_serializeDentryV6 (hflags : checkFeatureFlagsCompat data.inodeData.inodeFeatureFlags
      getSupportedDentryV5FileInodeFeatureFlags)
    (hmirrored : data.inodeData.inodeFeatureFlags &&& mirrored = 0) :
    Codes (data.serializeDentryV6 p) (out.inodeV5V6Grammar true)
      (.object (data.loadedV6 out p.received)) (data.encodeV6 p) := by
  refine (uint32 _).bind ?_
  rw [if_pos hflags]
  simp only [fieldsV5V6Grammar, bind_assoc, pure_bind, readIf_mirrored hmirrored,
    Flags.and_not_eq_self_iff.mpr hmirrored]
  refine (skip 4).bind <| (StatData.codes_serializeAs ..).bind ?_
  refine (writeIf Iff.rfl (fun _ => uint32 _) _).bind ?_
  refine (writeIf Iff.rfl (fun _ => codes_string _) _).bind ?_
  exact (codes_string _).bind (codes_pattern (.inl rfl) rfl)

/-! ## Dentries -/

def encodeHeader (data : DiskMetaData) (metaDataType : UInt8) : List UInt8 :=
  encodeInt 1 UInt8.toNat metaDataType ++
  (encodeInt 1 UInt8.toNat data.dentryFormatVersion ++
  (encodeInt 2 UInt16.toNat data.dentryDiskData.dentryFeatureFlags ++
  (encodeInt 1 UInt8.toNat data.dentryDiskData.entryType ++ List.replicate 3 0)))

theorem encodes_serializeDentryHeader (data : DiskMetaData) (metaDataType : UInt8) :
    Encodes (data.serializeDentryHeader metaDataType) (data.encodeHeader metaDataType) :=
  (uint8 _).encodes.bind <| (uint8 _).encodes.bind <| (uint16 _).encodes.bind <|
    (uint8 _).encodes.bind (skip 3).encodes

theorem codes_serializeDentryHeader
    (hflags : checkFeatureFlagsCompat data.dentryDiskData.dentryFeatureFlags.toUInt32
      getSupportedDentryFeatureFlags.toUInt32) :
    Codes (data.serializeDentryHeader metaDataType) out.headerGrammar (data.dentryFormatVersion,
        out.setHeader data.dentryDiskData.dentryFeatureFlags data.dentryDiskData.entryType)
      (data.encodeHeader metaDataType) := by
  refine (uint8 _).bind <| (uint8 _).bind <| (uint16 _).bind ?_
  rw [if_pos hflags]
  exact (uint8 _).bind ((skip 3).map _)

def encodeV3 (data : DiskMetaData) : List UInt8 :=
  encodeString 4 data.dentryDiskData.entryID ++
    encodeInt 4 UInt32.toNat data.dentryDiskData.ownerNodeID

theorem codes_serializeDentryV3
    (hlong : out.dentryDiskData.dentryFeatureFlags &&& DentryFeature.ids32Bit ≠ 0) :
    Codes data.serializeDentryV3 out.dentryV3Grammar
      { out.setEntryID data.dentryDiskData.entryID with
        dentryDiskData.ownerNodeID := data.dentryDiskData.ownerNodeID } data.encodeV3 := by
  refine (codes_string _).bind ?_
  rw [nodeIDGrammar, if_pos hlong]
  exact (uint32 _).map _

end DiskMetaData

/-! ## Directory inodes -/

namespace DirInode

variable {inode out : DirInode} {p : Transport.StripePattern}

/-- The format of the stat data that is written, with its flags. -/
def encodeCommonData (inode : DirInode) : List UInt8 :=
  encodeInt 4 UInt32.toNat inode.numSubdirs ++
  (inode.statData.encode .dirInode ++
  (encodeInt 4 UInt32.toNat inode.numFiles ++
  (encodeString 4 inode.id ++ encodeString 4 inode.parentDirID)))

def withCommonData (out inode : DirInode) : DirInode :=
  { out with
    numSubdirs := inode.numSubdirs, statData := inode.statData.storedInto .dirInode out.statData
    numFiles := inode.numFiles, id := inode.id, parentDirID := inode.parentDirID }

def encode (inode : DirInode) (p : Transport.StripePattern) : List UInt8 :=
  encodeInt 1 UInt8.toNat dirInode ++
  (encodeInt 1 UInt8.toNat 3 ++
  (encodeInt 2 UInt16.toNat inode.featureFlags ++
  (inode.encodeCommonData ++
  (encodeInt 4 UInt32.toNat inode.ownerNodeID ++
  (encodeInt 4 UInt32.toNat inode.parentNodeID ++ p.encode)))))

def loaded (inode out : DirInode) (p : Transport.StripePattern) : DirInode :=
  { out.withCommonData inode with
    featureFlags := inode.featureFlags, ownerNodeID := inode.ownerNodeID
    parentNodeID := inode.parentNodeID, stripePattern := some p }

section
variable (hearly : inode.featureFlags &&& DirInodeFeature.earlySubdirs ≠ 0)
  (hstat : inode.featureFlags &&& statFlags ≠ 0)
include hearly hstat

theorem codes_serializeDirInodeCommonData (hflags : out.featureFlags = inode.featureFlags) :
    Codes inode.serializeDirInodeCommonData out.commonDataGrammar (out.withCommonData inode)
      inode.encodeCommonData := by
  have hearly' : out.featureFlags &&& DirInodeFeature.earlySubdirs ≠ 0 := hflags ▸ hearly
  have hstat' : out.featureFlags &&& statFlags ≠ 0 := hflags ▸ hstat
  simp only [serializeDirInodeCommonData, commonDataGrammar, Writer.writeIf, Grammar.readIf,
    if_pos hstat, if_pos hstat', if_pos hearly, if_pos hearly', if_neg (not_not.mpr hearly),
    if_neg (not_not.mpr hearly'), pure_bind]
  refine (uint32 _).bind <| (StatData.codes_serializeAs ..).bind ?_
  exact (uint32 _).bind <| (codes_string _).bind ((codes_string _).map _)

theorem encodes_serializeDirInodeFields :
    Encodes (inode.serializeDirInodeFields p) (inode.encode p) := by
  have hcommon := (@codes_serializeDirInodeCommonData inode inode hearly hstat rfl).encodes
  refine (uint8 _).encodes.bind <| (uint8 _).encodes.bind <| (uint16 _).encodes.bind ?_
  exact hcommon.bind <| (uint32 _).encodes.bind <| (uint32 _).encodes.bind encodes_writePattern

theorem codes_serializeDirInodeFields (hflags : checkFeatureFlagsCompat inode.featureFlags.toUInt32
      getSupportedDirInodeFeatureFlags.toUInt32)
    (hmirrored : inode.featureFlags &&& DirInodeFeature.mirrored = 0) :
    Codes (inode.serializeDirInodeFields p) out.dirInodeGrammar
      (.object (inode.loaded out p.received)) (inode.encode p) := by
  have hcommon := @codes_serializeDirInodeCommonData inode
    { out with featureFlags := inode.featureFlags } hearly hstat rfl
  have hmirror : Grammar.readIf (inode.featureFlags &&& DirInodeFeature.mirrored ≠ 0)
    Grammar.uint16 0 = pure 0 := if_neg (not_not.mpr hmirrored)
  rw [dirInodeGrammar_eq]
  refine (uint8 _).bind ?_
  refine (uint8 _).bind <| (uint16 _).bind ?_
  rw [if_pos hflags]
  refine hcommon.bind ?_
  have hflags' :
    ({ out with featureFlags := inode.featureFlags }.withCommonData inode).featureFlags =
    inode.featureFlags := rfl
  simp only [nodesGrammar, DiskMetaData.nodeIDGrammar, bind_assoc, pure_bind, hflags', hmirror,
    Flags.and_not_eq_self_iff16.mpr hmirrored]
  refine (uint32 _).bind <| (uint32 _).bind ?_
  exact (codes_writePattern (.inl rfl)).map _

end

end DirInode

end Congfs.Metadata
