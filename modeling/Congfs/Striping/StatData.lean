import Congfs.Striping.Pattern

/-!
# Stat data from the chunk files

`StatData::updateDynamicFileAttribs` computes size, times and block counts of a file from what the
storage targets report about its chunk files (`ChunkFileInfo`). Creation time, link count, owner,
mode and contents version of an inode are not read or written by it and are left out, as is the
log message of `setNumBlocks`.
-/

namespace Congfs

open Word (int64)

/-- What a storage target reports about a chunk file. Version 0 marks an invalid report. -/
structure DynamicFileAttribs where
  storageVersion : UInt64
  fileSize : Int64
  numBlocks : Int64
  modificationTimeSecs : Int64
  lastAccessTimeSecs : Int64
deriving DecidableEq, Repr

/-- The number of complete chunks is kept with the report it was computed from. -/
structure ChunkFileInfo where
  dynAttribs : DynamicFileAttribs
  chunkSize : UInt32
  chunkSizeLog2 : UInt32
  numCompleteChunks : Int64
  numCompleteChunks_eq : numCompleteChunks = dynAttribs.fileSize >>> int64 chunkSizeLog2

namespace ChunkFileInfo

def ofDynAttribs (chunkSize chunkSizeLog2 : UInt32) (dynAttribs : DynamicFileAttribs) :
    ChunkFileInfo where
  dynAttribs := dynAttribs
  chunkSize := chunkSize
  chunkSizeLog2 := chunkSizeLog2
  numCompleteChunks := dynAttribs.fileSize >>> int64 chunkSizeLog2
  numCompleteChunks_eq := rfl

variable (info : ChunkFileInfo)

def getStorageVersion : UInt64 := info.dynAttribs.storageVersion

def getFileSize : Int64 := info.dynAttribs.fileSize

def getModificationTimeSecs : Int64 := info.dynAttribs.modificationTimeSecs

def getLastAccessTimeSecs : Int64 := info.dynAttribs.lastAccessTimeSecs

def getNumChunks : Int64 :=
  let incompleteChunk := if info.dynAttribs.fileSize &&& int64
    (info.chunkSize - 1) ≠ 0 then 1 else 0
  info.numCompleteChunks + incompleteChunk

def getNumBlocks : UInt64 := info.dynAttribs.numBlocks.toUInt64

end ChunkFileInfo

/-- The reports about the chunk files of a file, as its inode keeps them. -/
def StripePattern.fileInfoVec (pattern : StripePattern) (attribs : List DynamicFileAttribs) :
    List ChunkFileInfo :=
  let chunkSizeLog2 := MathTk.log2Int32 pattern.getChunkSize
  attribs.map (ChunkFileInfo.ofDynAttribs pattern.getChunkSize chunkSizeLog2)

/-- The number of used blocks of each chunk file. -/
abbrev ChunksBlocksVec := List UInt64

namespace ChunksBlocksVec

def setNumBlocks (vec : ChunksBlocksVec) (target : UInt32) (numBlocks numStripeTargets : UInt64) :
    ChunksBlocksVec :=
  let vec := if vec.isEmpty then List.replicate numStripeTargets.toNat 0 else vec
  if vec.length ≤ target.toNat then vec else vec.set target.toNat numBlocks

def getBlockSum (vec : ChunksBlocksVec) : UInt64 := vec.foldl (· + ·) 0

end ChunksBlocksVec

structure SettableFileAttribs where
  modificationTimeSecs : Int64
  lastAccessTimeSecs : Int64
deriving DecidableEq, Repr

structure StatData where
  flags : UInt32
  fileSize : Int64
  attribChangeTimeSecs : Int64
  settableFileAttribs : SettableFileAttribs
  chunkBlocksVec : ChunksBlocksVec
deriving DecidableEq, Repr

namespace StatData

def featureSparseFile : UInt32 := 1

def blockShift : Int64 := 9

def blockSize : Int64 := 512

def sparseGraceBlocks : UInt64 := 8

section

variable (statData : StatData)

def getFileSize : Int64 := statData.fileSize

def getIsSparseFile : Bool := statData.flags &&& featureSparseFile ≠ 0

def setSparseFlag : StatData :=
  { statData with flags := statData.flags ||| featureSparseFile }

def unsetSparseFlag : StatData :=
  { statData with flags := statData.flags &&& ~~~featureSparseFile }

def setTargetChunkBlocks (target : UInt32) (chunkBlocks numStripeTargets : UInt64) : StatData :=
  { statData with
    chunkBlocksVec := statData.chunkBlocksVec.setNumBlocks target chunkBlocks numStripeTargets }

/-- Exact for sparse files only; the others are taken to use what their size needs. -/
def getNumBlocks : UInt64 :=
  if statData.getIsSparseFile then statData.chunkBlocksVec.getBlockSum
  else ((statData.fileSize + blockSize - 1) >>> blockShift).toUInt64

end

/-- The local variables of the walk over the targets, and the object it updates. -/
structure Walk where
  statData : StatData
  lastMaxNumChunksIndex : UInt32
  maxNumChunks : Int64
  newModificationTimeSecs : Int64
  newLastAccessTimeSecs : Int64

variable (statData : StatData)

/-- What comes before the loop. The times of the metadata server only count if not all targets
have reported. -/
def startWalk (first : ChunkFileInfo) (numValidDynAttribs : UInt32)
    (numStripeTargets : UInt64) : Walk :=
  let attribs := statData.settableFileAttribs
  let allValid := numValidDynAttribs.toUInt64 = numStripeTargets
  { statData := statData.setTargetChunkBlocks 0 first.getNumBlocks numStripeTargets
    lastMaxNumChunksIndex := 0
    maxNumChunks := first.getNumChunks
    newModificationTimeSecs :=
      if allValid then first.getModificationTimeSecs
      else max first.getModificationTimeSecs attribs.modificationTimeSecs
    newLastAccessTimeSecs :=
      if allValid then first.getLastAccessTimeSecs
      else max first.getLastAccessTimeSecs attribs.lastAccessTimeSecs }

def walkTarget (numStripeTargets : UInt64) (target : UInt32) (info : ChunkFileInfo) (w : Walk) :
    Walk :=
  let currentNumChunks := info.getNumChunks
  let isMax := w.maxNumChunks ≤ currentNumChunks
  { statData := w.statData.setTargetChunkBlocks target info.getNumBlocks numStripeTargets
    lastMaxNumChunksIndex := if isMax then target else w.lastMaxNumChunksIndex
    maxNumChunks := if isMax then currentNumChunks else w.maxNumChunks
    newModificationTimeSecs :=
      if w.newModificationTimeSecs < info.getModificationTimeSecs then info.getModificationTimeSecs
      else w.newModificationTimeSecs
    newLastAccessTimeSecs :=
      if w.newLastAccessTimeSecs < info.getLastAccessTimeSecs then info.getLastAccessTimeSecs
      else w.newLastAccessTimeSecs }

def walkTargets (numStripeTargets : UInt64) : UInt32 → List ChunkFileInfo → Walk → Walk
  | _, [], w => w
  | target, info :: rest, w =>
    walkTargets numStripeTargets (target + 1) rest (walkTarget numStripeTargets target info w)

variable (fileInfoVec : List ChunkFileInfo)

/-- The number of valid reports, counted in an `unsigned`. -/
def numValidDynAttribs : UInt32 :=
  UInt32.ofNat (fileInfoVec.countP (·.getStorageVersion ≠ 0))

def walk (first : ChunkFileInfo) (rest : List ChunkFileInfo) (numStripeTargets : UInt64) : Walk :=
  walkTargets numStripeTargets 1 rest
    (startWalk statData first (numValidDynAttribs (first :: rest)) numStripeTargets)

/-- The size of the file if the targets before the last one with the most chunks have as many
chunks and those after it have one less. The middle term is computed on `size_t`. -/
def totalLength (numInfos : UInt64) (chunkSize lastMaxNumChunksIndex : UInt32)
    (maxNumChunks lengthLastMaxNode : Int64) : Int64 :=
  let lengthBeforeLastMaxIndex := int64 lastMaxNumChunksIndex * maxNumChunks * int64 chunkSize
  let lengthAfterLastMaxIndex := ((numInfos - lastMaxNumChunksIndex.toUInt64 - 1) *
    (maxNumChunks - 1).toUInt64 * chunkSize.toUInt64).toInt64
  lengthBeforeLastMaxIndex + lengthAfterLastMaxIndex + lengthLastMaxNode

def updateSparseFlag (newFileSize : Int64) : StatData :=
  let calcBlocks := (newFileSize >>> blockShift).toUInt64
  let usedBlockSum := statData.getNumBlocks
  if usedBlockSum + sparseGraceBlocks < calcBlocks then statData.setSparseFlag
  else statData.unsetSparseFlag

/-- The end of the function: the new values are stored, and the change time is set if the
modification time or the size changes. -/
def storeDynamicAttribs (newFileSize newModificationTimeSecs
    newLastAccessTimeSecs now : Int64) : StatData :=
  let isChanged := newModificationTimeSecs ≠ statData.settableFileAttribs.modificationTimeSecs ∨
    newFileSize ≠ statData.getFileSize
  { statData with
    fileSize := newFileSize
    attribChangeTimeSecs := if isChanged then now else statData.attribChangeTimeSecs
    settableFileAttribs :=
      { modificationTimeSecs := newModificationTimeSecs
        lastAccessTimeSecs := newLastAccessTimeSecs } }

/-- `now` is the time of the clock when the change time is set. -/
def updateDynamicFileAttribs (stripePattern : StripePattern) (now : Int64) : StatData :=
  match fileInfoVec with
  | [] => statData
  | first :: rest =>
    -- no valid report: nothing to do
    if numValidDynAttribs fileInfoVec = 0 then statData
    else
      let w := statData.walk first rest stripePattern.getNumStripeTargetIDs
      -- the walk only records indices of the vector, so the default is not used
      let lastMax := fileInfoVec.getD w.lastMaxNumChunksIndex.toNat first
      let newFileSize :=
        if w.maxNumChunks ≠ 0 then
          totalLength (UInt64.ofNat fileInfoVec.length) stripePattern.getChunkSize
            w.lastMaxNumChunksIndex w.maxNumChunks lastMax.getFileSize
        else 0
      let statData :=
        if w.maxNumChunks ≠ 0 then w.statData.updateSparseFlag newFileSize else w.statData
      statData.storeDynamicAttribs newFileSize w.newModificationTimeSecs w.newLastAccessTimeSecs now

end StatData
end Congfs
