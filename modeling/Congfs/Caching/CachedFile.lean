import Congfs.Lib.FlatFile
import Congfs.Striping.Pattern

/-!
# The cache buffer of an inode

`FhgfsOpsHelper_readCached`, `_writeCached` and the flush. An inode has at most one buffer, which is
a read-ahead buffer, a write buffer for a range of the file or a write buffer for appended data.

`loff_t` is `ℤ` and `size_t` is `ℕ`: the kernel passes no range that ends behind the largest
`loff_t`. The remote calls are a parameter, `RemoteIO`, with all their errors.
-/

namespace Congfs

inductive FileBufferType where
  | none | read | write
  deriving DecidableEq, Repr

structure CacheBuffer where
  /-- The memory of the buffer. Only the first `bufUsageLen` bytes mean anything. -/
  buf : List UInt8
  bufUsageLen : ℕ
  bufUsageMaxLen : ℕ
  /-- `-1` for a buffer of appended data. -/
  fileOffset : ℤ
  bufType : FileBufferType

structure FsFileInfo where
  allowCaching : Bool
  cacheHits : ℤ
  lastReadOffset : ℤ
  lastWriteOffset : ℤ

namespace FsFileInfo

def cacheHitsThreshold : ℤ := 5

def cacheMissThreshold : ℤ := -5

def cacheSlowstartReadlen : ℕ := 64 * 1024

def incCacheHits (fileInfo : FsFileInfo) : FsFileInfo :=
  if fileInfo.cacheHits < cacheHitsThreshold then
    { fileInfo with cacheHits := fileInfo.cacheHits + 1 }
  else fileInfo

def decCacheHits (fileInfo : FsFileInfo) : FsFileInfo :=
  if fileInfo.cacheHits > cacheMissThreshold then
    { fileInfo with cacheHits := fileInfo.cacheHits - 1 }
  else fileInfo

end FsFileInfo

/-- The calls to the servers. A read gives its result and the bytes it put into the buffer. -/
structure RemoteIO (σ : Type*) where
  readfile : σ → ℕ → ℤ → ℤ × List UInt8
  writefile : σ → List UInt8 → ℤ → ℤ × σ
  /-- The error code, and the size of the file if it is 0. -/
  statDirect : σ → ℤ × ℤ
  getAppendLock : σ → ℤ
  referenceHandle : σ → ℤ
  releaseHandle : σ → ℤ

/-- The cache buffer of an inode and what is stored remotely. -/
structure CachedFile (σ : Type*) where
  cacheBuffer : CacheBuffer
  remote : σ

structure CacheConfig where
  pattern : StripePattern
  bufSize : ℕ
  /-- `tuneCoherentBuffers` is set and the file is mapped. -/
  coherentMapping : Bool

structure CallContext where
  fileInfo : FsFileInfo
  /-- The memory of the buffer that the store hands out, if it has one left. -/
  instantBuf : Option (List UInt8)
  isFileOpenByMultipleReaders : Bool
  userBufValid : Bool

namespace FhgfsOpsHelper

def noSpace : ℤ := 14

def addressFault : ℤ := 21

variable {σ : Type*} (io : RemoteIO σ) (cfg : CacheConfig)

section
variable (remote : σ) (data : List UInt8) (offset : ℤ)

def appendfile : ℤ × σ :=
  let lockRes := io.getAppendLock remote
  if lockRes ≠ 0 then (-lockRes, remote)
  else
    let (statRes, size) := io.statDirect remote
    if statRes ≠ 0 then (-statRes, remote) else io.writefile remote data size

def writefileEx : ℤ × σ :=
  if offset = -1 then appendfile io remote data else io.writefile remote data offset

def writeStatelessInode : ℤ × σ :=
  let referenceRes := io.referenceHandle remote
  if referenceRes ≠ 0 then (-referenceRes, remote)
  else
    let (writeRes, remote) := writefileEx io remote data offset
    if writeRes < 0 then (writeRes, remote)
    else
      let releaseRes := io.releaseHandle remote
      if releaseRes ≠ 0 then (-releaseRes, remote) else (writeRes, remote)

end

variable (file : CachedFile σ)

def discardCache : CachedFile σ :=
  { file with cacheBuffer := { file.cacheBuffer with buf := [], bufType := .none } }

def flushCacheUnlocked (discardCacheOnError : Bool) : ℤ × CachedFile σ :=
  let cacheBuffer := file.cacheBuffer
  match cacheBuffer.bufType with
  | .none => (0, file)
  | .read => (0, discardCache file)
  | .write =>
    let (writeRes, remote) := writeStatelessInode io file.remote
      (cacheBuffer.buf.take cacheBuffer.bufUsageLen) cacheBuffer.fileOffset
    let file := { file with remote }
    if writeRes < cacheBuffer.bufUsageLen then
      let file := if discardCacheOnError then discardCache file else file
      (if writeRes > 0 then noSpace else -writeRes, file)
    else (0, discardCache file)

/-- From `offset` to the end of its chunk. -/
def currentChunkSize (offset : ℤ) : ℕ :=
  (cfg.pattern.getChunkEnd (Int64.ofInt offset) - Int64.ofInt offset + 1).toUInt64.toNat

/-- How much of a new write buffer may be used. -/
def maxWriteCacheLen (offset : ℤ) : ℕ :=
  if offset = -1 then cfg.bufSize else min (currentChunkSize cfg offset) cfg.bufSize

/-- How much is read into a new read buffer. At the start of a file this can also be more than the
rest of the chunk or the buffer size, which are only compared with the size of the read. -/
def readAheadLen (size : ℕ) (offset : ℤ) : ℕ :=
  if offset = 0 ∧ size < FsFileInfo.cacheSlowstartReadlen then FsFileInfo.cacheSlowstartReadlen
  else min (currentChunkSize cfg offset) cfg.bufSize

def writeThrough (data : List UInt8) (offset : ℤ) : ℤ × CachedFile σ :=
  let (writeRes, remote) := writefileEx io file.remote data offset
  (writeRes, { file with remote })

variable (ctx : CallContext) (fileInfo : FsFileInfo) (file : CachedFile σ)

variable (size : ℕ) (data : List UInt8) (offset : ℤ)

def writeCacheFlushed : ℤ × CachedFile σ :=
  let isAppendWrite := offset = -1
  if ¬fileInfo.allowCaching ∨ (¬isAppendWrite ∧ fileInfo.cacheHits ≤ 0) then
    writeThrough io file data offset
  else
    let maxCacheLen := maxWriteCacheLen cfg offset
    if data.length ≥ maxCacheLen then writeThrough io file data offset
    else
      match ctx.instantBuf with
      | .none => writeThrough io file data offset
      | .some buf =>
        if ¬ctx.userBufValid then
          (-addressFault, discardCache
            { file with cacheBuffer := { file.cacheBuffer with buf, bufType := .write } })
        else
          (data.length, { file with cacheBuffer :=
            { buf := FlatFile.overwrite 0 buf 0 data, bufUsageLen := data.length,
              bufUsageMaxLen := maxCacheLen, fileOffset := offset, bufType := .write } })

/-- Copies the data behind what the write buffer already holds. -/
def extendCache : CachedFile σ :=
  { file with cacheBuffer := { file.cacheBuffer with
      buf := FlatFile.overwrite 0 file.cacheBuffer.buf file.cacheBuffer.bufUsageLen data
      bufUsageLen := file.cacheBuffer.bufUsageLen + data.length } }

def writeCached : ℤ × CachedFile σ × FsFileInfo :=
  let fileInfo := ctx.fileInfo
  let isAppendWrite := offset = -1
  if cfg.coherentMapping then
    let (writeRes, file) := writeThrough io file data offset
    (writeRes, file, fileInfo.decCacheHits)
  else
    let cacheBuffer := file.cacheBuffer
    match cacheBuffer.bufType with
    | .none =>
      -- guesses whether this would have been a hit if there were a buffer
      let virtualCacheStart := fileInfo.lastWriteOffset
      let virtualCacheEnd := virtualCacheStart + cfg.bufSize - 1
      let fileInfo :=
        if isAppendWrite ∨ (offset ≥ virtualCacheStart ∧ offset ≤ virtualCacheEnd) then
          fileInfo.incCacheHits
        else fileInfo.decCacheHits
      let (retVal, file) := writeCacheFlushed io cfg ctx fileInfo file data offset
      (retVal, file, fileInfo)
    | .read =>
      let fileInfo := fileInfo.decCacheHits
      let (retVal, file) := writeCacheFlushed io cfg ctx fileInfo (discardCache file) data offset
      (retVal, file, fileInfo)
    | .write =>
      let isAppendCacheBuf := cacheBuffer.fileOffset = -1
      let currentCacheEndOffset := cacheBuffer.fileOffset + cacheBuffer.bufUsageLen
      let bufLenLeft := cacheBuffer.bufUsageMaxLen - cacheBuffer.bufUsageLen
      if ¬(isAppendWrite ↔ isAppendCacheBuf) ∨
          (¬isAppendWrite ∧ offset ≠ currentCacheEndOffset) ∨ data.length > bufLenLeft then
        let fileInfo := fileInfo.decCacheHits
        let (flushRes, file) := flushCacheUnlocked io file false
        if flushRes ≠ 0 then (-flushRes, file, fileInfo)
        else
          let (retVal, file) := writeCacheFlushed io cfg ctx fileInfo file data offset
          (retVal, file, fileInfo)
      else
        let fileInfo := fileInfo.incCacheHits
        if ¬ctx.userBufValid then (-addressFault, file, fileInfo)
        else
          let file := extendCache file data
          let bufLenLeft := file.cacheBuffer.bufUsageMaxLen - file.cacheBuffer.bufUsageLen
          if bufLenLeft = 0 then
            let (flushRes, file) := flushCacheUnlocked io file false
            if flushRes ≠ 0 then (-flushRes, file, fileInfo) else (data.length, file, fileInfo)
          else (data.length, file, fileInfo)

/-- The result of a read, the bytes it put into the memory of the caller, and the file after it. -/
abbrev ReadResult (σ : Type*) := ℤ × List UInt8 × CachedFile σ

def readThrough : ReadResult σ :=
  let (readRes, bytes) := io.readfile file.remote size offset
  (readRes, bytes, file)

def readCacheFlushed : ReadResult σ :=
  if ¬fileInfo.allowCaching ∨ fileInfo.cacheHits ≤ 0 ∨ ctx.isFileOpenByMultipleReaders then
    readThrough io file size offset
  else
    if size ≥ min (currentChunkSize cfg offset) cfg.bufSize then readThrough io file size offset
    else
      match ctx.instantBuf with
      | .none => readThrough io file size offset
      | .some buf =>
        let file := { file with cacheBuffer := { file.cacheBuffer with buf, bufType := .read } }
        let maxCacheLen := readAheadLen cfg size offset
        let (readRes, bytes) := io.readfile file.remote maxCacheLen offset
        if readRes ≤ 0 then (readRes, [], discardCache file)
        else if ¬ctx.userBufValid then (-addressFault, [], discardCache file)
        else
          let buf := FlatFile.overwrite 0 buf 0 bytes
          let copySize := min size readRes.toNat
          (copySize, buf.take copySize, { file with cacheBuffer :=
            { buf, bufUsageLen := readRes.toNat, bufUsageMaxLen := maxCacheLen,
              fileOffset := offset, bufType := .read } })

/-- The read range and the range of the read buffer overlap. -/
def readOverlapping : ReadResult σ :=
  let cacheBuffer := file.cacheBuffer
  let readEndOffset := offset + size - 1
  let cacheEndOffset := cacheBuffer.fileOffset + cacheBuffer.bufUsageLen - 1
  let remoteReadSize := if offset < cacheBuffer.fileOffset then
    (cacheBuffer.fileOffset - offset).toNat else 0
  let (readRes, before) := if offset < cacheBuffer.fileOffset then
    io.readfile file.remote remoteReadSize offset else (0, [])
  if readRes < remoteReadSize then (readRes, before, discardCache file)
  else
    let cacheCopyOffset := if offset ≤ cacheBuffer.fileOffset then 0
      else (offset - cacheBuffer.fileOffset).toNat
    let cacheCopySize := (min (cacheBuffer.fileOffset + cacheBuffer.bufUsageLen) (offset + size) -
      (cacheBuffer.fileOffset + cacheCopyOffset)).toNat
    if ¬ctx.userBufValid then (-addressFault, before, file)
    else
      let copied := FlatFile.slice cacheBuffer.buf cacheCopyOffset cacheCopySize
      if readEndOffset > cacheEndOffset then
        let (remainderRes, rest, file) := readCacheFlushed io cfg ctx fileInfo (discardCache file)
          (readEndOffset - cacheEndOffset).toNat (cacheEndOffset + 1)
        (if remainderRes < 0 then remainderRes
          else remoteReadSize + cacheCopySize + remainderRes, before ++ copied ++ rest, file)
      else (size, before ++ copied, file)

def readCached : ReadResult σ × FsFileInfo :=
  let fileInfo := ctx.fileInfo
  let cacheBuffer := file.cacheBuffer
  let readEndOffset := offset + size - 1
  if cfg.coherentMapping then (readThrough io file size offset, fileInfo.decCacheHits)
  else if (ctx.isFileOpenByMultipleReaders ∨ ¬fileInfo.allowCaching) ∧
      cacheBuffer.bufType = .none then
    -- the path of parallel readers
    (readThrough io file size offset, fileInfo)
  else
    match cacheBuffer.bufType with
    | .none =>
      let virtualCacheStart := fileInfo.lastReadOffset
      let virtualCacheEnd := virtualCacheStart + cfg.bufSize - 1
      let fileInfo := if virtualCacheEnd ≥ offset ∧ virtualCacheStart ≤ readEndOffset then
        fileInfo.incCacheHits else fileInfo.decCacheHits
      (readCacheFlushed io cfg ctx fileInfo file size offset, fileInfo)
    | .write =>
      let fileInfo := fileInfo.decCacheHits
      let (flushRes, file) := flushCacheUnlocked io file false
      if flushRes ≠ 0 then ((-flushRes, [], file), fileInfo)
      else (readCacheFlushed io cfg ctx fileInfo file size offset, fileInfo)
    | .read =>
      let cacheEndOffset := cacheBuffer.fileOffset + cacheBuffer.bufUsageLen - 1
      if cacheEndOffset < offset ∨ cacheBuffer.fileOffset > readEndOffset then
        let fileInfo := fileInfo.decCacheHits
        let (flushRes, file) := flushCacheUnlocked io file false
        if flushRes ≠ 0 then ((-flushRes, [], file), fileInfo)
        else (readCacheFlushed io cfg ctx fileInfo file size offset, fileInfo)
      else
        let fileInfo := fileInfo.incCacheHits
        (readOverlapping io cfg ctx fileInfo file size offset, fileInfo)

end FhgfsOpsHelper
end Congfs
