import Congfs.Caching.Refinement
import Congfs.Lib.Run
import Congfs.Remoting.SparseRead

/-!
# What a call leaves of the buffer

A call keeps the buffer of an inode, extends it, detaches it or attaches a new one. Bytes that were
not written yet must not get lost on the way, and the buffer must be large enough. Both go wrong: a
remote write that stores nothing is taken for a successful flush, and a small read at the start of a
file asks for more than a small buffer holds.
-/

namespace Congfs.FhgfsOpsHelper

variable {σ : Type*} {io : RemoteIO σ} {cfg : CacheConfig} {file : CachedFile σ}

section
variable (io : RemoteIO σ) (file : CachedFile σ) (cacheBuffer : CacheBuffer)

def used : List UInt8 := cacheBuffer.buf.take cacheBuffer.bufUsageLen

/-- The memory of a write buffer is there as far as it is used. -/
def Held : Prop :=
  cacheBuffer.bufType = .write → cacheBuffer.bufUsageLen ≤ cacheBuffer.buf.length

/-- What a call adds to a write buffer. -/
def CacheCall.added : CacheCall → List UInt8
  | .write _ data _ => data
  | _ => []

/-- The result of the remote write of the buffer with `more` behind it. -/
def writeRes (more : List UInt8) : ℤ :=
  (writeStatelessInode io file.remote (used (extendCache file more).cacheBuffer)
    file.cacheBuffer.fileOffset).1

/-- A write buffer was flushed, as it was or with what the call added to it. -/
def Released (call : CacheCall) : Prop :=
  file.cacheBuffer.bufType = .write → call ≠ .flush true →
    ∃ more ∈ [[], call.added], (flushCacheUnlocked io (extendCache file more) false).1 = 0

end

/-- What a call can do to the buffer. What was not cached of a read that touches the buffer is read
behind its start. -/
inductive BufferStep (io : RemoteIO σ) (cfg : CacheConfig) (file : CachedFile σ) :
    CacheCall → CacheBuffer → Prop where
  | kept : BufferStep io cfg file call file.cacheBuffer
  | extended (htype : file.cacheBuffer.bufType = .write)
      (hfit : data.length ≤ file.cacheBuffer.bufUsageMaxLen - file.cacheBuffer.bufUsageLen) :
      BufferStep io cfg file (.write ctx data offset) (extendCache file data).cacheBuffer
  | detached (h : Released io file call) (hnone : new.bufType = .none) :
      BufferStep io cfg file call new
  | write (h : Released io file (.write ctx data offset))
      (hlen : data.length < maxWriteCacheLen cfg offset) :
      BufferStep io cfg file (.write ctx data offset)
        ⟨FlatFile.overwrite 0 buf 0 data, data.length, maxWriteCacheLen cfg offset, offset, .write⟩
  | read (h : Released io file (.read ctx size offset))
      (hlen : size' < min (currentChunkSize cfg offset') cfg.bufSize)
      (hrange : size' = size ∧ offset' = offset ∨
        offset < offset' ∧ offset' + size' = offset + size) :
      BufferStep io cfg file (.read ctx size offset)
        ⟨buf, (io.readfile remote (readAheadLen cfg size' offset') offset').1.toNat,
          readAheadLen cfg size' offset', offset', .read⟩

/-! ## The cases of a call -/

variable {call : CacheCall}

theorem extendCache_nil : extendCache file [] = file := by
  simp [extendCache]

theorem flushCacheUnlocked_cases :
    (flushCacheUnlocked io file false).2.cacheBuffer = file.cacheBuffer ∨
      (flushCacheUnlocked io file false).1 = 0 ∧
        (flushCacheUnlocked io file false).2.cacheBuffer.bufType = .none := by
  cases htype : file.cacheBuffer.bufType with
  | none => simp [flushCacheUnlocked, htype]
  | read => simp [flushCacheUnlocked, htype, discardCache]
  | write =>
    simp only [flushCacheUnlocked, htype]
    split
    · exact .inl rfl
    · exact .inr ⟨rfl, rfl⟩

theorem writeCacheFlushed_buffer (h : Released io file (.write ctx data offset))
    (hstart : BufferStep io cfg file (.write ctx data offset) start.cacheBuffer) :
    BufferStep io cfg file (.write ctx data offset)
      (writeCacheFlushed io cfg ctx fileInfo start data offset).2.cacheBuffer := by
  unfold writeCacheFlushed
  dsimp only
  split
  · exact hstart
  split
  · exact hstart
  rename_i hlen
  cases ctx.instantBuf with
  | none => exact hstart
  | some buf =>
    dsimp only
    split
    · exact .detached h rfl
    · exact .write h (Nat.lt_of_not_le hlen)

theorem readCacheFlushed_buffer (h : Released io file (.read ctx size offset))
    (hrange : size' = size ∧ offset' = offset ∨ offset < offset' ∧ offset' + size' = offset + size)
    (hstart : BufferStep io cfg file (.read ctx size offset) start.cacheBuffer) :
    BufferStep io cfg file (.read ctx size offset)
      (readCacheFlushed io cfg ctx' fileInfo start size' offset').2.2.cacheBuffer := by
  unfold readCacheFlushed
  split
  · exact hstart
  split
  · exact hstart
  rename_i hlen
  cases ctx'.instantBuf with
  | none => exact hstart
  | some buf =>
    dsimp only
    split
    · exact .detached h rfl
    split
    · exact .detached h rfl
    · exact .read h (Nat.lt_of_not_le hlen) hrange

theorem bufferStep_flush (hres : (flushCacheUnlocked io file false).1 = 0) : Released io file call ∧
      BufferStep io cfg file call (flushCacheUnlocked io file false).2.cacheBuffer := by
  have h : Released io file call := fun _ _ => ⟨[], by simp, by rw [extendCache_nil]; exact hres⟩
  refine ⟨h, ?_⟩
  rcases @flushCacheUnlocked_cases _ io file with hkept | ⟨-, hnone⟩
  · rw [hkept]
    exact .kept
  · exact .detached h hnone

theorem bufferStep_of_failed (hres : (flushCacheUnlocked io file false).1 ≠ 0) :
    BufferStep io cfg file call (flushCacheUnlocked io file false).2.cacheBuffer := by
  rcases @flushCacheUnlocked_cases _ io file with hkept | ⟨hzero, -⟩
  · rw [hkept]
    exact .kept
  · exact absurd hzero hres

theorem released_of_ne (h : file.cacheBuffer.bufType ≠ .write) : Released io file call :=
  fun htype => absurd htype h

theorem bufferStep_write : BufferStep io cfg file (.write ctx data offset)
      (writeCached io cfg ctx file data offset).2.1.cacheBuffer := by
  unfold writeCached
  dsimp only
  split
  · exact .kept
  cases htype : file.cacheBuffer.bufType with
  | none => exact writeCacheFlushed_buffer (released_of_ne (by simp [htype])) .kept
  | read =>
    have h : Released io file (.write ctx data offset) := released_of_ne (by simp [htype])
    exact writeCacheFlushed_buffer h (.detached h rfl)
  | write =>
    dsimp only
    split
    · split_ifs with hres
      · exact bufferStep_of_failed ‹_›
      · obtain ⟨h, hflush⟩ := bufferStep_flush (not_not.mp hres)
        exact writeCacheFlushed_buffer h hflush
    · rename_i hfit
      have hlen := Nat.le_of_not_lt fun hlt => hfit (.inr (.inr hlt))
      split
      · exact .kept
      have hext : BufferStep io cfg file (.write ctx data offset)
        (extendCache file data).cacheBuffer :=
        .extended htype hlen
      split
      · -- the buffer is full
        rcases @flushCacheUnlocked_cases _ io (extendCache file data) with hkept | ⟨hzero, hnone⟩
        · split <;> exact hkept ▸ hext
        · rw [if_neg (by simp [hzero])]
          exact .detached (fun _ _ => ⟨data, by simp [CacheCall.added], hzero⟩) hnone
      · exact hext

theorem readOverlapping_cases {ctx : CallContext} {fileInfo : FsFileInfo} :
    (readOverlapping io cfg ctx fileInfo file size offset).2.2 = discardCache file ∨
    (readOverlapping io cfg ctx fileInfo file size offset).2.2 = file ∨
    offset + size > file.cacheBuffer.fileOffset + file.cacheBuffer.bufUsageLen ∧
      (readOverlapping io cfg ctx fileInfo file size offset).2.2 =
        (readCacheFlushed io cfg ctx fileInfo (discardCache file)
          (offset + size - (file.cacheBuffer.fileOffset + file.cacheBuffer.bufUsageLen)).toNat
          (file.cacheBuffer.fileOffset + file.cacheBuffer.bufUsageLen)).2.2 := by
  have hsize :
    offset + size - 1 - (file.cacheBuffer.fileOffset + file.cacheBuffer.bufUsageLen - 1) =
    offset + size - (file.cacheBuffer.fileOffset + file.cacheBuffer.bufUsageLen) := by omega
  simp only [readOverlapping, hsize, sub_add_cancel, gt_iff_lt, sub_lt_sub_iff_right]
  split_ifs <;> simp [*]

theorem bufferStep_read : BufferStep io cfg file (.read ctx size offset)
      (readCached io cfg ctx file size offset).1.2.2.cacheBuffer := by
  unfold readCached
  dsimp only
  split
  · exact .kept
  split
  · exact .kept
  cases htype : file.cacheBuffer.bufType with
  | none => exact readCacheFlushed_buffer (released_of_ne (by simp [htype])) (.inl ⟨rfl, rfl⟩) .kept
  | write =>
    dsimp only
    split_ifs with hres
    · exact bufferStep_of_failed ‹_›
    · obtain ⟨h, hflush⟩ := bufferStep_flush (not_not.mp hres)
      exact readCacheFlushed_buffer h (.inl ⟨rfl, rfl⟩) hflush
  | read =>
    dsimp only
    split
    · split_ifs with hres
      · exact bufferStep_of_failed ‹_›
      · obtain ⟨h, hflush⟩ := bufferStep_flush (not_not.mp hres)
        exact readCacheFlushed_buffer h (.inl ⟨rfl, rfl⟩) hflush
    · rename_i hoverlap
      have h : Released io file (.read ctx size offset) := released_of_ne (by simp [htype])
      rcases @readOverlapping_cases _ io cfg file size offset ctx _ with hgone | hsame
        | ⟨hrest, hread⟩
      · exact .detached h (by rw [hgone]; rfl)
      · rw [hsame]
        exact .kept
      · rw [hread]
        exact readCacheFlushed_buffer h (.inr ⟨by omega, by omega⟩) (.detached h rfl)

def cachedStep (io : RemoteIO σ) (cfg : CacheConfig) (file : CachedFile σ) (call : CacheCall) :
    CachedFile σ := (cachedCall io cfg file call).2

theorem bufferStep_cachedStep :
    BufferStep io cfg file call (cachedStep io cfg file call).cacheBuffer := by
  cases call with
  | read ctx size offset => exact bufferStep_read
  | write ctx data offset => exact bufferStep_write
  | flush discard =>
    cases discard with
    | false =>
      by_cases hres : (flushCacheUnlocked io file false).1 = 0
      · exact (bufferStep_flush hres).2
      · exact bufferStep_of_failed hres
    | true =>
      have h : Released io file (.flush true) := fun _ hne => absurd rfl hne
      cases htype : file.cacheBuffer.bufType with
      | none => simpa [cachedStep, cachedCall, flushCacheUnlocked, htype] using BufferStep.kept
      | read => exact .detached h (by simp [cachedStep, cachedCall, flushCacheUnlocked,
        htype, discardCache])
      | write =>
        refine .detached h ?_
        simp only [cachedStep, cachedCall, flushCacheUnlocked, htype]
        split <;> rfl

/-! ## Bytes that were not written yet -/

theorem Held.used_extendCache (h : Held file.cacheBuffer)
    (htype : file.cacheBuffer.bufType = .write) (more : List UInt8) :
    used (extendCache file more).cacheBuffer = used file.cacheBuffer ++ more :=
  FlatFile.take_overwrite (h htype)

theorem BufferStep.held (hstep : BufferStep io cfg file call new) (h : Held file.cacheBuffer) :
    Held new := by
  intro htype
  cases hstep with
  | kept => exact h htype
  | @extended _ data _ _ _ =>
    have hlen := congrArg List.length (h.used_extendCache htype data)
    have hused := h htype
    rw [used, used, List.length_append, List.length_take, List.length_take] at hlen
    exact (show file.cacheBuffer.bufUsageLen + data.length ≤
      (extendCache file data).cacheBuffer.buf.length by omega)
  | detached _ hnone => exact absurd (hnone.symm.trans htype) (by decide)
  | @write _ data _ buf _ _ =>
    have hlen := congrArg List.length (take_overwrite_zero buf data)
    rw [List.length_take] at hlen
    exact (show data.length ≤ (FlatFile.overwrite 0 buf 0 data).length by omega)
  | read => cases htype

def FlushHonest (io : RemoteIO σ) (file : CachedFile σ) (discardCacheOnError : Bool) : Prop :=
  ((flushCacheUnlocked io file discardCacheOnError).1 = 0 →
    writeRes io file [] = file.cacheBuffer.bufUsageLen ∧
      (flushCacheUnlocked io file discardCacheOnError).2.cacheBuffer.bufType = .none) ∧
  ((flushCacheUnlocked io file discardCacheOnError).1 ≠ 0 → discardCacheOnError = false →
    (flushCacheUnlocked io file discardCacheOnError).2.cacheBuffer = file.cacheBuffer)

theorem flushHonest_iff (htype : file.cacheBuffer.bufType = .write)
    (hle : writeRes io file [] ≤ file.cacheBuffer.bufUsageLen) (discard : Bool) :
    FlushHonest io file discard ↔
      (writeRes io file [] = 0 → file.cacheBuffer.bufUsageLen = 0) := by
  have hres : writeRes io file [] = (writeStatelessInode io file.remote
      (file.cacheBuffer.buf.take file.cacheBuffer.bufUsageLen) file.cacheBuffer.fileOffset).1 := by
    rw [writeRes, extendCache_nil, used]
  simp only [FlushHonest, flushCacheUnlocked, htype, hres] at hle ⊢
  split
  · rename_i hshort
    split
    · -- some of the bytes were written
      refine iff_of_true ⟨fun h => absurd (show noSpace = 0 from h) (by decide),
        fun _ hkeep => ?_⟩ (by omega)
      rw [hkeep]
      rfl
    · refine ⟨fun h hzero => absurd (h.1 (by omega)).1 (by omega), fun h => ⟨by omega, ?_⟩⟩
      intro _ hkeep
      rw [hkeep]
      rfl
  · exact iff_of_true ⟨fun _ => ⟨by omega, rfl⟩, fun h => absurd rfl h⟩ (by omega)

section

variable (io : RemoteIO σ) (file : CachedFile σ)

/-- The servers never write nothing of the bytes in a buffer. -/
def WritesSome (call : CacheCall) : Prop :=
  file.cacheBuffer.bufType = .write → ∀ more ∈ [[], call.added], writeRes io file more = 0 →
    file.cacheBuffer.bufUsageLen + more.length = 0

/-- All bytes of the buffer are written, maybe with more behind them. -/
def Written : Prop :=
  ∃ more, (writeStatelessInode io file.remote (used file.cacheBuffer ++ more)
    file.cacheBuffer.fileOffset).1 = (used file.cacheBuffer ++ more).length

/-- The bytes of a write buffer are still in the new one, or they were written. -/
def KeepsUnwritten (call : CacheCall) (new : CacheBuffer) : Prop :=
  file.cacheBuffer.bufType = .write → call ≠ .flush true →
    (new.bufType = .write ∧ new.fileOffset = file.cacheBuffer.fileOffset ∧
      used file.cacheBuffer <+: used new) ∨ Written io file

/-- No remote write reports more bytes than it was given. -/
def WritesAtMost : Prop :=
  ∀ remote data offset, (writeStatelessInode io remote data offset).1 ≤ data.length

end

theorem WritesAtMost.writeRes_le (hle : WritesAtMost io) (more : List UInt8) :
    writeRes io file more ≤ (extendCache file more).cacheBuffer.bufUsageLen := by
  have h := hle file.remote (used (extendCache file more).cacheBuffer) file.cacheBuffer.fileOffset
  have hused := List.length_take_le (extendCache file more).cacheBuffer.bufUsageLen
    (extendCache file more).cacheBuffer.buf
  exact h.trans (by exact_mod_cast hused)

theorem Released.written (hr : Released io file call) (hle : WritesAtMost io)
    (h : Held file.cacheBuffer) (hsome : WritesSome io file call)
    (htype : file.cacheBuffer.bufType = .write) (hcall : call ≠ .flush true) : Written io file := by
  obtain ⟨more, hmore, hflush⟩ := hr htype hcall
  have hres : writeRes io (extendCache file more) [] = writeRes io file more := by
    rfl
  have hhonest := (@flushHonest_iff _ io (extendCache file more) htype
    (hle.writeRes_le []) false).mpr fun hzero => hsome htype more hmore (hres ▸ hzero)
  have hall := (hhonest.1 hflush).1
  rw [hres, writeRes, h.used_extendCache htype] at hall
  refine ⟨more, hall.trans ?_⟩
  rw [List.length_append, used, List.length_take, min_eq_left (h htype)]
  rfl

theorem BufferStep.keepsUnwritten (hstep : BufferStep io cfg file call new) (hle : WritesAtMost io)
    (h : Held file.cacheBuffer) (hsome : WritesSome io file call) :
    KeepsUnwritten io file call new := by
  intro htype hcall
  cases hstep with
  | kept => exact .inl ⟨htype, rfl, List.prefix_rfl⟩
  | @extended _ data _ _ _ =>
    exact .inl ⟨htype, rfl, h.used_extendCache htype data ▸ List.prefix_append _ _⟩
  | detached hr _ => exact .inr (hr.written hle h hsome htype hcall)
  | write hr _ => exact .inr (hr.written hle h hsome htype hcall)
  | read hr _ _ => exact .inr (hr.written hle h hsome htype hcall)

/-- A flush keeps its promise exactly if the remote write stores some of the bytes of the buffer,
and in a run where every one does no call replaces a buffer whose bytes were not written. -/
theorem flush_never_loses (io : RemoteIO σ) (hle : WritesAtMost io) :
    (∀ file discardCacheOnError, file.cacheBuffer.bufType = .write →
      (FlushHonest io file discardCacheOnError ↔
        (writeRes io file [] = 0 → file.cacheBuffer.bufUsageLen = 0))) ∧
    ∀ cfg file, Held file.cacheBuffer → ∀ calls,
      EveryStep (cachedStep io cfg) (WritesSome io) file calls →
        EveryStep (cachedStep io cfg) (fun file call =>
          KeepsUnwritten io file call (cachedStep io cfg file call).cacheBuffer) file calls := by
  refine ⟨fun file discard htype => ?_, fun cfg file hfile calls hcalls => ?_⟩
  · refine flushHonest_iff htype ?_ discard
    simpa [extendCache_nil] using @WritesAtMost.writeRes_le _ io file hle []
  · refine everyStep_of_inv (I := fun file => Held file.cacheBuffer)
      (fun file call hsome h => ?_) hfile hcalls
    have hstep := @bufferStep_cachedStep _ io cfg file call
    exact ⟨hstep.held h, hstep.keepsUnwritten hle h hsome⟩

/-- Two bytes wait to be written at offset 1. -/
def pendingFile : CachedFile (List UInt8) := ⟨⟨[1, 2], 2, 8, 1, .write⟩, [5]⟩

theorem flush_never_loses_pendingFile : FlushHonest flatRemote pendingFile true ∧
      EveryStep (cachedStep flatRemote smallBuffers) (fun file call =>
      KeepsUnwritten flatRemote file call
        (cachedStep flatRemote smallBuffers file call).cacheBuffer) pendingFile
        [.write hitContext [9] 7] := by
  have hle : WritesAtMost flatRemote := by
    intro remote data offset
    by_cases happ : offset = -1 <;>
      simp [writeStatelessInode, writefileEx, appendfile, flatRemote, happ]
  obtain ⟨hflush, hrun⟩ := flush_never_loses flatRemote hle
  refine ⟨(hflush pendingFile true rfl).mpr (by decide), hrun smallBuffers pendingFile ?_ _
    ⟨?_, trivial⟩⟩
  · exact fun _ => by decide
  · unfold WritesSome
    decide

def fullRemote : RemoteIO (List UInt8) :=
  { flatRemote with writefile := fun remote _ _ => (0, remote) }

/-- The flush succeeds, and the next write takes the place of the bytes that were not written. -/
theorem flush_loses_pendingFile :
    (flushCacheUnlocked fullRemote pendingFile false).1 = 0 ∧ writeRes fullRemote
    pendingFile [] = 0 ∧
      (flushCacheUnlocked fullRemote pendingFile false).2.cacheBuffer.bufType = .write ∧
      used (cachedStep fullRemote smallBuffers pendingFile (.write hitContext [9] 7)).cacheBuffer =
        [9] := by
  decide

/-! ## The size of a buffer -/

/-- A buffer is not larger than the memory the store gave out for it and ends within the chunk where
it starts. -/
def InBounds (cfg : CacheConfig) (cacheBuffer : CacheBuffer) : Prop :=
  cacheBuffer.bufType ≠ .none → cacheBuffer.bufUsageLen ≤ cacheBuffer.bufUsageMaxLen ∧
    cacheBuffer.bufUsageMaxLen ≤ cfg.bufSize ∧
    (cacheBuffer.fileOffset ≠ -1 → cacheBuffer.fileOffset.toNat % cfg.pattern.layout.chunk +
      cacheBuffer.bufUsageMaxLen ≤ cfg.pattern.layout.chunk)

/-- If a read of this size at the start of a file gets a buffer, then as much as is read there at
least fits into the buffer and into a chunk. -/
def StartFits (cfg : CacheConfig) (size : ℕ) : Prop :=
  size < min cfg.pattern.layout.chunk cfg.bufSize → size < FsFileInfo.cacheSlowstartReadlen →
    FsFileInfo.cacheSlowstartReadlen ≤ min cfg.pattern.layout.chunk cfg.bufSize

/-- Offsets are not negative, but for the -1 of an append, and reads at the start fit. -/
def CacheCall.Fits (cfg : CacheConfig) : CacheCall → Prop
  | .read _ size offset => 0 ≤ offset ∧ (offset = 0 → StartFits cfg size)
  | .write _ _ offset => -1 ≤ offset
  | .flush _ => True

theorem currentChunkSize_eq (h : 0 ≤ offset) : currentChunkSize cfg offset =
    cfg.pattern.layout.chunk - offset.toNat % cfg.pattern.layout.chunk := by
  obtain ⟨p, rfl⟩ := Int.eq_ofNat_of_zero_le h
  exact Splitter.toNat_currentChunkSize_ofNat ⟨.raid0, cfg.pattern, fun _ _ => true, false⟩ p

theorem readAheadLen_le (h : offset = 0 → StartFits cfg size)
    (hlen : size < min (currentChunkSize cfg offset) cfg.bufSize) :
    readAheadLen cfg size offset ≤ min (currentChunkSize cfg offset) cfg.bufSize := by
  unfold readAheadLen
  split_ifs with hstart
  · obtain ⟨rfl, hsize⟩ := hstart
    rw [currentChunkSize_eq le_rfl] at hlen ⊢
    exact h rfl hlen hsize
  · exact le_rfl

theorem BufferStep.inBounds (hstep : BufferStep io cfg file call new)
    (hread : ∀ remote size (offset : ℤ), 0 ≤ offset → (io.readfile remote size offset).1 ≤ size)
    (hcall : call.Fits cfg) (h : InBounds cfg file.cacheBuffer) : InBounds cfg new := by
  have hchunk (n : ℕ) := Nat.mod_lt n cfg.pattern.layout.chunk_pos
  intro htype
  cases hstep with
  | kept => exact h htype
  | @extended _ data _ _ hfit =>
    obtain ⟨hlen, hmax⟩ := h htype
    exact ⟨show file.cacheBuffer.bufUsageLen + data.length ≤
      file.cacheBuffer.bufUsageMaxLen by omega, hmax⟩
  | detached _ hnone => exact absurd hnone htype
  | @write _ data offset _ _ hlen =>
    refine ⟨hlen.le, ?_, fun hoff => ?_⟩
    · dsimp only [maxWriteCacheLen]
      split
      · exact le_rfl
      · exact min_le_right _ _
    · have hpos : -1 ≤ offset := hcall
      have hmod := hchunk offset.toNat
      dsimp only at hoff ⊢
      rw [maxWriteCacheLen, if_neg hoff, currentChunkSize_eq (by omega)]
      omega
  | @read _ size offset size' offset' _ _ _ hlen hrange =>
    have hpos : 0 ≤ offset := hcall.1
    have hstart : offset' = 0 → StartFits cfg size' := by
      rcases hrange with ⟨rfl, rfl⟩ | ⟨hlt, -⟩
      · exact hcall.2
      · omega
    have hahead := readAheadLen_le hstart hlen
    have hpos' : 0 ≤ offset' := by omega
    rw [le_min_iff, currentChunkSize_eq hpos'] at hahead
    have hmod := hchunk offset'.toNat
    exact ⟨Int.toNat_le.mpr (hread _ _ _ hpos'), hahead.2, fun _ => by dsimp only; omega⟩

/-- In a run whose reads at the start of the file fit, every buffer is large enough. Servers may
answer in full, so that this also bounds what a call asks them for. -/
theorem inBounds_of_reachable {io : RemoteIO σ}
    (hread : ∀ remote size offset, (io.readfile remote size offset).1 ≤ size)
    (hnone : file.cacheBuffer.bufType = .none) {file' : CachedFile σ}
    (h : Reachable (cachedStep io cfg) (CacheCall.Fits cfg) file file') :
    InBounds cfg file'.cacheBuffer :=
  h.inv (P := fun file => InBounds cfg file.cacheBuffer) (fun htype => absurd hnone htype)
    fun _ _ hcall hs => bufferStep_cachedStep.inBounds (fun _ _ _ _ => hread _ _ _) hcall hs

/-- Buffers and chunks of the size that is read at the start at least. -/
def startBuffers : CacheConfig := { smallBuffers with bufSize := FsFileInfo.cacheSlowstartReadlen }

def storedFile : CachedFile (List UInt8) := ⟨⟨[], 0, 0, 0, .none⟩, [1, 2, 3, 4, 5, 6, 7, 8, 9]⟩

theorem inBounds_of_reachable_storedFile :
    InBounds startBuffers (cachedStep flatRemote startBuffers storedFile
    (.read hitContext 1 0)).cacheBuffer ∧
      (cachedStep flatRemote startBuffers storedFile
        (.read hitContext 1 0)).cacheBuffer.bufUsageLen = 9 := by
  refine ⟨inBounds_of_reachable (fun remote size offset => ?_) rfl
    (.step .init ⟨le_rfl, ?_⟩), by decide⟩
  · simp [flatRemote]
  · intro _ _ _
    decide

/-- A read of one byte puts nine into a buffer of eight. -/
theorem not_inBounds_storedFile :
    (cachedStep flatRemote smallBuffers storedFile (.read hitContext 1 0)).cacheBuffer.bufUsageLen =
      9 ∧ smallBuffers.bufSize = 8 ∧
      ¬InBounds smallBuffers
        (cachedStep flatRemote smallBuffers storedFile (.read hitContext 1 0)).cacheBuffer := by
  refine ⟨by decide, rfl, fun h => ?_⟩
  exact absurd (h (by decide)).2.1 (by decide)

/-! ## Runs in real memory -/

section
variable (io : RemoteIO σ) (cfg : CacheConfig)

/-- A call that leaves more in a buffer than its memory holds has written behind it. -/
def memoryCall (file : CachedFile σ) (call : CacheCall) :
    Option ((ℤ × List UInt8) × CachedFile σ) :=
  let (out, file) := cachedCall io cfg file call
  if file.cacheBuffer.bufType ≠ .none ∧ cfg.bufSize < file.cacheBuffer.bufUsageLen then none
  else some (out, file)

def memoryRun (file : CachedFile σ) : List CacheCall → Option (List (ℤ × List UInt8) × CachedFile σ)
  | [] => some ([], file)
  | call :: calls => do
    let (out, file) ← memoryCall io cfg file call
    let (outs, file) ← memoryRun file calls
    some (out :: outs, file)

end

theorem InBounds.memoryCall_eq (h : InBounds cfg (cachedStep io cfg file call).cacheBuffer) :
    memoryCall io cfg file call = some (cachedCall io cfg file call) := by
  refine if_neg ?_
  rintro ⟨htype, hlarge⟩
  obtain ⟨hused, hmax, -⟩ := h htype
  exact absurd hlarge (not_lt.mpr (hused.trans hmax))

theorem memoryRun_eq_cachedRun
    (hread : ∀ remote size (offset : ℤ), 0 ≤ offset → (io.readfile remote size offset).1 ≤ size)
    {calls : List CacheCall} (hcalls : ∀ call ∈ calls, call.Fits cfg)
    (h : InBounds cfg file.cacheBuffer) :
    memoryRun io cfg file calls = some (cachedRun io cfg file calls) := by
  induction calls generalizing file with
  | nil => rfl
  | cons call calls ih =>
    have hstep := (@bufferStep_cachedStep _ io cfg file call).inBounds hread
      (hcalls call List.mem_cons_self) h
    have hrest := ih (fun c hc => hcalls c (List.mem_cons_of_mem _ hc)) hstep
    rw [cachedStep] at hrest
    simp [memoryRun, cachedRun, hstep.memoryCall_eq, hrest]

/-- In a run that starts without a buffer and whose reads at the start of the file fit, every call
gives the result and the bytes of the direct run, and a flush behind it succeeds and leaves the
content of the direct run on the servers. -/
theorem memoryRun_eq_directRun {content : σ → List UInt8} (hio : io.Complete content)
    (hnone : file.cacheBuffer.bufType = .none) {calls : List CacheCall}
    (hcalls : ∀ call ∈ calls, call.Admissible ∧ call.Fits cfg) (discardCacheOnError : Bool) :
    ∃ file', memoryRun io cfg file calls = some ((directRun (content file.remote) calls).1, file') ∧
      (flushCacheUnlocked io file' discardCacheOnError).1 = 0 ∧
      content (flushCacheUnlocked io file' discardCacheOnError).2.remote =
        (directRun (content file.remote) calls).2 := by
  have hread (remote : σ) (size : ℕ) (offset : ℤ) (hoff : 0 ≤ offset) :
      (io.readfile remote size offset).1 ≤ size := by
    simp [hio.readfile _ _ _ hoff]
  obtain ⟨houts, hflush⟩ := @cachedRun_eq_directRun _ io content cfg file hio hnone calls
    (fun call hcall => (hcalls call hcall).1) discardCacheOnError
  refine ⟨_, ?_, hflush⟩
  rw [memoryRun_eq_cachedRun hread (fun call hcall => (hcalls call hcall).2) fun htype =>
    absurd hnone htype,
    ← houts]

theorem memoryRun_eq_directRun_bufferedCalls : ∃ file',
    memoryRun flatRemote smallBuffers ⟨⟨[], 0, 0, 0, .none⟩, []⟩ bufferedCalls =
      some ([(2, []), (1, []), (1, []), (4, [1, 2, 3, 4])], file') := by
  obtain ⟨file', hrun, -⟩ := @memoryRun_eq_directRun _ flatRemote smallBuffers
    ⟨⟨[], 0, 0, 0, .none⟩, []⟩ _ flatRemote_complete rfl bufferedCalls (by
      simp [bufferedCalls, CacheCall.Admissible, CacheCall.Fits, hitContext]) false
  exact ⟨file', hrun⟩

/-- The direct run gives the first of the nine bytes. -/
theorem memoryRun_storedFile : memoryRun flatRemote smallBuffers storedFile
    [.read hitContext 1 0] = none ∧
    (directRun storedFile.remote [.read hitContext 1 0]).1 = [(1, [1])] := by
  decide

end Congfs.FhgfsOpsHelper
