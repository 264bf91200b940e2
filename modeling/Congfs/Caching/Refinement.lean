import Congfs.Caching.CachedFile

/-!
# Buffered access is direct access

`Represents` relates the buffer and the remote content of a file to the content the file would have
if every write had been sent at once. Each of the calls has one lemma that says what it does to that
content, and a run is put together from them.
-/

namespace Congfs

open FlatFile

/-- Every remote call succeeds and transfers all there is to transfer; `content` is what the servers
store. -/
structure RemoteIO.Complete {σ : Type*} (io : RemoteIO σ) (content : σ → List UInt8) : Prop where
  readfile : ∀ remote size (offset : ℤ), 0 ≤ offset → io.readfile remote size offset =
    (((slice (content remote) offset.toNat size).length : ℤ),
      slice (content remote) offset.toNat size)
  writefile_res : ∀ remote data (offset : ℤ), 0 ≤ offset →
    (io.writefile remote data offset).1 = data.length
  writefile_content : ∀ remote data (offset : ℤ), 0 ≤ offset →
    content (io.writefile remote data offset).2 = overwrite 0 (content remote) offset.toNat data
  statDirect : ∀ remote, io.statDirect remote = (0, ((content remote).length : ℤ))
  getAppendLock : ∀ remote, io.getAppendLock remote = 0
  referenceHandle : ∀ remote, io.referenceHandle remote = 0
  releaseHandle : ∀ remote, io.releaseHandle remote = 0

namespace FhgfsOpsHelper

/-- The content after a write, sent at once. -/
def directWrite (direct data : List UInt8) (offset : ℤ) : List UInt8 :=
  if offset = -1 then direct ++ data else overwrite 0 direct offset.toNat data

section
variable {σ : Type*} (content : σ → List UInt8)

/-- The file has the content `direct`, part of which may still be in the buffer. -/
def Represents (file : CachedFile σ) (direct : List UInt8) : Prop :=
  let cacheBuffer := file.cacheBuffer
  let used := cacheBuffer.buf.take cacheBuffer.bufUsageLen
  match cacheBuffer.bufType with
  | .none => direct = content file.remote
  | .read => direct = content file.remote ∧ 0 ≤ cacheBuffer.fileOffset ∧
      used = slice direct cacheBuffer.fileOffset.toNat cacheBuffer.bufUsageLen ∧
      used.length = cacheBuffer.bufUsageLen
  | .write => -1 ≤ cacheBuffer.fileOffset ∧ used.length = cacheBuffer.bufUsageLen ∧
      direct = directWrite (content file.remote) used cacheBuffer.fileOffset

end

variable {σ : Type*} {io : RemoteIO σ} {content : σ → List UInt8} {cfg : CacheConfig}
  {ctx : CallContext} {fileInfo : FsFileInfo} {file : CachedFile σ} {direct data : List UInt8}
  {offset : ℤ} {size : ℕ}

/-! ## The remote calls -/

theorem represents_of_none (hnone : file.cacheBuffer.bufType = .none) :
    Represents content file direct ↔ direct = content file.remote := by
  simp [Represents, hnone]

theorem discardCache_represents (h : direct = content file.remote) :
    Represents content (discardCache file) direct :=
  (represents_of_none rfl).mpr h

theorem directWrite_append (hlen : offset ≠ -1 → 0 ≤ offset) :
    directWrite (directWrite direct data offset) data'
      (if offset = -1 then -1 else offset + data.length) = directWrite direct
      (data ++ data') offset := by
  by_cases happ : offset = -1
  · simp [directWrite, happ]
  · have hne : offset + data.length ≠ -1 := by omega
    have htoNat : (offset + (data.length : ℤ)).toNat = offset.toNat + data.length := by omega
    simp only [directWrite, if_neg happ, if_neg hne, htoNat]
    exact overwrite_append

/-- Without a buffer, and if the memory of the caller can be read, the data is sent at once or put
at the front of a new buffer. -/
theorem writeCacheFlushed_cases (hvalid : ctx.userBufValid) :
    writeCacheFlushed io cfg ctx fileInfo file data offset = writeThrough io file data offset ∨
      ∃ buf, data.length < maxWriteCacheLen cfg offset ∧
        writeCacheFlushed io cfg ctx fileInfo file data offset =
          ((data.length : ℤ), { file with cacheBuffer :=
            { buf := overwrite 0 buf 0 data, bufUsageLen := data.length,
              bufUsageMaxLen := maxWriteCacheLen cfg offset, fileOffset := offset,
              bufType := .write } }) := by
  unfold writeCacheFlushed
  dsimp only
  split
  · exact .inl rfl
  split
  · exact .inl rfl
  rename_i hlt
  cases ctx.instantBuf with
  | none => exact .inl rfl
  | some buf => exact .inr ⟨buf, Nat.lt_of_not_le hlt, rfl⟩

theorem take_overwrite_zero (buf data : List UInt8) :
    (overwrite 0 buf 0 data).take data.length = data := by
  have h := @take_overwrite _ 0 buf data 0 (Nat.zero_le _)
  rwa [zero_add, List.take_zero, List.nil_append] at h

theorem extendCache_represents (htype : file.cacheBuffer.bufType = .write)
    (h : Represents content file direct) (happ : offset = -1 ↔ file.cacheBuffer.fileOffset = -1)
    (hend : offset ≠ -1 → offset = file.cacheBuffer.fileOffset + file.cacheBuffer.bufUsageLen) :
    Represents content (extendCache file data) (directWrite direct data offset) := by
  simp only [Represents, extendCache, htype] at h ⊢
  obtain ⟨hoff, hlen, hdirect⟩ := h
  have hle : file.cacheBuffer.bufUsageLen ≤ file.cacheBuffer.buf.length := by
    rw [List.length_take] at hlen
    omega
  have hoffset : offset = if file.cacheBuffer.fileOffset = -1 then -1
      else file.cacheBuffer.fileOffset +
        (file.cacheBuffer.buf.take file.cacheBuffer.bufUsageLen).length := by
    rw [hlen]
    split
    · exact happ.mpr ‹_›
    · exact hend (mt happ.mp ‹_›)
  rw [take_overwrite hle]
  refine ⟨hoff, by rw [List.length_append, hlen], ?_⟩
  rw [hdirect, hoffset]
  exact directWrite_append fun hne => by omega

section
variable (hio : io.Complete content)
include hio

theorem writefileEx_spec (remote : σ) (data : List UInt8) (hoff : -1 ≤ offset) :
    (writefileEx io remote data offset).1 = data.length ∧
      content (writefileEx io remote data offset).2 = directWrite (content remote) data offset := by
  by_cases happ : offset = -1
  · simp [writefileEx, appendfile, directWrite, happ, hio.getAppendLock, hio.statDirect,
      hio.writefile_res, hio.writefile_content, overwrite_length]
  · have hoff' : 0 ≤ offset := by omega
    simp [writefileEx, directWrite, happ, hio.writefile_res _ _ _ hoff',
      hio.writefile_content _ _ _ hoff']

theorem writeStatelessInode_eq (remote : σ) (hoff : -1 ≤ offset) :
    writeStatelessInode io remote data offset = writefileEx io remote data offset := by
  have hres := (writefileEx_spec hio remote data hoff).1
  have hnn : ¬(writefileEx io remote data offset).1 < 0 := by omega
  simp [writeStatelessInode, hio.referenceHandle, hio.releaseHandle, hnn]

/-! ## Without a buffer -/

theorem writeThrough_spec (hnone : file.cacheBuffer.bufType = .none)
    (h : direct = content file.remote) (hoff : -1 ≤ offset) :
    (writeThrough io file data offset).1 = data.length ∧
      Represents content (writeThrough io file data offset).2 (directWrite direct data offset) := by
  obtain ⟨hres, hcontent⟩ := writefileEx_spec hio file.remote data hoff
  have hnone' : (writeThrough io file data offset).2.cacheBuffer.bufType = .none := hnone
  refine ⟨hres, (represents_of_none hnone').mpr ?_⟩
  rw [h]
  exact hcontent.symm

theorem flushCacheUnlocked_spec (h : Represents content file direct) (discard : Bool) :
    (flushCacheUnlocked io file discard).1 = 0 ∧
      (flushCacheUnlocked io file discard).2.cacheBuffer.bufType = .none ∧
      direct = content (flushCacheUnlocked io file discard).2.remote := by
  cases htype : file.cacheBuffer.bufType with
  | none =>
    rw [represents_of_none htype] at h
    simp [flushCacheUnlocked, htype, h]
  | read =>
    simp only [Represents, htype] at h
    simp [flushCacheUnlocked, htype, discardCache, h.1]
  | write =>
    simp only [Represents, htype] at h
    obtain ⟨hoff, hlen, hdirect⟩ := h
    obtain ⟨hres, hcontent⟩ := writefileEx_spec hio file.remote
      (file.cacheBuffer.buf.take file.cacheBuffer.bufUsageLen) hoff
    rw [hlen] at hres
    simp [flushCacheUnlocked, htype, writeStatelessInode_eq hio _ hoff, hres, discardCache,
      hcontent, hdirect]

/-! ## Writing -/

theorem writeCacheFlushed_spec
    (hnone : file.cacheBuffer.bufType = .none) (h : direct = content file.remote)
    (hoff : -1 ≤ offset) (hvalid : ctx.userBufValid) :
    (writeCacheFlushed io cfg ctx fileInfo file data offset).1 = data.length ∧
      Represents content (writeCacheFlushed io cfg ctx fileInfo file data offset).2
        (directWrite direct data offset) := by
  rcases writeCacheFlushed_cases hvalid with heq | ⟨buf, -, heq⟩ <;> rw [heq]
  · exact writeThrough_spec hio hnone h hoff
  · have htake := take_overwrite_zero buf data
    exact ⟨rfl, hoff, by rw [htake], by rw [htake, h]⟩

/-- What a write does to the content, with a buffer of any kind and whatever the call finds. -/
theorem writeCached_spec (hmap : cfg.coherentMapping →
    file.cacheBuffer.bufType = .none) (h : Represents content file direct) (hoff : -1 ≤ offset)
    (hvalid : ctx.userBufValid) :
    (writeCached io cfg ctx file data offset).1 = data.length ∧
      Represents content (writeCached io cfg ctx file data offset).2.1
        (directWrite direct data offset) := by
  unfold writeCached
  by_cases hcoherent : cfg.coherentMapping
  · rw [if_pos hcoherent]
    exact writeThrough_spec hio (hmap hcoherent) ((represents_of_none (hmap hcoherent)).mp h) hoff
  rw [if_neg hcoherent]
  dsimp only
  cases htype : file.cacheBuffer.bufType with
  | none =>
    exact writeCacheFlushed_spec hio htype ((represents_of_none htype).mp h) hoff hvalid
  | read =>
    simp only [Represents, htype] at h
    exact writeCacheFlushed_spec hio rfl h.1 hoff hvalid
  | write =>
    dsimp only
    by_cases hfit : ¬(offset = -1 ↔ file.cacheBuffer.fileOffset = -1) ∨
        (¬offset = -1 ∧ offset ≠ file.cacheBuffer.fileOffset + file.cacheBuffer.bufUsageLen) ∨
        data.length > file.cacheBuffer.bufUsageMaxLen - file.cacheBuffer.bufUsageLen
    · rw [if_pos hfit]
      obtain ⟨hres, hnone, hremote⟩ := flushCacheUnlocked_spec hio h false
      rw [if_neg (by simp [hres])]
      exact writeCacheFlushed_spec hio hnone hremote hoff hvalid
    · rw [if_neg hfit, if_neg (by simp [hvalid])]
      push Not at hfit
      obtain ⟨happ, hend, -⟩ := hfit
      have hext := @extendCache_represents _ _ _ _ data _ htype h happ hend
      split
      · -- the buffer is full
        obtain ⟨hres, hnone, hremote⟩ := flushCacheUnlocked_spec hio hext false
        rw [if_neg (by simp [hres])]
        exact ⟨rfl, (represents_of_none hnone).mpr hremote⟩
      · exact ⟨rfl, hext⟩

/-! ## Reading -/

theorem readThrough_spec (h : direct = content file.remote) (hoff : 0 ≤ offset) :
    readThrough io file size offset = (((slice direct offset.toNat size).length : ℤ),
      slice direct offset.toNat size, file) := by
  simp [readThrough, hio.readfile _ _ _ hoff, h]

end

/-- Without a buffer, and if the memory of the caller can be written, a read is direct, or finds the
end of the file, or fills a new buffer. -/
theorem readCacheFlushed_cases (hvalid : ctx.userBufValid) :
    readCacheFlushed io cfg ctx fileInfo file size offset = readThrough io file size offset ∨
      ∃ buf, size < min (currentChunkSize cfg offset) cfg.bufSize ∧
        readCacheFlushed io cfg ctx fileInfo file size offset =
          let (readRes, bytes) := io.readfile file.remote (readAheadLen cfg size offset) offset
          if readRes ≤ 0 then (readRes, [], discardCache file)
          else
            ((min size readRes.toNat : ℕ), (overwrite 0 buf 0 bytes).take
              (min size readRes.toNat), { file with cacheBuffer :=
                { buf := overwrite 0 buf 0 bytes, bufUsageLen := readRes.toNat,
                  bufUsageMaxLen := readAheadLen cfg size offset, fileOffset := offset,
                  bufType := .read } }) := by
  unfold readCacheFlushed
  split
  · exact .inl rfl
  split
  · exact .inl rfl
  rename_i hlt
  cases ctx.instantBuf with
  | none => exact .inl rfl
  | some buf => exact .inr ⟨buf, Nat.lt_of_not_le hlt, by simp [discardCache]⟩

theorem size_le_readAheadLen (h : size < min (currentChunkSize cfg offset) cfg.bufSize) :
    size ≤ readAheadLen cfg size offset := by
  unfold readAheadLen
  split
  · omega
  · exact h.le

/-- What a read of `direct` gives, and that the file still has that content. -/
def ReadsDirect (content : σ → List UInt8) (direct : List UInt8) (size : ℕ) (offset : ℤ)
    (res : ReadResult σ) : Prop :=
  res.1 = (slice direct offset.toNat size).length ∧
    res.2.1 = slice direct offset.toNat size ∧ Represents content res.2.2 direct

theorem readCacheFlushed_spec (hio : io.Complete content)
    (hnone : file.cacheBuffer.bufType = .none) (h : direct = content file.remote)
    (hoff : 0 ≤ offset) (hvalid : ctx.userBufValid) :
    ReadsDirect content direct size offset
      (readCacheFlushed io cfg ctx fileInfo file size offset) := by
  rcases readCacheFlushed_cases hvalid with heq | ⟨buf, hsize, heq⟩ <;> rw [heq]
  · rw [readThrough_spec hio h hoff]
    exact ⟨rfl, rfl, (represents_of_none hnone).mpr h⟩
  have hle := size_le_readAheadLen hsize
  rw [hio.readfile _ _ _ hoff, ← h]
  generalize readAheadLen cfg size offset = n at hle ⊢
  -- what the caller gets is the front of what was read ahead
  have hfront : (slice direct offset.toNat n).take size = slice direct offset.toNat size := by
    simp [slice, List.take_take, min_eq_left hle]
  have hlen : (slice direct offset.toNat size).length =
      min size (slice direct offset.toNat n).length := by
    rw [← hfront, List.length_take]
  have hself : slice direct offset.toNat (slice direct offset.toNat n).length =
      slice direct offset.toNat n := slice_length_slice
  generalize slice direct offset.toNat n = bytes at hfront hlen hself ⊢
  dsimp only
  split
  · have hnil : bytes = [] := List.length_eq_zero_iff.mp (by omega)
    subst hnil
    rw [List.take_nil] at hfront
    refine ⟨?_, hfront, discardCache_represents h⟩
    rw [← hfront]
  · have htake := take_overwrite_zero buf bytes
    have hcopy : (overwrite 0 buf 0 bytes).take (min size bytes.length) =
        slice direct offset.toNat size := by
      rw [← List.take_take, htake, hfront]
    simp only [Int.toNat_natCast]
    exact ⟨by rw [hlen], hcopy, h, hoff, by rw [htake, hself], by rw [htake]⟩

theorem slice_cacheBuffer (hu : buf.take u = slice direct c u) (hk : k + m ≤ u) :
    slice buf k m = slice direct (c + k) m := by
  have hbuf : slice buf 0 u = buf.take u := rfl
  have h := @slice_slice _ buf 0 u m k hk
  rw [zero_add, hbuf, hu] at h
  rw [← h]
  exact slice_slice hk

/-! A read of `size` bytes at `o` that touches a buffer of `u` bytes at `c` has three parts: before
the buffer, out of the buffer, and behind it. -/

section
variable {o c u : ℕ}

/-- How many bytes are copied out of the buffer. -/
def copySize (o c u size : ℕ) : ℕ := min (c + u) (o + size) - (c + (o - c))

theorem toNat_copySize :
    (min ((c : ℤ) + u) (o + size) - (c + ((o - c : ℕ) : ℤ))).toNat = copySize o c u size := by
  rw [copySize]
  omega

theorem copySize_le (h : o < c + u) : o - c + copySize o c u size ≤ u := by
  rw [copySize]
  omega

theorem size_of_inside (hbefore : c < o + size) (hin : o + size ≤ c + u) :
    size = (c - o) + copySize o c u size := by
  rw [copySize]
  omega

theorem size_of_rest (hbehind : o < c + u) (hrest : c + u < o + size) :
    size = (c - o) + copySize o c u size + (o + size - (c + u)) := by
  rw [copySize]
  omega

theorem end_of_copy (hbehind : o < c + u) (hrest : c + u < o + size) :
    c + u = o + ((c - o) + copySize o c u size) := by
  rw [copySize]
  omega

end

theorem readOverlapping_spec (hio : io.Complete content) (htype : file.cacheBuffer.bufType = .read)
    (h : Represents content file direct) (hoff : 0 ≤ offset) (hvalid : ctx.userBufValid)
    (hbehind : offset ≤ file.cacheBuffer.fileOffset + file.cacheBuffer.bufUsageLen - 1)
    (hbefore : file.cacheBuffer.fileOffset ≤ offset + size - 1) :
    ReadsDirect content direct size offset
      (readOverlapping io cfg ctx fileInfo file size offset) := by
  have hrep := h
  simp only [Represents, htype] at h
  obtain ⟨hremote, hcoff, hused, hlen⟩ := h
  obtain ⟨o, rfl⟩ := Int.eq_ofNat_of_zero_le hoff
  obtain ⟨c, hc⟩ := Int.eq_ofNat_of_zero_le hcoff
  obtain ⟨u, hu⟩ : ∃ u, u = file.cacheBuffer.bufUsageLen := ⟨_, rfl⟩
  rw [hc, ← hu, Int.toNat_natCast] at hused
  rw [← hu] at hlen
  have hbehind' : o < c + u := by omega
  have hbefore' : c < o + size := by omega
  -- the part before the buffer; it is empty if the read starts inside
  have hr : (if (o : ℤ) < c then ((c : ℤ) - o).toNat else 0) = c - o := by split <;> omega
  have hpair : (if (o : ℤ) < c then io.readfile file.remote (c - o) o else (0, [])) =
      (((slice direct o (c - o)).length : ℤ), slice direct o (c - o)) := by
    split
    · rw [hio.readfile _ _ _ hoff, ← hremote, Int.toNat_natCast]
    · have hzero : c - o = 0 := by omega
      simp [hzero]
  have hco : (if (o : ℤ) ≤ c then 0 else ((o : ℤ) - c).toNat) = o - c := by split <;> omega
  simp only [readOverlapping, hc, ← hu, hr, hpair, hco]
  by_cases hshort : (slice direct o (c - o)).length < c - o
  · -- the file ends before the buffer begins
    rw [if_pos (by exact_mod_cast hshort)]
    have hall : slice direct o size = slice direct o (c - o) := by
      rw [show size = (c - o) + (size - (c - o)) by omega, slice_add,
        slice_eq_nil_of_short hshort hshort.le, List.append_nil]
    refine ⟨?_, ?_, discardCache_represents hremote⟩ <;> simp [hall]
  rw [if_neg (by exact_mod_cast hshort), if_neg (by simp [hvalid])]
  have hcopied : slice file.cacheBuffer.buf (o - c) (copySize o c u size) =
      slice direct (o + (c - o)) (copySize o c u size) := by
    rw [slice_cacheBuffer hused (copySize_le hbehind'), show c + (o - c) = o + (c - o) by omega]
  have hbeforeLen : (slice direct o (c - o)).length = c - o := by
    rw [length_slice] at hshort ⊢
    omega
  have hcopiedLen : (slice direct (o + (c - o)) (copySize o c u size)).length =
      copySize o c u size := by
    have hle := @copySize_le size o c u hbehind'
    rw [hused, length_slice] at hlen
    rw [length_slice]
    omega
  simp only [toNat_copySize, hcopied]
  by_cases hrest : (o : ℤ) + size - 1 > c + u - 1
  · -- the rest is read with a buffer of its own
    rw [if_pos hrest]
    have hrest' : c + u < o + size := by omega
    have hm : ((o : ℤ) + size - 1 - (c + u - 1)).toNat = o + size - (c + u) := by omega
    have hpos : (c : ℤ) + u - 1 + 1 = ((c + u : ℕ) : ℤ) := by push_cast; ring
    rw [hm, hpos]
    obtain ⟨hres, hbytes, hrep'⟩ := @readCacheFlushed_spec _ io content cfg ctx fileInfo
      (discardCache file) direct ((c + u : ℕ) : ℤ) (o + size - (c + u)) hio rfl hremote (by omega)
      hvalid
    rw [Int.toNat_natCast] at hres hbytes
    have hall : slice direct o size = slice direct o (c - o) ++
        slice direct (o + (c - o)) (copySize o c u size) ++
        slice direct (c + u) (o + size - (c + u)) := by
      nth_rewrite 1 [size_of_rest hbehind' hrest']
      rw [slice_add, slice_add, ← end_of_copy hbehind' hrest']
    refine ⟨?_, ?_, hrep'⟩
    · rw [if_neg (by rw [hres]; omega), hres, Int.toNat_natCast, hall, List.length_append,
        List.length_append, hbeforeLen, hcopiedLen]
      push_cast
      ring
    · rw [hbytes, Int.toNat_natCast, hall]
  · rw [if_neg hrest]
    have hsize := @size_of_inside size o c u hbefore' (by omega)
    have hall : slice direct o size = slice direct o (c - o) ++
        slice direct (o + (c - o)) (copySize o c u size) := by
      nth_rewrite 1 [hsize]
      rw [slice_add]
    refine ⟨?_, by rw [Int.toNat_natCast, hall], hrep⟩
    rw [Int.toNat_natCast, hall, List.length_append, hbeforeLen, hcopiedLen, ← hsize]

/-- What a read gives, with a buffer of any kind and whatever the call finds. -/
theorem readCached_spec (hio : io.Complete content) (hmap : cfg.coherentMapping →
    file.cacheBuffer.bufType = .none) (h : Represents content file direct) (hoff : 0 ≤ offset)
    (hvalid : ctx.userBufValid) :
    ReadsDirect content direct size offset (readCached io cfg ctx file size offset).1 := by
  have hthrough (hnone : file.cacheBuffer.bufType = .none) :
      ReadsDirect content direct size offset (readThrough io file size offset) := by
    rw [readThrough_spec hio ((represents_of_none hnone).mp h) hoff]
    exact ⟨rfl, rfl, h⟩
  unfold readCached
  by_cases hcoherent : cfg.coherentMapping
  · rw [if_pos hcoherent]
    exact hthrough (hmap hcoherent)
  rw [if_neg hcoherent]
  by_cases hfast : (ctx.isFileOpenByMultipleReaders ∨ ¬ctx.fileInfo.allowCaching) ∧
      file.cacheBuffer.bufType = .none
  · rw [if_pos hfast]
    exact hthrough hfast.2
  rw [if_neg hfast]
  obtain ⟨hres, hnone, hremote⟩ := flushCacheUnlocked_spec hio h false
  cases htype : file.cacheBuffer.bufType with
  | none =>
    exact readCacheFlushed_spec hio htype ((represents_of_none htype).mp h) hoff hvalid
  | write =>
    dsimp only
    rw [if_neg (by simp [hres])]
    exact readCacheFlushed_spec hio hnone hremote hoff hvalid
  | read =>
    dsimp only
    split
    · rw [if_neg (by simp [hres])]
      exact readCacheFlushed_spec hio hnone hremote hoff hvalid
    · rename_i hoverlap
      push Not at hoverlap
      exact readOverlapping_spec hio htype h hoff hvalid hoverlap.1 hoverlap.2

/-! ## Runs -/

inductive CacheCall where
  | read (ctx : CallContext) (size : ℕ) (offset : ℤ)
  | write (ctx : CallContext) (data : List UInt8) (offset : ℤ)
  | flush (discardCacheOnError : Bool)

/-- Offsets are not negative, but for the -1 of an append, and the memory of the caller is there. -/
def CacheCall.Admissible : CacheCall → Prop
  | .read ctx _ offset => 0 ≤ offset ∧ ctx.userBufValid
  | .write ctx _ offset => -1 ≤ offset ∧ ctx.userBufValid
  | .flush _ => True

section
variable (io cfg)

/-- The result of a call with the bytes it delivers, and the file after it. -/
def cachedCall (file : CachedFile σ) : CacheCall → (ℤ × List UInt8) × CachedFile σ
  | .read ctx size offset =>
    let (retVal, bytes, file) := (readCached io cfg ctx file size offset).1
    ((retVal, bytes), file)
  | .write ctx data offset =>
    let (retVal, file, _) := writeCached io cfg ctx file data offset
    ((retVal, []), file)
  | .flush discardCacheOnError =>
    let (retVal, file) := flushCacheUnlocked io file discardCacheOnError
    ((retVal, []), file)

def cachedRun (file : CachedFile σ) : List CacheCall → List (ℤ × List UInt8) × CachedFile σ
  | [] => ([], file)
  | call :: calls =>
    let (out, file) := cachedCall io cfg file call
    let (outs, file) := cachedRun file calls
    (out :: outs, file)

end

/-- The same call if there were no buffers. -/
def directCall (direct : List UInt8) : CacheCall → (ℤ × List UInt8) × List UInt8
  | .read _ size offset =>
    let bytes := slice direct offset.toNat size
    ((bytes.length, bytes), direct)
  | .write _ data offset => ((data.length, []), directWrite direct data offset)
  | .flush _ => ((0, []), direct)

def directRun (direct : List UInt8) : List CacheCall → List (ℤ × List UInt8) × List UInt8
  | [] => ([], direct)
  | call :: calls =>
    let (out, direct) := directCall direct call
    let (outs, direct) := directRun direct calls
    (out :: outs, direct)

theorem cachedCall_none_of_coherentMapping (hcoherent : cfg.coherentMapping)
    (hnone : file.cacheBuffer.bufType = .none) (call : CacheCall) :
    (cachedCall io cfg file call).2.cacheBuffer.bufType = .none := by
  cases call with
  | read ctx size offset => simpa [cachedCall, readCached, hcoherent, readThrough] using hnone
  | write ctx data offset => simpa [cachedCall, writeCached, hcoherent, writeThrough] using hnone
  | flush discard => simp [cachedCall, flushCacheUnlocked, hnone]

section
variable (hio : io.Complete content) (hmap : cfg.coherentMapping → file.cacheBuffer.bufType = .none)
  (h : Represents content file direct)
include hio hmap h

/-- One call: the same result and bytes, and the content of the direct call. -/
theorem cachedCall_refines {call : CacheCall} (hcall : call.Admissible) :
    (cachedCall io cfg file call).1 = (directCall direct call).1 ∧
      Represents content (cachedCall io cfg file call).2 (directCall direct call).2 := by
  cases call with
  | read ctx size offset =>
    obtain ⟨hres, hbytes, hrep⟩ := @readCached_spec _ io content cfg ctx file direct offset size
      hio hmap h hcall.1 hcall.2
    exact ⟨Prod.ext hres hbytes, hrep⟩
  | write ctx data offset =>
    obtain ⟨hres, hrep⟩ := @writeCached_spec _ io content cfg ctx file direct data offset
      hio hmap h hcall.1 hcall.2
    exact ⟨Prod.ext hres rfl, hrep⟩
  | flush discard =>
    obtain ⟨hres, hnone, hremote⟩ := flushCacheUnlocked_spec hio h discard
    exact ⟨Prod.ext hres rfl, (represents_of_none hnone).mpr hremote⟩

/-- A run, from any file whose buffer and remote content stand for `direct`. -/
theorem cachedRun_refines {calls : List CacheCall} (hcalls : ∀ call ∈ calls, call.Admissible) :
    (cachedRun io cfg file calls).1 = (directRun direct calls).1 ∧
      Represents content (cachedRun io cfg file calls).2 (directRun direct calls).2 := by
  induction calls generalizing file direct with
  | nil => exact ⟨rfl, h⟩
  | cons call calls ih =>
    obtain ⟨hout, hrep⟩ := @cachedCall_refines _ io content cfg file direct hio hmap h call
      (hcalls call List.mem_cons_self)
    have hmap' (hcoherent : cfg.coherentMapping) :=
      @cachedCall_none_of_coherentMapping _ io cfg file hcoherent (hmap hcoherent) call
    obtain ⟨houts, hrep'⟩ := ih hmap' hrep fun c hc => hcalls c (List.mem_cons_of_mem _ hc)
    exact ⟨congrArg₂ List.cons hout houts, hrep'⟩

end

/-- Every call of a run that starts without a buffer gives the result and the bytes of the direct
run, and a flush behind it succeeds and leaves the content of the direct run on the servers. -/
theorem cachedRun_eq_directRun (hio : io.Complete content)
    (hnone : file.cacheBuffer.bufType = .none) {calls : List CacheCall}
    (hcalls : ∀ call ∈ calls, call.Admissible) (discardCacheOnError : Bool) :
    (cachedRun io cfg file calls).1 = (directRun (content file.remote) calls).1 ∧
      (flushCacheUnlocked io (cachedRun io cfg file calls).2 discardCacheOnError).1 = 0 ∧
      content (flushCacheUnlocked io (cachedRun io cfg file calls).2 discardCacheOnError).2.remote =
        (directRun (content file.remote) calls).2 := by
  obtain ⟨houts, hrep⟩ := @cachedRun_refines _ io content cfg file (content file.remote) hio
    (fun _ => hnone) ((represents_of_none hnone).mpr rfl) calls hcalls
  obtain ⟨hres, -, hremote⟩ := flushCacheUnlocked_spec hio hrep discardCacheOnError
  exact ⟨houts, hres, hremote.symm⟩

/-- Servers that store a file as it is. -/
def flatRemote : RemoteIO (List UInt8) where
  readfile remote size offset :=
    ((slice remote offset.toNat size).length, slice remote offset.toNat size)
  writefile remote data offset := (data.length, overwrite 0 remote offset.toNat data)
  statDirect remote := (0, remote.length)
  getAppendLock _ := 0
  referenceHandle _ := 0
  releaseHandle _ := 0

theorem flatRemote_complete : flatRemote.Complete id where
  readfile _ _ _ _ := rfl
  writefile_res _ _ _ _ := rfl
  writefile_content _ _ _ _ := rfl
  statDirect _ := rfl
  getAppendLock _ := rfl
  referenceHandle _ := rfl
  releaseHandle _ := rfl

def smallBuffers : CacheConfig where
  pattern := ⟨0x20000, [7], ⟨17, by decide⟩, by decide, by decide⟩
  bufSize := 8
  coherentMapping := false

def hitContext : CallContext := ⟨⟨true, 3, 0, 0⟩, some [], false, true⟩

/-- Two writes that are collected in a buffer, an append and a read across them. -/
def bufferedCalls : List CacheCall :=
  [.write hitContext [1, 2] 1, .write hitContext [3] 3, .write hitContext [4] (-1),
    .read hitContext 4 1]

end FhgfsOpsHelper
end Congfs
