import Congfs.Striping.ClientPattern
import Congfs.Striping.FileSize

/-!
# Written and truncated files

What the metadata server makes of the chunk files of a file: its size after the client has written
to it anywhere, and what is left of it after it has been truncated.
-/

namespace Congfs

open FhgfsOpsRemoting
open MsgHelperTrunc

namespace StripePattern
variable (pattern : StripePattern) {p : ℕ}

theorem toNat_getStripeTargetIndex (hp : p < 2 ^ 63) :
    (pattern.getStripeTargetIndex (Int64.ofNat p)).toNat = pattern.layout.column p := by
  have hword : pattern.layout.column p < UInt64.size :=
    ((pattern.layout.column_lt p).trans pattern.width_lt).trans (by decide)
  rw [pattern.getStripeTargetIndex_ofNat hp, UInt64.toNat_ofNat_of_lt' hword]

/-! ## Writing -/

/-- The size of the chunk file on a target after the file positions `W` were written, with the index
of the servers: one more than the largest local offset written there. -/
def chunkFileSize (W : Finset ℕ) (target : ℕ) : Int64 :=
  Int64.ofNat <|
    (W.filter fun pos => (pattern.getStripeTargetIndex (Int64.ofNat pos)).toNat = target).sup
      fun pos => (currentNodeLocalOffset pattern (Int64.ofNat pos)).toNatClampNeg + 1

theorem chunkFileSize_eq_extent (hW : ∀ pos ∈ W, pos < 2 ^ 63) (target : ℕ) :
    pattern.chunkFileSize W target = Int64.ofNat (pattern.layout.extent W target) := by
  have hfilter : (W.filter fun pos =>
        (pattern.getStripeTargetIndex (Int64.ofNat pos)).toNat = target) =
      W.filter fun pos => pattern.layout.column pos = target :=
    Finset.filter_congr fun pos hpos => by rw [pattern.toNat_getStripeTargetIndex (hW pos hpos)]
  rw [chunkFileSize, hfilter, Layout.extent]
  congr 1
  refine Finset.sup_congr rfl fun pos hpos => ?_
  have hlt := hW pos (Finset.mem_of_mem_filter pos hpos)
  rw [currentNodeLocalOffset_ofNat pattern hlt, Int64.toNatClampNeg_ofNat_of_lt
    ((pattern.layout.offset_le pos).trans_lt hlt)]

/-- The size of a file that the client has written to, with any holes, is the end of its last
byte. -/
theorem getFileSize_of_written (W : Finset ℕ) (hW : W.Nonempty) (hmax : W.max' hW + 1 < 2 ^ 63)
    (attribs : List DynamicFileAttribs) (hlen : attribs.length = pattern.stripeTargetIDs.length)
    (hversion : ∀ a ∈ attribs, a.storageVersion ≠ 0)
    (hsize : ∀ i (hi : i < attribs.length), attribs[i].fileSize = pattern.chunkFileSize W i)
    (statData : StatData) (now : Int64) :
    (statData.updateDynamicFileAttribs (pattern.fileInfoVec attribs)
      pattern now).getFileSize.toInt = W.max' hW + 1 := by
  have hbelow : ∀ pos ∈ W, pos < W.max' hW + 1 := fun pos hpos =>
    Nat.lt_succ_iff.mpr (W.le_max' pos hpos)
  have hextent := pattern.chunkFileSize_eq_extent fun pos hpos => (hbelow pos hpos).trans hmax
  rw [StatData.getFileSize_eq_of_le_share (f := pattern.layout.extent W) pattern hlen hversion hmax
    (fun i _ => pattern.layout.extent_le_share hbelow i)
    (fun pos hpos => ?_) (fun i hi => (hsize i hi).trans (hextent i)) statData now,
    Int64.toInt_ofNat_of_lt hmax]
  · rfl
  · obtain rfl : W.max' hW = pos := Nat.succ.inj hpos
    exact pattern.layout.extent_column (W.max'_mem hW) hbelow

/-- Three targets with chunks of two bytes. -/
def threeTargets : StripePattern where
  chunkSize := 2
  stripeTargetIDs := [1, 2, 3]
  chunkSize_pow := ⟨1, rfl⟩
  targets_pos := by decide
  targets_lt := by decide

/-- Reports about chunk files of these sizes. -/
def reports (sizes : List Int64) : List DynamicFileAttribs :=
  sizes.map fun size => ⟨1, size, 8, 0, 0⟩

def freshStatData : StatData := ⟨0, 0, 0, ⟨0, 0⟩, []⟩

/-- Bytes 0 and 9 are written. Nothing is stored on the third target, and only one byte of the
first. -/
theorem getFileSize_of_written_sparse :
    (freshStatData.updateDynamicFileAttribs (threeTargets.fileInfoVec (reports [1, 4, 0]))
      threeTargets 0).getFileSize.toInt = 10 :=
  threeTargets.getFileSize_of_written {0, 9} (by decide) (by decide) (reports [1, 4, 0]) rfl
    (by decide) (by decide) freshStatData 0

/-! ## Truncating -/

/-- The bytes of the chunk files, by target and offset. -/
abbrev ChunkFiles := UInt64 → Int64 → Option UInt8

/-- The byte of the file at `pos`, on the target and at the offset where a client with a pattern of
this type looks for it. -/
def byteAt (type : StripePatternType) (files : ChunkFiles) (pos : Int64) : Option UInt8 :=
  let currentTargetIndex := (type.getStripeTargetIndex pattern pos).toUInt32
  files currentTargetIndex.toUInt64 (getChunkOffset pos pattern.getChunkSize
    pattern.getNumStripeTargetIDs.toUInt32.toUInt64 currentTargetIndex.toUInt64)

/-- Every target cuts its chunk file to the length that the metadata server sends it. -/
def truncChunkFiles (files : ChunkFiles) (filesize : Int64) : ChunkFiles := fun target offset =>
  if offset < getNodeLocalTruncPos filesize pattern target then files target offset else none

theorem byteAt_ofNat (h : type = .raid10 → pattern.layout.width * pattern.layout.chunk ≤ 2 ^ 32)
    (hp : p < 2 ^ 63) (files : ChunkFiles) : pattern.byteAt type files (Int64.ofNat p) =
      files (UInt64.ofNat (pattern.layout.column p)) (Int64.ofNat (pattern.layout.offset p)) := by
  have hcol := pattern.layout.column_lt p
  rw [byteAt, StripePatternType.getStripeTargetIndex_eq pattern h hp,
    pattern.getStripeTargetIndex_ofNat hp,
    getChunkOffset_ofNat pattern hp hcol (pattern.layout.column_mul_le p), pattern.layout.offset_eq,
    UInt64.toUInt32_ofNat', UInt32.toUInt64_ofNat' (hcol.trans pattern.width_lt)]

theorem byteAt_truncChunkFiles (h : type = .raid10 → pattern.layout.width * pattern.layout.chunk ≤
    2 ^ 32) (hS : size < 2 ^ 63) (hp : p < 2 ^ 63) (files : ChunkFiles) :
    pattern.byteAt type (pattern.truncChunkFiles files (Int64.ofNat size)) (Int64.ofNat p) =
      if p < size then pattern.byteAt type files (Int64.ofNat p) else none := by
  have hshare := pattern.layout.share_le (pattern.layout.column_lt p) size
  simp only [byteAt_ofNat pattern h hp, truncChunkFiles,
    getNodeLocalTruncPos_ofNat pattern hS (pattern.layout.column_lt p),
    Int64.ofNat_lt_iff_lt ((pattern.layout.offset_le p).trans_lt hp) (hshare.trans_lt hS),
    pattern.layout.offset_lt_share_iff]

/-- With a larger stripe set the client looks for the byte behind its period in the first chunk of
the first target, which stays when the file is cut there. -/
theorem byteAt_truncChunkFiles_period (h : 2 ^ 32 < pattern.layout.width * pattern.layout.chunk)
    (files : ChunkFiles) :
    let pos := Int64.ofNat (Raid10Pattern.period pattern)
    pattern.byteAt .raid10 (pattern.truncChunkFiles files pos) pos = pattern.byteAt .raid10
    files pos := by
  set period := Raid10Pattern.period pattern
  set p := period / pattern.layout.width
  have hle : period ≤ 2 ^ 32 := Raid10Pattern.period_le pattern
  have hpos : period < 2 ^ 63 := by omega
  have hmod : period % pattern.layout.chunk = 0 :=
    Nat.mod_eq_zero_of_dvd (Raid10Pattern.chunk_dvd_period pattern)
  have hp : p < pattern.layout.chunk := Nat.div_lt_of_lt_mul (hle.trans_lt h)
  have hcol : pattern.layout.column p = 0 := by simp [Layout.column, Nat.div_eq_of_lt hp]
  have hoff : pattern.layout.offset p = p := by
    simp [Layout.offset, Nat.div_eq_of_lt hp, Nat.mod_eq_of_lt hp]
  have htwo : 1 < pattern.layout.width := by
    have hchunk := pattern.chunk_lt
    by_contra hone
    have hmul := Nat.mul_le_mul_right pattern.layout.chunk (not_lt.mp hone)
    omega
  have hbefore : p < period := Nat.div_lt_self (Raid10Pattern.period_pos pattern) htwo
  have hcut : Int64.ofNat p < getNodeLocalTruncPos (Int64.ofNat period) pattern
    (UInt64.ofNat 0) := by
    rw [getNodeLocalTruncPos_ofNat pattern hpos pattern.layout.width_pos, Int64.ofNat_lt_iff_lt
      (hbefore.trans hpos) ((pattern.layout.share_le pattern.layout.width_pos _).trans_lt hpos)]
    have hlt := (pattern.layout.offset_lt_share_iff p period).mpr hbefore
    rwa [hcol, hoff] at hlt
  have hindex : StripePatternType.raid10.getStripeTargetIndex pattern (Int64.ofNat period) =
    UInt64.ofNat 0 := by
    rw [StripePatternType.getStripeTargetIndex, Raid10Pattern.getStripeTargetIndex_ofNat
      pattern hpos, Nat.mod_self]
  have hoffset := getChunkOffset_ofNat pattern hpos pattern.layout.width_pos (by omega)
  simp only [hmod, Nat.sub_zero, Nat.zero_mul, Nat.add_zero] at hoffset
  simp only [byteAt, hindex, hoffset, truncChunkFiles]
  exact if_pos hcut

theorem card_stripeTarget (hS : size < 2 ^ 63) (hi : i < pattern.layout.width) :
    ((Finset.range size).filter fun pos =>
      (pattern.getStripeTargetIndex (Int64.ofNat pos)).toNat = i).card =
      pattern.layout.share size i := by
  rw [← pattern.layout.card_column_below hi]
  congr 1
  refine Finset.filter_congr fun pos hpos => ?_
  rw [pattern.toNat_getStripeTargetIndex ((Finset.mem_range.mp hpos).trans hS)]

/-- Truncation is exact: each chunk file is cut to the number of bytes below the new size that it
stores, and the size computed from the chunk files is then the new size. This removes the bytes from
the new size on and no others, exactly if client and servers agree on the placement. -/
theorem getNodeLocalTruncPos_exact (type : StripePatternType) :
    (∀ size < 2 ^ 63, (∀ i < pattern.stripeTargetIDs.length,
        (getNodeLocalTruncPos (Int64.ofNat size) pattern (UInt64.ofNat i)).toInt =
          ((Finset.range size).filter fun pos =>
            (pattern.getStripeTargetIndex (Int64.ofNat pos)).toNat = i).card) ∧
      ∀ attribs : List DynamicFileAttribs, attribs.length = pattern.stripeTargetIDs.length →
        (∀ a ∈ attribs, a.storageVersion ≠ 0) →
        (∀ i (hi : i < attribs.length), attribs[i].fileSize =
          getNodeLocalTruncPos (Int64.ofNat size) pattern (UInt64.ofNat i)) →
        ∀ (statData : StatData) (now : Int64),
          (statData.updateDynamicFileAttribs (pattern.fileInfoVec attribs)
            pattern now).getFileSize.toInt = size) ∧
    ((∀ size < 2 ^ 63, ∀ (files : ChunkFiles), ∀ pos < 2 ^ 63,
        pattern.byteAt type (pattern.truncChunkFiles files (Int64.ofNat size)) (Int64.ofNat pos) =
          if pos < size then pattern.byteAt type files (Int64.ofNat pos) else none) ↔
      (type = .raid10 → pattern.stripeTargetIDs.length * pattern.chunkSize.toNat ≤ 2 ^ 32)) := by
  refine ⟨fun size hS => ⟨fun i hi => ?_, ?_⟩, fun h htype => ?_, fun h size hS files pos hpos =>
    pattern.byteAt_truncChunkFiles h hS hpos files⟩
  · rw [getNodeLocalTruncPos_ofNat pattern hS hi, pattern.card_stripeTarget hS hi,
      Int64.toInt_ofNat_of_lt ((pattern.layout.share_le hi size).trans_lt hS)]
  · intro attribs hlen hversion hsize statData now
    rw [StatData.getFileSize_eq_of_le_share (f := pattern.layout.share size) pattern hlen hversion
      hS (fun i _ => le_rfl) (fun _ _ => rfl) (fun i hi => ?_) statData now,
      Int64.toInt_ofNat_of_lt hS]
    rw [hsize i hi, getNodeLocalTruncPos_ofNat pattern hS (hi.trans_eq hlen)]
  · by_contra hlarge
    subst htype
    have hpos : Raid10Pattern.period pattern < 2 ^ 63 :=
      (Raid10Pattern.period_le pattern).trans_lt (by norm_num)
    have hbyte := h _ hpos (fun _ _ => some 0) _ hpos
    rw [pattern.byteAt_truncChunkFiles_period (not_le.mp hlarge), if_neg (lt_irrefl _)] at hbyte
    cases hbyte

/-- A file on three targets with chunks of 2 GiB, cut behind the first chunk: a client with a
`Raid10` pattern still reads a byte there. -/
theorem byteAt_truncChunkFiles_largeChunks :
    let files : ChunkFiles :=
      StripePatternType.largeChunks.truncChunkFiles (fun _ _ => some 7) 0x80000000
    StripePatternType.largeChunks.byteAt .raid10 files 0x80000000 = some 7 ∧
      StripePatternType.largeChunks.byteAt .raid0 files 0x80000000 = none := by
  decide

end StripePattern
end Congfs
