import Congfs.Striping.Pattern

/-!
# Placement is round-robin striping

At non-negative positions the arithmetic of client and servers computes the round-robin layout of
the pattern: both find the same column and the same offset in it, and the metadata server cuts
every chunk file to its share.
-/

namespace Congfs

open Word

namespace StripePattern
variable (pattern : StripePattern) {n : ℕ}

def layout : Layout where
  chunk := pattern.chunkSize.toNat
  width := pattern.stripeTargetIDs.length
  chunk_pos := Nat.pos_of_isPowerOfTwo pattern.chunkSize_pow
  width_pos := pattern.targets_pos

theorem chunk_lt : pattern.layout.chunk < 2 ^ 32 := pattern.chunkSize.toNat_lt

theorem width_lt : pattern.layout.width < 2 ^ 32 := pattern.targets_lt

theorem exists_chunk_eq : ∃ k < 32, pattern.layout.chunk = 2 ^ k := by
  obtain ⟨k, hk⟩ := pattern.chunkSize_pow
  have hchunk : pattern.layout.chunk = 2 ^ k := hk
  exact ⟨k, (Nat.pow_lt_pow_iff_right (by norm_num)).mp (hchunk ▸ pattern.chunk_lt), hchunk⟩

theorem chunk_le : pattern.layout.chunk ≤ 2 ^ 31 := by
  obtain ⟨k, hlt, hchunk⟩ := pattern.exists_chunk_eq
  rw [hchunk]
  exact Nat.pow_le_pow_right (by norm_num) (Nat.le_of_lt_succ hlt)

theorem getNumStripeTargetIDs_eq :
    pattern.getNumStripeTargetIDs = UInt64.ofNat pattern.layout.width := rfl

theorem int64_chunkSize : int64 pattern.chunkSize = Int64.ofNat pattern.layout.chunk :=
  int64_eq _

theorem toUInt64_chunkSize : pattern.chunkSize.toUInt64 = UInt64.ofNat pattern.layout.chunk := by
  conv_lhs => rw [← UInt32.ofNat_toNat (x := pattern.chunkSize)]
  exact UInt32.toUInt64_ofNat' pattern.chunkSize.toNat_lt

theorem ofNat_and_mask (n : ℕ) : Int64.ofNat n &&& Int64.ofNat (pattern.layout.chunk - 1) =
      Int64.ofNat (n % pattern.layout.chunk) := by
  obtain ⟨k, hlt, hchunk⟩ := pattern.exists_chunk_eq
  rw [hchunk]
  exact Word.ofNat_and_mask (by omega) n

theorem and_mask (n : ℕ) : Int64.ofNat n &&& int64 (pattern.chunkSize - 1) =
    Int64.ofNat (n % pattern.layout.chunk) := by
  have hsub : (pattern.chunkSize - 1).toNat = pattern.layout.chunk - 1 :=
    UInt32.toNat_sub_of_le _ _ (UInt32.le_iff_toNat_le.mpr pattern.layout.chunk_pos)
  rw [int64_eq, hsub, ofNat_and_mask]

theorem getChunkStart_ofNat (n : ℕ) : pattern.getChunkStart (Int64.ofNat n) =
    Int64.ofNat (n / pattern.layout.chunk * pattern.layout.chunk) := by
  have hmod : n % pattern.layout.chunk < 2 ^ 32 :=
    (Nat.mod_lt n pattern.layout.chunk_pos).trans pattern.chunk_lt
  rw [getChunkStart, and_mask, int64_uint32 hmod, ← Int64.ofNat_sub _ _ (Nat.mod_le _ _),
    Nat.div_mul_self_eq_mod_sub_self]

theorem getNextChunkStart_ofNat (n : ℕ) : pattern.getNextChunkStart (Int64.ofNat n) =
    Int64.ofNat ((n / pattern.layout.chunk + 1) * pattern.layout.chunk) := by
  rw [getNextChunkStart, getChunkStart_ofNat, int64_chunkSize, ← Int64.ofNat_add, Nat.succ_mul]

theorem getStripeTargetIndex_ofNat (h : n < 2 ^ 63) :
    pattern.getStripeTargetIndex (Int64.ofNat n) = UInt64.ofNat (pattern.layout.column n) := by
  have hdiv : n / pattern.layout.chunk ≤ n := Nat.div_le_self _ _
  have hchunk := pattern.chunk_lt
  have hwidth := pattern.width_lt
  rw [getStripeTargetIndex, getChunkSize, int64_chunkSize, getNumStripeTargetIDs_eq,
    ← Int64.ofNat_div h (by omega), Int64.toUInt64_ofNat',
    ← UInt64.ofNat_mod (by omega) (by omega), Layout.column]

/-- Where the row of position `n` begins, in the words of the source. -/
theorem rowStart_ofNat (hi : i * pattern.layout.chunk ≤ n - n % pattern.layout.chunk) :
    ((Int64.ofNat n - Int64.ofNat (n % pattern.layout.chunk)).toUInt64 -
      UInt64.ofNat i * UInt64.ofNat pattern.layout.chunk).toInt64 =
    Int64.ofNat (n - n % pattern.layout.chunk - i * pattern.layout.chunk) := by
  rw [← Int64.ofNat_sub _ _ (Nat.mod_le _ _), Int64.toUInt64_ofNat', ← UInt64.ofNat_mul,
    ← UInt64.ofNat_sub hi, UInt64.toInt64_ofNat']

end StripePattern

namespace MsgHelperTrunc
variable (pattern : StripePattern) {n i : ℕ}

theorem getNodeLocalOffset_ofNat (h : n < 2 ^ 63) :
    getNodeLocalOffset (Int64.ofNat n) (int64 pattern.getChunkSize) pattern.getNumStripeTargetIDs
      (pattern.getStripeTargetIndex (Int64.ofNat n)) = Int64.ofNat (pattern.layout.offset n) := by
  have hwidth := pattern.width_lt
  have hone : (1 : Int64) = Int64.ofNat 1 := rfl
  rw [getNodeLocalOffset, StripePattern.getChunkSize, pattern.int64_chunkSize, hone,
    ← Int64.ofNat_sub _ _ pattern.layout.chunk_pos, pattern.ofNat_and_mask,
    pattern.getStripeTargetIndex_ofNat h, Int64.toUInt64_ofNat',
    pattern.rowStart_ofNat (pattern.layout.column_mul_le n),
    Int64.toUInt64_ofNat', Int64.toUInt64_ofNat', pattern.getNumStripeTargetIDs_eq,
    ← UInt64.ofNat_div (by omega) (by omega), ← UInt64.ofNat_add, UInt64.toInt64_ofNat',
    pattern.layout.offset_eq]

/-- Truncating the file to `n` cuts every chunk file to the share of its column. -/
theorem getNodeLocalTruncPos_ofNat (h : n < 2 ^ 63) (hi : i < pattern.layout.width) :
    getNodeLocalTruncPos (Int64.ofNat n) pattern (UInt64.ofNat i) =
      Int64.ofNat (pattern.layout.share n i) := by
  have hword {j : ℕ} (hj : j < pattern.layout.width) : j < UInt64.size :=
    (hj.trans pattern.width_lt).trans (by decide)
  have hcol := pattern.layout.column_lt n
  have hlt : UInt64.ofNat i < UInt64.ofNat (pattern.layout.column n) ↔
      i < pattern.layout.column n := UInt64.ofNat_lt_iff_lt (hword hi) (hword hcol)
  have heq : UInt64.ofNat i = UInt64.ofNat (pattern.layout.column n) ↔
      i = pattern.layout.column n := by
    rw [← UInt64.toNat_inj, UInt64.toNat_ofNat_of_lt' (hword hi),
      UInt64.toNat_ofNat_of_lt' (hword hcol)]
  have hshare : ¬ Int64.ofNat (pattern.layout.share n i) < 0 := by
    have hle := pattern.layout.share_le hi n
    have hzero : (0 : Int64) = Int64.ofNat 0 := rfl
    rw [hzero, Int64.ofNat_lt_iff_lt (by omega) (by omega)]
    omega
  rw [getNodeLocalTruncPos, getNodeLocalOffset_ofNat pattern h,
    pattern.getStripeTargetIndex_ofNat h, pattern.getNextChunkStart_ofNat,
    pattern.getChunkStart_ofNat]
  simp only [hlt, heq, ← apply_ite Int64.ofNat]
  exact if_neg hshare

end MsgHelperTrunc

namespace FhgfsOpsRemoting
variable (pattern : StripePattern) {n : ℕ}

/-- The quick path and the slow path compute the same quotient. -/
theorem divNumNodes_ofNat (h : n < 2 ^ 63) (hpos : 0 < w) (hw : w < 2 ^ 32) :
    (if MathTk.isPowerOfTwo (UInt32.ofNat w) then
      Int64.ofNat n >>> int64 (MathTk.log2Int32 (UInt32.ofNat w))
    else ((Int64.ofNat n).toUInt64 / (UInt32.ofNat w).toUInt64).toInt64) = Int64.ofNat (n / w) := by
  have hval : (UInt32.ofNat w).toNat = w := UInt32.toNat_ofNat_of_lt' hw
  split_ifs with hpow
  · have hpow' := (MathTk.isPowerOfTwo_iff (hval.symm ▸ hpos)).mp hpow
    rw [MathTk.shiftRight_log2Int32 hpow' h, hval]
  · rw [Int64.toUInt64_ofNat', UInt32.toUInt64_ofNat' hw, ← UInt64.ofNat_div (by omega) (by omega),
      UInt64.toInt64_ofNat']

theorem getChunkOffset_ofNat (h : n < 2 ^ 63) (hi : i < pattern.layout.width)
    (hle : i * pattern.layout.chunk ≤ n - n % pattern.layout.chunk) :
    getChunkOffset (Int64.ofNat n) pattern.getChunkSize
      pattern.getNumStripeTargetIDs.toUInt32.toUInt64 (UInt64.ofNat i).toUInt32.toUInt64 =
    Int64.ofNat ((n - n % pattern.layout.chunk - i * pattern.layout.chunk) / pattern.layout.width +
      n % pattern.layout.chunk) := by
  have hwidth := pattern.width_lt
  have hdiv := divNumNodes_ofNat
    (n := n - n % pattern.layout.chunk - i * pattern.layout.chunk)
    (by omega) pattern.layout.width_pos hwidth
  rw [pattern.getNumStripeTargetIDs_eq, UInt64.toUInt32_ofNat', UInt64.toUInt32_ofNat',
    UInt32.toUInt64_ofNat' hwidth, UInt32.toUInt64_ofNat' (hi.trans hwidth), getChunkOffset,
    StripePattern.getChunkSize, pattern.and_mask, pattern.toUInt64_chunkSize,
    pattern.rowStart_ofNat hle, UInt64.toUInt32_ofNat', hdiv, ← Int64.ofNat_add]

theorem currentNodeLocalOffset_ofNat (h : n < 2 ^ 63) :
    currentNodeLocalOffset pattern (Int64.ofNat n) = Int64.ofNat (pattern.layout.offset n) := by
  rw [currentNodeLocalOffset, pattern.getStripeTargetIndex_ofNat h,
    getChunkOffset_ofNat pattern h (pattern.layout.column_lt n) (pattern.layout.column_mul_le n),
    pattern.layout.offset_eq]

end FhgfsOpsRemoting
end Congfs
