import Mathlib.Tactic.NormNum

/-! Fixed-width words that hold natural numbers. The lemmas bring a word expression into the form
`Int64.ofNat n` (or `UInt64.ofNat n`), so that what is left is about `n`. -/

namespace Congfs.Word

/-- The conversion of an unsigned 32-bit word to a signed 64-bit one. -/
def int64 (x : UInt32) : Int64 := x.toUInt64.toInt64

/-- The conversion of a signed 64-bit word to an unsigned 32-bit one. -/
def uint32 (x : Int64) : UInt32 := x.toUInt64.toUInt32

theorem int64_eq (x : UInt32) : int64 x = Int64.ofNat x.toNat := by
  conv_lhs => rw [int64, ← UInt32.ofNat_toNat (x := x)]
  rw [UInt32.toUInt64_ofNat' x.toNat_lt, UInt64.toInt64_ofNat']

theorem int64_uint32 (h : n < 2 ^ 32) : int64 (uint32 (Int64.ofNat n)) = Int64.ofNat n := by
  rw [int64_eq, uint32, Int64.toUInt64_ofNat', UInt64.toUInt32_ofNat', UInt32.toNat_ofNat_of_lt' h]

theorem toInt64_eq (x : UInt64) : x.toInt64 = Int64.ofNat x.toNat := by
  conv_lhs => rw [← UInt64.ofNat_toNat (x := x)]
  exact UInt64.toInt64_ofNat'

theorem toNatClampNeg_toInt64 {x : UInt64} (h : 0 ≤ x.toInt64) :
    x.toInt64.toNatClampNeg = x.toNat := by
  have hclamp : x.toInt64.toNatClampNeg = x.toInt64.toInt.toNat := rfl
  have hlt := x.toInt64.toInt_lt
  have heq : Int64.ofNat x.toInt64.toNatClampNeg = Int64.ofNat x.toNat :=
    (Int64.ofNat_toNatClampNeg _ h).trans (toInt64_eq x)
  have hword := congrArg Int64.toUInt64 heq
  rw [Int64.toUInt64_ofNat', Int64.toUInt64_ofNat', UInt64.ofNat_toNat, ← UInt64.toNat_inj,
    UInt64.toNat_ofNat_of_lt' (lt_of_lt_of_le (show _ < 2 ^ 63 by omega) (by decide))] at hword
  exact hword

theorem toNat_uint32_and_le (x : Int64) (y : UInt32) : (uint32 (x &&& int64 y)).toNat ≤
    y.toNat := by
  have hand : uint32 (x &&& int64 y) = uint32 x &&& y := by simp [uint32, int64]
  rw [hand, UInt32.toNat_and]
  exact Nat.and_le_right

theorem ofNat_eq_zero_iff (h : n < 2 ^ 63) : Int64.ofNat n = 0 ↔ n = 0 := by
  rw [← Int64.toInt_inj, Int64.toInt_ofNat_of_lt h, Int64.toInt_zero, Int.natCast_eq_zero]

theorem ofNat_and_mask (hk : k ≤ 63) (n : ℕ) :
    Int64.ofNat n &&& Int64.ofNat (2 ^ k - 1) = Int64.ofNat (n % 2 ^ k) := by
  have hpow : 2 ^ k ∣ 2 ^ 64 := Nat.pow_dvd_pow 2 (by omega)
  have hmask : 2 ^ k - 1 < 2 ^ 64 :=
    (Nat.sub_le _ _).trans_lt (Nat.pow_lt_pow_right (by norm_num) (by omega))
  apply Int64.toBitVec_inj.mp
  apply BitVec.eq_of_toNat_eq
  rw [Int64.toBitVec_and, Int64.toBitVec_ofNat', Int64.toBitVec_ofNat', Int64.toBitVec_ofNat',
    BitVec.toNat_and, BitVec.toNat_ofNat, BitVec.toNat_ofNat, BitVec.toNat_ofNat,
    Nat.mod_eq_of_lt hmask, Nat.and_two_pow_sub_one_eq_mod, Nat.mod_mod_of_dvd n hpow]
  exact (Nat.mod_eq_of_lt ((Nat.mod_lt n (by positivity)).trans_le
    (Nat.pow_le_pow_right (by norm_num) (by omega)))).symm

/-- The processor reads a shift count modulo 64, which changes no count below 64. -/
theorem toNat_smod_of_lt : ∀ k < 64, ((BitVec.ofNat 64 k).smod 64).toNat = k := by
  decide

theorem ofNat_shiftRight (hn : n < 2 ^ 63) (hk : k < 64) :
    Int64.ofNat n >>> Int64.ofNat k = Int64.ofNat (n / 2 ^ k) := by
  have hsign : (BitVec.ofNat 64 n).msb = false := by
    rw [BitVec.msb_eq_false_iff_two_mul_lt, BitVec.toNat_ofNat]
    omega
  have hdiv : n / 2 ^ k ≤ n := Nat.div_le_self _ _
  apply Int64.toBitVec_inj.mp
  apply BitVec.eq_of_toNat_eq
  rw [Int64.toBitVec_shiftRight, Int64.toBitVec_ofNat', Int64.toBitVec_ofNat',
    Int64.toBitVec_ofNat', BitVec.sshiftRight_eq', toNat_smod_of_lt k hk,
    BitVec.sshiftRight_eq_of_msb_false hsign, BitVec.toNat_ushiftRight, BitVec.toNat_ofNat,
    BitVec.toNat_ofNat, Nat.shiftRight_eq_div_pow, Nat.mod_eq_of_lt (by omega),
    Nat.mod_eq_of_lt (by omega)]

theorem toNat_clz {x : BitVec w} (h : x.toNat = 2 ^ k) : x.clz.toNat + k + 1 = w := by
  have hw : 0 < w := by
    by_contra hw
    obtain rfl : w = 0 := by omega
    have hlt := x.isLt
    rw [h] at hlt
    exact absurd hlt (not_lt_of_ge (Nat.one_le_two_pow))
  have hne : x ≠ 0#w := by
    rintro rfl
    exact absurd h (Nat.two_pow_pos k).ne
  have hle := BitVec.two_pow_sub_clz_le_toNat_of_ne_zero hw hne
  have hlt := BitVec.toNat_lt_two_pow_sub_clz (x := x)
  rw [h] at hle hlt
  have hle' := (Nat.pow_le_pow_iff_right (by norm_num)).mp hle
  have hlt' := (Nat.pow_lt_pow_iff_right (by norm_num)).mp hlt
  omega

end Congfs.Word
