import Mathlib.Data.List.Basic

/-! Numbers as a fixed number of bytes, the lowest one first. -/

namespace Congfs.LittleEndian

def bytes : ℕ → ℕ → List UInt8
  | 0, _ => []
  | width + 1, n => UInt8.ofNat n :: bytes width (n / 256)

def value : List UInt8 → ℕ
  | [] => 0
  | b :: l => b.toNat + 256 * value l

@[simp] theorem length_bytes (width n : ℕ) : (bytes width n).length = width := by
  induction width generalizing n with
  | zero => rfl
  | succ width ih => simp [bytes, ih]

/-- What does not fit into the bytes is lost. -/
theorem value_bytes : value (bytes width n) = n % Nat.pow 256 width := by
  induction width generalizing n with
  | zero => exact (Nat.mod_one n).symm
  | succ width ih =>
    have hbyte : (UInt8.ofNat n).toNat = n % 256 := rfl
    have hpow : Nat.pow 256 (width + 1) = 256 * Nat.pow 256 width := Nat.mul_comm _ _
    rw [bytes, value, ih, hbyte, hpow, Nat.mod_mul]

theorem value_bytes_of_lt (h : n < Nat.pow 256 width) : value (bytes width n) = n := by
  rw [value_bytes, Nat.mod_eq_of_lt h]

theorem value_lt (l : List UInt8) : value l < Nat.pow 256 l.length := by
  induction l with
  | nil => decide
  | cons b l ih =>
    have hb : b.toNat < 256 := b.toNat_lt
    have hpow : Nat.pow 256 (l.length + 1) = Nat.pow 256 l.length * 256 := rfl
    rw [value, List.length_cons, hpow]
    omega

theorem bytes_value (l : List UInt8) : bytes l.length (value l) = l := by
  induction l with
  | nil => rfl
  | cons b l ih =>
    have hb : b.toNat < 256 := b.toNat_lt
    have hlow : UInt8.ofNat (b.toNat + 256 * value l) = b := by
      rw [← UInt8.toNat_inj]
      change (b.toNat + 256 * value l) % 256 = b.toNat
      omega
    have hhigh : (b.toNat + 256 * value l) / 256 = value l := by omega
    rw [List.length_cons, value, bytes, hlow, hhigh, ih]

end Congfs.LittleEndian
