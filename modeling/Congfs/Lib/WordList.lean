import Congfs.Lib.LittleEndian

/-!
# Bytes as words

Words of any width stand in memory one after the other. What bit of which word a bit of the whole is
depends on the width, but the bytes do not, so bits keep their places when bytes are read as words
of another width.
-/

namespace Congfs.LittleEndian

variable {l l' : List UInt8} {w n i : ℕ}

theorem value_append : value (l ++ l') = Nat.pow 256 l.length * value l' + value l := by
  induction l with
  | nil => simp [value]
  | cons b l ih =>
    have hpow : Nat.pow 256 (l.length + 1) = 256 * Nat.pow 256 l.length := Nat.mul_comm _ _
    rw [List.cons_append, value, ih, value, List.length_cons, hpow, Nat.mul_add, Nat.mul_assoc]
    omega

theorem value_replicate_zero : value (List.replicate n 0) = 0 := by
  induction n with
  | zero => rfl
  | succ n ih => simp [List.replicate_succ, value, ih]

theorem value_append_zeros : value (l ++ List.replicate n 0) = value l := by
  rw [value_append, value_replicate_zero, Nat.mul_zero, Nat.zero_add]

theorem pow_eq : Nat.pow 256 w = Nat.pow 2 (8 * w) := (Nat.pow_mul 2 8 w).symm

/-! ## Words -/

def ofWords (w : ℕ) (words : List (BitVec (8 * w))) : List UInt8 :=
  words.flatMap fun x => bytes w x.toNat

@[simp] theorem length_ofWords : (ofWords w words).length = w * words.length := by
  induction words with
  | nil => rfl
  | cons x words ih =>
    rw [ofWords] at ih
    rw [ofWords, List.flatMap_cons, List.length_append, length_bytes, ih, List.length_cons,
      Nat.mul_succ, Nat.add_comm]

def toWords (w : ℕ) : ℕ → List UInt8 → List (BitVec (8 * w))
  | 0, _ => []
  | n + 1, l => BitVec.ofNat (8 * w) (value (l.take w)) :: toWords w n (l.drop w)

@[simp] theorem length_toWords : (toWords w n l).length = n := by
  induction n generalizing l with
  | zero => rfl
  | succ n ih => rw [toWords, List.length_cons, ih]

theorem bytes_ofNat_value (h : l.length = w) :
    bytes w (BitVec.ofNat (8 * w) (value l)).toNat = l := by
  have hlt := value_lt l
  rw [pow_eq, h] at hlt
  rw [BitVec.toNat_ofNat, Nat.mod_eq_of_lt (show _ < 2 ^ (8 * w) from hlt), ← h, bytes_value]

theorem ofWords_toWords (h : w * n ≤ l.length) : ofWords w (toWords w n l) = l.take (w * n) := by
  induction n generalizing l with
  | zero => simp [toWords, ofWords]
  | succ n ih =>
    rw [Nat.mul_succ] at h
    have htake : (l.take w).length = w := by rw [List.length_take]; omega
    have hrest := @ih (l.drop w) (by rw [List.length_drop]; omega)
    rw [ofWords] at hrest
    rw [toWords, ofWords, List.flatMap_cons, bytes_ofNat_value htake, hrest, Nat.mul_succ,
      Nat.add_comm, List.take_add]

theorem testBit_value_ofWords (hw : 0 < w) :
    (value (ofWords w words)).testBit i = (words.getD (i / (8 * w)) 0).getLsbD (i % (8 * w)) := by
  induction words generalizing i with
  | nil => simp [ofWords, value]
  | cons x words ih =>
    have hvalue : value (bytes w x.toNat) = x.toNat := by
      refine value_bytes_of_lt ?_
      rw [pow_eq]
      exact x.isLt
    have hcons : value (ofWords w (x :: words)) = 2 ^ (8 * w) * value
      (ofWords w words) + x.toNat := by
      rw [ofWords, List.flatMap_cons, value_append, length_bytes, hvalue, pow_eq]
      rfl
    rw [hcons, Nat.testBit_two_pow_mul_add _ x.isLt]
    by_cases hi : i < 8 * w
    · rw [if_pos hi, Nat.div_eq_of_lt hi, Nat.mod_eq_of_lt hi, List.getD_cons_zero]
      rfl
    · have hi' : 8 * w ≤ i := by omega
      rw [if_neg hi, ih, Nat.div_eq_sub_div (by omega) hi', List.getD_cons_succ,
        Nat.mod_eq_sub_mod hi']

end Congfs.LittleEndian
