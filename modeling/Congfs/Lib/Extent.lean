import Mathlib.Data.List.Basic
import Mathlib.Data.Int.Order.Basic

/-! Files as functions of the position. A position that was never written has no element. Positions
are integers, so that no write has to be excluded. -/

namespace Congfs.Extent

variable {α : Type*} {file : ℤ → Option α} {offset : ℤ} {data data' : List α} {n : ℕ}

section
variable (file : ℤ → Option α) (offset : ℤ) (data : List α)

def writeAt : ℤ → Option α := fun p =>
  if offset ≤ p ∧ p < offset + data.length then data[(p - offset).toNat]? else file p

/-- The data stands at the offset. -/
def HoldsAt : Prop :=
  ∀ i : ℕ, i < data.length → file (offset + i) = data[i]?

end

theorem writeAt_add (h : i < data.length) : writeAt file offset data (offset + i) = data[i]? := by
  have hin : offset ≤ offset + i ∧ offset + i < offset + data.length := by omega
  have hindex : (offset + i - offset).toNat = i := by omega
  rw [writeAt, if_pos hin, hindex]

theorem HoldsAt.nil : HoldsAt file offset [] := fun i h => absurd h (Nat.not_lt_zero i)

theorem HoldsAt.take (h : HoldsAt file offset data) (n : ℕ) :
    HoldsAt file offset (data.take n) := by
  intro i hi
  rw [List.length_take] at hi
  rw [List.getElem?_take_of_lt (by omega)]
  exact h i (by omega)

theorem HoldsAt.append (h : HoldsAt file offset data) :
    HoldsAt (writeAt file (offset + data.length) data') offset (data ++ data') := by
  intro i hi
  rw [List.length_append] at hi
  by_cases hlt : i < data.length
  · rw [List.getElem?_append_left hlt, ← h i hlt]
    exact if_neg (by omega)
  · obtain ⟨k, rfl⟩ : ∃ k, i = data.length + k := ⟨i - data.length, by omega⟩
    rw [List.getElem?_append_right (by omega), Nat.add_sub_cancel_left, Int.natCast_add,
      ← Int.add_assoc]
    exact writeAt_add (by omega)

theorem not_holdsAt_empty (h : data ≠ []) : ¬HoldsAt (fun _ => none) offset data := by
  intro hholds
  have hpos : 0 < data.length := List.length_pos_iff.mpr h
  have hzero := hholds 0 hpos
  rw [List.getElem?_eq_getElem hpos] at hzero
  cases hzero

end Congfs.Extent
