import Mathlib.Data.List.Basic

/-! Files as lists: reading a range, and writing a range with a gap behind the end filled up.
Writing nothing changes nothing, also behind the end. -/

namespace Congfs.FlatFile

open List

variable {α : Type*} {z : α} {file data data' : List α} {offset n m k : ℕ}

def slice (file : List α) (offset n : ℕ) : List α := (file.drop offset).take n

/-- The first `n` elements, filled up with `z`. -/
def padded (z : α) (file : List α) (n : ℕ) : List α :=
  file.take n ++ replicate (n - file.length) z

def overwrite (z : α) (file : List α) (offset : ℕ) (data : List α) : List α :=
  if data = [] then file
  else padded z file offset ++ data ++ file.drop (offset + data.length)

/-! ## Reading -/

@[simp] theorem length_slice : (slice file offset n).length = min n (file.length - offset) := by
  simp [slice]

@[simp] theorem slice_zero : slice file offset 0 = [] := by
  simp [slice]

theorem slice_length_slice : slice file offset (slice file offset n).length =
    slice file offset n := by
  rw [length_slice, slice, slice, take_eq_take_iff, length_drop]
  omega

theorem slice_add : slice file offset (n + m) = slice file offset n ++
    slice file (offset + n) m := by
  simp [slice, take_add, drop_drop]

theorem slice_middle {a b c : List α} (h : file = a ++ b ++ c) (ha : a.length = offset)
    (hb : b.length = n) : slice file offset n = b := by
  subst h ha hb
  simp [slice]

theorem slice_slice (h : k + m ≤ n) : slice (slice file offset n) k m =
    slice file (offset + k) m := by
  have hmin : min m (n - k) = m := by omega
  simp [slice, drop_take, take_take, drop_drop, hmin]

theorem slice_eq_nil_of_short (h : (slice file offset n).length < n)
    (hk : (slice file offset n).length ≤ k) : slice file (offset + k) m = [] := by
  rw [length_slice] at h hk
  have hle : file.length ≤ offset + k := by omega
  simp [slice, drop_eq_nil_of_le hle]

theorem length_takeWhile_le {p : α → Bool} {b : α} (h : slice file (offset + k) 1 = [b])
    (hb : p b = false) : ((file.drop offset).takeWhile p).length ≤ k := by
  by_contra hlt
  rw [slice, ← drop_drop, ← @takeWhile_append_dropWhile _ p (file.drop offset),
    drop_append_of_le_length (by omega)] at h
  have hmem : b ∈ (file.drop offset).takeWhile p := by
    cases hdrop : ((file.drop offset).takeWhile p).drop k with
    | nil => rw [drop_eq_nil_iff] at hdrop; omega
    | cons b' l =>
      rw [hdrop] at h
      have hb' : b' = b := by simpa using h
      exact mem_of_mem_drop (hb' ▸ hdrop ▸ mem_cons_self)
  have hall := all_eq_true.mp (@all_takeWhile _ p (file.drop offset)) b hmem
  rw [hb] at hall
  cases hall

/-! ## Writing -/

@[simp] theorem length_padded : (padded z file n).length = n := by
  simp only [padded, length_append, length_take, length_replicate]
  omega

@[simp] theorem overwrite_nil : overwrite z file offset [] = file := if_pos rfl

theorem overwrite_of_ne_nil (h : data ≠ []) :
    overwrite z file offset data = padded z file offset ++ data ++
    file.drop (offset + data.length) :=
  if_neg h

theorem padded_of_le (h : n ≤ file.length) : padded z file n = file.take n := by
  simp [padded, Nat.sub_eq_zero_of_le h]

theorem overwrite_length : overwrite z file file.length data = file ++ data := by
  by_cases h : data = []
  · simp [h]
  · simp [overwrite_of_ne_nil h, padded_of_le (Nat.le_refl _)]

theorem overwrite_append : overwrite z (overwrite z file offset data) (offset + data.length) data' =
      overwrite z file offset (data ++ data') := by
  by_cases hd : data = []
  · simp [hd]
  by_cases hd' : data' = []
  · simp [hd']
  have hlen : (padded z file offset ++ data).length = offset + data.length := by simp
  rw [overwrite_of_ne_nil hd', overwrite_of_ne_nil hd, overwrite_of_ne_nil (by simp [hd]),
    padded_of_le (by rw [length_append, hlen]; omega), ← hlen, take_left,
    ← drop_drop, drop_left, hlen, drop_drop]
  simp [Nat.add_assoc]

theorem overwrite_overwrite (h : data'.length = data.length) :
    overwrite z (overwrite z file offset (data ++ rest)) offset data' =
      overwrite z file offset (data' ++ rest) := by
  by_cases hd : data' = []
  · have hnil : data = [] := by simpa [hd] using h.symm
    simp [hd, hnil]
  have hd' : data ≠ [] := fun hnil => hd (by simpa [hnil] using h)
  have hpad : (padded z file offset).length = offset := length_padded
  rw [overwrite_of_ne_nil hd, overwrite_of_ne_nil (by simp [hd']), overwrite_of_ne_nil
    (by simp [hd]), padded_of_le (by simp only [length_append, hpad]; omega)]
  simp [h, drop_append, hpad]

theorem take_overwrite (h : n ≤ file.length) :
    (overwrite z file n data).take (n + data.length) = file.take n ++ data := by
  by_cases hd : data = []
  · simp [hd]
  have hlen : (file.take n ++ data).length = n + data.length := by simp [h]
  rw [overwrite_of_ne_nil hd, padded_of_le h, ← hlen, take_left]

end Congfs.FlatFile
