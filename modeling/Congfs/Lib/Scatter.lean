import Mathlib.Data.List.Nodup

/-!
# Memory in pieces

A transfer fills several pieces of memory one after the other. The iterator remembers how far it is
in the first of the pieces that are left. `addresses` are all the places it will come to, in their
order, and what a transfer does to the memory is to store its elements there (`scatter`).
-/

namespace Congfs.Scatter

open List

/-! ## Memory -/

section
variable {α : Type*} {mem : ℕ → α} {addrs addrs' : List ℕ} {data data' : List α}

/-- The elements are stored at the addresses, one by one. -/
def scatter (mem : ℕ → α) : List ℕ → List α → ℕ → α
  | a :: addrs, x :: data => scatter (Function.update mem a x) addrs data
  | _, _ => mem

def store (mem : ℕ → α) (base : ℕ) (data : List α) : ℕ → α :=
  scatter mem (range' base data.length) data

@[simp] theorem scatter_nil_right : scatter mem addrs [] = mem := by
  cases addrs <;> rfl

theorem scatter_append (h : addrs.length = data.length) :
    scatter mem (addrs ++ addrs') (data ++ data') = scatter (scatter mem addrs data)
    addrs' data' := by
  induction addrs generalizing mem data with
  | nil =>
    cases data with
    | nil => rfl
    | cons => cases h
  | cons a addrs ih =>
    cases data with
    | nil => cases h
    | cons x data => exact ih (Nat.succ.inj h)

theorem scatter_of_notMem (h : a ∉ addrs.take data.length) : scatter mem addrs data a = mem a := by
  induction addrs generalizing mem data with
  | nil => rfl
  | cons b addrs ih =>
    cases data with
    | nil => rfl
    | cons x data =>
      rw [length_cons, take_succ_cons, mem_cons, not_or] at h
      rw [scatter, ih h.2, Function.update_of_ne h.1]

theorem map_scatter (hnodup : addrs.Nodup) (hlen : data.length ≤ addrs.length) :
    (addrs.take data.length).map (scatter mem addrs data) = data := by
  induction addrs generalizing mem data with
  | nil =>
    cases data with
    | nil => rfl
    | cons => cases hlen
  | cons a addrs ih =>
    cases data with
    | nil => rfl
    | cons x data =>
      obtain ⟨hnot, hnodup⟩ := nodup_cons.mp hnodup
      have hfirst : scatter (Function.update mem a x) addrs data a = x := by
        rw [scatter_of_notMem fun h => hnot (mem_of_mem_take h), Function.update_self]
      rw [length_cons, take_succ_cons, map_cons, scatter, hfirst,
        ih hnodup (Nat.le_of_succ_le_succ hlen)]

theorem map_store : (range' base data.length).map (store mem base data) = data := by
  have hlen : (range' base data.length).length = data.length := length_range'
  have h := @map_scatter _ mem _ data (nodup_range' (s := base) (n := data.length))
    (Nat.le_of_eq hlen.symm)
  rwa [take_of_length_le (Nat.le_of_eq hlen)] at h

end

/-! ## Iterators -/

structure Piece where
  base : ℕ
  len : ℕ

structure Iter where
  pieces : List Piece
  /-- How much of the first piece is done. -/
  offset : ℕ
  /-- How much is still to be done. -/
  count : ℕ

/-- The places from the offset in the first piece on. -/
def placesFrom : List Piece → ℕ → List ℕ
  | [], _ => []
  | p :: ps, offset => range' (p.base + offset) (p.len - offset) ++ placesFrom ps 0

/-- The pieces that are left and the offset in the first one of them. -/
def skip : List Piece → ℕ → ℕ → List Piece × ℕ
  | [], offset, _ => ([], offset)
  | p :: ps, offset, n =>
    if n < p.len - offset then (p :: ps, offset + n) else skip ps 0 (n - (p.len - offset))

namespace Iter

def addresses (it : Iter) : List ℕ := (placesFrom it.pieces it.offset).take it.count

/-- What is left of the first piece. -/
def front (it : Iter) : Piece :=
  it.pieces.head?.elim ⟨0, 0⟩ fun p => ⟨p.base + it.offset, min it.count (p.len - it.offset)⟩

def advance (it : Iter) (n : ℕ) : Iter where
  pieces := (skip it.pieces it.offset n).1
  offset := (skip it.pieces it.offset n).2
  count := it.count - n

/-- No piece is empty, the first one is not through, and there is room for everything. -/
structure Valid (it : Iter) : Prop where
  pos : ∀ p ∈ it.pieces, 0 < p.len
  offset_lt : ∀ p ∈ it.pieces.head?, it.offset < p.len
  count_le : it.count ≤ (placesFrom it.pieces it.offset).length

end Iter

theorem placesFrom_skip :
    placesFrom (skip ps offset n).1 (skip ps offset n).2 = (placesFrom ps offset).drop n := by
  induction ps generalizing offset n with
  | nil => simp [skip, placesFrom]
  | cons p ps ih =>
    rw [skip, placesFrom]
    split
    · have hlen : n ≤ (range' (p.base + offset) (p.len - offset)).length := by
        rw [length_range']
        omega
      rw [placesFrom, drop_append_of_le_length hlen, drop_range', Nat.mul_one, Nat.add_assoc,
        Nat.sub_sub]
    · have hdrop : (range' (p.base + offset) (p.len - offset)).drop n = [] := by
        rw [drop_eq_nil_iff, length_range']
        omega
      rw [ih, drop_append, hdrop, length_range', nil_append]

theorem skip_pos (h : ∀ p ∈ ps, 0 < p.len) (offset n : ℕ) :
    ∀ p ∈ (skip ps offset n).1, 0 < p.len := by
  induction ps generalizing offset n with
  | nil => exact h
  | cons p ps ih =>
    rw [skip]
    split
    · exact h
    · exact ih (fun q hq => h q (mem_cons_of_mem p hq)) 0 _

theorem skip_offset_lt (h : ∀ p ∈ ps, 0 < p.len)
    (hoffset : ∀ p ∈ ps.head?, offset < p.len) (n : ℕ) :
    ∀ p ∈ (skip ps offset n).1.head?, (skip ps offset n).2 < p.len := by
  induction ps generalizing offset n with
  | nil => exact hoffset
  | cons p ps ih =>
    rw [skip]
    split
    · intro q hq
      cases hq
      omega
    · refine ih (fun q hq => h q (mem_cons_of_mem p hq)) (fun q hq => ?_) _
      exact h q (mem_cons_of_mem p (mem_of_mem_head? hq))

namespace Iter.Valid
variable {it : Iter} {n : ℕ}

theorem length_addresses (h : it.Valid) : it.addresses.length = it.count := by
  rw [addresses, length_take, Nat.min_eq_left h.count_le]

theorem advance (h : it.Valid) (n : ℕ) : (it.advance n).Valid where
  pos := skip_pos h.pos it.offset n
  offset_lt := skip_offset_lt h.pos h.offset_lt n
  count_le := by
    rw [Iter.advance, placesFrom_skip, length_drop]
    exact Nat.sub_le_sub_right h.count_le n

theorem front_pos (h : it.Valid) (hpos : 0 < it.count) : 0 < it.front.len := by
  obtain ⟨pieces, offset, count⟩ := it
  cases pieces with
  | nil => exact absurd (Nat.lt_of_lt_of_le hpos h.count_le) (Nat.lt_irrefl 0)
  | cons p ps =>
    have hoffset : offset < p.len := h.offset_lt p rfl
    exact Nat.lt_min.mpr ⟨hpos, Nat.sub_pos_of_lt hoffset⟩

theorem addresses_eq (hn : n ≤ it.front.len) :
    it.addresses = range' it.front.base n ++ (it.advance n).addresses := by
  obtain ⟨pieces, offset, count⟩ := it
  cases pieces with
  | nil =>
    cases Nat.le_zero.mp hn
    simp [addresses, placesFrom, Iter.advance, skip]
  | cons p ps =>
    obtain ⟨hcount, hleft⟩ := Nat.le_min.mp hn
    have htake : (range' (p.base + offset) (p.len - offset)).take n =
        range' (p.base + offset) n := by
      have hparts := @range'_append_1 (p.base + offset) n (p.len - offset - n)
      rw [Nat.add_sub_of_le hleft] at hparts
      rw [← hparts, take_left' length_range']
    have hlen : n ≤ (range' (p.base + offset) (p.len - offset)).length := by
      rwa [length_range']
    have hsplit : count = n + (count - n) := by
      change n ≤ count at hcount
      omega
    rw [addresses, addresses, Iter.advance, placesFrom_skip]
    change (placesFrom (p :: ps) offset).take count =
      range' (p.base + offset) n ++ ((placesFrom (p :: ps) offset).drop n).take (count - n)
    conv_lhs => rw [hsplit, take_add]
    rw [placesFrom, take_append_of_le_length hlen, htake]

end Iter.Valid

end Congfs.Scatter
