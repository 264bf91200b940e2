import Mathlib.Order.Lattice

/-!
# Binary heaps with a hole

The keys of a heap are a function of the slots, of which the first `n` are in use. An element on its
way through the heap leaves a hole: the slots that do not touch it are in order, and so are its
neighbours (`HoleAt`). An element that is moved up takes the hole to the parent, one that is moved
down takes it to the smaller child, and one that stays fills it.
-/

namespace Congfs

def swapAt {α : Type*} (a : ℕ → α) (i j : ℕ) : ℕ → α := fun k =>
  if k = i then a j else if k = j then a i else a k

section
variable {α β : Type*} {a : ℕ → α} {i j k n : ℕ}

@[simp] theorem swapAt_left : swapAt a i j i = a j := if_pos rfl

@[simp] theorem swapAt_right : swapAt a i j j = a i := by
  rw [swapAt]
  split
  · rename_i h
    rw [h]
  · exact if_pos rfl

theorem swapAt_of_ne (hi : k ≠ i) (hj : k ≠ j) : swapAt a i j k = a k := by
  rw [swapAt, if_neg hi, if_neg hj]

theorem comp_swapAt (f : α → β) : (fun k => f (swapAt a i j k)) = swapAt (fun k =>
    f (a k)) i j := by
  funext k
  simp only [swapAt]
  split
  · rfl
  · split <;> rfl

theorem exists_swapAt_iff {P : α → Prop} (hi : i < n) (hj : j < n) :
    (∃ k, k < n ∧ P (swapAt a i j k)) ↔ ∃ k, k < n ∧ P (a k) := by
  have hback : ∀ {a : ℕ → α}, (∃ k, k < n ∧ P (swapAt a i j k)) → ∃ k, k < n ∧ P (a k) := by
    rintro a ⟨k, hk, hP⟩
    by_cases hki : k = i
    · rw [hki, swapAt_left] at hP
      exact ⟨j, hj, hP⟩
    by_cases hkj : k = j
    · rw [hkj, swapAt_right] at hP
      exact ⟨i, hi, hP⟩
    rw [swapAt_of_ne hki hkj] at hP
    exact ⟨k, hk, hP⟩
  have hinv : swapAt (swapAt a i j) i j = a := by
    funext k
    by_cases hki : k = i
    · rw [hki, swapAt_left, swapAt_right]
    by_cases hkj : k = j
    · rw [hkj, swapAt_right, swapAt_left]
    rw [swapAt_of_ne hki hkj, swapAt_of_ne hki hkj]
  refine ⟨hback, fun h => hback ?_⟩
  rw [hinv]
  exact h

end

namespace MinHeap

/-- Of a slot other than 0. -/
def parent (i : ℕ) : ℕ := (i - 1) / 2

variable {β : Type*} [LinearOrder β] {v w : ℕ → β} {n m hole : ℕ}

theorem parent_lt (h : 0 < i) : parent i < i := by
  rw [parent]
  omega

theorem parent_eq_iff (h : 0 < c) : parent c = i ↔ c = 2 * i + 1 ∨ c = 2 * i + 2 := by
  rw [parent]
  omega

def Ordered (v : ℕ → β) (n : ℕ) : Prop := ∀ i, 0 < i → i < n → v (parent i) ≤ v i

theorem Ordered.root_le (h : Ordered v n) (hi : i < n) : v 0 ≤ v i := by
  induction i using Nat.strongRecOn with
  | ind i ih =>
    rcases Nat.eq_zero_or_pos i with rfl | hpos
    · exact le_rfl
    · have hlt := parent_lt hpos
      exact (ih (parent i) hlt (by omega)).trans (h i hpos hi)

theorem Ordered.push (h : Ordered v n) (hle : ∀ i, i < n → v i ≤ v n) : Ordered v (n + 1) := by
  intro i hpos hi
  rcases Nat.lt_succ_iff_lt_or_eq.mp hi with hi | rfl
  · exact h i hpos hi
  · exact hle _ (parent_lt hpos)

structure HoleAt (v : ℕ → β) (n hole : ℕ) : Prop where
  off : ∀ i, 0 < i → i < n → i ≠ hole → parent i ≠ hole → v (parent i) ≤ v i
  around : 0 < hole → ∀ i, 0 < i → i < n → parent i = hole → v (parent hole) ≤ v i

theorem Ordered.holeAt (h : Ordered v n) (hole : ℕ) : HoleAt v n hole where
  off i hpos hi _ _ := h i hpos hi
  around hhole i hpos hi hpar := by
    have hlt := parent_lt hpos
    have hup := h hole hhole (by omega)
    have hdown := h i hpos hi
    rw [hpar] at hdown
    exact hup.trans hdown

namespace HoleAt

theorem root_of_eq (h : HoleAt v n 0) (hm : m ≤ n) (heq : ∀ i, 0 < i → i < m → w i = v i) :
    HoleAt w m 0 where
  off i hpos hi hne hpar := by
    have hlt := parent_lt hpos
    rw [heq i hpos hi, heq (parent i) (Nat.pos_of_ne_zero hpar) (by omega)]
    exact h.off i hpos (by omega) hne hpar
  around hhole := absurd hhole (Nat.lt_irrefl 0)

theorem up (h : HoleAt v n hole) (hpos : 0 < hole) (hlt : hole < n) :
    HoleAt (swapAt v hole (parent hole)) n (parent hole) where
  off i hi hin hne hpar := by
    have hihole : i ≠ hole := fun heq => hpar (heq ▸ rfl)
    rw [swapAt_of_ne hihole hne]
    by_cases hchild : parent i = hole
    · rw [hchild, swapAt_left]
      exact h.around hpos i hi hin hchild
    · rw [swapAt_of_ne hchild hpar]
      exact h.off i hi hin hihole hchild
  around hpp i hi hin hpar := by
    have hup := parent_lt hpos
    have hup' := parent_lt hpp
    have hgrand : v (parent (parent hole)) ≤ v (parent hole) :=
      h.off _ hpp (by omega) (by omega) (by omega)
    rw [swapAt_of_ne (by omega) (by omega)]
    by_cases hihole : i = hole
    · rw [hihole, swapAt_left]
      exact hgrand
    · have hlt' := parent_lt hi
      rw [swapAt_of_ne hihole (by omega)]
      have hle := h.off i hi hin hihole (by omega)
      rw [hpar] at hle
      exact hgrand.trans hle

theorem down (h : HoleAt v n hole) (hpos : 0 < m) (hm : m < n) (hpar : parent m = hole)
    (hmin : ∀ i, 0 < i → i < n → parent i = hole → v m ≤ v i) : HoleAt (swapAt v hole m) n m where
  off i hi hin hne hpari := by
    by_cases hihole : i = hole
    · subst hihole
      have hup := parent_lt hi
      rw [swapAt_left, swapAt_of_ne (by omega) (by omega)]
      exact h.around hi m hpos hm hpar
    · rw [swapAt_of_ne hihole hne]
      by_cases hchild : parent i = hole
      · rw [hchild, swapAt_left]
        exact hmin i hi hin hchild
      · rw [swapAt_of_ne hchild hpari]
        exact h.off i hi hin hihole hchild
  around _ i hi hin hpari := by
    have hlt := parent_lt hpos
    have hlt' := parent_lt hi
    rw [hpar, swapAt_left, swapAt_of_ne (by omega) (by omega), ← hpari]
    exact h.off i hi hin (by omega) (by omega)

theorem ordered (h : HoleAt v n hole) (habove : 0 < hole → v (parent hole) ≤ v hole)
    (hbelow : ∀ i, 0 < i → i < n → parent i = hole → v hole ≤ v i) : Ordered v n := by
  intro i hpos hi
  by_cases hihole : i = hole
  · subst hihole
    exact habove hpos
  by_cases hpar : parent i = hole
  · rw [hpar]
    exact hbelow i hpos hi hpar
  · exact h.off i hpos hi hihole hpar

end HoleAt
end MinHeap
end Congfs
