import Mathlib.Data.Set.Basic

/-!
# Who holds what

The abstract state of a lock table: for each mode and each owner, the set of the resources held.
Readers may share a resource, a writer excludes the other owners (`Excludes`). Giving up resources
keeps that, and so does granting a request that nothing blocks (`Excludes.add`). More locks block
more requests (`Blocks.mono`).
-/

namespace Congfs

inductive LockMode where
  | exclusive
  | shared
deriving DecidableEq, Repr

/-- The resources that each owner holds in each mode. -/
abbrev LockMap (ω β : Type*) := LockMode → ω → Set β

namespace LockMap

variable {ω β : Type*} {H H' : LockMap ω β} {m : LockMode} {o : ω} {S : Set β}

section
variable (H : LockMap ω β) (m : LockMode) (o : ω) (S : Set β)

/-- Different owners hold a resource together only if both share it. -/
def Excludes : Prop :=
  ∀ m1 m2 o1 o2 b, b ∈ H m1 o1 → b ∈ H m2 o2 → o1 ≠ o2 → m1 = .shared ∧ m2 = .shared

/-- Another owner holds something of `S` in a mode that keeps mode `m` out. -/
def Blocks : Prop :=
  ∃ m' o' b, b ∈ S ∧ b ∈ H m' o' ∧ o' ≠ o ∧ ¬(m = .shared ∧ m' = .shared)

def add : LockMap ω β :=
  fun m' o' => {b | b ∈ H m' o' ∨ m' = m ∧ o' = o ∧ b ∈ S}

end

theorem mem_add : b ∈ H.add m o S m' o' ↔ b ∈ H m' o' ∨ m' = m ∧ o' = o ∧ b ∈ S := .rfl

theorem Excludes.mono (h : H.Excludes) (hle : H' ≤ H) : H'.Excludes := by
  intro m1 m2 o1 o2 b h1 h2 ho
  exact h m1 m2 o1 o2 b (hle m1 o1 h1) (hle m2 o2 h2) ho

theorem Blocks.mono (h : H.Blocks m o S) (hle : H ≤ H') : H'.Blocks m o S := by
  obtain ⟨m', o', b, hb, hH, ho, hm⟩ := h
  exact ⟨m', o', b, hb, hle m' o' hH, ho, hm⟩

theorem Excludes.add (h : H.Excludes) (hb : ¬H.Blocks m o S) : (H.add m o S).Excludes := by
  -- what an old lock of another owner shares with `S` is shared on both sides
  have hnew : ∀ m' o' b, b ∈ S → b ∈ H m' o' → o' ≠ o → m = .shared ∧ m' = .shared := by
    intro m' o' b hS hH ho
    by_contra hm
    exact hb ⟨m', o', b, hS, hH, ho, hm⟩
  intro m1 m2 o1 o2 b h1 h2 ho
  rcases mem_add.mp h1 with hH1 | ⟨rfl, rfl, hS⟩
  · rcases mem_add.mp h2 with hH2 | ⟨rfl, rfl, hS⟩
    · exact h m1 m2 o1 o2 b hH1 hH2 ho
    · exact (hnew m1 o1 b hS hH1 ho).symm
  · rcases mem_add.mp h2 with hH2 | ⟨rfl, rfl, -⟩
    · exact hnew m2 o2 b hS hH2 (Ne.symm ho)
    · exact (ho rfl).elim

end LockMap

end Congfs
