import Mathlib.Order.Lattice.Nat
import Mathlib.Tactic.Ring

/-! Round-robin striping of a linear address space: chunks of one size are dealt in turn to a
fixed number of columns, and every column stores its chunks one after the other. -/

namespace Congfs

open Nat (div_add_mod' div_eq_of_lt lt_succ_iff mod_eq_of_lt mod_lt)

/-- Position `k` holds the maximum of the first `n` values, and none after it does. -/
structure IsLastMax {α : Type*} [LinearOrder α] (f : ℕ → α) (n k : ℕ) : Prop where
  lt : k < n
  le : ∀ j < n, f j ≤ f k
  after : ∀ j < n, k < j → f j < f k

namespace IsLastMax
variable {α : Type*} [LinearOrder α] {f g : ℕ → α} {n k l : ℕ}

theorem one (f : ℕ → α) : IsLastMax f 1 0 where
  lt := Nat.one_pos
  le := by
    intro j hj
    rw [Nat.lt_one_iff.mp hj]
  after := by
    intro j hj h
    omega

section
variable (h : IsLastMax f n k)
include h

theorem succ_of_le (hle : f k ≤ f n) : IsLastMax f (n + 1) n where
  lt := Nat.lt_succ_self n
  le := by
    intro j hj
    rcases Nat.lt_succ_iff_lt_or_eq.mp hj with hj | rfl
    · exact (h.le j hj).trans hle
    · exact le_rfl
  after := by
    intro j hj hlt
    omega

theorem succ_of_lt (hlt : f n < f k) : IsLastMax f (n + 1) k where
  lt := Nat.lt_succ_of_lt h.lt
  le := by
    intro j hj
    rcases Nat.lt_succ_iff_lt_or_eq.mp hj with hj | rfl
    · exact h.le j hj
    · exact hlt.le
  after := by
    intro j hj hkj
    rcases Nat.lt_succ_iff_lt_or_eq.mp hj with hj | rfl
    · exact h.after j hj hkj
    · exact hlt

theorem unique (h' : IsLastMax f n l) : k = l := by
  rcases lt_trichotomy k l with hlt | rfl | hlt
  · exact absurd (h'.le k h.lt) (not_le_of_gt (h.after l h'.lt hlt))
  · rfl
  · exact absurd (h.le l h'.lt) (not_le_of_gt (h'.after k h.lt hlt))

theorem mono (hle : ∀ j < n, g j ≤ f j) (heq : g k = f k) : IsLastMax g n k where
  lt := h.lt
  le j hj := heq ▸ (hle j hj).trans (h.le j hj)
  after j hj hkj := heq ▸ (hle j hj).trans_lt (h.after j hj hkj)

end

end IsLastMax

theorem mul_add_lt_mul_add_iff {c u v r s : ℕ} (hr : r < c) (hs : s < c) :
    u * c + r < v * c + s ↔ u < v ∨ u = v ∧ r < s := by
  rcases lt_trichotomy u v with h | rfl | h
  · have hstep : (u + 1) * c ≤ v * c := Nat.mul_le_mul_right c h
    rw [Nat.succ_mul] at hstep
    constructor
    · exact fun _ => .inl h
    · omega
  · omega
  · have hstep : (v + 1) * c ≤ u * c := Nat.mul_le_mul_right c h
    rw [Nat.succ_mul] at hstep
    omega

theorem mul_add_eq_mul_add_iff {c u v r s : ℕ} (hr : r < c) (hs : s < c) :
    u * c + r = v * c + s ↔ u = v ∧ r = s := by
  have h := mul_add_lt_mul_add_iff hr hs (u := u) (v := v)
  have h' := mul_add_lt_mul_add_iff hs hr (u := v) (v := u)
  omega

structure Layout where
  chunk : ℕ
  width : ℕ
  chunk_pos : 0 < chunk
  width_pos : 0 < width

namespace Layout
variable (L : Layout) {i p q x S : ℕ}

def column (p : ℕ) : ℕ := p / L.chunk % L.width

/-- Where its column stores address `p`. -/
def offset (p : ℕ) : ℕ := p / L.chunk / L.width * L.chunk + p % L.chunk

/-- The address that column `i` stores at `x`. -/
def position (i x : ℕ) : ℕ := (x / L.chunk * L.width + i) * L.chunk + x % L.chunk

theorem column_lt (p : ℕ) : L.column p < L.width := mod_lt _ L.width_pos

theorem offset_div : L.offset p / L.chunk = p / L.chunk / L.width := by
  rw [offset, Nat.mul_comm, Nat.mul_add_div L.chunk_pos,
    div_eq_of_lt (mod_lt p L.chunk_pos), Nat.add_zero]

theorem offset_mod : L.offset p % L.chunk = p % L.chunk := by
  rw [offset, Nat.mul_comm, Nat.mul_add_mod, Nat.mod_mod]

theorem column_add (h : p % L.chunk + i < L.chunk) : L.column (p + i) = L.column p := by
  rw [column, column, Nat.add_div L.chunk_pos, mod_eq_of_lt (a := i) (by omega),
    div_eq_of_lt (a := i) (by omega), if_neg (by omega), Nat.add_zero]

theorem offset_add (h : p % L.chunk + i < L.chunk) : L.offset (p + i) = L.offset p + i := by
  rw [offset, offset, Nat.add_div L.chunk_pos, mod_eq_of_lt (a := i) (by omega),
    div_eq_of_lt (a := i) (by omega), if_neg (by omega), Nat.add_mod,
    mod_eq_of_lt (a := i) (by omega), mod_eq_of_lt h]
  rw [Nat.add_zero, Nat.add_assoc]

theorem column_next (p : ℕ) :
    L.column (p + (L.chunk - p % L.chunk)) = (L.column p + 1) % L.width := by
  have hmod := mod_lt p L.chunk_pos
  have hsum : p + (L.chunk - p % L.chunk) = L.chunk * (p / L.chunk + 1) := by
    have hdiv := Nat.div_add_mod p L.chunk
    rw [mul_add, mul_one]
    omega
  rw [column, column, hsum, Nat.mul_div_cancel_left _ L.chunk_pos, Nat.mod_add_mod]

theorem column_mul_le (p : ℕ) : L.column p * L.chunk ≤ p - p % L.chunk := by
  rw [← Nat.div_mul_self_eq_mod_sub_self]
  exact Nat.mul_le_mul_right _ (Nat.mod_le _ _)

theorem offset_eq (p : ℕ) :
    L.offset p = (p - p % L.chunk - L.column p * L.chunk) / L.width + p % L.chunk := by
  have hrow : p - p % L.chunk - L.column p * L.chunk =
      L.width * (p / L.chunk / L.width * L.chunk) := by
    rw [← Nat.div_mul_self_eq_mod_sub_self, ← Nat.sub_mul, column,
      ← Nat.div_mul_self_eq_mod_sub_self]
    ring
  rw [hrow, Nat.mul_div_cancel_left _ L.width_pos, offset]

theorem position_div : L.position i x / L.chunk = x / L.chunk * L.width + i := by
  rw [position, Nat.mul_comm _ L.chunk, Nat.mul_add_div L.chunk_pos,
    div_eq_of_lt (mod_lt x L.chunk_pos), Nat.add_zero]

@[simp] theorem position_column_offset (p : ℕ) : L.position (L.column p) (L.offset p) = p := by
  rw [position, offset_div, offset_mod, column, div_add_mod', div_add_mod']

theorem lt_iff_div_mod (x y : ℕ) : x < y ↔ x / L.chunk < y / L.chunk ∨
    x / L.chunk = y / L.chunk ∧ x % L.chunk < y % L.chunk := by
  conv_lhs => rw [← div_add_mod' x L.chunk, ← div_add_mod' y L.chunk]
  exact mul_add_lt_mul_add_iff (mod_lt x L.chunk_pos) (mod_lt y L.chunk_pos)

/-- How much of the first `S` addresses column `i` stores. The column of address `S` itself
stores what lies before `S`; those before it have finished their chunk of that row, those after
it have not begun it. -/
def share (S i : ℕ) : ℕ :=
  if i < L.column S then (L.offset S / L.chunk + 1) * L.chunk
  else if i = L.column S then L.offset S
  else L.offset S / L.chunk * L.chunk

section
variable (hi : i < L.width)
include hi

theorem column_position (x : ℕ) : L.column (L.position i x) = i := by
  rw [column, position_div, Nat.mul_comm, Nat.mul_add_mod, mod_eq_of_lt hi]

theorem position_lt_position_iff (hj : j < L.width) (x y : ℕ) :
    L.position i x < L.position j y ↔ x / L.chunk < y / L.chunk ∨ x / L.chunk = y / L.chunk ∧
      (i < j ∨ i = j ∧ x % L.chunk < y % L.chunk) := by
  rw [position, position, mul_add_lt_mul_add_iff (mod_lt x L.chunk_pos) (mod_lt y L.chunk_pos),
    mul_add_lt_mul_add_iff hi hj, mul_add_eq_mul_add_iff hi hj]
  tauto

theorem position_strictMono : StrictMono (L.position i) := by
  intro x y h
  rw [L.position_lt_position_iff hi hi]
  have := (L.lt_iff_div_mod x y).mp h
  tauto

/-! ## The first `S` addresses -/

theorem position_lt_iff : L.position i x < S ↔ x < L.share S i := by
  have hpos := L.position_lt_position_iff hi (L.column_lt S) x (L.offset S)
  rw [position_column_offset] at hpos
  rw [hpos, share]
  split
  · rw [← Nat.div_lt_iff_lt_mul L.chunk_pos]
    omega
  · split
    · rw [L.lt_iff_div_mod x]
      tauto
    · rw [← Nat.div_lt_iff_lt_mul L.chunk_pos]
      omega

omit hi in
/-- The addresses below `S` lie within the shares of their columns, and no others do. -/
theorem offset_lt_share_iff (p S : ℕ) : L.offset p < L.share S (L.column p) ↔ p < S := by
  rw [← L.position_lt_iff (L.column_lt p), position_column_offset]

theorem card_column_below (S : ℕ) :
    ((Finset.range S).filter fun p => L.column p = i).card = L.share S i := by
  have himage : ((Finset.range S).filter fun p => L.column p = i) =
      (Finset.range (L.share S i)).image (L.position i) := by
    ext p
    simp only [Finset.mem_filter, Finset.mem_range, Finset.mem_image]
    constructor
    · rintro ⟨hp, rfl⟩
      exact ⟨L.offset p, (L.offset_lt_share_iff p S).mpr hp, L.position_column_offset p⟩
    · rintro ⟨x, hx, rfl⟩
      exact ⟨(L.position_lt_iff hi).mpr hx, L.column_position hi x⟩
  rw [himage, Finset.card_image_of_injective _ (L.position_strictMono hi).injective,
    Finset.card_range]

theorem share_le (S : ℕ) : L.share S i ≤ S := by
  rw [← L.card_column_below hi]
  exact (Finset.card_filter_le _ _).trans_eq (Finset.card_range S)

end

theorem offset_le (p : ℕ) : L.offset p ≤ p :=
  lt_succ_iff.mp (((L.offset_lt_share_iff p (p + 1)).mpr (Nat.lt_succ_self p)).trans_le
    (L.share_le (L.column_lt p) (p + 1)))

@[simp] theorem share_zero : L.share 0 i = 0 := by
  have hcol : L.column 0 = 0 := by simp [column]
  have hoff : L.offset 0 = 0 := by simp [offset]
  simp [share, hcol, hoff]

/-- The last column to have been written stores up to the last address. -/
theorem share_succ_column : L.share (p + 1) (L.column p) = L.offset p + 1 := by
  have hlt (x : ℕ) : x < L.share (p + 1) (L.column p) ↔ x < L.offset p + 1 := by
    have hmono := (L.position_strictMono (L.column_lt p)).le_iff_le (a := x) (b := L.offset p)
    rw [position_column_offset] at hmono
    rw [← L.position_lt_iff (L.column_lt p), lt_succ_iff, lt_succ_iff, hmono]
  exact eq_of_forall_lt_iff hlt

/-! ## The chunks of a column -/

/-- The number of chunks that `s` addresses fill or begin. -/
def chunks (s : ℕ) : ℕ := s / L.chunk + if s % L.chunk = 0 then 0 else 1

theorem lt_chunks_iff : k < L.chunks s ↔ k * L.chunk < s := by
  have hk := L.lt_iff_div_mod (k * L.chunk) s
  rw [Nat.mul_div_left k L.chunk_pos, Nat.mul_mod_left] at hk
  rw [hk, chunks]
  split <;> omega

theorem chunks_mono : Monotone L.chunks := by
  intro s t h
  refine le_of_forall_lt fun k hk => ?_
  exact L.lt_chunks_iff.mpr ((L.lt_chunks_iff.mp hk).trans_le h)

theorem chunks_le (s : ℕ) : L.chunks s ≤ s := by
  refine le_of_forall_lt fun k hk => ?_
  exact (Nat.le_mul_of_pos_right k L.chunk_pos).trans_lt (L.lt_chunks_iff.mp hk)

/-- When `p` was the last address written, the columns up to its own have one chunk more than
those behind it. -/
theorem chunks_share_succ (hi : i < L.width) : L.chunks (L.share (p + 1) i) =
      p / L.chunk / L.width + if i ≤ L.column p then 1 else 0 := by
  refine eq_of_forall_lt_iff fun k => ?_
  -- chunk `k` of the column begins at row `k`
  have hstart : L.position i (k * L.chunk) = (k * L.width + i) * L.chunk := by
    rw [position, Nat.mul_div_left k L.chunk_pos, Nat.mul_mod_left, Nat.add_zero]
  have hrow := mul_add_lt_mul_add_iff (L.column_lt p) hi (u := p / L.chunk / L.width) (v := k)
  rw [column, div_add_mod', ← column] at hrow
  rw [lt_chunks_iff, ← L.position_lt_iff hi, hstart, lt_succ_iff,
    ← Nat.le_div_iff_mul_le L.chunk_pos, ← not_lt, hrow]
  split <;> omega

theorem isLastMax_share :
    IsLastMax (fun i => L.chunks (L.share (p + 1) i)) L.width (L.column p) where
  lt := L.column_lt p
  le j hj := by
    rw [L.chunks_share_succ hj, L.chunks_share_succ (L.column_lt p), if_pos le_rfl]
    split <;> omega
  after j hj hlt := by
    rw [L.chunks_share_succ hj, L.chunks_share_succ (L.column_lt p), if_pos le_rfl,
      if_neg (not_le_of_gt hlt)]
    omega

/-! ## The size recovered from the columns -/

/-- The size of the whole, read off the sizes `f` of its columns at column `k`: every column
before it has as many chunks, all full, and every column behind it has one chunk less. -/
def recover (f : ℕ → ℕ) (k : ℕ) : ℕ :=
  if L.chunks (f k) = 0 then 0
  else k * L.chunks (f k) * L.chunk + (L.width - k - 1) * (L.chunks (f k) - 1) * L.chunk + f k

theorem recover_share_succ : L.recover (L.share (p + 1)) (L.column p) = p + 1 := by
  have hrow : L.column p + L.width * (p / L.chunk / L.width) = p / L.chunk :=
    Nat.mod_add_div _ _
  have hp : p / L.chunk * L.chunk + p % L.chunk = p := div_add_mod' _ _
  obtain ⟨m, hm⟩ := Nat.exists_eq_add_of_lt (L.column_lt p)
  have hm' : L.width - L.column p - 1 = m := by omega
  rw [recover, L.chunks_share_succ (L.column_lt p), if_pos le_rfl, if_neg (Nat.succ_ne_zero _),
    share_succ_column, offset, hm', Nat.add_sub_cancel]
  conv_rhs => rw [← hp, ← hrow]
  rw [hm]
  ring

/-- The size comes out right whenever the column of the last address is as long as it should be
and no other is longer. -/
theorem recover_eq (hle : ∀ i < L.width, f i ≤ L.share S i)
    (heq : ∀ p, S = p + 1 → f (L.column p) = L.share S (L.column p))
    (hk : IsLastMax (fun i => L.chunks (f i)) L.width k) : L.recover f k = S := by
  cases S with
  | zero =>
    have hzero : f k = 0 := Nat.le_zero.mp (L.share_zero ▸ hle k hk.lt)
    simp [recover, hzero, chunks]
  | succ p =>
    have hlast : IsLastMax (fun i => L.chunks (f i)) L.width (L.column p) :=
      L.isLastMax_share.mono (fun j hj => L.chunks_mono (hle j hj)) (congrArg L.chunks (heq p rfl))
    rw [hk.unique hlast, ← L.recover_share_succ, recover, recover, heq p rfl]

/-! ## The columns of a written set -/

/-- How far column `i` reaches when the addresses of `W` have been written. -/
def extent (W : Finset ℕ) (i : ℕ) : ℕ :=
  (W.filter fun p => L.column p = i).sup fun p => L.offset p + 1

theorem extent_le_share (h : ∀ p ∈ W, p < S) (i : ℕ) : L.extent W i ≤ L.share S i := by
  apply Finset.sup_le
  intro p hp
  obtain ⟨hmem, rfl⟩ := Finset.mem_filter.mp hp
  exact (L.offset_lt_share_iff p S).mpr (h p hmem)

theorem extent_column (hp : p ∈ W) (h : ∀ q ∈ W, q < p + 1) :
    L.extent W (L.column p) = L.share (p + 1) (L.column p) := by
  apply le_antisymm (L.extent_le_share h _)
  rw [share_succ_column]
  exact Finset.le_sup (f := fun q => L.offset q + 1) (Finset.mem_filter.mpr ⟨hp, rfl⟩)

end Layout
end Congfs
