import Mathlib.Algebra.Order.Group.Nat
import Mathlib.Order.Lattice.Nat
import Mathlib.Algebra.GroupWithZero.Nat

/-! A stream that is transferred in consecutive segments, each of them from its front and possibly
not to its end. -/

namespace Congfs

structure Segment where
  start : ℕ
  size : ℕ
  /-- How many bytes of the segment were transferred. -/
  done : ℕ
  done_le : done ≤ size

namespace Segment
variable {a b : ℕ} {s : Segment} {l l' : List Segment}

/-- The segments follow each other without gaps, the first one at `a`. -/
def Consecutive : ℕ → List Segment → Prop
  | _, [] => True
  | a, s :: l => s.start = a ∧ Consecutive (a + s.size) l

/-- The byte at `b` was transferred. -/
def Covers (l : List Segment) (b : ℕ) : Prop := ∃ s ∈ l, s.start ≤ b ∧ b < s.start + s.done

def total (l : List Segment) : ℕ := (l.map size).sum

/-- The bytes transferred up to the first segment that was not transferred completely. -/
def transferred : List Segment → ℕ
  | [] => 0
  | s :: l => if s.done = s.size then s.size + transferred l else s.done

@[simp] theorem total_nil : total [] = 0 := rfl

@[simp] theorem total_cons : total (s :: l) = s.size + total l := rfl

@[simp] theorem total_append : total (l ++ l') = total l + total l' := by
  simp [total]

theorem Consecutive.append_iff :
    Consecutive a (l ++ l') ↔ Consecutive a l ∧ Consecutive (a + total l) l' := by
  induction l generalizing a with
  | nil => simp [Consecutive]
  | cons s l ih => simp [Consecutive, ih, and_assoc, add_assoc]

theorem Consecutive.le_of_covers (h : Consecutive a l) (hb : Covers l b) : a ≤ b := by
  induction l generalizing a with
  | nil => exact absurd hb (by simp [Covers])
  | cons s l ih =>
    obtain ⟨t, ht, hstart, hlt⟩ := hb
    obtain ⟨rfl, hrest⟩ := h
    rcases List.mem_cons.mp ht with rfl | ht
    · exact hstart
    · exact (Nat.le_add_right _ _).trans (ih hrest ⟨t, ht, hstart, hlt⟩)

theorem covers_cons_iff (h : Consecutive a (s :: l)) :
    Covers (s :: l) b ↔ (a ≤ b ∧ b < a + s.done) ∨ Covers l b := by
  obtain ⟨rfl, _⟩ := h
  simp [Covers]

/-- What follows an incomplete segment is not reached by the prefix. -/
theorem not_covers_of_incomplete (h : Consecutive a (s :: l)) (hs : s.done ≠ s.size) :
    ¬ Covers (s :: l) (a + s.done) := by
  have hlt : s.done < s.size := lt_of_le_of_ne s.done_le hs
  rw [covers_cons_iff h]
  rintro (⟨-, hb⟩ | hb)
  · exact absurd hb (lt_irrefl _)
  · have hle := h.2.le_of_covers hb
    omega

theorem covers_of_lt_transferred (h : Consecutive a l) (hb : b < transferred l) :
    Covers l (a + b) := by
  induction l generalizing a b with
  | nil => exact absurd hb (Nat.not_lt_zero _)
  | cons s l ih =>
    rw [covers_cons_iff h]
    rw [transferred] at hb
    by_cases hin : b < s.done
    · exact .inl ⟨Nat.le_add_right _ _, Nat.add_lt_add_left hin a⟩
    · split at hb
      · have hrest := ih h.2 (b := b - s.size) (by omega)
        exact .inr (by rwa [add_assoc, Nat.add_sub_cancel' (by omega)] at hrest)
      · exact absurd hb hin

theorem not_covers_transferred (h : Consecutive a l) : ¬ Covers l (a + transferred l) := by
  induction l generalizing a with
  | nil => simp [Covers]
  | cons s l ih =>
    rw [transferred]
    split
    · rw [covers_cons_iff h, ← add_assoc]
      rintro (⟨-, hb⟩ | hb)
      · omega
      · exact ih h.2 hb
    · exact not_covers_of_incomplete h ‹_›

/-- `transferred` is the longest prefix of the stream all of whose bytes were transferred. -/
theorem isGreatest_transferred (h : Consecutive a l) :
    IsGreatest {n | ∀ b < n, Covers l (a + b)} (transferred l) := by
  refine ⟨fun b hb => covers_of_lt_transferred h hb, fun n hn => ?_⟩
  by_contra hlt
  exact not_covers_transferred h (hn _ (not_le.mp hlt))

theorem transferred_append_of_complete (h : ∀ s ∈ l, s.done = s.size) :
    transferred (l ++ l') = total l + transferred l' := by
  induction l with
  | nil => simp
  | cons s l ih =>
    rw [List.cons_append, transferred, if_pos (h s List.mem_cons_self),
      ih fun t ht => h t (List.mem_cons_of_mem s ht), total_cons, add_assoc]

theorem transferred_append_of_incomplete (h : ¬ ∀ s ∈ l, s.done = s.size) :
    transferred (l ++ l') = transferred l := by
  induction l with
  | nil => exact absurd (by simp) h
  | cons s l ih =>
    rw [List.cons_append, transferred, transferred]
    split_ifs with hs
    · rw [ih fun hl => h (List.forall_mem_cons.mpr ⟨hs, hl⟩)]
    · rfl

theorem transferred_of_complete (h : ∀ s ∈ l, s.done = s.size) : transferred l = total l := by
  conv_lhs => rw [← List.append_nil l]
  rw [transferred_append_of_complete h, transferred, add_zero]

theorem transferred_le_total : transferred l ≤ total l := by
  induction l with
  | nil => exact le_rfl
  | cons s l ih =>
    have hle := s.done_le
    rw [transferred, total_cons]
    split <;> omega

end Segment
end Congfs
