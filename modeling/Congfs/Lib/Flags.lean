import Mathlib.Data.Nat.Notation

/-! Feature flags: single bits, and masks of them. -/

namespace Congfs.Flags

open BitVec

section
variable {w : ℕ} {a b m : BitVec w} {k : ℕ}

theorem bitVec_and_not_iff : a &&& ~~~m = a ↔ a &&& m = 0#w := by
  constructor
  · intro h
    rw [← h]
    refine eq_of_getLsbD_eq fun i hi => ?_
    simp
  · intro h
    refine eq_of_getLsbD_eq fun i hi => ?_
    have hbit := congrArg (fun b => b.getLsbD i) h
    simp only [getLsbD_and, getLsbD_zero] at hbit
    simp only [getLsbD_and, getLsbD_not, hi, decide_true, Bool.true_and]
    grind

theorem bitVec_or_and_iff : (a ||| b) &&& m = 0#w ↔ a &&& m = 0#w ∧ b &&& m = 0#w := by
  constructor
  · intro h
    constructor
    all_goals
      refine eq_of_getLsbD_eq fun i hi => ?_
      have hbit := congrArg (fun b => b.getLsbD i) h
      simp only [getLsbD_and, getLsbD_or, getLsbD_zero] at hbit ⊢
      grind
  · rintro ⟨ha, hb⟩
    refine eq_of_getLsbD_eq fun i hi => ?_
    have hbit := congrArg (fun b => b.getLsbD i) ha
    have hbit' := congrArg (fun b => b.getLsbD i) hb
    simp only [getLsbD_and, getLsbD_or, getLsbD_zero] at hbit hbit' ⊢
    grind

theorem bitVec_or_twoPow (h : a &&& twoPow w k ≠ 0#w) : a ||| twoPow w k = a := by
  have hset : a.getLsbD k := by
    refine Decidable.byContradiction fun hoff => h (eq_of_getLsbD_eq fun i hi => ?_)
    simp only [getLsbD_and, getLsbD_twoPow, getLsbD_zero]
    grind
  refine eq_of_getLsbD_eq fun i hi => ?_
  simp only [getLsbD_or, getLsbD_twoPow]
  grind

end

section
variable {a b m : UInt32}

theorem and_not_eq_self_iff : a &&& ~~~m = a ↔ a &&& m = 0 := by
  rw [← UInt32.toBitVec_inj, ← UInt32.toBitVec_inj]
  exact bitVec_and_not_iff

theorem or_and_eq_zero_iff : (a ||| b) &&& m = 0 ↔ a &&& m = 0 ∧ b &&& m = 0 := by
  simp only [← UInt32.toBitVec_inj]
  exact bitVec_or_and_iff

theorem or_and_ne_zero (h : b &&& m ≠ 0) : (a ||| b) &&& m ≠ 0 :=
  fun hzero => h (or_and_eq_zero_iff.mp hzero).2

theorem and_eq_zero_of_unsupported (h : a &&& ~~~supported = 0) (hm : ~~~supported &&& m = m) :
    a &&& m = 0 := by
  rw [← hm, ← UInt32.and_assoc, h, UInt32.zero_and]

theorem or_eq_self_iff {k : ℕ} (hm : m.toBitVec = twoPow 32 k) (hne : m ≠ 0) :
    a ||| m = a ↔ a &&& m ≠ 0 := by
  constructor
  · intro h hzero
    rw [← h, or_and_eq_zero_iff, UInt32.and_self] at hzero
    exact hne hzero.2
  · intro h
    rw [Ne, ← UInt32.toBitVec_inj, UInt32.toBitVec_and, hm] at h
    rw [← UInt32.toBitVec_inj, UInt32.toBitVec_or, hm]
    exact bitVec_or_twoPow h

end

section
variable {a b m : UInt16}

theorem and_not_eq_self_iff16 : a &&& ~~~m = a ↔ a &&& m = 0 := by
  rw [← UInt16.toBitVec_inj, ← UInt16.toBitVec_inj]
  exact bitVec_and_not_iff

theorem or_and_eq_zero_iff16 : (a ||| b) &&& m = 0 ↔ a &&& m = 0 ∧ b &&& m = 0 := by
  simp only [← UInt16.toBitVec_inj]
  exact bitVec_or_and_iff

theorem or_and_ne_zero16 (h : b &&& m ≠ 0) : (a ||| b) &&& m ≠ 0 :=
  fun hzero => h (or_and_eq_zero_iff16.mp hzero).2

end

end Congfs.Flags
