import Mathlib.Data.List.Basic

/-!
# Runs of a deterministic system

A system is a step function `step : σ → ι → σ`. `run` feeds it a list of inputs, `Reachable`
collects the states that admissible inputs lead to, and `Reachable.inv` is the induction every
safety property goes through. A property that some steps break is settled by the steps that keep
it: `everyState_iff` says that it holds along a whole run exactly if every step is a good one.

`Steps` is the labelled closure of a relation. It describes a loop by the edits it makes, so that
what one edit keeps holds for the loop.
-/

namespace Congfs

variable {σ ι : Type*} (step : σ → ι → σ)

def run (s : σ) (inputs : List ι) : σ := inputs.foldl step s

theorem run_inv {step : σ → ι → σ} {P : σ → Prop} (hstep : ∀ s i, P s → P (step s i)) {s : σ}
    (hs : P s) : P (run step s l) := by
  induction l generalizing s with
  | nil => exact hs
  | cons i l ih => exact ih (hstep s i hs)

/-- The states reached from `init` by inputs that `ok` admits. -/
inductive Reachable (ok : ι → Prop) (init : σ) : σ → Prop where
  | init : Reachable ok init init
  | step {s : σ} {i : ι} : Reachable ok init s → ok i → Reachable ok init (step s i)

variable {step} {ok : ι → Prop} {init : σ}

/-- What holds at the start and survives every admissible step holds in every reachable state. -/
theorem Reachable.inv {P : σ → Prop} (h : Reachable step ok init s) (h0 : P init)
    (hstep : ∀ s i, ok i → P s → P (step s i)) : P s := by
  induction h with
  | init => exact h0
  | step _ hi ih => exact hstep _ _ hi ih

theorem Reachable.run {s : σ} (h : Reachable step ok init s) {l : List ι} (hl : ∀ i ∈ l, ok i) :
    Reachable step ok init (run step s l) := by
  induction l generalizing s with
  | nil => exact h
  | cons i l ih =>
    exact ih (h.step (hl i List.mem_cons_self)) fun j hj => hl j (List.mem_cons_of_mem _ hj)

section
variable (step)

/-- `P` holds in every state of the run from `s`, the first and the last included. -/
def EveryState (P : σ → Prop) : σ → List ι → Prop
  | s, [] => P s
  | s, i :: l => P s ∧ EveryState P (step s i) l

/-- `c` holds of every step of the run from `s`, of the state before it and its input. -/
def EveryStep (c : σ → ι → Prop) : σ → List ι → Prop
  | _, [] => True
  | s, i :: l => c s i ∧ EveryStep c (step s i) l

instance everyStepDecidable (c : σ → ι → Prop) [∀ s i, Decidable (c s i)] :
    (s : σ) → (l : List ι) → Decidable (EveryStep step c s l)
  | _, [] => inferInstanceAs (Decidable True)
  | s, i :: l =>
    have := everyStepDecidable c (step s i) l
    inferInstanceAs (Decidable (c s i ∧ EveryStep step c (step s i) l))

end

theorem EveryState.head (h : EveryState step P s l) : P s := by
  cases l with
  | nil => exact h
  | cons => exact h.1

/-- If a step from a good state ends in a good state exactly if `c` holds of it, then a run stays
good exactly if `c` holds of all its steps. `Aux` is what every admissible step keeps anyway. -/
theorem everyState_iff {P Aux : σ → Prop} {c : σ → ι → Prop}
    (haux : ∀ s i, ok i → Aux s → Aux (step s i))
    (hstep : ∀ s i, ok i → Aux s → P s → (P (step s i) ↔ c s i)) (hs : Aux s) (hP : P s)
    (hl : ∀ i ∈ l, ok i) :
    EveryState step P s l ↔ EveryStep step c s l := by
  induction l generalizing s with
  | nil => exact ⟨fun _ => trivial, fun _ => hP⟩
  | cons i l ih =>
    have hi := hl i List.mem_cons_self
    have hl' : ∀ j ∈ l, ok j := fun j hj => hl j (List.mem_cons_of_mem _ hj)
    have hiff := hstep s i hi hs hP
    constructor
    · rintro ⟨-, h⟩
      exact ⟨hiff.mp h.head, (ih (haux s i hi hs) h.head hl').mp h⟩
    · rintro ⟨hc, h⟩
      exact ⟨hP, (ih (haux s i hi hs) (hiff.mpr hc) hl').mpr h⟩

/-- The same for a property `P` that follows from an invariant `I` which only the good steps keep,
if every other step ends outside `P`. -/
theorem everyState_iff_of_inv {I P : σ → Prop} {c : σ → ι → Prop} (hP : ∀ s, I s → P s)
    (hgood : ∀ s i, I s → c s i → I (step s i)) (hbad : ∀ s i, I s → ¬c s i → ¬P (step s i))
    {s : σ} (hs : I s) (l : List ι) : EveryState step P s l ↔ EveryStep step c s l := by
  induction l generalizing s with
  | nil => exact ⟨fun _ => trivial, fun _ => hP s hs⟩
  | cons i l ih =>
    constructor
    · rintro ⟨-, h⟩
      have hc : c s i := by
        by_contra hc
        exact hbad s i hs hc h.head
      exact ⟨hc, (ih (hgood s i hs hc)).mp h⟩
    · rintro ⟨hc, h⟩
      exact ⟨hP s hs, (ih (hgood s i hs hc)).mpr h⟩

/-- In a run of good steps, what follows from an invariant that the good steps keep holds in every
state. -/
theorem everyState_of_inv {I P : σ → Prop} {c : σ → ι → Prop}
    (hstep : ∀ s i, c s i → I s → I (step s i)) (hP : ∀ s, I s → P s) (hs : I s)
    (h : EveryStep step c s l) : EveryState step P s l := by
  induction l generalizing s with
  | nil => exact hP s hs
  | cons i l ih =>
    obtain ⟨hc, h⟩ := h
    exact ⟨hP s hs, ih (hstep s i hc hs) h⟩

/-- The same for a property of the steps. -/
theorem everyStep_of_inv {I : σ → Prop} {Q c : σ → ι → Prop}
    (hstep : ∀ s i, c s i → I s → I (step s i) ∧ Q s i) (hs : I s) (h : EveryStep step c s l) :
    EveryStep step Q s l := by
  induction l generalizing s with
  | nil => trivial
  | cons i l ih =>
    obtain ⟨hc, h⟩ := h
    obtain ⟨hs', hQ⟩ := hstep s i hc hs
    exact ⟨hQ, ih hs' h⟩

/-- A property of the steps holds along a run exactly if `c` does, if the steps with `c` have it and
keep the invariant, and the others do not have it. -/
theorem everyStep_iff_of_inv {I : σ → Prop} {Q c : σ → ι → Prop}
    (hgood : ∀ s i, I s → c s i → I (step s i) ∧ Q s i) (hbad : ∀ s i, I s → ¬c s i → ¬Q s i)
    (hs : I s) : EveryStep step Q s l ↔ EveryStep step c s l := by
  constructor
  · refine everyStep_of_inv (fun s i hQ hs => ?_) hs
    have hc : c s i := by
      by_contra hc
      exact hbad s i hs hc hQ
    exact ⟨(hgood s i hs hc).1, hc⟩
  · exact everyStep_of_inv (fun s i hc hs => hgood s i hs hc) hs

theorem run_append : run step s (l ++ l') = run step (run step s l) l' :=
  List.foldl_append

theorem EveryState.last (h : EveryState step P s l) : P (run step s l) := by
  induction l generalizing s with
  | nil => exact h
  | cons i l ih => exact ih h.2

theorem EveryStep.run_left (h : EveryStep step c s (l ++ i :: l')) : c (run step s l) i := by
  induction l generalizing s with
  | nil => exact h.1
  | cons j l ih => exact ih h.2

/-! ## Sequences of labelled steps -/

/-- `s'` is reached from `s` by steps of `R` with the given labels. -/
inductive Steps (R : σ → ι → σ → Prop) : σ → List ι → σ → Prop where
  | nil {s : σ} : Steps R s [] s
  | cons {s s' s'' : σ} {i : ι} {l : List ι} : R s i s' → Steps R s' l s'' → Steps R s (i :: l) s''

namespace Steps

variable {R : σ → ι → σ → Prop} {s s' s'' : σ} {i : ι} {l l' : List ι}

theorem append (h : Steps R s l s') (h' : Steps R s' l' s'') : Steps R s (l ++ l') s'' := by
  induction h with
  | nil => exact h'
  | cons hi _ ih => exact .cons hi (ih h')

theorem inv {P : σ → Prop} (h : Steps R s l s') (hstep : ∀ s i s', R s i s' → P s → P s')
    (hs : P s) : P s' := by
  induction h with
  | nil => exact hs
  | cons hi _ ih => exact ih (hstep _ _ _ hi hs)

theorem split_of_mem (h : Steps R s l s') (hi : i ∈ l) :
    ∃ l1 l2 t t', l = l1 ++ i :: l2 ∧ Steps R s l1 t ∧ R t i t' ∧ Steps R t' l2 s' := by
  induction h with
  | nil => cases hi
  | cons hj hl ih =>
    rcases List.mem_cons.mp hi with rfl | hi
    · exact ⟨[], _, _, _, rfl, .nil, hj, hl⟩
    · obtain ⟨l1, l2, t, t', rfl, h1, ht, h2⟩ := ih hi
      exact ⟨_ :: l1, l2, t, t', rfl, .cons hj h1, ht, h2⟩

end Steps

end Congfs
