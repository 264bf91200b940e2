import Congfs.Lib.Run
import Mathlib.Data.List.Perm.Basic

/-!
# Interleaved calls

Several calls work on one shared state. Each is a sequence of atomic sections, what a lock protects,
and other calls get their turns between two sections. A `Program` says how a request starts and what
the next section of a call does; a run starts requests and advances calls in any order.

An `Invariant` speaks of the shared state and of all calls, in any order. Where single calls and
pairs of calls suffice (`Inv`), a section has to leave the other calls what they rely on (`Keeps`),
and `everySection_iff` settles the properties that only some sections have.
-/

namespace Congfs

structure Threads (σ τ : Type*) where
  shared : σ
  calls : List τ

variable {σ τ ρ ι ω : Type*}

/-- Calls in `τ`, made by requests in `ρ`, with results in `ω`. A section reads an input in `ι`. -/
structure Program (σ τ ρ ι ω : Type*) where
  start : ρ → τ
  next : σ → τ → ι → σ × (τ ⊕ ω)

namespace Program

open scoped List

inductive Action (ρ ι : Type*)
  | start (request : ρ)
  | advance (index : ℕ) (input : ι)

variable (P : Program σ τ ρ ι ω)

/-- A call that does not exist has no turn. -/
def step (s : Threads σ τ) : Action ρ ι → Threads σ τ
  | .start request => ⟨s.shared, s.calls ++ [P.start request]⟩
  | .advance index input =>
    match s.calls[index]? with
    | none => s
    | some call =>
      match P.next s.shared call input with
      | (shared, .inl call) => ⟨shared, s.calls.set index call⟩
      | (shared, .inr _) => ⟨shared, s.calls.eraseIdx index⟩

/-- `Q` holds of the section that an action runs, if it runs one. -/
def OfSection (Q : σ → τ → ι → Prop) (s : Threads σ τ) : Action ρ ι → Prop
  | .start _ => True
  | .advance index input => ∀ call, s.calls[index]? = some call → Q s.shared call input

variable {P} {s : Threads σ τ}

theorem step_advance_none (h : s.calls[index]? = none) : P.step s (.advance index input) = s := by
  simp only [step, h]

theorem step_advance (h : s.calls[index]? = some call) : P.step s (.advance index input) =
      match P.next s.shared call input with
      | (shared, .inl call) => ⟨shared, s.calls.set index call⟩
      | (shared, .inr _) => ⟨shared, s.calls.eraseIdx index⟩ := by
  simp only [step, h]

/-! ## Invariants -/

def rest (calls : List τ) : τ ⊕ ω → List τ
  | .inl call => call :: calls
  | .inr _ => calls

/-- An invariant of the shared state and of the calls, in any order. -/
structure Invariant (P : Program σ τ ρ ι ω) (c : σ → τ → ι → Prop) (I : σ → List τ → Prop) :
    Prop where
  perm : ∀ s l l', l ~ l' → I s l → I s l'
  start : ∀ s l r, I s l → I s (P.start r :: l)
  next : ∀ s t i l, c s t i → I s (t :: l) → I (P.next s t i).1 (rest l (P.next s t i).2)

theorem Invariant.step (hI : P.Invariant c I) (hc : OfSection c s a) (hs : I s.shared s.calls) :
    I (P.step s a).shared (P.step s a).calls := by
  cases a with
  | start r => exact hI.perm _ _ _ (List.perm_append_singleton ..).symm (hI.start _ _ r hs)
  | advance index input =>
    cases hcall : s.calls[index]? with
    | none =>
      rw [step_advance_none hcall]
      exact hs
    | some t =>
      obtain ⟨hindex, hget⟩ := List.getElem?_eq_some_iff.mp hcall
      -- the order of the calls does not matter, so the one that is advanced can stand first
      have hperm : t :: s.calls.eraseIdx index ~ s.calls := by
        rw [← hget]
        exact List.getElem_cons_eraseIdx_perm hindex
      have hnext := hI.next _ t input _ (hc t hcall) (hI.perm _ _ _ hperm.symm hs)
      rw [step_advance hcall]
      generalize P.next s.shared t input = r at hnext ⊢
      obtain ⟨shared, t' | result⟩ := r
      · exact hI.perm _ _ _ (List.set_perm_cons_eraseIdx hindex t').symm hnext
      · exact hnext

/-- In a run whose sections all have `c`, what follows from the invariant holds in every state. -/
theorem Invariant.everyState (hI : P.Invariant c I)
    (hQ : ∀ s, I s.shared s.calls → Q s) (hs : I s.shared s.calls)
    (h : EveryStep P.step (OfSection c) s actions) : EveryState P.step Q s actions :=
  everyState_of_inv (I := fun s => I s.shared s.calls) (fun _ _ hc hs => hI.step hc hs) hQ hs h

/-! ## Invariants of single calls and of pairs -/

/-- `J` of the shared state, `T` of each call in it, and `R` of every two calls. -/
structure Inv (J : σ → Prop) (T : σ → τ → Prop) (R : τ → τ → Prop) (s : σ) (calls : List τ) :
    Prop where
  shared : J s
  call : ∀ t ∈ calls, T s t
  pair : calls.Pairwise R

variable {J : σ → Prop} {T : σ → τ → Prop} {R : τ → τ → Prop}

/-- What is asked of a section: it keeps the shared state and its own call in order, and what the
other calls rely on. -/
structure Keeps (P : Program σ τ ρ ι ω) (J : σ → Prop) (T : σ → τ → Prop) (R : τ → τ → Prop) (s : σ)
    (t : τ) (i : ι) : Prop where
  shared : J (P.next s t i).1
  call : ∀ t', (P.next s t i).2 = .inl t' → T (P.next s t i).1 t'
  other : ∀ u, T s u → R t u → T (P.next s t i).1 u
  pair : ∀ t' u, (P.next s t i).2 = .inl t' → T s u → R t u → R t' u

/-- What a request needs to start. -/
structure Starts (P : Program σ τ ρ ι ω) (J : σ → Prop) (T : σ → τ → Prop) (R : τ → τ → Prop) :
    Prop where
  call : ∀ s r, J s → T s (P.start r)
  pair : ∀ s r u, J s → T s u → R (P.start r) u

theorem Starts.invariant (hR : ∀ t u, R t u → R u t) (hstart : Starts P J T R)
    (hnext : ∀ s t i, J s → T s t → c s t i → Keeps P J T R s t i) :
    P.Invariant c (Inv J T R) where
  perm s l l' hperm h := by
    refine ⟨h.shared, fun t ht => h.call t (hperm.mem_iff.mpr ht), ?_⟩
    exact (hperm.pairwise_iff fun {t u} => hR t u).mp h.pair
  start s l r h := by
    refine ⟨h.shared, fun t ht => ?_, List.pairwise_cons.mpr ⟨fun u hu => ?_, h.pair⟩⟩
    · rcases List.mem_cons.mp ht with rfl | ht
      · exact hstart.call s r h.shared
      · exact h.call t ht
    · exact hstart.pair s r u h.shared (h.call u hu)
  next s t i l hc h := by
    obtain ⟨hfirst, hothers⟩ := List.pairwise_cons.mp h.pair
    have hother : ∀ u ∈ l, T s u := fun u hu => h.call u (List.mem_cons_of_mem _ hu)
    obtain ⟨hshared, hcall, hrely, hpair⟩ := hnext s t i h.shared (h.call t List.mem_cons_self) hc
    generalize P.next s t i = r at hshared hcall hrely hpair ⊢
    obtain ⟨s', t' | result⟩ := r
    · refine ⟨hshared, fun u hu => ?_, List.pairwise_cons.mpr ⟨fun u hu => ?_, hothers⟩⟩
      · rcases List.mem_cons.mp hu with rfl | hu
        · exact hcall u rfl
        · exact hrely u (hother u hu) (hfirst u hu)
      · exact hpair t' u rfl (hother u hu) (hfirst u hu)
    · exact ⟨hshared, fun u hu => hrely u (hother u hu) (hfirst u hu), hothers⟩

/-- A property `Q` holds of every section of a run exactly if `c` does, if the sections with `c`
keep an invariant under which they have `Q`, and the others do not have it. -/
theorem everySection_iff (hR : ∀ t u, R t u → R u t) (hstart : Starts P J T R)
    (hgood : ∀ s t i, J s → T s t → c s t i → Keeps P J T R s t i ∧ Q s t i)
    (hbad : ∀ s t i, J s → T s t → ¬c s t i → ¬Q s t i) (hs : Inv J T R s.shared s.calls) :
    EveryStep P.step (OfSection Q) s actions ↔ EveryStep P.step (OfSection c) s actions := by
  have hI : P.Invariant c (Inv J T R) :=
    hstart.invariant hR fun s t i hJ hT hc => (hgood s t i hJ hT hc).1
  refine everyStep_iff_of_inv (I := fun s => Inv J T R s.shared s.calls) ?_ ?_ hs
  · intro s a hs hc
    refine ⟨hI.step hc hs, ?_⟩
    cases a with
    | start r => trivial
    | advance index input =>
      intro t ht
      exact (hgood _ t input hs.shared (hs.call t (List.mem_of_getElem? ht)) (hc t ht)).2
  · intro s a hs hc hQ
    cases a with
    | start r => exact hc trivial
    | advance index input =>
      refine hc fun t ht => ?_
      by_contra hct
      exact hbad _ t input hs.shared (hs.call t (List.mem_of_getElem? ht)) hct (hQ t ht)

theorem Inv.of_no_calls {shared : σ} (h : J shared) : Inv J T R shared [] :=
  ⟨h, fun _ ht => (by cases ht), .nil⟩

end Program

end Congfs
