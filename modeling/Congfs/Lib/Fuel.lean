import Mathlib.Order.Filter.AtTopBot.Basic

/-!
# Calls that may not end

A loop that need not end is a function of a bound for the number of its rounds, and a call that is
not through with them has an error instead of a result. `Gives x s P` says that the call `x` ends in
state `s`: with enough rounds there is a result, always the same, and it has the property `P`. What
a call made of several calls gives is determined by what the first one gives (`Gives.bind_iff`).
-/

namespace Congfs

open Filter

variable {σ ε α β : Type}

/-- With enough rounds, `x` has a result with the property `P`. -/
def Gives (x : ℕ → StateT σ (Except ε) α) (s : σ) (P : α → Prop) : Prop :=
  ∃ a s', (∀ᶠ fuel in atTop, x fuel s = .ok (a, s')) ∧ P a

/-- However many rounds there are, `x` has no result. -/
def Hangs (x : ℕ → StateT σ (Except ε) α) (s : σ) : Prop := ∀ᶠ fuel in atTop, ∃ e,
    x fuel s = .error e

variable {x : ℕ → StateT σ (Except ε) α} {f : ℕ → α → StateT σ (Except ε) β} {s s' : σ} {a : α}
  {P : α → Prop} {Q : β → Prop}

theorem bind_of_ok {x : StateT σ (Except ε) α} {f : α → StateT σ (Except ε) β}
    (h : x s = .ok (a, s')) : (x >>= f) s = f a s' := by
  change (x s >>= fun p => f p.1 p.2) = f a s'
  rw [h]
  rfl

theorem Gives.mono {P' : α → Prop} (h : Gives x s P) (hP : ∀ a, P a → P' a) : Gives x s P' := by
  obtain ⟨a, s', hx, ha⟩ := h
  exact ⟨a, s', hx, hP a ha⟩

theorem gives_iff_of_ok (h : ∀ᶠ fuel in atTop, x fuel s = .ok (a, s')) : Gives x s P ↔ P a := by
  constructor
  · rintro ⟨b, s'', hx, hb⟩
    obtain ⟨fuel, ha, hb'⟩ := (h.and hx).exists
    cases ha.symm.trans hb'
    exact hb
  · exact fun ha => ⟨a, s', h, ha⟩

@[simp] theorem gives_pure : Gives (fun _ => (pure a : StateT σ (Except ε) α)) s P ↔ P a :=
  gives_iff_of_ok (.of_forall fun _ => rfl)

theorem Gives.iff (h : Gives x s P) (hP : ∀ a, P a → (P' a ↔ c)) : Gives x s P' ↔ c := by
  obtain ⟨a, s', hx, ha⟩ := h
  rw [gives_iff_of_ok hx]
  exact hP a ha

theorem Hangs.not_gives (h : Hangs x s) : ¬Gives x s P := by
  rintro ⟨a, s', hx, -⟩
  obtain ⟨fuel, ⟨e, he⟩, ha⟩ := (h.and hx).exists
  cases he.symm.trans ha

theorem bind_of_error {x : StateT σ (Except ε) α} {f : α → StateT σ (Except ε) β} {e : ε}
    (h : x s = .error e) : (x >>= f) s = .error e := by
  change (x s >>= fun p => f p.1 p.2) = .error e
  rw [h]
  rfl

theorem Hangs.bind (h : Hangs x s) : Hangs (fun fuel => x fuel >>= f fuel) s :=
  Filter.Eventually.mono h fun _ h => h.imp fun _ => bind_of_error

theorem Gives.bind_iff {c : Prop} (h : Gives x s P)
    (hf : ∀ a s', P a → (Gives (fun fuel => f fuel a) s' Q ↔ c)) :
    Gives (fun fuel => x fuel >>= f fuel) s Q ↔ c := by
  obtain ⟨a, s', hx, ha⟩ := h
  rw [← hf a s' ha]
  have heq : ∀ᶠ fuel in atTop, (x fuel >>= f fuel) s = f fuel a s' := hx.mono fun _ => bind_of_ok
  constructor
  · rintro ⟨b, s'', hb, hQ⟩
    refine ⟨b, s'', ?_, hQ⟩
    filter_upwards [heq, hb] with fuel h1 h2
    rw [← h1, h2]
  · rintro ⟨b, s'', hb, hQ⟩
    refine ⟨b, s'', ?_, hQ⟩
    filter_upwards [heq, hb] with fuel h1 h2
    rw [h1, h2]

theorem Gives.bind (h : Gives x s P) (hf : ∀ a s', P a → Gives (fun fuel => f fuel a) s' Q) :
    Gives (fun fuel => x fuel >>= f fuel) s Q :=
  (h.bind_iff fun a s' ha => iff_true_intro (hf a s' ha)).mpr trivial

theorem Gives.bind_hangs (h : Gives x s P) (hf : ∀ a s', P a → Hangs (fun fuel => f fuel a) s') :
    Hangs (fun fuel => x fuel >>= f fuel) s := by
  obtain ⟨a, s', hx, ha⟩ := h
  filter_upwards [hx, hf a s' ha] with fuel h1 h2
  obtain ⟨e, he⟩ := h2
  exact ⟨e, (bind_of_ok h1).trans he⟩

theorem gives_liftM {x : ℕ → Except ε α} (h : ∀ᶠ fuel in atTop, x fuel = .ok a) :
    Gives (fun fuel => (liftM (x fuel) : StateT σ (Except ε) α)) s P ↔ P a := by
  have hlift : ∀ᶠ fuel in atTop, (liftM (x fuel) : StateT σ (Except ε) α) s = .ok (a, s) :=
    h.mono fun fuel hx => by
      rw [hx]
      rfl
  exact gives_iff_of_ok hlift

theorem hangs_liftM {x : ℕ → Except ε α} {e : ε} (h : ∀ fuel, x fuel = .error e) :
    Hangs (fun fuel => (liftM (x fuel) : StateT σ (Except ε) α)) s := by
  refine .of_forall fun fuel => ⟨e, ?_⟩
  dsimp only
  rw [h fuel]
  rfl

theorem eventually_of_succ {x y : ℕ → α} (h : ∀ᶠ fuel in atTop, x fuel = a)
    (hround : ∀ fuel, y (fuel + 1) = x fuel) : ∀ᶠ fuel in atTop, y fuel = a := by
  rw [← map_add_atTop_eq_nat 1, eventually_map]
  exact h.mono fun fuel hx => (hround fuel).trans hx

end Congfs
