import Congfs.Locking.RangeCalls

/-!
# Mutual exclusion and unlocking of range locks

Locks of different owners share a byte only if both are shared (`exclusion_of_reachable`): requests
are granted only if nothing blocks them, and neither the merging of ranges nor the splitting on
unlock gives anyone a byte that was not asked for.

An owner can hold one byte in both modes, or twice in one mode, and an unlock stops at the first
range that spans the unlocked one. It is complete exactly if that range is the owner's only one
there (`released_iff_not_conceals`). Where the locks of each owner are disjoint, it takes exactly
the bytes it is asked to (`flockRangeUnlock_exact`).
-/

namespace Congfs

open RangeLockDetails StdSet

namespace RangeLocks

variable {s s' : RangeLocks} {l w : RangeLockDetails} {m : LockMode} {op : RangeLockOp}

/-- What every call keeps: ranges have bytes, the queues hold requests of their mode, and the locks
of different owners exclude each other. -/
structure Safe (s : RangeLocks) : Prop where
  nonempty : ∀ m, ∀ e ∈ s.locks m, e.Nonempty
  asks : ∀ m, ∀ w ∈ s.waiters m, w.Asks m
  excludes : s.held.Excludes

theorem not_blocks_of_free (hs : s.Safe) (hl : l.Asks m)
    (hfree : s.flockRangeCheckConflictsEx l n = none) : ¬s.held.Blocks m l.owner l.bytes := by
  intro hb
  have hc := (conflicts_iff hs.nonempty hl n).mpr (.inl hb)
  rw [hfree] at hc
  cases hc

theorem Safe.asks_of_append (hs : s.Safe) (hq : s.waiters m = before ++ w :: after) : w.Asks m :=
  hs.asks m w (hq ▸ List.mem_append_right _ List.mem_cons_self)

theorem GrantStep.spec (h : GrantStep s w s') (hs : s.Safe) :
    ∃ m, w.Asks m ∧ ¬s.held.Blocks m w.owner w.bytes ∧ s'.locks = (s.grant w).locks := by
  cases h with
  | exclusive before after hq hfree =>
    have hasks : w.Asks .exclusive := hs.asks_of_append hq
    refine ⟨.exclusive, hasks, not_blocks_of_free hs hasks hfree, ?_⟩
    rw [grant_eq_exclusive hasks]
    funext m'
    cases m' <;> rfl
  | shared before after hq hfree =>
    have hasks : w.Asks .shared := hs.asks_of_append hq
    refine ⟨.shared, hasks, not_blocks_of_free hs hasks hfree, ?_⟩
    rw [grant_eq_shared hasks]
    funext m'
    cases m' <;> rfl

namespace Safe

theorem empty : empty.Safe where
  nonempty m e he := by cases m <;> cases he
  asks m w hw := by cases m <;> cases hw
  excludes := by
    intro m _ _ _ _ ⟨e, he, _⟩
    cases m <;> cases he

section
variable (hs : s.Safe)
include hs

theorem unlock (hl : l.Nonempty) : (s.flockRangeUnlock l).2.Safe where
  nonempty := locks_flockRangeUnlock hs.nonempty hl
  asks m := by
    rw [flockRangeUnlock_waiters]
    exact hs.asks m
  excludes := hs.excludes.mono (held_flockRangeUnlock_le hs.nonempty hl)

theorem removeMatching (gone : RangeLockDetails → Bool) : (s.removeMatching gone).2.Safe where
  nonempty m e he := by
    rw [locks_removeMatching] at he
    exact hs.nonempty m e (List.mem_of_mem_filter he)
  asks m w hw := by
    rw [waiters_removeMatching] at hw
    exact hs.asks m w (List.mem_of_mem_filter hw)
  excludes := hs.excludes.mono (held_removeMatching_le gone)

theorem cancelAllWaiters : s.flockRangeCancelAllWaiters.Safe where
  nonempty m := by
    cases m
    · exact hs.nonempty .exclusive
    · exact hs.nonempty .shared
  asks m w hw := by cases m <;> cases hw
  excludes := hs.excludes.mono fun m o b hb => by cases m <;> exact hb

theorem grant (hl : l.Asks m) (hb : ¬s.held.Blocks m l.owner l.bytes) : (s.grant l).Safe where
  nonempty := locks_grant hs.nonempty hl
  asks m := by
    rw [grant_waiters]
    exact hs.asks m
  excludes := (hs.excludes.add hb).mono (held_grant_le hl)

theorem enqueue (hl : l.Asks m) : (s.enqueue l).Safe := by
  have hmem : ∀ {q : List RangeLockDetails}, (∀ w ∈ q, w.Asks m) → ∀ w ∈ q ++ [l], w.Asks m := by
    intro q hq w hw
    rcases List.mem_append.mp hw with hw | hw
    · exact hq w hw
    · rw [List.mem_singleton.mp hw]
      exact hl
  cases m with
  | exclusive =>
    rw [enqueue_eq_exclusive hl]
    refine ⟨hs.nonempty, fun m' => ?_, hs.excludes⟩
    cases m' with
    | exclusive => exact hmem (hs.asks .exclusive)
    | shared => exact hs.asks .shared
  | shared =>
    rw [enqueue_eq_shared hl]
    refine ⟨hs.nonempty, fun m' => ?_, hs.excludes⟩
    cases m' with
    | exclusive => exact hs.asks .exclusive
    | shared => exact hmem (hs.asks .shared)

theorem grantStep (h : GrantStep s w s') : s'.Safe := by
  obtain ⟨m, hasks, hb, hlocks⟩ := h.spec hs
  have hg := hs.grant hasks hb
  have hheld : s'.held = (s.grant w).held := by
    unfold held
    rw [hlocks]
  refine ⟨?_, fun m' v hv => hs.asks m' v ((h.waiters_sublist m').subset hv), ?_⟩
  · rw [hlocks]
    exact hg.nonempty
  · rw [hheld]
    exact hg.excludes

theorem edit (hv : op.Valid) (h : Edit s op released granted s') : s'.Safe := by
  cases h with
  | cancel l hc => exact hs.removeMatching _
  | cancelByClientID id => exact hs.removeMatching _
  | cancelAllWaiters => exact hs.cancelAllWaiters
  | unlock l hc hu => exact hs.unlock hv.2
  | waiting | granted | refuse => exact hs
  | grant l hc hu hid hg hfree =>
    obtain ⟨m, hl⟩ := asks_of_oneOp hv.1 hv.2 hc hu
    refine (hs.unlock hv.2).grant hl fun hb => not_blocks_of_free hs hl hfree ?_
    exact hb.mono (held_flockRangeUnlock_le hs.nonempty hv.2)
  | enqueue l hc hu hid hg hconf hw =>
    obtain ⟨m, hl⟩ := asks_of_oneOp hv.1 hv.2 hc hu
    exact (hs.unlock hv.2).enqueue hl

theorem step (hv : op.Valid) : (s.step op).Safe := by
  obtain ⟨released, s', ws, hedit, hsteps, -⟩ := s.call_steps op
  exact hsteps.inv (fun _ _ _ h hs => hs.grantStep h) (hs.edit hv hedit)

end

theorem of_reachable (h : Reachable RangeLocks.step RangeLockOp.Valid RangeLocks.empty s) :
    s.Safe :=
  h.inv Safe.empty fun _ _ hv hs => hs.step hv

end Safe

/-- In every run, two locks of different owners that have a byte in common are both shared. -/
theorem exclusion_of_reachable (hs : Reachable step RangeLockOp.Valid empty s)
    {m1 m2 : LockMode} {e1 e2 : RangeLockDetails} (h1 : e1 ∈ s.locks m1) (h2 : e2 ∈ s.locks m2)
    (ho : e1.owner ≠ e2.owner) {b : UInt64} (hb1 : b ∈ e1) (hb2 : b ∈ e2) :
    m1 = .shared ∧ m2 = .shared :=
  (Safe.of_reachable hs).excludes m1 m2 e1.owner e2.owner b ⟨e1, h1, rfl, hb1⟩ ⟨e2, h2, rfl, hb2⟩ ho

/-- Two readers wait for a writer and are both woken when it unlocks. -/
def twoReaders : List RangeLockOp :=
  [.flock ⟨1, 1, "a", entryLockTypeExclusive, 0, 10⟩,
    .flock ⟨2, 1, "b", entryLockTypeShared, 5, 15⟩,
    .flock ⟨3, 1, "c", entryLockTypeShared, 8, 20⟩,
    .flock ⟨1, 1, "d", entryLockTypeUnlock, 0, 10⟩]

theorem exclusion_twoReaders :
    ⟨2, 1, "b", entryLockTypeShared, 5, 15⟩ ∈ (run step empty twoReaders).locks .shared ∧
    ⟨3, 1, "c", entryLockTypeShared, 8, 20⟩ ∈ (run step empty twoReaders).locks .shared ∧
    LockMode.shared = .shared ∧ LockMode.shared = .shared := by
  have hb : ⟨2, 1, "b", entryLockTypeShared, 5, 15⟩ ∈ (run step empty twoReaders).locks
    .shared := by
    decide +kernel
  have hc : ⟨3, 1, "c", entryLockTypeShared, 8, 20⟩ ∈ (run step empty twoReaders).locks
    .shared := by
    decide +kernel
  have hs : Reachable step RangeLockOp.Valid empty (run step empty twoReaders) :=
    Reachable.init.run (by decide)
  exact ⟨hb, hc, exclusion_of_reachable (b := 9) hs hb hc (by decide) (by decide) (by decide)⟩

/-! ## Unlocking -/

/-- In terms of the tables before it, `flockRangeUnlock` takes all of `l` from its owner exactly if
no range that spans `l` comes before another one of the owner, in the order of the search: the
exclusive ranges by start, then the shared ones. -/
theorem flockRangeUnlock_released_iff_pairwise (hs : ∀ m, ∀ e ∈ s.locks m, e.Nonempty)
    (hl : l.Nonempty) :
    (∀ m, Released l ((s.flockRangeUnlock l).2.locks m)) ↔
      (s.locks .exclusive ++ s.locks .shared).Pairwise fun a b => ¬Conceals l a b := by
  have hnil : Released l [] := fun e he => by cases he
  obtain ⟨hexcl, hret⟩ : (Released l (s.unlockExcl l).table.toList ↔
      (s.locks .exclusive).Pairwise fun a b => ¬Conceals l a b) ∧
      ((s.unlockExcl l).returned ↔ ∃ e ∈ s.locks .exclusive, e.owner = l.owner ∧ e.Spans l) :=
    unlockLoop_released_iff hl overlaps_eq_false_of_ltExcl s.exclRangeFLocks.begin false
      (hs .exclusive) hnil
  obtain ⟨hshared, -⟩ : (Released l (s.unlockShared l).table.toList ↔
      (s.locks .shared).Pairwise fun a b => ¬Conceals l a b) ∧ _ :=
    unlockLoop_released_iff hl (fun _ _ h => Bool.noConfusion h) s.sharedRangeFLocks.begin _
      (hs .shared) hnil
  have hmodes : (∀ m, Released l ((s.flockRangeUnlock l).2.locks m)) ↔
      Released l (s.flockRangeUnlock l).2.exclRangeFLocks.toList ∧
        Released l (s.flockRangeUnlock l).2.sharedRangeFLocks.toList := by
    refine ⟨fun h => ⟨h .exclusive, h .shared⟩, fun h m => ?_⟩
    cases m
    · exact h.1
    · exact h.2
  rw [hmodes, List.pairwise_append]
  rcases flockRangeUnlock_cases with ⟨hr, h⟩ | ⟨hr, h⟩ <;> rw [h]
  · -- an exclusive range spans `l`, so any shared range of the owner is concealed by it
    obtain ⟨a, ha, hao, hsp⟩ := hret.mp hr
    constructor
    · intro ⟨h1, h2⟩
      exact ⟨hexcl.mp h1, pairwise_of_released h2, fun _ _ b hb => Released.not_conceals h2 hb⟩
    · intro ⟨h1, _, h2⟩
      refine ⟨hexcl.mpr h1, fun b hb hbo => ?_⟩
      by_contra hov
      exact h2 a ha b hb ⟨hao, hsp, hbo, Bool.not_eq_false _ ▸ hov⟩
  · have hspan : ¬∃ e ∈ s.locks .exclusive, e.owner = l.owner ∧ e.Spans l := by
      rw [← hret, hr]
      exact Bool.false_ne_true
    constructor
    · intro ⟨h1, h2⟩
      exact ⟨hexcl.mp h1, hshared.mp h2, fun a ha _ _ hcon => hspan ⟨a, ha, hcon.1, hcon.2.1⟩⟩
    · intro ⟨h1, h2, _⟩
      exact ⟨hexcl.mpr h1, hshared.mpr h2⟩

/-- In every reachable state, unlocking `l` leaves its owner nothing of `l` exactly if no range that
spans `l` comes before another one of the owner. -/
theorem released_iff_not_conceals (hs : Reachable step RangeLockOp.Valid empty s)
    (hl : l.start ≤ l.endPos) :
    (∀ m, Released l ((s.flockRangeUnlock l).2.locks m)) ↔
      (s.locks .exclusive ++ s.locks .shared).Pairwise fun a b => ¬Conceals l a b :=
  flockRangeUnlock_released_iff_pairwise (Safe.of_reachable hs).nonempty hl

/-- A client waits for the same range in both modes, and gets both when the writer before it
unlocks. -/
def bothModes : List RangeLockOp :=
  [.flock ⟨1, 1, "a", entryLockTypeExclusive, 0, 10⟩,
    .flock ⟨2, 1, "b", entryLockTypeShared, 0, 10⟩,
    .flock ⟨2, 1, "c", entryLockTypeExclusive, 0, 10⟩,
    .flock ⟨1, 1, "d", entryLockTypeUnlock, 0, 10⟩]

theorem released_iff_bothModes : (∀ m, Released ⟨1, 1, "e", entryLockTypeUnlock, 0, 10⟩
      (((run step empty bothModes).flockRangeUnlock ⟨1, 1, "e", entryLockTypeUnlock, 0, 10⟩).2.locks
        m)) ∧
    ¬∀ m, Released ⟨2, 1, "e", entryLockTypeUnlock, 0, 10⟩
      (((run step empty bothModes).flockRangeUnlock ⟨2, 1, "e", entryLockTypeUnlock, 0, 10⟩).2.locks
        m) := by
  have hs : Reachable step RangeLockOp.Valid empty (run step empty bothModes) :=
    Reachable.init.run (by decide)
  rw [released_iff_not_conceals hs (by decide), released_iff_not_conceals hs (by decide)]
  decide +kernel

/-- The exclusive range spans the unlocked one, so the shared range of the same owner stays. -/
theorem not_released_bothModes :
    ¬∀ s l, Reachable step RangeLockOp.Valid empty s → l.start ≤ l.endPos →
      ∀ m, Released l ((s.flockRangeUnlock l).2.locks m) := by
  intro h
  have hs : Reachable step RangeLockOp.Valid empty (run step empty bothModes) :=
    Reachable.init.run (by decide)
  have hrel := h _ ⟨2, 1, "e", entryLockTypeUnlock, 0, 10⟩ hs (by decide) .shared
    ⟨2, 1, "b", entryLockTypeShared, 0, 10⟩ (by decide +kernel) (by decide)
  exact absurd hrel (by decide)

/-! ### The exact effect of an unlock -/

/-- Every lock has a byte, the locks of one owner are pairwise disjoint whatever their modes, and so
are the exclusive locks of different owners. -/
structure PairwiseDisjoint (s : RangeLocks) : Prop where
  nonempty : ∀ m, ∀ e ∈ s.locks m, e.start ≤ e.endPos
  own : ∀ m1 m2, ∀ e1 ∈ s.locks m1, ∀ e2 ∈ s.locks m2, e1.owner = e2.owner →
    ¬(m1 = m2 ∧ e1 = e2) → ∀ b ∈ e1, b ∉ e2
  excl : ∀ e1 ∈ s.locks .exclusive, ∀ e2 ∈ s.locks .exclusive, e1.owner ≠ e2.owner →
    ∀ b ∈ e1, b ∉ e2

/-- Ranges that may stand in the table of mode `m` next to each other. -/
def Clear (m : LockMode) (x y : RangeLockDetails) : Prop :=
  x.Nonempty ∧ y.Nonempty ∧ (m = .exclusive ∨ x.owner = y.owner → x.overlaps y = false)

theorem cutStable_clear (hl : l.Nonempty) (m : LockMode) : CutStable l (Clear m) where
  symm x y h := by
    refine ⟨h.2.1, h.1, fun hm => ?_⟩
    have hxy := overlaps_eq_false_iff.mp (h.2.2 (hm.imp_right Eq.symm))
    exact overlaps_eq_false_iff.mpr hxy.symm
  piece p e y hp h := by
    refine ⟨hp.nonempty, h.2.1, fun hm => ?_⟩
    rw [hp.owner_eq] at hm
    refine overlaps_eq_false_iff.mpr ((overlaps_eq_false_iff.mp (h.2.2 hm)).imp ?_ ?_)
    · exact fun hlt => UInt64.lt_of_lt_of_le hlt hp.within.1
    · exact fun hlt => UInt64.lt_of_le_of_lt hp.within.2 hlt
  across p q hp hq _ hpl hlq := by
    refine ⟨hp, hq, fun _ => overlaps_eq_false_iff.mpr (.inr ?_)⟩
    exact UInt64.lt_trans hpl (UInt64.lt_of_le_of_lt hl hlq)

theorem start_ne_of_overlaps_eq_false {x y : RangeLockDetails} (hx : x.Nonempty) (hy : y.Nonempty)
    (h : x.overlaps y = false) : x.start < y.start ∨ y.start < x.start := by
  rcases overlaps_eq_false_iff.mp h with h | h
  · exact .inr (UInt64.lt_of_le_of_lt hy h)
  · exact .inl (UInt64.lt_of_le_of_lt hx h)

theorem ltExcl_or_of_clear (x y : RangeLockDetails) (h : Clear .exclusive x y) :
    ltExcl x y ∨ ltExcl y x :=
  start_ne_of_overlaps_eq_false h.1 h.2.1 (h.2.2 (.inl rfl))

theorem ltShared_or_of_clear (x y : RangeLockDetails) (h : Clear .shared x y) :
    ltShared x y ∨ ltShared y x := by
  by_cases ho : x.owner = y.owner
  · rw [ltShared_iff_of_owner_eq ho, ltShared_iff_of_owner_eq ho.symm]
    exact start_ne_of_overlaps_eq_false h.1 h.2.1 (h.2.2 (.inr ho))
  · exact ltShared_or_of_owner_ne ho

namespace PairwiseDisjoint

section
variable (hs : s.PairwiseDisjoint)
include hs

theorem clear (m : LockMode) : Set.Pairwise {e | e ∈ s.locks m} (Clear m) := by
  intro x hx y hy hne
  refine ⟨hs.nonempty m x hx, hs.nonempty m y hy, fun hm => ?_⟩
  rw [overlaps_eq_false (hs.nonempty m x hx) (hs.nonempty m y hy)]
  by_cases ho : x.owner = y.owner
  · exact hs.own m m x hx y hy ho fun h => hne h.2
  · obtain rfl := hm.resolve_right ho
    exact hs.excl x hx y hy ho

theorem not_conceals (hl : l.Nonempty) :
    (s.locks .exclusive ++ s.locks .shared).Pairwise fun a b => ¬Conceals l a b := by
  have hdisj : ∀ m1 m2, ∀ a ∈ s.locks m1, ∀ b ∈ s.locks m2, ¬(m1 = m2 ∧ a = b) →
      ¬Conceals l a b := by
    intro m1 m2 a ha b hb hne ⟨hao, hsp, hbo, hov⟩
    obtain ⟨x, hxl, hxb⟩ := (overlaps_iff hl (hs.nonempty m2 b hb)).mp hov
    exact hs.own m1 m2 a ha b hb (hao.trans hbo.symm) hne x (hsp.mem hxl) hxb
  rw [List.pairwise_append]
  refine ⟨?_, ?_, fun a ha b hb => hdisj _ _ a ha b hb fun h => LockMode.noConfusion h.1⟩
  · exact s.exclRangeFLocks.nodup.imp_of_mem fun ha hb hne => hdisj .exclusive .exclusive _ ha _ hb
      fun h => hne h.2
  · exact s.sharedRangeFLocks.nodup.imp_of_mem fun ha hb hne => hdisj .shared .shared _ ha _ hb
      fun h => hne h.2

theorem held_of_not_mem (hl : l.Nonempty) (hbl : b ∉ l)
    (hb : b ∈ s.held m l.owner) : b ∈ (s.flockRangeUnlock l).2.held m l.owner := by
  have hexcl : b ∈ s.held .exclusive l.owner → b ∈ covered (s.unlockExcl l).table.toList l.owner :=
    covered_unlockLoop hl overlaps_eq_false_of_ltExcl s.exclRangeFLocks.begin _
      (hs.nonempty .exclusive)
      (cutStable_clear hl .exclusive) ltExcl_or_of_clear (hs.clear .exclusive) hbl
  have hshared : b ∈ s.held .shared l.owner → b ∈ covered (s.unlockShared l).table.toList l.owner :=
    covered_unlockLoop hl (fun _ _ h => Bool.noConfusion h) s.sharedRangeFLocks.begin _
      (hs.nonempty .shared) (cutStable_clear hl .shared) ltShared_or_of_clear (hs.clear .shared) hbl
  rcases flockRangeUnlock_cases with ⟨-, h⟩ | ⟨-, h⟩ <;> rw [h] <;> cases m
  · exact hexcl hb
  · exact hb
  · exact hexcl hb
  · exact hshared hb

/-- In terms of the bytes that owners hold, an unlock takes exactly `l` from its owner. -/
theorem mem_held_unlock (hl : l.Nonempty) (m : LockMode) (o : NumNodeID × Int32) (b : UInt64) :
    b ∈ (s.flockRangeUnlock l).2.held m o ↔ b ∈ s.held m o ∧ ¬(o = l.owner ∧ b ∈ l) := by
  have hrel := (flockRangeUnlock_released_iff_pairwise hs.nonempty hl).mpr (hs.not_conceals hl)
  have hne := locks_flockRangeUnlock hs.nonempty hl
  obtain ⟨hexcl, hshared, -⟩ := flockRangeUnlock_shrinks hs.nonempty hl
  constructor
  · intro hb
    refine ⟨held_flockRangeUnlock_le hs.nonempty hl m o hb, fun ⟨ho, hbl⟩ => ?_⟩
    obtain ⟨e, he, heo, hbe⟩ := hb
    have hov := (overlaps_iff hl (hne m e he)).mpr ⟨b, hbl, hbe⟩
    rw [hrel m e he (heo.trans ho)] at hov
    cases hov
  · intro ⟨hb, hbl⟩
    by_cases ho : o = l.owner
    · subst ho
      exact hs.held_of_not_mem hl (fun h => hbl ⟨rfl, h⟩) hb
    · obtain ⟨e, he, heo, hbe⟩ := hb
      refine ⟨e, ?_, heo, hbe⟩
      cases m with
      | exclusive => exact hexcl.kept e he (heo ▸ ho)
      | shared => exact hshared.kept e he (heo ▸ ho)

end

end PairwiseDisjoint

/-- If each owner's locks are disjoint, and exclusive locks of different owners too, an unlock
removes exactly the bytes of `l` from its owner, in both modes, and says whether there were any. -/
theorem flockRangeUnlock_exact (hs : s.PairwiseDisjoint) (hl : l.start ≤ l.endPos) :
    (∀ m o b, b ∈ (s.flockRangeUnlock l).2.held m o ↔ b ∈ s.held m o ∧ ¬(o = l.owner ∧ b ∈ l)) ∧
    ((s.flockRangeUnlock l).1 ↔
      ∃ m o b, b ∈ s.held m o ∧ b ∉ (s.flockRangeUnlock l).2.held m o) := by
  refine ⟨hs.mem_held_unlock hl, fun htrue => ?_, fun ⟨m, o, b, hb, hgone⟩ => ?_⟩
  · by_contra hnone
    have hrel : ∀ m, Released l (s.locks m) := by
      intro m e he ho
      rw [overlaps_eq_false hl (hs.nonempty m e he)]
      intro b hbl hbe
      refine hnone ⟨m, l.owner, b, ⟨e, he, ho, hbe⟩, fun hb => ?_⟩
      exact ((hs.mem_held_unlock hl m _ b).mp hb).2 ⟨rfl, hbl⟩
    rw [flockRangeUnlock_of_released hs.nonempty hl hrel] at htrue
    cases htrue
  · by_contra hfalse
    have hsame := (flockRangeUnlock_shrinks hs.nonempty hl).2.2 (Bool.eq_false_iff.mpr hfalse)
    rw [hsame] at hgone
    exact hgone hb

/-- One owner writes a range and reads another one. -/
def writesAndReads : RangeLocks :=
  { empty with
    exclRangeFLocks := ⟨[⟨1, 1, "a", entryLockTypeExclusive, 0, 10⟩], List.pairwise_singleton ..⟩
    sharedRangeFLocks := ⟨[⟨1, 1, "b", entryLockTypeShared, 20, 30⟩], List.pairwise_singleton ..⟩ }

theorem flockRangeUnlock_exact_writesAndReads : writesAndReads.PairwiseDisjoint ∧
    ((writesAndReads.flockRangeUnlock ⟨1, 1, "c", entryLockTypeUnlock, 5, 25⟩).1 ↔
      ∃ m o b, b ∈ writesAndReads.held m o ∧
        b ∉ (writesAndReads.flockRangeUnlock ⟨1, 1, "c", entryLockTypeUnlock, 5, 25⟩).2.held m
        o) := by
  have hs : writesAndReads.PairwiseDisjoint := by
    refine ⟨fun m e he => ?_, fun m1 m2 e1 h1 e2 h2 _ hne b hb1 hb2 => ?_, fun e1 h1 e2 h2 ho => ?_⟩
    · cases m <;> rw [List.mem_singleton.mp he] <;> decide
    · cases m1 <;> cases m2 <;> rw [List.mem_singleton.mp h1] at hne hb1 <;>
        rw [List.mem_singleton.mp h2] at hne hb2
      · exact hne ⟨rfl, rfl⟩
      · exact absurd (UInt64.le_trans hb2.1 hb1.2) (by decide)
      · exact absurd (UInt64.le_trans hb1.1 hb2.2) (by decide)
      · exact hne ⟨rfl, rfl⟩
    · rw [List.mem_singleton.mp h1, List.mem_singleton.mp h2] at ho
      exact absurd rfl ho
  exact ⟨hs, (flockRangeUnlock_exact hs (by decide)).2⟩

end RangeLocks

end Congfs
