import Congfs.Locking.RangeQueues

/-!
# Writers are not overtaken

A writer that waits keeps out every request of another owner for its bytes that comes after it. A
new request conflicts with every waiting writer, a queued writer with those before it, and queues
are first in, first out: two requests that stay queued keep their order (`Behind.step`). So such a
request is granted by a call only after the writer has been granted or cancelled in that call
(`not_overtaken`).
-/

namespace Congfs

open RangeLockDetails StdSet List

namespace RangeLocks

variable {s s' : RangeLocks} {l w r : RangeLockDetails} {m : LockMode} {op : RangeLockOp}
  {released granted : Bool}

def Cancels : RangeLockOp → RangeLockDetails → Prop
  | .flock l, w => l.isCancel ∧ l.owner = w.owner
  | .cancelByClientID id, w => w.clientNumID = id
  | .cancelAllWaiters, _ => True

theorem Edit.mem_waiters (h : Edit s op released granted s') (hw : w ∈ s.waiters m)
    (hc : ¬Cancels op w) : w ∈ s'.waiters m := by
  have hremove : ∀ {gone : RangeLockDetails → Bool}, gone w = false →
      w ∈ (s.removeMatching gone).2.waiters m := by
    intro gone hgone
    rw [waiters_removeMatching]
    exact mem_filter.mpr ⟨hw, by rw [hgone]; rfl⟩
  cases h with
  | cancel l hcancel =>
    exact hremove (equalsHandle_eq_false.mpr fun ho => hc ⟨hcancel, ho⟩)
  | cancelByClientID id => exact hremove (beq_eq_false_iff_ne.mpr hc)
  | cancelAllWaiters => exact absurd trivial hc
  | unlock l =>
    rw [flockRangeUnlock_waiters]
    exact hw
  | waiting | granted | refuse => exact hw
  | grant l =>
    rw [grant_waiters, flockRangeUnlock_waiters]
    exact hw
  | enqueue l => exact mem_waiters_enqueue hw

/-! ## The order of a writer and a later request -/

/-- `w` waits, and `r` is behind it if both are writers. -/
structure Behind (w r : RangeLockDetails) (s : RangeLocks) : Prop where
  mem : w ∈ s.waitersExclRangeFLock
  order : r.isShared = false → [w, r].Sublist s.waitersExclRangeFLock

theorem mem_excl_of_not_shared (hs : s.Safe) (hr : r ∈ s.waiters m) (h : r.isShared = false) :
    r ∈ s.waitersExclRangeFLock := by
  cases m with
  | exclusive => exact hr
  | shared =>
    rw [(hs.asks .shared r hr).isShared] at h
    cases h

namespace Behind

theorem of_sublist (hb : Behind w r s) (hs' : s'.Safe) (hi : s.IDsIndexed)
    (hsub : (s'.waiters .exclusive).Sublist (s.waiters .exclusive))
    (hw : w ∈ s'.waitersExclRangeFLock) (hr : r ∈ s'.waiters m) : Behind w r s' where
  mem := hw
  order h := sublist_pair_of_sublist hsub hi.nodup_excl (hb.order h) hw
    (mem_excl_of_not_shared hs' hr h)

theorem of_enqueue (hw : w ∈ s.waitersExclRangeFLock) :
    Behind w r ((s.flockRangeUnlock r).2.enqueue r) := by
  have hexcl : (s.flockRangeUnlock r).2.waitersExclRangeFLock = s.waitersExclRangeFLock :=
    flockRangeUnlock_waiters (m := .exclusive)
  refine ⟨mem_waiters_enqueue (m := .exclusive) hw, fun h => ?_⟩
  unfold enqueue
  rw [if_neg (Bool.eq_false_iff.mp h), hexcl]
  exact (singleton_sublist.mpr hw).append (List.Sublist.refl [r])

theorem enqueue (hb : Behind w r s) : Behind w r ((s.flockRangeUnlock l).2.enqueue l) := by
  have hexcl : (s.flockRangeUnlock l).2.waitersExclRangeFLock = s.waitersExclRangeFLock :=
    flockRangeUnlock_waiters (m := .exclusive)
  refine ⟨mem_waiters_enqueue (m := .exclusive) hb.mem, fun h => (hb.order h).trans ?_⟩
  unfold RangeLocks.enqueue
  split
  · exact hexcl ▸ List.Sublist.refl _
  · exact hexcl ▸ sublist_append_left _ _

theorem edit (hb : Behind w r s) (hs' : s'.Safe) (hi : s.IDsIndexed)
    (h : Edit s op released granted s') (hw : w ∈ s'.waitersExclRangeFLock)
    (hr : r ∈ s'.waiters m) : Behind w r s' := by
  rcases h.waiters with hsub | ⟨l, -, -, rfl⟩
  · exact hb.of_sublist hs' hi (hsub .exclusive) hw hr
  · exact hb.enqueue

theorem not_grantStep (hb : Behind w r s) (hs : s.Safe) (hi : s.IDsIndexed) (hopp : w.Opposes r) :
    ¬GrantStep s r s' := by
  intro h
  cases h with
  | exclusive before after hq hfree =>
    have hr : r ∈ s.waitersExclRangeFLock := by
      rw [hq]
      exact mem_append_right _ mem_cons_self
    have hasks := hs.asks .exclusive r hr
    have hsub := hb.order hasks.isShared
    have hn := hi.nodup_excl
    rw [hq] at hsub hn
    have hc := (conflicts_iff hs.nonempty hasks before.length).mpr
      (.inr ((checkExclWaiters_take _).mpr ⟨w, ?_, hopp⟩))
    · rw [hfree] at hc
      cases hc
    · rw [hq, take_left]
      exact mem_of_sublist_pair hn hsub
  | shared before after hq hfree =>
    have hr : r ∈ s.waitersSharedRangeFLock := by
      rw [hq]
      exact mem_append_right _ mem_cons_self
    have hc := (conflicts_iff hs.nonempty (hs.asks .shared r hr) (-1)).mpr
      (.inr ((checkExclWaiters_all _ (by omega)).mpr ⟨w, hb.mem, hopp⟩))
    have hnone : s.flockRangeCheckConflictsEx r (-1) = none := hfree
    rw [hnone] at hc
    cases hc

theorem grant_order (h : Steps GrantStep s ws s') (hb : Behind w r s) (hs : s.Safe)
    (hi : s.IDsIndexed) (hr : r ∈ s.waiters m) (hopp : w.Opposes r) (hws : ws = l1 ++ v :: l2)
    (hv : v.lockAckID = r.lockAckID) : w.lockAckID ∈ l1.map (·.lockAckID) := by
  induction h generalizing l1 with
  | nil => cases l1 <;> cases hws
  | @cons s t _ u us hg _ ih =>
    obtain ⟨mu, hu⟩ := hg.mem_waiters
    have hur : u.lockAckID ≠ r.lockAckID := by
      intro hid
      obtain rfl := hi.eq_of_id_eq hu hr hid
      exact hb.not_grantStep hs hi hopp hg
    cases l1 with
    | nil =>
      obtain ⟨rfl, -⟩ := List.cons.inj hws
      exact absurd hv hur
    | cons u' l1 =>
      obtain ⟨rfl, hus⟩ := List.cons.inj hws
      rw [map_cons, mem_cons]
      by_cases huw : w.lockAckID = u.lockAckID
      · exact .inl huw
      · -- both stay queued over this grant
        have hw' := (hg.eq_or_mem_waiters (m := .exclusive) hb.mem).resolve_left
          fun h => huw (congrArg _ h)
        have hr' := (hg.eq_or_mem_waiters hr).resolve_left fun h => hur (congrArg _ h.symm)
        have hs' := hs.grantStep hg
        exact .inr (ih (hb.of_sublist hs' hi (hg.waiters_sublist _) hw' hr') hs' (hi.grantStep hg)
          hr' hus)

end Behind

/-- The call `op` finds `w` queued as a writer, and `r` came after it: `r` is submitted by this
call, or it was submitted by an earlier one and both have been queued since. -/
inductive Pending (w r : RangeLockDetails) : RangeLocks → RangeLockOp → Prop where
  | submitted {s : RangeLocks} (hs : Reachable step RangeLockOp.Valid empty s)
      (hw : w ∈ s.waitersExclRangeFLock) (hnew : r.lockAckID ∉ s.waitersLockIDsRangeFLock) :
      Pending w r s (.flock r)
  | queued {s : RangeLocks} {op op' : RangeLockOp} (h : Pending w r s op) (hv : op.Valid)
      (hw : w ∈ (s.step op).waitersExclRangeFLock) (hr : ∃ m, r ∈ (s.step op).waiters m) :
      Pending w r (s.step op) op'

/-- The call grants `r`, at once or from a queue, and `w` is not among those granted before. -/
def GrantsAhead (s : RangeLocks) (op : RangeLockOp) (w r : RangeLockDetails) : Prop :=
  (op = .flock r ∧ r.isCancel = false ∧ r.isUnlock = false ∧ s.flockRangeIsGranted r = false ∧
    (s.call op).1.1) ∨
  ∃ ns x ns', (s.call op).1.2 = ns ++ x :: ns' ∧ x.lockAckID = r.lockAckID ∧
    w.lockAckID ∉ ns.map (·.lockAckID)

namespace Pending

section
variable (h : Pending w r s op)
include h

theorem reachable : Reachable step RangeLockOp.Valid empty s := by
  induction h with
  | submitted hs => exact hs
  | queued _ hv _ _ ih => exact ih.step hv

theorem behind_or_submitted :
    (op = .flock r ∧ w ∈ s.waitersExclRangeFLock ∧ r.lockAckID ∉ s.waitersLockIDsRangeFLock) ∨
      Behind w r s ∧ ∃ m, r ∈ s.waiters m := by
  induction h with
  | submitted hs hw hnew => exact .inl ⟨rfl, hw, hnew⟩
  | @queued s op _ h hv hw hr ih =>
    obtain ⟨m, hr⟩ := hr
    have hs := Safe.of_reachable h.reachable
    have hi := IDsIndexed.of_reachable h.reachable
    obtain ⟨released, s', ws, hedit, hsteps, -⟩ := s.call_steps op
    have hs' := hs.edit hv hedit
    have hsub := waiters_sublist_of_steps hsteps
    have hw' := (hsub .exclusive).subset hw
    have hr' := (hsub m).subset hr
    suffices hb : Behind w r s' from
      .inr ⟨hb.of_sublist (hs.step hv) (hi.edit hedit) (hsub _) hw hr, m, hr⟩
    rcases ih with ⟨rfl, hws, hnew⟩ | ⟨hb, -⟩
    · obtain ⟨-, rfl⟩ := hi.eq_of_edit_new hedit hnew hr' rfl
      exact Behind.of_enqueue hws
    · exact hb.edit hs' hi hedit hw' hr'

theorem mem_excl : w ∈ s.waitersExclRangeFLock := by
  rcases h.behind_or_submitted with ⟨-, hw, -⟩ | ⟨hb, -⟩
  · exact hw
  · exact hb.mem

/-- If the edit leaves a request with the id of `r` queued, it is `r`, and behind `w`. -/
theorem behind_of_edit (hs' : s'.Safe)
    (hedit : Edit s op released granted s') (hw : w ∈ s'.waitersExclRangeFLock)
    (hv : v ∈ s'.waiters m) (hid : v.lockAckID = r.lockAckID) :
    Behind w r s' ∧ r ∈ s'.waiters m := by
  have hi := IDsIndexed.of_reachable h.reachable
  rcases h.behind_or_submitted with ⟨rfl, hws, hnew⟩ | ⟨hb, mr, hr⟩
  · obtain ⟨rfl, rfl⟩ := hi.eq_of_edit_new hedit hnew hv hid
    exact ⟨Behind.of_enqueue hws, hv⟩
  · obtain rfl := hi.eq_of_edit hedit hr hv hid
    exact ⟨hb.edit hs' hi hedit hw hv, hv⟩

end

theorem not_immediate (hs : s.Safe) (hv : (RangeLockOp.flock r).Valid) (hopp : w.Opposes r)
    (hw : w ∈ s.waitersExclRangeFLock) (hc : r.isCancel = false) (hu : r.isUnlock = false) :
    s.flockRangeCheckConflicts r ≠ none := by
  intro hfree
  obtain ⟨m, hasks⟩ := asks_of_oneOp hv.1 hv.2 hc hu
  have hconf := (conflicts_iff hs.nonempty hasks (-1)).mpr
    (.inr ((checkExclWaiters_all _ (by omega)).mpr ⟨w, hw, hopp⟩))
  have hnone : s.flockRangeCheckConflictsEx r (-1) = none := hfree
  rw [hnone] at hconf
  cases hconf

end Pending

/-- In every run, as long as a writer waits, no request of another owner for its bytes that came
after it is granted: a call that grants such a request has granted the writer before, or it cancels
the writer. -/
theorem not_overtaken (h : Pending w r s op) (hv : op.Valid) (hopp : w.Opposes r)
    (hg : GrantsAhead s op w r) : Cancels op w := by
  by_contra hcancel
  have hs := Safe.of_reachable h.reachable
  have hi := IDsIndexed.of_reachable h.reachable
  obtain ⟨released, s', ws, hedit, hsteps, hns, -⟩ := s.call_steps op
  have hs' := hs.edit hv hedit
  have hi' := hi.edit hedit
  rcases hg with ⟨rfl, hc, hu, hheld, hgranted⟩ | ⟨ns, x, ns', hcall, hx, hnot⟩
  · rw [hgranted] at hedit
    rcases hedit.granted_cases hc hu with ⟨hheld', -⟩ | ⟨hfree, -⟩
    · exact Bool.false_ne_true (hheld.symm.trans hheld')
    · exact Pending.not_immediate hs hv hopp h.mem_excl hc hu hfree
  · -- the grants of this call, up to the one of `r`
    rw [hcall, map_append, map_cons] at hns
    obtain ⟨l1, l2', rfl, hl1, hl2⟩ := map_eq_append_iff.mp hns.symm
    obtain ⟨v, l2, rfl, hv', -⟩ := map_eq_cons_iff.mp hl2
    have hvr : v.lockAckID = r.lockAckID := hv'.trans hx
    obtain ⟨m, hvs'⟩ := mem_waiters_of_steps hsteps
      (mem_append_right l1 (mem_cons_self (a := v) (l := l2)))
    have hw' := hedit.mem_waiters (m := .exclusive) h.mem_excl hcancel
    obtain ⟨hb, hr⟩ := h.behind_of_edit hs' hedit hw' hvs' hvr
    rw [← hl1] at hnot
    exact hnot (Behind.grant_order hsteps hb hs' hi' hr hopp rfl hvr)

/-- A writer and a reader wait while another client reads. -/
def writerBetweenReaders : List RangeLockOp :=
  [.flock ⟨1, 1, "a", entryLockTypeShared, 0, 10⟩,
    .flock ⟨2, 1, "b", entryLockTypeExclusive, 5, 15⟩,
    .flock ⟨3, 1, "c", entryLockTypeShared, 8, 20⟩]

/-- The reader gets its lock only when the client of the writer is removed. -/
theorem not_overtaken_writerBetweenReaders :
    GrantsAhead (run step empty writerBetweenReaders) (.cancelByClientID 2)
      ⟨2, 1, "b", entryLockTypeExclusive, 5, 15⟩ ⟨3, 1, "c", entryLockTypeShared, 8, 20⟩ ∧
    Cancels (.cancelByClientID 2) ⟨2, 1, "b", entryLockTypeExclusive, 5, 15⟩ := by
  have hs : Reachable step RangeLockOp.Valid empty (run step empty (writerBetweenReaders.take 2)) :=
    Reachable.init.run (by decide)
  have hp : Pending ⟨2, 1, "b", entryLockTypeExclusive, 5, 15⟩
      ⟨3, 1, "c", entryLockTypeShared, 8, 20⟩ (run step empty writerBetweenReaders)
      (.cancelByClientID 2) :=
    .queued (.submitted hs (by decide +kernel) (by decide +kernel)) (by decide) (by decide +kernel)
      ⟨.shared, by decide +kernel⟩
  have hg : GrantsAhead (run step empty writerBetweenReaders) (.cancelByClientID 2)
      ⟨2, 1, "b", entryLockTypeExclusive, 5, 15⟩ ⟨3, 1, "c", entryLockTypeShared, 8, 20⟩ :=
    .inr ⟨[], ⟨3, 1, "c", entryLockTypeShared, 8, 20⟩, [], by decide +kernel, rfl, by decide⟩
  exact ⟨hg, not_overtaken hp (by decide) (by decide) hg⟩

end RangeLocks

end Congfs
