import Congfs.Locking.EntrySafety
import Congfs.Locking.RangeSafety

/-!
# The queues of range-lock requests

The ids of the queued requests are right for the duplicate filter, every request that is still
queued after a call has something to wait for, and no request overtakes a writer that waits before
it. What is held was asked for (`held_asked`).
-/

namespace Congfs

open RangeLockDetails StdSet
open List (append_assoc append_nil mem_append mem_append_left)

namespace RangeLocks

variable {s s' : RangeLocks} {l w : RangeLockDetails} {m : LockMode} {op : RangeLockOp}
  {released granted : Bool}

/-! ## What happens to the queues -/

theorem waiters_sublist_of_steps (h : Steps GrantStep s ws s') (m : LockMode) :
    (s'.waiters m).Sublist (s.waiters m) := by
  induction h with
  | nil => exact List.Sublist.refl _
  | cons hg _ ih => exact ih.trans (hg.waiters_sublist m)

theorem mem_waiters_of_steps (h : Steps GrantStep s ws s') (hw : w ∈ ws) :
    ∃ m, w ∈ s.waiters m := by
  induction h with
  | nil => cases hw
  | cons hg _ ih =>
    rcases List.mem_cons.mp hw with rfl | hw
    · exact hg.mem_waiters
    · obtain ⟨m, hm⟩ := ih hw
      exact ⟨m, (hg.waiters_sublist m).subset hm⟩

theorem Edit.waiters (h : Edit s op released granted s') :
    (∀ m, (s'.waiters m).Sublist (s.waiters m)) ∨
      ∃ l, op = .flock l ∧ l.lockAckID ∉ s.waitersLockIDsRangeFLock ∧
        s' = (s.flockRangeUnlock l).2.enqueue l := by
  have hremove : ∀ gone m, ((s.removeMatching gone).2.waiters m).Sublist (s.waiters m) := by
    intro gone m
    rw [waiters_removeMatching]
    exact List.filter_sublist
  have hunlock : ∀ l m, ((s.flockRangeUnlock l).2.waiters m).Sublist (s.waiters m) := by
    intro l m
    rw [flockRangeUnlock_waiters]
  cases h with
  | cancel l hc => exact .inl (hremove _)
  | cancelByClientID id => exact .inl (hremove _)
  | cancelAllWaiters =>
    refine .inl fun m => ?_
    cases m <;> exact List.nil_sublist _
  | unlock l hc hu => exact .inl (hunlock l)
  | waiting | granted | refuse => exact .inl fun m => List.Sublist.refl _
  | grant l hc hu hid hg hfree =>
    refine .inl fun m => ?_
    rw [grant_waiters]
    exact hunlock l m
  | enqueue l hc hu hid hg hconf hw => exact .inr ⟨l, rfl, hid, rfl⟩

theorem mem_waiters_enqueue (hw : w ∈ s.waiters m) :
    w ∈ ((s.flockRangeUnlock l).2.enqueue l).waiters m := by
  have hw' : w ∈ (s.flockRangeUnlock l).2.waiters m := by rwa [flockRangeUnlock_waiters]
  unfold enqueue
  split <;> cases m
  · exact hw'
  · exact mem_append_left _ hw'
  · exact mem_append_left _ hw'
  · exact hw'

theorem eq_or_mem_of_mem_enqueue (hw : w ∈ ((s.flockRangeUnlock l).2.enqueue l).waiters m) :
    w = l ∨ w ∈ s.waiters m := by
  have hcases : w ∈ (s.flockRangeUnlock l).2.waiters m ++ [l] := by
    unfold enqueue at hw
    split at hw <;> cases m
    · exact mem_append_left _ hw
    · exact hw
    · exact hw
    · exact mem_append_left _ hw
  rw [flockRangeUnlock_waiters] at hcases
  rcases mem_append.mp hcases with hw | hw
  · exact .inr hw
  · exact .inl (List.mem_singleton.mp hw)

/-! ## The ids of the queued requests -/

/-- The set of ids is that of the two queues, where no id occurs twice. -/
def IDsIndexed (s : RangeLocks) : Prop :=
  Indexed lockAckID (s.waitersExclRangeFLock ++ s.waitersSharedRangeFLock)
    s.waitersLockIDsRangeFLock

theorem mem_queues_iff : (∃ m, w ∈ s.waiters m) ↔
    w ∈ s.waitersExclRangeFLock ++ s.waitersSharedRangeFLock := by
  rw [mem_append]
  constructor
  · intro ⟨m, hw⟩
    cases m
    · exact .inl hw
    · exact .inr hw
  · intro hw
    rcases hw with hw | hw
    · exact ⟨.exclusive, hw⟩
    · exact ⟨.shared, hw⟩

namespace IDsIndexed

theorem empty : RangeLocks.empty.IDsIndexed := Indexed.nil

section
variable (h : s.IDsIndexed)
include h

theorem mem_ids (hw : w ∈ s.waiters m) : w.lockAckID ∈ s.waitersLockIDsRangeFLock :=
  (h.mem_iff _).mpr (List.mem_map_of_mem (mem_queues_iff.mp ⟨m, hw⟩))

theorem eq_of_id_eq (hw : w ∈ s.waiters m) (hv : v ∈ s.waiters m')
    (hid : w.lockAckID = v.lockAckID) : w = v :=
  h.eq_of_key_eq (mem_queues_iff.mp ⟨m, hw⟩) (mem_queues_iff.mp ⟨m', hv⟩) hid

theorem nodup_excl : s.waitersExclRangeFLock.Nodup :=
  (List.Nodup.of_map _ h.nodup).of_append_left

theorem of_waiters (hw : ∀ m, s'.waiters m = s.waiters m)
    (hid : s'.waitersLockIDsRangeFLock = s.waitersLockIDsRangeFLock) : s'.IDsIndexed := by
  have he : s'.waitersExclRangeFLock = s.waitersExclRangeFLock := hw .exclusive
  have hs : s'.waitersSharedRangeFLock = s.waitersSharedRangeFLock := hw .shared
  unfold IDsIndexed
  rwa [he, hs, hid]

theorem removeMatching (gone : RangeLockDetails → Bool) : (s.removeMatching gone).2.IDsIndexed := by
  have h1 : Indexed lockAckID
      ([] ++ s.waitersExclRangeFLock ++ s.waitersSharedRangeFLock) s.waitersLockIDsRangeFLock := h
  have h2 := h1.cancelMatching gone
  rw [List.nil_append, ← append_nil (_ ++ s.waitersSharedRangeFLock)] at h2
  have h3 := h2.cancelMatching gone
  rwa [append_nil] at h3

theorem enqueue (hl : l.lockAckID ∉ s.waitersLockIDsRangeFLock) : (s.enqueue l).IDsIndexed := by
  unfold RangeLocks.enqueue
  split
  · exact h.push_right hl
  · exact h.push_left hl

theorem grantStep (hg : GrantStep s w s') : s'.IDsIndexed := by
  unfold IDsIndexed at h
  cases hg with
  | exclusive before after hq hfree =>
    rw [hq, append_assoc, List.cons_append] at h
    have h' := h.eraseMiddle
    rwa [← append_assoc] at h'
  | shared before after hq hfree =>
    rw [hq, ← append_assoc] at h
    have h' := h.eraseMiddle
    rwa [append_assoc] at h'

theorem edit (he : Edit s op released granted s') : s'.IDsIndexed := by
  have hunlock : ∀ l, (s.flockRangeUnlock l).2.IDsIndexed := fun l =>
    h.of_waiters (fun _ => flockRangeUnlock_waiters) flockRangeUnlock_waitersLockIDs
  cases he with
  | cancel l hc => exact h.removeMatching _
  | cancelByClientID id => exact h.removeMatching _
  | cancelAllWaiters => exact Indexed.nil
  | unlock l hc hu => exact hunlock l
  | waiting | granted | refuse => exact h
  | grant l hc hu hid hg hfree =>
    exact (hunlock l).of_waiters (fun _ => grant_waiters) grant_waitersLockIDs
  | enqueue l hc hu hid hg hconf hw =>
    apply (hunlock l).enqueue
    rwa [flockRangeUnlock_waitersLockIDs]

theorem eq_of_edit (hedit : Edit s op released granted s') (hr : r ∈ s.waiters m')
    (hv : v ∈ s'.waiters m) (hid : v.lockAckID = r.lockAckID) : v = r := by
  have hvs : v ∈ s.waiters m := by
    rcases hedit.waiters with hshrink | ⟨l, -, hfresh, rfl⟩
    · exact (hshrink m).subset hv
    · refine (eq_or_mem_of_mem_enqueue hv).resolve_left fun hvl => hfresh ?_
      rw [← hvl, hid]
      exact h.mem_ids hr
  exact h.eq_of_id_eq hvs hr hid

theorem eq_of_edit_new (hedit : Edit s (.flock r) released granted s')
    (hnew : r.lockAckID ∉ s.waitersLockIDsRangeFLock) (hv : v ∈ s'.waiters m)
    (hid : v.lockAckID = r.lockAckID) : v = r ∧ s' = (s.flockRangeUnlock r).2.enqueue r := by
  have hold : v ∉ s.waiters m := fun hvs => hnew (hid ▸ h.mem_ids hvs)
  rcases hedit.waiters with hshrink | ⟨l, hl, -, rfl⟩
  · exact absurd ((hshrink m).subset hv) hold
  · obtain rfl := RangeLockOp.flock.inj hl
    exact ⟨(eq_or_mem_of_mem_enqueue hv).resolve_right hold, rfl⟩

theorem step (op : RangeLockOp) : (s.step op).IDsIndexed := by
  obtain ⟨released, s', ws, hedit, hsteps, -⟩ := s.call_steps op
  exact hsteps.inv (fun _ _ _ hg h => h.grantStep hg) (h.edit hedit)

end

theorem of_reachable (h : Reachable RangeLocks.step RangeLockOp.Valid RangeLocks.empty s) :
    s.IDsIndexed := h.inv IDsIndexed.empty fun _ op _ h => h.step op

end IDsIndexed

/-- In every run of entry-lock calls and in every run of range-lock calls, the set of ids is that of
the two queues, and no id is queued twice. -/
theorem waitersLockIDs_indexed (entryOps : List EntryLockOp) (rangeOps : List RangeLockOp) :
    (run EntryLockQueues.step EntryLockQueues.empty entryOps).IDsIndexed ∧
      (run step empty rangeOps).IDsIndexed :=
  ⟨run_inv (P := EntryLockQueues.IDsIndexed) (fun _ op h => h.step op)
      EntryLockQueues.IDsIndexed.empty,
    run_inv (P := IDsIndexed) (fun _ op h => h.step op) IDsIndexed.empty⟩

/-! ## Waiters that are left behind -/

/-- The first `n` waiting writers are blocked: by a lock, or by a writer before them. -/
def WritersBlocked (s : RangeLocks) (n : Nat) : Prop :=
  ∀ i < n, ∀ w, s.waitersExclRangeFLock[i]? = some w → (s.flockRangeCheckConflictsEx w i).isSome

/-- Every request that is queued has something to wait for. -/
structure Blocked (s : RangeLocks) : Prop where
  writers : ∀ (i : Nat) w, s.waitersExclRangeFLock[i]? = some w →
    (s.flockRangeCheckConflictsEx w i).isSome
  readers : ∀ w ∈ s.waitersSharedRangeFLock, (s.flockRangeCheckConflicts w).isSome

theorem writersBlocked_iff (hn : s.waitersExclRangeFLock.length ≤ n) :
    s.WritersBlocked n ↔ ∀ (i : Nat) w, s.waitersExclRangeFLock[i]? = some w →
      (s.flockRangeCheckConflictsEx w i).isSome := by
  refine ⟨fun h i w hw => h i ?_ w hw, fun h i _ => h i⟩
  obtain ⟨hi, -⟩ := List.getElem?_eq_some_iff.mp hw
  omega

theorem conflictsEx_mono (hs : s.Safe) (hs' : s'.Safe) (hl : l.Asks m) (hle : s.held ≤ s'.held)
    (hq : ∀ v ∈ s.waitersExclRangeFLock.take i, v ∈ s'.waitersExclRangeFLock.take i)
    (h : (s.flockRangeCheckConflictsEx l i).isSome) :
    (s'.flockRangeCheckConflictsEx l i).isSome := by
  rw [conflicts_iff hs.nonempty hl, checkExclWaiters_take] at h
  rw [conflicts_iff hs'.nonempty hl, checkExclWaiters_take]
  rcases h with h | ⟨v, hv, hopp⟩
  · exact .inl (h.mono hle)
  · exact .inr ⟨v, hq v hv, hopp⟩

theorem conflicts_mono (hs : s.Safe) (hs' : s'.Safe) (hl : l.Asks m) (hle : s.held ≤ s'.held)
    (hq : ∀ v ∈ s.waitersExclRangeFLock, v ∈ s'.waitersExclRangeFLock)
    (h : (s.flockRangeCheckConflicts l).isSome) :
    (s'.flockRangeCheckConflicts l).isSome := by
  unfold flockRangeCheckConflicts at h ⊢
  rw [conflicts_iff hs.nonempty hl, checkExclWaiters_all _ (by omega)] at h
  rw [conflicts_iff hs'.nonempty hl, checkExclWaiters_all _ (by omega)]
  rcases h with h | ⟨v, hv, hopp⟩
  · exact .inl (h.mono hle)
  · exact .inr ⟨v, hq v hv, hopp⟩

theorem conflictsEx_length (hs : s.Safe) (hl : l.Asks m) :
    (s.flockRangeCheckConflictsEx l s.waitersExclRangeFLock.length).isSome ↔
      (s.flockRangeCheckConflicts l).isSome := by
  unfold flockRangeCheckConflicts
  rw [conflicts_iff hs.nonempty hl, conflicts_iff hs.nonempty hl, checkExclWaiters_take,
    checkExclWaiters_all _ (by omega), List.take_length]

theorem GrantStep.held_le (h : GrantStep s w s') (hs : s.Safe) : s.held ≤ s'.held := by
  obtain ⟨m, hasks, hb, hlocks⟩ := h.spec hs
  have hle := held_le_grant hs.nonempty hs.excludes hasks hb
  unfold held at hle ⊢
  rwa [hlocks]

theorem mem_waiters_of_getElem? {i : Nat} (hw : s.waitersExclRangeFLock[i]? = some w) :
    w ∈ s.waiters .exclusive := List.mem_of_getElem? hw

theorem tryNextExclLoop_blocked (hs : s.Safe) (hq : s.waitersExclRangeFLock = before ++ after)
    (hb : s.WritersBlocked before.length) (ns : List RangeLockDetails) :
    (s.tryNextExclLoop ns before after).2.WritersBlocked
      (s.tryNextExclLoop ns before after).2.waitersExclRangeFLock.length := by
  induction after generalizing s before ns with
  | nil =>
    rw [append_nil] at hq
    rw [tryNextExclLoop_nil hq, hq]
    exact hb
  | cons w after ih =>
    rcases tryNextExclLoop_cons hq ns with ⟨hc, h⟩ | ⟨s', hstep, hq', h⟩ <;> rw [h]
    · refine ih hs (by rw [hq, append_assoc]; rfl) (fun i hi v hv => ?_) ns
      rw [List.length_append, List.length_singleton] at hi
      by_cases hlt : i < before.length
      · exact hb i hlt v hv
      · have hlen : i = before.length := by omega
        rw [hlen] at hv ⊢
        rw [hq, List.getElem?_append_right (Nat.le_refl _), Nat.sub_self] at hv
        cases hv
        exact hc
    · refine ih (hs.grantStep hstep) hq' (fun i hi v hv => ?_) _
      rw [hq', List.getElem?_append_left hi] at hv
      have hv' : s.waitersExclRangeFLock[i]? = some v := by
        rw [hq, List.getElem?_append_left hi]
        exact hv
      refine conflictsEx_mono hs (hs.grantStep hstep) (hs.asks _ v (mem_waiters_of_getElem? hv'))
        (hstep.held_le hs) (fun u hu => ?_) (hb i hi v hv')
      rw [hq, List.take_append_of_le_length (le_of_lt hi)] at hu
      rwa [hq', List.take_append_of_le_length (le_of_lt hi)]

theorem tryNextSharedLoop_blocked (hs : s.Safe) (hq : s.waitersSharedRangeFLock = before ++ after)
    (hw : s.WritersBlocked s.waitersExclRangeFLock.length)
    (hb : ∀ w ∈ before, (s.flockRangeCheckConflicts w).isSome) (ns : List RangeLockDetails) :
    (s.tryNextSharedLoop ns before after).2.Blocked := by
  induction after generalizing s before ns with
  | nil =>
    rw [append_nil] at hq
    rw [tryNextSharedLoop_nil hq]
    refine ⟨(writersBlocked_iff (le_refl _)).mp hw, ?_⟩
    rw [hq]
    exact hb
  | cons w after ih =>
    rcases tryNextSharedLoop_cons hq with ⟨hc, h⟩ | ⟨s', hstep, hq', hexcl, h⟩ <;> rw [h]
    · refine ih hs (by rw [hq, append_assoc]; rfl) hw (fun v hv => ?_) ns
      rcases mem_append.mp hv with hv | hv
      · exact hb v hv
      · rw [List.mem_singleton.mp hv]
        exact hc
    · have hs' := hs.grantStep hstep
      have hle := hstep.held_le hs
      refine ih hs' hq' (fun i hi v hv => ?_) (fun v hv => ?_) _
      · rw [hexcl] at hi hv
        refine conflictsEx_mono hs hs' (hs.asks _ v (mem_waiters_of_getElem? hv)) hle
          (fun u hu => ?_) (hw i hi v hv)
        rwa [hexcl]
      · have hvw : v ∈ s.waitersSharedRangeFLock := by
          rw [hq]
          exact mem_append_left _ hv
        refine conflicts_mono hs hs' (hs.asks .shared v hvw) hle (fun u hu => ?_) (hb v hv)
        rwa [hexcl]

theorem flockRangeTryNextWaiters_blocked (hs : s.Safe) : s.flockRangeTryNextWaiters.2.Blocked := by
  obtain ⟨ws, hsteps, -⟩ := tryNextExclLoop_steps s [] _ rfl []
  refine tryNextSharedLoop_blocked (hsteps.inv (fun _ _ _ h hs => hs.grantStep h) hs) rfl
    (tryNextExclLoop_blocked hs rfl (fun i hi => ?_) []) (fun w hw => ?_) _
  · cases hi
  · cases hw

namespace Blocked

theorem empty : RangeLocks.empty.Blocked where
  writers i w hw := by cases hw
  readers w hw := by cases hw

theorem cancelAllWaiters (s : RangeLocks) : s.flockRangeCancelAllWaiters.Blocked where
  writers i w hw := by cases hw
  readers w hw := by cases hw

theorem grant (hb : s.Blocked) (hs : s.Safe) (hl : l.Asks m)
    (hfree : ¬s.held.Blocks m l.owner l.bytes) : (s.grant l).Blocked := by
  have hs' := hs.grant hl hfree
  have hle := held_le_grant hs.nonempty hs.excludes hl hfree
  have hexcl : (s.grant l).waitersExclRangeFLock = s.waitersExclRangeFLock :=
    grant_waiters (m := .exclusive)
  have hshared : (s.grant l).waitersSharedRangeFLock = s.waitersSharedRangeFLock :=
    grant_waiters (m := .shared)
  refine ⟨fun i w hw => ?_, fun w hw => ?_⟩
  · rw [hexcl] at hw
    refine conflictsEx_mono hs hs' (hs.asks _ w (mem_waiters_of_getElem? hw)) hle (fun v hv => ?_)
      (hb.writers i w hw)
    rwa [hexcl]
  · rw [hshared] at hw
    refine conflicts_mono hs hs' (hs.asks .shared w hw) hle (fun v hv => ?_) (hb.readers w hw)
    rwa [hexcl]

/-- A request that is queued because of a conflict is blocked, and those before it stay so. -/
theorem enqueue (hb : s.Blocked) (hs : s.Safe) (hl : l.Asks m)
    (hconf : (s.flockRangeCheckConflicts l).isSome) : (s.enqueue l).Blocked := by
  have hs' := hs.enqueue hl
  cases m with
  | exclusive =>
    rw [enqueue_eq_exclusive hl] at hs' ⊢
    refine ⟨fun i w hw => ?_, fun w hw => ?_⟩
    · have htake : ∀ v ∈ s.waitersExclRangeFLock.take i,
          v ∈ (s.waitersExclRangeFLock ++ [l]).take i := by
        intro v hv
        rw [List.take_append]
        exact mem_append_left _ hv
      by_cases hi : i < s.waitersExclRangeFLock.length
      · rw [List.getElem?_append_left hi] at hw
        exact conflictsEx_mono hs hs' (hs.asks _ w (mem_waiters_of_getElem? hw)) (le_refl s.held)
          htake (hb.writers i w hw)
      · obtain ⟨hlen, -⟩ := List.getElem?_eq_some_iff.mp hw
        rw [List.length_append, List.length_singleton] at hlen
        have hi' : i = s.waitersExclRangeFLock.length := by omega
        rw [hi'] at hw htake ⊢
        rw [List.getElem?_append_right (Nat.le_refl _), Nat.sub_self] at hw
        cases hw
        exact conflictsEx_mono hs hs' hl (le_refl s.held) htake
          ((conflictsEx_length hs hl).mpr hconf)
    · exact conflicts_mono hs hs' (hs.asks .shared w hw) (le_refl s.held)
        (fun v hv => mem_append_left _ hv) (hb.readers w hw)
  | shared =>
    rw [enqueue_eq_shared hl] at hs' ⊢
    refine ⟨fun i w hw => ?_, fun w hw => ?_⟩
    · exact conflictsEx_mono hs hs' (hs.asks _ w (mem_waiters_of_getElem? hw)) (le_refl s.held)
        (fun v hv => hv) (hb.writers i w hw)
    · rcases mem_append.mp hw with hw | hw
      · exact conflicts_mono hs hs' (hs.asks .shared w hw) (le_refl s.held) (fun v hv => hv)
          (hb.readers w hw)
      · rw [List.mem_singleton.mp hw]
        exact conflicts_mono hs hs' hl (le_refl s.held) (fun v hv => hv) hconf

/-- An edit that releases nothing leaves everyone blocked, so there is no one to wake. -/
theorem edit (hb : s.Blocked) (hs : s.Safe) (hv : op.Valid)
    (h : Edit s op released granted s') (hr : released = false) : s'.Blocked := by
  cases h with
  | cancel l hc =>
    rw [removeMatching_eq_self hr]
    exact hb
  | cancelByClientID id =>
    rw [removeMatching_eq_self hr]
    exact hb
  | cancelAllWaiters => exact cancelAllWaiters s
  | unlock l hc hu =>
    rw [(flockRangeUnlock_shrinks hs.nonempty hv.2).2.2 hr]
    exact hb
  | waiting | granted | refuse => exact hb
  | grant l hc hu hid hg hfree =>
    obtain ⟨m, hl⟩ := asks_of_oneOp hv.1 hv.2 hc hu
    rw [(flockRangeUnlock_shrinks hs.nonempty hv.2).2.2 hr]
    exact hb.grant hs hl (not_blocks_of_free hs hl hfree)
  | enqueue l hc hu hid hg hconf hw =>
    obtain ⟨m, hl⟩ := asks_of_oneOp hv.1 hv.2 hc hu
    rw [(flockRangeUnlock_shrinks hs.nonempty hv.2).2.2 hr]
    exact hb.enqueue hs hl hconf

theorem step (hb : s.Blocked) (hs : s.Safe) (hv : op.Valid) : (s.step op).Blocked := by
  obtain ⟨released, granted, s', hedit, hcall⟩ := s.call_edit op
  unfold RangeLocks.step
  rw [hcall]
  cases released with
  | false => exact hb.edit hs hv hedit rfl
  | true => exact flockRangeTryNextWaiters_blocked (hs.edit hv hedit)

end Blocked

/-- After every call of every run, each writer that is still queued has a conflict with a lock or
with a writer before it, and each reader with a lock or a waiting writer. -/
theorem blocked_of_reachable (hs : Reachable step RangeLockOp.Valid empty s) : s.Blocked := by
  have h : s.Safe ∧ s.Blocked := hs.inv (P := fun s => s.Safe ∧ s.Blocked)
    ⟨Safe.empty, Blocked.empty⟩ fun s op hv h => ⟨h.1.step hv, h.2.step h.1 hv⟩
  exact h.2

/-- A writer and then a reader wait behind a lock that is given up in part. -/
def partlyUnlocked : List RangeLockOp :=
  [.flock ⟨1, 1, "a", entryLockTypeExclusive, 0, 10⟩,
    .flock ⟨2, 1, "b", entryLockTypeExclusive, 5, 15⟩,
    .flock ⟨3, 1, "c", entryLockTypeShared, 12, 20⟩,
    .flock ⟨1, 1, "d", entryLockTypeUnlock, 8, 10⟩]

theorem blocked_partlyUnlocked : (run step empty partlyUnlocked).waitersExclRangeFLock.length = 1 ∧
    (run step empty partlyUnlocked).waitersSharedRangeFLock.length = 1 ∧
    (run step empty partlyUnlocked).Blocked :=
  ⟨by decide +kernel, by decide +kernel, blocked_of_reachable (Reachable.init.run (by decide))⟩

/-! ## Nothing that was not asked for -/

variable (H : LockMap (NumNodeID × Int32) UInt64)

/-- All that is held or waited for is in `H`. -/
structure Within (s : RangeLocks) : Prop where
  held : s.held ≤ H
  waiters : ∀ m, ∀ w ∈ s.waiters m, ∀ m', w.Asks m' → w.bytes ⊆ H m' w.owner

/-- A request that asks for nothing outside `H`. -/
def AsksWithin (op : RangeLockOp) : Prop := ∀ l m, op = .flock l → l.Asks m → l.bytes ⊆ H m l.owner

namespace Within

section
variable {H} (h : Within H s) (hs : s.Safe)
include h hs

theorem grantStep (hg : GrantStep s w s') : Within H s' := by
  obtain ⟨m, hasks, -, hlocks⟩ := hg.spec hs
  obtain ⟨m', hw⟩ := hg.mem_waiters
  refine ⟨fun m1 o b hb => ?_, fun m1 v hv => h.waiters m1 v ((hg.waiters_sublist m1).subset hv)⟩
  rw [RangeLocks.held, hlocks] at hb
  rcases held_grant_le hasks m1 o hb with hold | ⟨rfl, rfl, hnew⟩
  · exact h.held m1 o hold
  · exact h.waiters m' w hw m1 hasks hnew

theorem edit (hv : op.Valid) (hop : AsksWithin H op)
    (he : Edit s op released granted s') : Within H s' := by
  have hunlock : ∀ l, l.Nonempty → (s.flockRangeUnlock l).2.held ≤ H := fun l hl =>
    (held_flockRangeUnlock_le hs.nonempty hl).trans h.held
  constructor
  · cases he with
    | cancel | cancelByClientID => exact (held_removeMatching_le _).trans h.held
    | cancelAllWaiters =>
      intro m
      cases m
      · exact h.held .exclusive
      · exact h.held .shared
    | unlock l => exact hunlock l hv.2
    | waiting | granted | refuse => exact h.held
    | grant l hc hu =>
      obtain ⟨m, hl⟩ := asks_of_oneOp hv.1 hv.2 hc hu
      intro m' o b hb
      rcases held_grant_le hl m' o hb with hold | ⟨rfl, rfl, hnew⟩
      · exact hunlock l hv.2 m' o hold
      · exact hop l m' rfl hl hnew
    | enqueue l hc hu =>
      unfold enqueue
      split
      · exact hunlock l hv.2
      · exact hunlock l hv.2
  · intro m w hw
    rcases he.waiters with hsub | ⟨l, rfl, -, rfl⟩
    · exact h.waiters m w ((hsub m).subset hw)
    · rcases eq_or_mem_of_mem_enqueue hw with rfl | hw
      · exact fun m' => hop w m' rfl
      · exact h.waiters m w hw

theorem steps (hsteps : Steps GrantStep s ws s') : Within H s' :=
  (hsteps.inv (P := fun s => s.Safe ∧ Within H s)
    (fun _ _ _ hg hs => ⟨hs.1.grantStep hg, hs.2.grantStep hs.1 hg⟩) ⟨hs, h⟩).2

theorem step (hv : op.Valid) (hop : AsksWithin H op) : Within H (s.step op) := by
  obtain ⟨released, s', ws, hedit, hsteps, -⟩ := s.call_steps op
  exact (h.edit hs hv hop hedit).steps (hs.edit hv hedit) hsteps

theorem run (hops : ∀ op ∈ ops, op.Valid ∧ AsksWithin H op) :
    Within H (run RangeLocks.step s ops) :=
  ((Reachable.init.run hops).inv (P := fun s => s.Safe ∧ Within H s) ⟨hs, h⟩
    fun _ _ hop hs => ⟨hs.1.step hop.1, hs.2.step hs.1 hop.1 hop.2⟩).2

end

end Within

/-- In every run, an owner holds a byte only if it has asked for it in that mode. -/
theorem held_asked (hops : ∀ op ∈ ops, op.Valid) (hb : b ∈ (run step empty ops).held m o) :
    ∃ l, .flock l ∈ ops ∧ l.Asks m ∧ l.owner = o ∧ b ∈ l := by
  refine (Within.run (H := fun m o => {b | ∃ l, .flock l ∈ ops ∧ l.Asks m ∧ l.owner = o ∧ b ∈ l})
    ⟨?_, ?_⟩ Safe.empty fun op hop => ⟨hops op hop, ?_⟩).held m o hb
  · intro m o b ⟨e, he, _⟩
    cases m <;> cases he
  · intro m w hw
    cases m <;> cases hw
  · rintro l m rfl hl b hb
    exact ⟨l, hop, hl, rfl, hb⟩

theorem held_asked_partlyUnlocked : ∃ l, .flock l ∈ partlyUnlocked ∧ l.Asks .exclusive ∧ l.owner =
    (1, 1) ∧ 3 ∈ l :=
  held_asked (by decide) ⟨⟨1, 1, "a", entryLockTypeExclusive, 0, 7⟩, by decide +kernel,
    rfl, by decide⟩

/-- A client that was removed holds nothing and waits for nothing until it asks again. -/
theorem forgotten_of_run {client : NumNodeID} (hs : Reachable step RangeLockOp.Valid empty s)
    (hops : ∀ op ∈ ops, op.Valid) (hgone : ∀ l, .flock l ∈ ops → l.clientNumID ≠ client) :
    ∀ m, (∀ pid, (run step (s.step (.cancelByClientID client)) ops).held m (client, pid) = ∅) ∧
      ∀ w ∈ (run step (s.step (.cancelByClientID client)) ops).waiters m,
        w.clientNumID ≠ client := by
  have hsafe := Safe.of_reachable hs
  have hvalid : (RangeLockOp.cancelByClientID client).Valid := trivial
  obtain ⟨released, s', ws, hedit, hsteps, -⟩ := s.call_steps (.cancelByClientID client)
  have hsafe' := hsafe.edit hvalid hedit
  have hwithin : Within (fun _ o => {_b | o.1 ≠ client}) s' := by
    cases hedit
    constructor
    · intro m o b ⟨e, he, ho, _⟩
      rw [locks_removeMatching, List.mem_filter, Bool.not_eq_true', beq_eq_false_iff_ne] at he
      exact ho ▸ he.2
    · intro m w hw m' _ b _
      rw [waiters_removeMatching, List.mem_filter, Bool.not_eq_true', beq_eq_false_iff_ne] at hw
      exact hw.2
  have hrun := (hwithin.steps hsafe' hsteps).run (hsafe.step hvalid) fun op hop =>
    ⟨hops op hop, fun l _ hl _ _ _ => hgone l (hl ▸ hop)⟩
  refine fun m => ⟨fun pid => ?_, fun w hw => ?_⟩
  · exact Set.eq_empty_of_forall_notMem fun b hb => hrun.held m _ hb rfl
  · have hasks := (Safe.of_reachable (hs.step hvalid |>.run hops)).asks m w hw
    exact hrun.waiters m w hw m hasks hasks.nonempty.start_mem

theorem forgotten_partlyUnlocked :
    (run step empty partlyUnlocked).waitersExclRangeFLock.length = 1 ∧
    ∀ m, ∀ w ∈ (run step ((run step empty partlyUnlocked).step (.cancelByClientID 2))
        [.flock ⟨1, 1, "e", entryLockTypeUnlock, 0, 10⟩]).waiters m, w.clientNumID ≠ 2 := by
  refine ⟨by decide +kernel, fun m =>
    (forgotten_of_run (Reachable.init.run (by decide)) (by decide) (fun l hl => ?_) m).2⟩
  cases List.mem_singleton.mp hl
  decide

end RangeLocks

end Congfs
