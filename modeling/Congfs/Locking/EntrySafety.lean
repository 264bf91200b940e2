import Congfs.Locking.Entry

/-!
# Safety of entry locks

Three questions about the entry-lock container of an inode, each over every run from the empty one.

* Are the ids of the queued requests right (`IDsIndexed.step`)? They are, for all requests.
* Is a waiter ever left behind, with nothing to wait for (`noLostWakeup_of_reachable`)? No: whenever
  something is released, `flockEntryTryNextWaiters` ends in a container without such a waiter.
* Does an exclusive lock exclude the locks of other handles? Not in all runs.
  `flockEntryTryNextWaiters` hands the exclusive lock to the first writer that waits as soon as no
  exclusive lock is set, and does not look at the shared locks that are still held.
  `exclusive_iff_releaseSafe` says exactly which runs keep the exclusion.
-/

namespace Congfs.EntryLockQueues

open EntryLockDetails EntryLockQueues

variable {q : EntryLockQueues} {l : EntryLockDetails} {gone : EntryLockDetails → Bool}

/-! ## What the parts do -/

theorem find_isSome_iff : (q.sharedLocks.find l).isSome ↔
    ∃ s ∈ q.sharedLocks, s.handle = l.handle := by
  constructor
  · intro h
    obtain ⟨e, he⟩ := Option.isSome_iff_exists.mp h
    obtain ⟨hm, h1, h2⟩ := StdSet.mem_of_find he
    exact ⟨e, hm, (handle_eq_iff.mpr ⟨h1, h2⟩).symm⟩
  · rintro ⟨s, hs, hh⟩
    by_contra hn
    have hnone := StdSet.find_eq_none.mp (Option.not_isSome_iff_eq_none.mp hn) s hs
    obtain ⟨h1, h2⟩ := handle_eq_iff.mp hh
    exact hnone.elim h2 h1

/-- An unlock gives up the exclusive lock of the handle, else its shared lock, else nothing. -/
theorem flockEntryUnlock_cases (q : EntryLockQueues) (l : EntryLockDetails) :
    (q.exclLock.handle = l.handle ∧ q.flockEntryUnlock l = (true, { q with exclLock := .unset })) ∨
    (q.exclLock.handle ≠ l.handle ∧ (∃ s ∈ q.sharedLocks, s.handle = l.handle) ∧
      ∃ locks : StdSet lt, (∀ x, x ∈ locks ↔ x ∈ q.sharedLocks ∧ x.handle ≠ l.handle) ∧
        q.flockEntryUnlock l = (true, { q with sharedLocks := locks })) ∨
    (q.exclLock.handle ≠ l.handle ∧ (∀ s ∈ q.sharedLocks, s.handle ≠ l.handle) ∧
      q.flockEntryUnlock l = (false, q)) := by
  unfold flockEntryUnlock
  by_cases hx : q.exclLock.equalsHandle l
  · rw [if_pos hx]
    exact .inl ⟨equalsHandle_iff.mp hx, rfl⟩
  have hne : q.exclLock.handle ≠ l.handle := fun h => hx (equalsHandle_iff.mpr h)
  rw [if_neg hx]
  refine .inr ?_
  cases hf : q.sharedLocks.find l with
  | some e =>
    obtain ⟨hm, h1, h2⟩ := StdSet.mem_of_find hf
    have hh : l.handle = e.handle := handle_eq_iff.mpr ⟨h1, h2⟩
    refine .inl ⟨hne, ⟨e, hm, hh.symm⟩, _, fun x => ?_, rfl⟩
    rw [StdSet.mem_erase, hh, Ne, eq_comm, handle_eq_iff]
    exact and_congr_right fun _ => by rw [not_and_or, not_not, not_not]
  | none =>
    refine .inr ⟨hne, fun s hs hh => ?_, rfl⟩
    have hsome := find_isSome_iff.mpr ⟨s, hs, hh⟩
    rw [hf] at hsome
    cases hsome

theorem flockEntryUnlock_queues (q : EntryLockQueues) (l : EntryLockDetails) :
    (q.flockEntryUnlock l).2.waitersExclLock = q.waitersExclLock ∧
    (q.flockEntryUnlock l).2.waitersSharedLock = q.waitersSharedLock ∧
    (q.flockEntryUnlock l).2.waitersLockIDs = q.waitersLockIDs := by
  rcases q.flockEntryUnlock_cases l with ⟨-, h⟩ | ⟨-, -, locks, -, h⟩ | ⟨-, -, h⟩ <;> rw [h] <;>
    exact ⟨rfl, rfl, rfl⟩

@[simp] theorem removeMatching_waitersExclLock :
    (q.removeMatching gone).2.waitersExclLock = q.waitersExclLock.filter fun w => !gone w := by
  simp [removeMatching]

@[simp] theorem removeMatching_waitersSharedLock :
    (q.removeMatching gone).2.waitersSharedLock = q.waitersSharedLock.filter fun w => !gone w := by
  simp [removeMatching]

@[simp] theorem mem_removeMatching_sharedLocks :
    x ∈ (q.removeMatching gone).2.sharedLocks ↔ x ∈ q.sharedLocks ∧ gone x = false := by
  simp [removeMatching]

theorem removeMatching_exclLock : (q.removeMatching gone).2.exclLock =
    if q.exclLock.isSet && gone q.exclLock then .unset else q.exclLock := rfl

theorem removeMatching_fst : (q.removeMatching gone).1 =
    (q.exclLock.isSet && gone q.exclLock || q.sharedLocks.toList.any gone ||
      q.waitersExclLock.any gone || q.waitersSharedLock.any gone) := by
  simp [removeMatching]

theorem removeMatching_eq_self (h : (q.removeMatching gone).1 = false) :
    (q.removeMatching gone).2 = q := by
  rw [removeMatching_fst] at h
  simp only [Bool.or_eq_false_iff] at h
  obtain ⟨⟨⟨hx, hs⟩, he⟩, hw⟩ := h
  have hfilter : ∀ {ws : List EntryLockDetails}, ws.any gone = false →
      ws.filter (fun w => !gone w) = ws := by
    intro ws hws
    rw [List.filter_eq_self]
    intro w hmem
    have := List.any_eq_false.mp hws w hmem
    simpa using this
  simp only [removeMatching, cancelMatching_queue, cancelMatching_ids_of_not_any he,
    cancelMatching_ids_of_not_any hw, hfilter he, hfilter hw, hx]
  congr 1
  exact StdSet.ext (hfilter hs)

theorem grantWaitersShared_spec (q : EntryLockQueues) (ws : List EntryLockDetails) :
    (q.grantWaitersShared ws).2.exclLock = q.exclLock ∧
    (q.grantWaitersShared ws).2.waitersExclLock = q.waitersExclLock ∧
    (q.grantWaitersShared ws).2.waitersSharedLock = [] := by
  induction ws generalizing q with
  | nil => exact ⟨rfl, rfl, rfl⟩
  | cons w ws ih =>
    exact ih _

theorem tryNextWaiters_cases (q : EntryLockQueues) :
    (q.exclLock.isSet ∧ q.flockEntryTryNextWaiters = ([], q)) ∨
    (q.exclLock.isSet = false ∧ q.waitersExclLock = [] ∧ q.waitersSharedLock ≠ [] ∧
      q.flockEntryTryNextWaiters = q.grantWaitersShared q.waitersSharedLock) ∨
    (q.exclLock.isSet = false ∧ ∃ w ws, q.waitersExclLock = w :: ws ∧
      q.flockEntryTryNextWaiters = ([w], { q with
        exclLock := w
        waitersLockIDs := q.waitersLockIDs.erase w.lockAckID
        waitersExclLock := ws })) ∨
    (q.exclLock.isSet = false ∧ q.waitersExclLock = [] ∧ q.waitersSharedLock = [] ∧
      q.flockEntryTryNextWaiters = ([], q)) := by
  unfold flockEntryTryNextWaiters
  cases hx : q.exclLock.isSet with
  | true => exact .inl ⟨rfl, rfl⟩
  | false =>
    refine .inr ?_
    cases he : q.waitersExclLock with
    | nil =>
      cases hs : q.waitersSharedLock with
      | nil => exact .inr (.inr ⟨rfl, rfl, rfl, rfl⟩)
      | cons w ws => exact .inl ⟨rfl, rfl, by simp, rfl⟩
    | cons w ws => exact .inr (.inl ⟨rfl, w, ws, rfl, by simp [flockEntryExclusive]⟩)

@[simp] theorem finish_snd (t g : Bool) (q : EntryLockQueues) :
    (finish t g q).2 = if t then q.flockEntryTryNextWaiters.2 else q := by
  unfold finish
  split <;> rfl

/-- Dropping what a client has ends like dropping what a handle has. -/
theorem step_cancelByClientID (q : EntryLockQueues) (id : NumNodeID) :
    q.step (.cancelByClientID id) = (finish (q.removeMatching fun s => s.clientNumID == id).1 true
      (q.removeMatching fun s => s.clientNumID == id).2).2 := by
  rw [finish_snd]
  simp only [step, flockEntryGenericCancelByClientID]
  split <;> rfl

theorem conflicts_exclusive (hl : l.isExclusive) : (q.flockEntryCheckConflicts l).isSome ↔
      (q.exclLock.isSet ∧ q.exclLock.handle ≠ l.handle) ∨
      ∃ s ∈ q.sharedLocks, s.handle ≠ l.handle := by
  unfold flockEntryCheckConflicts
  rw [← equalsHandle_eq_false]
  split_ifs with h
  · simp only [Bool.and_eq_true, Bool.not_eq_true'] at h
    simp [h]
  · simp only [Bool.and_eq_true, Bool.not_eq_true'] at h
    rw [List.find?_isSome, or_iff_right h]
    refine exists_congr fun s => and_congr_right fun _ => ?_
    rw [Bool.not_eq_true', equalsHandle_eq_false]

theorem conflicts_shared (hl : l.isExclusive = false) : (q.flockEntryCheckConflicts l).isSome ↔
      (q.exclLock.isSet ∧ q.exclLock.handle ≠ l.handle) ∨ q.waitersExclLock ≠ [] := by
  unfold flockEntryCheckConflicts
  rw [← equalsHandle_eq_false]
  split
  · rename_i h
    simp only [Bool.and_eq_true, Bool.not_eq_true'] at h
    simp [h]
  · rename_i h
    simp only [Bool.and_eq_true, Bool.not_eq_true'] at h
    cases hw : q.waitersExclLock <;> simp [h, hl]

/-! ## What one call does -/

theorem mode_cases (hl : l.lockTypeFlags.OneOp) (hc : l.isCancel = false)
    (hu : l.isUnlock = false) :
    (l.isShared ∧ l.isExclusive = false) ∨ (l.isShared = false ∧ l.isExclusive) := by
  rcases hl.cases with h | h | ⟨-, -, hs, hx⟩ | ⟨-, -, hs, hx⟩
  · cases hc.symm.trans h.1
  · cases hu.symm.trans h.2
  · exact .inl ⟨hs, hx⟩
  · exact .inr ⟨hs, hx⟩

theorem grant_of_isShared (h : l.isShared) : q.grant l = q.flockEntryShared l := if_pos h

theorem grant_of_not_isShared (h : l.isShared = false) : q.grant l = q.flockEntryExclusive l :=
  if_neg (h ▸ Bool.false_ne_true)

/-- Every `flock` request is one of five: it drops all of its handle, unlocks, changes nothing, is
granted, or is queued. -/
theorem flockEntryUnlocked_cases (q : EntryLockQueues) (l : EntryLockDetails) :
    (l.isCancel ∧ (q.flockEntryUnlocked l).2 =
      (finish (q.removeMatching l.equalsHandle).1 true (q.removeMatching l.equalsHandle).2).2) ∨
    (l.isCancel = false ∧ l.isUnlock ∧ (q.flockEntryUnlocked l).2 =
      (finish (q.flockEntryUnlock l).1 true (q.flockEntryUnlock l).2).2) ∨
    (l.isCancel = false ∧ l.isUnlock = false ∧
      (l.lockAckID ∈ q.waitersLockIDs ∨ q.flockEntryIsGranted l ∨
        (q.flockEntryCheckConflicts l).isSome ∧ l.allowsWaiting = false) ∧
      (q.flockEntryUnlocked l).2 = q) ∨
    (l.isCancel = false ∧ l.isUnlock = false ∧
      l.lockAckID ∉ q.waitersLockIDs ∧ q.flockEntryIsGranted l = false ∧
      (q.flockEntryCheckConflicts l).isSome = false ∧ (q.flockEntryUnlocked l).2 =
        (finish (q.flockEntryUnlock l).1 true ((q.flockEntryUnlock l).2.grant l)).2) ∨
    (l.isCancel = false ∧ l.isUnlock = false ∧
      l.lockAckID ∉ q.waitersLockIDs ∧ q.flockEntryIsGranted l = false ∧
      (q.flockEntryCheckConflicts l).isSome ∧ l.allowsWaiting ∧
      (q.flockEntryUnlocked l).2 =
        (finish (q.flockEntryUnlock l).1 false ((q.flockEntryUnlock l).2.enqueue l)).2) := by
  unfold flockEntryUnlocked
  cases hc : l.isCancel with
  | true => exact .inl ⟨rfl, rfl⟩
  | false =>
    cases hu : l.isUnlock with
    | true => exact .inr (.inl ⟨rfl, rfl, rfl⟩)
    | false =>
      refine .inr (.inr ?_)
      by_cases hid : l.lockAckID ∈ q.waitersLockIDs
      · exact .inl ⟨rfl, rfl, .inl hid, by simp [hid]⟩
      cases hg : q.flockEntryIsGranted l with
      | true => exact .inl ⟨rfl, rfl, .inr (.inl rfl), by simp [hid]⟩
      | false =>
        cases hf : (q.flockEntryCheckConflicts l).isSome with
        | false => exact .inr (.inl ⟨rfl, rfl, hid, rfl, rfl, by simp [hid]⟩)
        | true =>
          cases hw : l.allowsWaiting with
          | true => exact .inr (.inr ⟨rfl, rfl, hid, rfl, rfl, rfl, by simp [hid]⟩)
          | false => exact .inl ⟨rfl, rfl, .inr (.inr ⟨rfl, rfl⟩), by simp [hid]⟩

/-! ## The ids of the queued requests -/

def IDsIndexed (q : EntryLockQueues) : Prop :=
  Indexed lockAckID (q.waitersExclLock ++ q.waitersSharedLock) q.waitersLockIDs

namespace IDsIndexed

theorem empty : empty.IDsIndexed := Indexed.nil

theorem grantWaitersShared (h : Indexed lockAckID (q.waitersExclLock ++ ws) q.waitersLockIDs) :
    (q.grantWaitersShared ws).2.IDsIndexed := by
  induction ws generalizing q with
  | nil => exact h
  | cons w ws ih =>
    exact ih h.eraseMiddle

section
variable (h : q.IDsIndexed)
include h

theorem tryNextWaiters : q.flockEntryTryNextWaiters.2.IDsIndexed := by
  rcases q.tryNextWaiters_cases with ⟨-, he⟩ | ⟨-, -, -, he⟩ | ⟨-, w, ws, hq, he⟩
    | ⟨-, -, -, he⟩ <;> rw [he]
  · exact h
  · exact grantWaitersShared h
  · unfold IDsIndexed at h
    rw [hq] at h
    exact h.tail
  · exact h

theorem finish (t g : Bool) : (finish t g q).2.IDsIndexed := by
  rw [finish_snd]
  split
  · exact h.tryNextWaiters
  · exact h

theorem removeMatching (gone : EntryLockDetails → Bool) : (q.removeMatching gone).2.IDsIndexed := by
  have h1 : Indexed lockAckID ([] ++ q.waitersExclLock ++ q.waitersSharedLock) q.waitersLockIDs := h
  have h2 := h1.cancelMatching gone
  rw [List.nil_append, ← List.append_nil (_ ++ q.waitersSharedLock)] at h2
  have h3 := h2.cancelMatching gone
  rwa [List.append_nil] at h3

theorem unlock (l : EntryLockDetails) : (q.flockEntryUnlock l).2.IDsIndexed := by
  obtain ⟨h1, h2, h3⟩ := q.flockEntryUnlock_queues l
  unfold IDsIndexed
  rwa [h1, h2, h3]

theorem grant (l : EntryLockDetails) : (q.grant l).IDsIndexed := by
  unfold EntryLockQueues.grant
  split
  · exact h
  · exact h

theorem enqueue (hl : l.lockAckID ∉ q.waitersLockIDs) : (q.enqueue l).IDsIndexed := by
  unfold EntryLockQueues.enqueue
  split
  · exact h.push_right hl
  · exact h.push_left hl

theorem flockEntryUnlocked (l : EntryLockDetails) : (q.flockEntryUnlocked l).2.IDsIndexed := by
  rcases q.flockEntryUnlocked_cases l with ⟨-, he⟩ | ⟨-, -, he⟩ | ⟨-, -, -, he⟩ |
    ⟨-, -, -, -, -, he⟩ | ⟨-, -, hid, -, -, -, he⟩ <;> rw [he]
  · exact (h.removeMatching _).finish ..
  · exact (h.unlock l).finish ..
  · exact h
  · exact ((h.unlock l).grant l).finish ..
  · refine ((h.unlock l).enqueue ?_).finish ..
    rwa [(q.flockEntryUnlock_queues l).2.2]

theorem step (op : EntryLockOp) : (q.step op).IDsIndexed := by
  cases op with
  | flock l => exact h.flockEntryUnlocked l
  | cancelByClientID id =>
    rw [step_cancelByClientID]
    exact (h.removeMatching _).finish ..
  | cancelAllWaiters => exact Indexed.nil

end

end IDsIndexed

/-! ## Waiters that are left behind -/

/-- Whoever waits has something to wait for: a writer a lock, a reader an exclusive lock or a writer
before it. -/
structure NoLostWakeup (q : EntryLockQueues) : Prop where
  excl : q.waitersExclLock ≠ [] → q.exclLock.isSet ∨ q.sharedLocks.toList ≠ []
  shared : q.waitersSharedLock ≠ [] → q.exclLock.isSet ∨ q.waitersExclLock ≠ []

def WaitersSet (q : EntryLockQueues) : Prop :=
  ∀ w ∈ q.waitersExclLock ++ q.waitersSharedLock, w.isSet

theorem NoLostWakeup.tryNextWaiters (h : q.WaitersSet) :
    q.flockEntryTryNextWaiters.2.NoLostWakeup := by
  rcases q.tryNextWaiters_cases with ⟨hx, he⟩ | ⟨-, hq, -, he⟩ | ⟨-, w, ws, hq, he⟩
    | ⟨-, hq, hs, he⟩ <;> rw [he]
  · exact ⟨fun _ => .inl hx, fun _ => .inl hx⟩
  · obtain ⟨-, h2, h3⟩ := q.grantWaitersShared_spec q.waitersSharedLock
    rw [hq] at h2
    exact ⟨fun hn => (hn h2).elim, fun hn => (hn h3).elim⟩
  · have hw : w.isSet := h w (List.mem_append_left _ (hq ▸ List.mem_cons_self))
    exact ⟨fun _ => .inl hw, fun _ => .inl hw⟩
  · exact ⟨fun hn => (hn hq).elim, fun hn => (hn hs).elim⟩

theorem NoLostWakeup.finish (h : q.WaitersSet) (hq : t = false → q.NoLostWakeup) :
    (finish t g q).2.NoLostWakeup := by
  rw [finish_snd]
  split
  · exact tryNextWaiters h
  · exact hq (Bool.eq_false_iff.mpr ‹_›)

namespace WaitersSet

section
variable (h : q.WaitersSet)
include h

theorem tryNextWaiters : q.flockEntryTryNextWaiters.2.WaitersSet := by
  rcases q.tryNextWaiters_cases with ⟨-, he⟩ | ⟨-, hq, -, he⟩ | ⟨-, w, ws, hq, he⟩
    | ⟨-, -, -, he⟩ <;> rw [he]
  · exact h
  · obtain ⟨-, h2, h3⟩ := q.grantWaitersShared_spec q.waitersSharedLock
    intro w hw
    rw [h2, h3, hq] at hw
    cases hw
  · intro v hv
    refine h v ?_
    rw [hq]
    exact List.mem_cons_of_mem _ hv
  · exact h

theorem finish (t g : Bool) : (finish t g q).2.WaitersSet := by
  rw [finish_snd]
  split
  · exact h.tryNextWaiters
  · exact h

theorem removeMatching (gone : EntryLockDetails → Bool) : (q.removeMatching gone).2.WaitersSet := by
  intro w hw
  rw [removeMatching_waitersExclLock, removeMatching_waitersSharedLock, ← List.filter_append] at hw
  exact h w (List.mem_filter.mp hw).1

theorem unlock (l : EntryLockDetails) : (q.flockEntryUnlock l).2.WaitersSet := by
  obtain ⟨h1, h2, -⟩ := q.flockEntryUnlock_queues l
  unfold WaitersSet
  rwa [h1, h2]

theorem grant (l : EntryLockDetails) : (q.grant l).WaitersSet := by
  unfold EntryLockQueues.grant
  split
  · exact h
  · exact h

theorem enqueue (hl : l.clientNumID ≠ 0) : (q.enqueue l).WaitersSet := by
  have hset : l.isSet := bne_iff_ne.mpr hl
  intro w hw
  have hmem : w = l ∨ w ∈ q.waitersExclLock ++ q.waitersSharedLock := by
    unfold EntryLockQueues.enqueue at hw
    split at hw <;> simp only [List.mem_append, List.mem_singleton] at hw <;> grind
  rcases hmem with rfl | hmem
  · exact hset
  · exact h w hmem

theorem step (hop : op.Valid) : (q.step op).WaitersSet := by
  cases op with
  | flock l =>
    simp only [EntryLockQueues.step]
    rcases q.flockEntryUnlocked_cases l with ⟨-, he⟩ | ⟨-, -, he⟩ | ⟨-, -, -, he⟩ |
      ⟨-, -, -, -, -, he⟩ | ⟨-, -, -, -, -, -, he⟩ <;> rw [he]
    · exact (h.removeMatching _).finish _ _
    · exact (h.unlock l).finish _ _
    · exact h
    · exact ((h.unlock l).grant l).finish _ _
    · exact ((h.unlock l).enqueue hop.2).finish _ _
  | cancelByClientID id =>
    rw [step_cancelByClientID]
    exact (h.removeMatching _).finish _ _
  | cancelAllWaiters =>
    intro w hw
    cases hw

end

end WaitersSet

theorem isSet_of_handle_eq (h : q.exclLock.handle = l.handle) (hl : l.clientNumID ≠ 0) :
    q.exclLock.isSet := by
  have hid : q.exclLock.clientNumID = l.clientNumID := congrArg Prod.fst h
  exact bne_iff_ne.mpr (hid ▸ hl)

theorem flockEntryUnlock_eq_self (h : (q.flockEntryUnlock l).1 = false) :
    (q.flockEntryUnlock l).2 = q := by
  rcases q.flockEntryUnlock_cases l with ⟨-, he⟩ | ⟨-, -, locks, -, he⟩ | ⟨-, -, he⟩ <;>
    rw [he] at h ⊢ <;> cases h

open NoLostWakeup

theorem NoLostWakeup.step (h : q.NoLostWakeup) (hs : q.WaitersSet) (hop : op.Valid) :
    (q.step op).NoLostWakeup := by
  cases op with
  | flock l =>
    simp only [EntryLockQueues.step]
    rcases q.flockEntryUnlocked_cases l with ⟨-, he⟩ | ⟨-, -, he⟩ | ⟨-, -, -, he⟩ |
      ⟨hc, hu, -, -, hf, he⟩ | ⟨hc, hu, -, -, hf, -, he⟩ <;> rw [he]
    · exact finish (hs.removeMatching _) fun ht => (removeMatching_eq_self ht).symm ▸ h
    · exact finish (hs.unlock l) fun ht => (flockEntryUnlock_eq_self ht).symm ▸ h
    · exact h
    · -- a request without conflicts: a reader is let in only while no writer waits
      refine finish ((hs.unlock l).grant l) fun ht => ?_
      rw [flockEntryUnlock_eq_self ht]
      rcases mode_cases hop.1 hc hu with ⟨hsh, hx⟩ | ⟨hsh, hx⟩
      · have hw : q.waitersExclLock = [] := by
          by_contra hn
          rw [(conflicts_shared hx).mpr (.inr hn)] at hf
          cases hf
        rw [grant_of_isShared hsh]
        exact ⟨fun hn => (hn hw).elim, fun hn => h.shared hn⟩
      · have hset : l.isSet := bne_iff_ne.mpr hop.2
        rw [grant_of_not_isShared hsh]
        exact ⟨fun _ => .inl hset, fun _ => .inl hset⟩
    · -- a request that waits conflicts with a lock or, if it is a reader, with a writer that waits
      refine finish ((hs.unlock l).enqueue hop.2) fun ht => ?_
      rw [flockEntryUnlock_eq_self ht]
      rcases mode_cases hop.1 hc hu with ⟨hsh, hx⟩ | ⟨hsh, hx⟩
      · rw [enqueue, if_pos hsh]
        refine ⟨h.excl, fun _ => ?_⟩
        exact ((conflicts_shared hx).mp hf).imp_left And.left
      · rw [enqueue, if_neg (hsh ▸ Bool.false_ne_true)]
        refine ⟨fun _ => ?_, fun _ => .inr (by simp)⟩
        rcases (conflicts_exclusive hx).mp hf with ⟨hset, -⟩ | ⟨s, hmem, -⟩
        · exact .inl hset
        · exact .inr (List.ne_nil_of_mem hmem)
  | cancelByClientID id =>
    rw [step_cancelByClientID]
    exact finish (hs.removeMatching _) fun ht => (removeMatching_eq_self ht).symm ▸ h
  | cancelAllWaiters => exact ⟨fun hn => (hn rfl).elim, fun hn => (hn rfl).elim⟩

/-- No waiter is ever left behind: after every call of every run, a writer waits only while a lock
is held, and a reader only while an exclusive lock is held or a writer waits. -/
theorem noLostWakeup_of_reachable (h : Reachable step EntryLockOp.Valid empty q) :
    (q.waitersExclLock ≠ [] → q.exclLock.isSet ∨ q.sharedLocks.toList ≠ []) ∧
    (q.waitersSharedLock ≠ [] → q.exclLock.isSet ∨ q.waitersExclLock ≠ []) := by
  have hinv : q.NoLostWakeup ∧ q.WaitersSet := by
    refine h.inv (P := fun q => q.NoLostWakeup ∧ q.WaitersSet) ⟨?_, ?_⟩ fun q op hop hq => ?_
    · exact ⟨fun hn => (hn rfl).elim, fun hn => (hn rfl).elim⟩
    · intro w hw
      cases hw
    · exact ⟨hq.1.step hq.2 hop, hq.2.step hop⟩
  exact ⟨hinv.1.excl, hinv.1.shared⟩

/-- A reader holds the lock while a writer and, behind it, a second reader wait. -/
theorem noLostWakeup_reader_writer_reader :
    let q := run step empty [.flock ⟨1, 10, 100, "a", entryLockTypeShared⟩,
      .flock ⟨2, 20, 200, "b", entryLockTypeExclusive⟩,
      .flock ⟨3, 30, 300, "c", entryLockTypeShared⟩]
    q.waitersExclLock ≠ [] ∧ q.waitersSharedLock ≠ [] ∧
    (q.waitersExclLock ≠ [] → q.exclLock.isSet ∨ q.sharedLocks.toList ≠ []) ∧
    (q.waitersSharedLock ≠ [] → q.exclLock.isSet ∨ q.waitersExclLock ≠ []) :=
  ⟨by decide, by decide, noLostWakeup_of_reachable (Reachable.init.run (by decide))⟩

/-! ## Exclusion -/

section

variable (q : EntryLockQueues)

/-- While an exclusive lock is set, no other handle holds a shared lock. -/
def Exclusive : Prop :=
  q.exclLock.isSet → ∀ s ∈ q.sharedLocks, s.handle = q.exclLock.handle

/-- The shared locks leave room for the writer that `flockEntryTryNextWaiters` would wake. -/
def WakeSafe : Prop :=
  q.exclLock.isSet = false → ∀ w ∈ q.waitersExclLock.head?, ∀ s ∈ q.sharedLocks, s.handle = w.handle

variable (gone : EntryLockDetails → Bool)

/-- Something that matches is held or queued. -/
def hasMatching : Bool :=
  q.exclLock.isSet && gone q.exclLock || q.sharedLocks.toList.any gone ||
    q.waitersExclLock.any gone || q.waitersSharedLock.any gone

/-- Dropping what matches wakes no writer beside a reader: if there is something to drop and no
exclusive lock stays, then the shared locks that stay belong to the first writer that stays. -/
def RemovalSafe : Prop :=
  q.hasMatching gone → (q.exclLock.isSet → gone q.exclLock) →
    ∀ w ∈ (q.waitersExclLock.filter fun w => !gone w).head?,
      ∀ s ∈ q.sharedLocks, gone s = false → s.handle = w.handle

/-- Giving up the lock of `l` wakes no writer of the queue `waiters` beside a reader: the shared
locks that stay belong to the first writer. -/
def UnlockSafe (l : EntryLockDetails) (waiters : List EntryLockDetails) : Prop :=
  (q.exclLock.handle = l.handle → ∀ w ∈ waiters.head?, ∀ s ∈ q.sharedLocks, s.handle = w.handle) ∧
  (q.exclLock.isSet = false → (∃ s ∈ q.sharedLocks, s.handle = l.handle) →
    ∀ w ∈ waiters.head?, ∀ s ∈ q.sharedLocks, s.handle ≠ l.handle → s.handle = w.handle)

/-- The call wakes no writer while another handle reads. -/
def ReleaseSafe : EntryLockOp → Prop
  | .cancelAllWaiters => True
  | .cancelByClientID id => q.RemovalSafe fun s => s.clientNumID == id
  | .flock l =>
    if l.isCancel then q.RemovalSafe l.equalsHandle
    else if l.isUnlock then q.UnlockSafe l q.waitersExclLock
    else
      -- a new request that has to wait gives up the lock its handle holds
      l.lockAckID ∉ q.waitersLockIDs → q.flockEntryIsGranted l = false →
        (q.flockEntryCheckConflicts l).isSome → l.allowsWaiting →
        q.UnlockSafe l (if l.isShared then q.waitersExclLock else q.waitersExclLock ++ [l])

end

theorem tryNextWaiters_exclusive_iff (h : q.Exclusive) (hs : q.WaitersSet) :
    q.flockEntryTryNextWaiters.2.Exclusive ↔ q.WakeSafe := by
  rcases q.tryNextWaiters_cases with ⟨hx, he⟩ | ⟨hx, hq, -, he⟩ | ⟨hx, w, ws, hq, he⟩ |
    ⟨hx, hq, -, he⟩ <;> rw [he]
  · exact ⟨fun _ hn => by simp [hx] at hn, fun _ => h⟩
  · have hx' := (q.grantWaitersShared_spec q.waitersSharedLock).1
    refine ⟨fun _ _ w hw => ?_, fun _ hset => ?_⟩
    · rw [hq] at hw
      cases hw
    · rw [hx', hx] at hset
      cases hset
  · have hw : w.isSet := hs w (List.mem_append_left _ (hq ▸ List.mem_cons_self))
    constructor
    · intro hex _ v hv s hmem
      rw [hq, List.head?_cons, Option.mem_some_iff] at hv
      exact hv ▸ hex hw s hmem
    · intro hsafe _ s hmem
      exact hsafe hx w (by rw [hq]; rfl) s hmem
  · refine ⟨fun _ _ w hw => ?_, fun _ => h⟩
    rw [hq] at hw
    cases hw

theorem finish_exclusive_iff (h : q.Exclusive) (hs : q.WaitersSet) :
    (finish t g q).2.Exclusive ↔ (t → q.WakeSafe) := by
  rw [finish_snd]
  split_ifs with ht
  · rw [tryNextWaiters_exclusive_iff h hs]
    exact ⟨fun hw _ => hw, fun hw => hw ht⟩
  · exact ⟨fun _ ht' => (ht ht').elim, fun _ => h⟩

theorem Exclusive.removeMatching (h : q.Exclusive) (gone : EntryLockDetails → Bool) :
    (q.removeMatching gone).2.Exclusive := by
  intro hset s hmem
  rw [removeMatching_exclLock] at hset ⊢
  split_ifs at hset with hx
  · cases hset
  · rw [if_neg hx]
    exact h hset s (mem_removeMatching_sharedLocks.mp hmem).1

theorem removeMatching_wakeSafe_iff :
    ((q.removeMatching gone).1 → (q.removeMatching gone).2.WakeSafe) ↔ q.RemovalSafe gone := by
  unfold RemovalSafe WakeSafe
  rw [removeMatching_fst, ← hasMatching, removeMatching_exclLock, removeMatching_waitersExclLock]
  have hx : (if q.exclLock.isSet && gone q.exclLock then .unset else q.exclLock).isSet = false ↔
      (q.exclLock.isSet → gone q.exclLock) := by
    split_ifs with hb
    · exact ⟨fun _ _ => (Bool.and_eq_true_iff.mp hb).2, fun _ => rfl⟩
    · rw [Bool.and_eq_true_iff, not_and] at hb
      exact ⟨fun hn hset => by simp [hn] at hset, fun himp => by
        by_contra hset
        exact hb (Bool.not_eq_false _ ▸ hset) (himp (Bool.not_eq_false _ ▸ hset))⟩
  rw [hx]
  simp only [mem_removeMatching_sharedLocks, and_imp]

/-- An unlock keeps the exclusion, and with it a wake-up of `waiters` is safe exactly if
`UnlockSafe` says so. -/
theorem flockEntryUnlock_wakeSafe_iff (hl : l.clientNumID ≠ 0) :
    ((q.flockEntryUnlock l).1 → (q.flockEntryUnlock l).2.exclLock.isSet = false →
      ∀ w ∈ waiters.head?, ∀ s ∈ (q.flockEntryUnlock l).2.sharedLocks, s.handle = w.handle) ↔
      q.UnlockSafe l waiters := by
  rcases q.flockEntryUnlock_cases l with ⟨hh, he⟩ | ⟨hh, hex, locks, hlocks, he⟩ | ⟨hh, hno, he⟩ <;>
    rw [he]
  · have hset := isSet_of_handle_eq hh hl
    refine ⟨fun h => ⟨fun _ => h rfl rfl, fun hn => by simp [hset] at hn⟩, fun h _ _ => h.1 hh⟩
  · simp only [hlocks, and_imp]
    refine ⟨fun h => ⟨fun h' => (hh h').elim, fun hn _ => h trivial hn⟩, fun h _ hn => h.2 hn hex⟩
  · refine ⟨fun _ => ⟨fun h' => (hh h').elim, fun _ hex => ?_⟩, fun _ ht => by cases ht⟩
    obtain ⟨s, hs, hsh⟩ := hex
    exact (hno s hs hsh).elim

theorem Exclusive.unlock (h : q.Exclusive) (l : EntryLockDetails) :
    (q.flockEntryUnlock l).2.Exclusive := by
  rcases q.flockEntryUnlock_cases l with ⟨-, he⟩ | ⟨-, -, locks, hlocks, he⟩
    | ⟨-, -, he⟩ <;> rw [he]
  · intro hset
    cases hset
  · intro hset s hmem
    exact h hset s ((hlocks s).mp hmem).1
  · exact h

theorem unlock_exclLock_handle_ne (h : (q.flockEntryUnlock l).2.exclLock.isSet) :
    q.exclLock.isSet ∧ q.exclLock.handle ≠ l.handle := by
  rcases q.flockEntryUnlock_cases l with ⟨-, he⟩ | ⟨hh, -, locks, -, he⟩
    | ⟨hh, -, he⟩ <;> rw [he] at h
  · cases h
  · exact ⟨h, hh⟩
  · exact ⟨h, hh⟩

theorem mem_sharedLocks_of_unlock (h : e ∈ (q.flockEntryUnlock l).2.sharedLocks) :
    e ∈ q.sharedLocks := by
  rcases q.flockEntryUnlock_cases l with ⟨-, he⟩ | ⟨-, -, locks, hlocks, he⟩ | ⟨-, -, he⟩ <;>
    rw [he] at h
  · exact h
  · exact ((hlocks e).mp h).1
  · exact h

/-- A request that meets no conflict can be granted, and a wake-up after it is safe. -/
theorem grant_exclusive_of_free (hmode : (l.isShared ∧ l.isExclusive = false) ∨
      (l.isShared = false ∧ l.isExclusive))
    (hset : l.isSet) (hf : (q.flockEntryCheckConflicts l).isSome = false) :
    ((q.flockEntryUnlock l).2.grant l).Exclusive ∧ ((q.flockEntryUnlock l).2.grant l).WakeSafe := by
  rcases hmode with ⟨hsh, hx⟩ | ⟨hsh, hx⟩
  · have hnot := mt (conflicts_shared hx).mpr (Bool.eq_false_iff.mp hf)
    rw [not_or, not_not] at hnot
    rw [grant_of_isShared hsh]
    refine ⟨fun hn => (hnot.1 (unlock_exclLock_handle_ne hn)).elim, fun _ w hw => ?_⟩
    have hq : ((q.flockEntryUnlock l).2.flockEntryShared l).waitersExclLock = [] :=
      (q.flockEntryUnlock_queues l).1.trans hnot.2
    rw [hq] at hw
    cases hw
  · have hnot := mt (conflicts_exclusive hx).mpr (Bool.eq_false_iff.mp hf)
    rw [not_or] at hnot
    rw [grant_of_not_isShared hsh]
    refine ⟨fun _ e hmem => ?_, fun hn => by cases hn.symm.trans hset⟩
    by_contra hne
    exact hnot.2 ⟨e, mem_sharedLocks_of_unlock hmem, hne⟩

theorem step_exclusive_iff (h : q.Exclusive) (hs : q.WaitersSet) (hop : op.Valid) :
    (q.step op).Exclusive ↔ q.ReleaseSafe op := by
  cases op with
  | flock l =>
    simp only [step, ReleaseSafe]
    rcases q.flockEntryUnlocked_cases l with ⟨hc, he⟩ | ⟨hc, hu, he⟩ | ⟨hc, hu, hno, he⟩ |
      ⟨hc, hu, hid, hg, hf, he⟩ | ⟨hc, hu, hid, hg, hf, hw, he⟩ <;> rw [he]
    · rw [if_pos hc, finish_exclusive_iff (h.removeMatching _) (hs.removeMatching _),
        removeMatching_wakeSafe_iff]
    · rw [if_neg (by simp [hc]), if_pos hu, finish_exclusive_iff (h.unlock l) (hs.unlock l),
        ← flockEntryUnlock_wakeSafe_iff hop.2]
      unfold WakeSafe
      rw [(q.flockEntryUnlock_queues l).1]
    · rw [if_neg (by simp [hc]), if_neg (by simp [hu])]
      refine ⟨fun _ hid hg hf hw => ?_, fun _ => h⟩
      rcases hno with hid' | hg' | ⟨-, hw'⟩
      · exact (hid hid').elim
      · cases hg.symm.trans hg'
      · cases hw.symm.trans hw'
    · -- a granted reader finds no writer waiting, and a granted writer is alone
      rw [if_neg (by simp [hc]), if_neg (by simp [hu])]
      refine iff_of_true ?_ fun _ _ hf' => by cases hf.symm.trans hf'
      have hset : l.isSet := bne_iff_ne.mpr hop.2
      have hgrant := grant_exclusive_of_free (mode_cases hop.1 hc hu) hset hf
      exact (finish_exclusive_iff hgrant.1 ((hs.unlock l).grant l)).mpr fun _ => hgrant.2
    · rw [if_neg (by simp [hc]), if_neg (by simp [hu])]
      have hex : ((q.flockEntryUnlock l).2.enqueue l).Exclusive := by
        unfold enqueue
        split
        · exact h.unlock l
        · exact h.unlock l
      rw [finish_exclusive_iff hex ((hs.unlock l).enqueue hop.2)]
      simp only [hid, hg, hf, hw, not_false_eq_true, true_imp_iff]
      rw [← flockEntryUnlock_wakeSafe_iff hop.2]
      unfold WakeSafe enqueue
      split
      · rw [(q.flockEntryUnlock_queues l).1]
      · rw [(q.flockEntryUnlock_queues l).1]
  | cancelByClientID id =>
    rw [step_cancelByClientID, finish_exclusive_iff (h.removeMatching _) (hs.removeMatching _),
      removeMatching_wakeSafe_iff]
    rfl
  | cancelAllWaiters => exact iff_of_true h trivial

/-- A run keeps the exclusion in all its states exactly if no call of it wakes a writer while
another handle reads. -/
theorem exclusive_iff_releaseSafe (ops : List EntryLockOp) (hops : ∀ op ∈ ops, op.Valid) :
    EveryState step Exclusive empty ops ↔ EveryStep step ReleaseSafe empty ops := by
  refine everyState_iff (fun q op hop hq => WaitersSet.step hq hop)
    (fun q op hop hs hex => step_exclusive_iff hex hs hop) ?_ ?_ hops
  · intro w hw
    cases hw
  · intro hset
    cases hset

/-- Clients 1 and 2 read, client 3 waits to write, and client 1 unlocks. -/
def unlockBesideReader : List EntryLockOp :=
  [.flock ⟨1, 10, 100, "a", entryLockTypeShared⟩, .flock ⟨2, 20, 200, "b", entryLockTypeShared⟩,
    .flock ⟨3, 30, 300, "c", entryLockTypeExclusive⟩, .flock ⟨1, 10, 100, "d", entryLockTypeUnlock⟩]

theorem exclusive_iff_unlockBesideReader : (∀ op ∈ unlockBesideReader, op.Valid) ∧
    (EveryState step Exclusive empty unlockBesideReader ↔
      EveryStep step ReleaseSafe empty unlockBesideReader) :=
  ⟨by decide, exclusive_iff_releaseSafe _ (by decide)⟩

/-- Client 3 then holds the exclusive lock while client 2 still reads. -/
theorem not_exclusive_unlockBesideReader : (∀ op ∈ unlockBesideReader, op.Valid) ∧
    (run step empty unlockBesideReader).exclLock.isSet ∧
    ∃ s ∈ (run step empty unlockBesideReader).sharedLocks.toList,
      s.handle ≠ (run step empty unlockBesideReader).exclLock.handle := by
  decide

end Congfs.EntryLockQueues
