import Congfs.Lib.LockMap
import Congfs.Locking.RangeTables

/-!
# What a range-lock call does

The tables of an inode as the bytes that each owner holds in each mode (`held`), and one lemma for
each function on them. A conflict is a lock that blocks the request, or a writer that waits before
it (`conflicts_iff`). A call makes one edit of the tables and the queues (`Edit`) and then, if that
released something, grants waiters one at a time (`GrantStep`, `call_steps`).
-/

namespace Congfs

open RangeLockDetails StdSet

namespace RangeLockDetails

variable {l w : RangeLockDetails} {m : LockMode}

def bytes (l : RangeLockDetails) : Set UInt64 := {b | b ∈ l}

/-- `l` asks for at least one byte in mode `m`. -/
structure Asks (l : RangeLockDetails) (m : LockMode) : Prop where
  nonempty : l.Nonempty
  isShared : l.isShared = (m == .shared)
  isExclusive : l.isExclusive = (m == .exclusive)

theorem asks_of_oneOp (h : l.lockTypeFlags.OneOp) (hl : l.Nonempty) (hc : l.isCancel = false)
    (hu : l.isUnlock = false) : ∃ m, l.Asks m := by
  rcases h.cases with ⟨hc', -⟩ | ⟨-, hu'⟩ | ⟨-, -, hs, he⟩ | ⟨-, -, hs, he⟩
  · exact absurd (hc.symm.trans hc') Bool.false_ne_true
  · exact absurd (hu.symm.trans hu') Bool.false_ne_true
  · exact ⟨.shared, hl, hs, he⟩
  · exact ⟨.exclusive, hl, hs, he⟩

/-- `w` is a request of another owner for some of the bytes of `l`. -/
def Opposes (w l : RangeLockDetails) : Prop := l.overlaps w ∧ w.owner ≠ l.owner

instance (w l : RangeLockDetails) : Decidable (w.Opposes l) := inferInstanceAs (Decidable (_ ∧ _))

theorem opposes_iff : w.Opposes l ↔ (l.overlaps w && !l.equalsHandle w) := by
  rw [Bool.and_eq_true, Bool.not_eq_true', equalsHandle_eq_false]
  exact and_congr_right fun _ => ne_comm

end RangeLockDetails

section
variable {l : RangeLockDetails} {es ws : List RangeLockDetails}

theorem exists_opposes_iff (hl : l.Nonempty) (hes : ∀ e ∈ es, e.Nonempty) :
    (∃ e ∈ es, e.Opposes l) ↔ ∃ o, ∃ b ∈ l, b ∈ covered es o ∧ o ≠ l.owner := by
  constructor
  · intro ⟨e, he, hov, ho⟩
    obtain ⟨b, hbl, hbe⟩ := (overlaps_iff hl (hes e he)).mp hov
    exact ⟨e.owner, b, hbl, ⟨e, he, rfl, hbe⟩, ho⟩
  · intro ⟨o, b, hbl, ⟨e, he, heo, hbe⟩, ho⟩
    exact ⟨e, he, (overlaps_iff hl (hes e he)).mpr ⟨b, hbl, hbe⟩, heo ▸ ho⟩

theorem checkExclWaiters_cons (hn : n ≠ 0)
    (hrest : (checkExclWaiters l (n - 1) ws).isSome ↔ ∃ v ∈ vs, v.Opposes l) :
    (checkExclWaiters l n (w :: ws)).isSome ↔ ∃ v ∈ w :: vs, v.Opposes l := by
  rw [List.exists_mem_cons_iff, opposes_iff, checkExclWaiters, if_neg hn]
  cases hw : l.overlaps w && !l.equalsHandle w with
  | true => exact ⟨fun _ => .inl rfl, fun _ => rfl⟩
  | false =>
    rw [if_neg Bool.false_ne_true, hrest]
    exact ⟨.inr, fun h => h.resolve_left Bool.false_ne_true⟩

theorem checkExclWaiters_all (n : Int) (hn : n < 0) :
    (checkExclWaiters l n ws).isSome ↔ ∃ w ∈ ws, w.Opposes l := by
  induction ws generalizing n with
  | nil => simp [checkExclWaiters]
  | cons w ws ih => exact checkExclWaiters_cons (by omega) (ih (n - 1) (by omega))

theorem checkExclWaiters_take (n : Nat) :
    (checkExclWaiters l n ws).isSome ↔ ∃ w ∈ ws.take n, w.Opposes l := by
  induction ws generalizing n with
  | nil => simp [checkExclWaiters]
  | cons w ws ih =>
    cases n with
    | zero => simp [checkExclWaiters]
    | succ n =>
      have hn : ((n + 1 : Nat) : Int) - 1 = n := by omega
      exact checkExclWaiters_cons (by omega) (hn ▸ ih n)

/-- The exclusive ranges are ordered by start, so none that overlaps is behind the first one that
starts too late. -/
theorem find_takeWhile_isSome_iff (T : StdSet ltExcl) :
    ((T.toList.takeWhile fun e => decide (e.start ≤ l.endPos)).find?
      fun e => l.overlaps e && !l.equalsHandle e).isSome ↔ ∃ e ∈ T, e.Opposes l := by
  rw [List.find?_isSome]
  constructor
  · intro ⟨e, he, hov⟩
    exact ⟨e, List.takeWhile_subset _ he, opposes_iff.mpr hov⟩
  · intro ⟨e, he, hov⟩
    refine ⟨e, mem_takeWhile_of_pairwise T.sorted (fun a b hab hb => ?_) he ?_, opposes_iff.mp hov⟩
    · rw [decide_eq_true_eq] at hb ⊢
      exact UInt64.le_trans (UInt64.le_of_lt hab) hb
    · exact decide_eq_true (start_le_of_overlaps hov.1)

end

namespace RangeLocks

variable {s s' : RangeLocks} {l w v : RangeLockDetails} {m : LockMode}

def locks (s : RangeLocks) : LockMode → List RangeLockDetails
  | .exclusive => s.exclRangeFLocks.toList
  | .shared => s.sharedRangeFLocks.toList

def waiters (s : RangeLocks) : LockMode → List RangeLockDetails
  | .exclusive => s.waitersExclRangeFLock
  | .shared => s.waitersSharedRangeFLock

/-- The bytes that each owner holds in each mode. -/
def held (s : RangeLocks) : LockMap (NumNodeID × Int32) UInt64 := fun m o => covered (s.locks m) o

theorem conflicts_iff (hs : ∀ m, ∀ e ∈ s.locks m, e.Nonempty) (hl : l.Asks m) (n : Int) :
    (s.flockRangeCheckConflictsEx l n).isSome ↔ s.held.Blocks m l.owner l.bytes ∨
        (checkExclWaiters l n s.waitersExclRangeFLock).isSome := by
  have hexcl := exists_opposes_iff hl.nonempty (hs .exclusive)
  have hshared := exists_opposes_iff hl.nonempty (hs .shared)
  unfold flockRangeCheckConflictsEx
  rw [Option.isSome_or, Option.isSome_or, Bool.or_eq_true, Bool.or_eq_true,
    find_takeWhile_isSome_iff, ← or_assoc]
  refine or_congr_left ?_
  constructor
  · intro h
    rcases h with h | h
    · obtain ⟨o, b, hb, hc, ho⟩ := hexcl.mp h
      exact ⟨.exclusive, o, b, hb, hc, ho, fun h => LockMode.noConfusion h.2⟩
    · cases m with
      | shared =>
        rw [hl.isExclusive] at h
        cases h
      | exclusive =>
        rw [hl.isExclusive, beq_self_eq_true, if_pos rfl, List.find?_isSome] at h
        obtain ⟨e, he, hov⟩ := h
        obtain ⟨o, b, hb, hc, ho⟩ := hshared.mp ⟨e, he, opposes_iff.mpr hov⟩
        exact ⟨.shared, o, b, hb, hc, ho, fun h => LockMode.noConfusion h.1⟩
  · intro ⟨m', o, b, hb, hc, ho, hm⟩
    cases m' with
    | exclusive => exact .inl (hexcl.mpr ⟨o, b, hb, hc, ho⟩)
    | shared =>
      cases m with
      | shared => exact absurd ⟨rfl, rfl⟩ hm
      | exclusive =>
        obtain ⟨e, he, hov⟩ := hshared.mpr ⟨o, b, hb, hc, ho⟩
        rw [hl.isExclusive, beq_self_eq_true, if_pos rfl, List.find?_isSome]
        exact .inr ⟨e, he, opposes_iff.mp hov⟩

/-! ## Locks: unlocking, removing and granting -/

/-- The loop of `flockRangeUnlock` over the exclusive ranges. -/
def unlockExcl (s : RangeLocks) (l : RangeLockDetails) : UnlockLoop ltExcl :=
  unlockLoop (fun e => decide (e.start ≤ l.endPos)) l s.exclRangeFLocks.begin false

/-- The loop of `flockRangeUnlock` over the shared ranges. -/
def unlockShared (s : RangeLocks) (l : RangeLockDetails) : UnlockLoop ltShared :=
  unlockLoop (fun _ => true) l s.sharedRangeFLocks.begin (s.unlockExcl l).lockRemoved

theorem flockRangeUnlock_cases : ((s.unlockExcl l).returned ∧
      s.flockRangeUnlock l = (true, { s with exclRangeFLocks := (s.unlockExcl l).table })) ∨
    ((s.unlockExcl l).returned = false ∧ s.flockRangeUnlock l =
        ((s.unlockShared l).returned || (s.unlockShared l).lockRemoved, { s with
            exclRangeFLocks := (s.unlockExcl l).table
            sharedRangeFLocks := (s.unlockShared l).table })) := by
  cases h : (s.unlockExcl l).returned with
  | true => exact .inl ⟨rfl, if_pos h⟩
  | false => exact .inr ⟨rfl, if_neg (Bool.eq_false_iff.mp h)⟩

@[simp] theorem flockRangeUnlock_waiters : (s.flockRangeUnlock l).2.waiters m = s.waiters m := by
  rcases flockRangeUnlock_cases with ⟨-, h⟩ | ⟨-, h⟩ <;> rw [h] <;> cases m <;> rfl

@[simp] theorem flockRangeUnlock_waitersLockIDs :
    (s.flockRangeUnlock l).2.waitersLockIDsRangeFLock = s.waitersLockIDsRangeFLock := by
  rcases flockRangeUnlock_cases with ⟨-, h⟩ | ⟨-, h⟩ <;> rw [h]

section
variable (hs : ∀ m, ∀ e ∈ s.locks m, e.Nonempty) (hl : l.Nonempty)
include hs hl

/-- What unlocking a range does to the locks of both modes, and that it says so. -/
theorem flockRangeUnlock_shrinks :
    Shrinks l s.exclRangeFLocks (s.flockRangeUnlock l).2.exclRangeFLocks ∧
      Shrinks l s.sharedRangeFLocks (s.flockRangeUnlock l).2.sharedRangeFLocks ∧
      ((s.flockRangeUnlock l).1 = false → (s.flockRangeUnlock l).2 = s) := by
  obtain ⟨hexcl, hexcl'⟩ : Shrinks l s.exclRangeFLocks (s.unlockExcl l).table ∧
      ((s.unlockExcl l).lockRemoved = false → (s.unlockExcl l).table = s.exclRangeFLocks ∧ _) :=
    unlockLoop_shrinks hl overlaps_eq_false_of_ltExcl s.exclRangeFLocks.begin false (hs .exclusive)
  obtain ⟨hshared, hshared'⟩ : Shrinks l s.sharedRangeFLocks (s.unlockShared l).table ∧
      ((s.unlockShared l).lockRemoved = false →
        (s.unlockShared l).table = s.sharedRangeFLocks ∧ (s.unlockExcl l).lockRemoved = false) :=
    unlockLoop_shrinks hl (fun _ _ h => Bool.noConfusion h) s.sharedRangeFLocks.begin _ (hs .shared)
  rcases flockRangeUnlock_cases with ⟨-, h⟩ | ⟨-, h⟩ <;> rw [h]
  · exact ⟨hexcl, Shrinks.refl _, Bool.noConfusion⟩
  · refine ⟨hexcl, hshared, fun hr => ?_⟩
    obtain ⟨hs1, hr1⟩ := hshared' (Bool.or_eq_false_iff.mp hr).2
    obtain ⟨hs2, -⟩ := hexcl' hr1
    simp only [hs1, hs2]

theorem flockRangeUnlock_of_released
    (h : ∀ m, Released l (s.locks m)) : s.flockRangeUnlock l = (false, s) := by
  have hexcl : s.unlockExcl l = ⟨s.exclRangeFLocks, false, false⟩ :=
    unlockLoop_of_released hl overlaps_eq_false_of_ltExcl (hs .exclusive) (h .exclusive)
  have hshared : s.unlockShared l = ⟨s.sharedRangeFLocks, false, false⟩ := by
    unfold unlockShared
    rw [hexcl]
    exact unlockLoop_of_released hl (fun _ _ h => Bool.noConfusion h) (hs .shared) (h .shared)
  rcases flockRangeUnlock_cases with ⟨hr, -⟩ | ⟨-, heq⟩
  · rw [hexcl] at hr
    cases hr
  · rw [heq, hexcl, hshared]
    rfl

theorem locks_flockRangeUnlock : ∀ m, ∀ e ∈ (s.flockRangeUnlock l).2.locks m, e.Nonempty := by
  obtain ⟨hexcl, hshared, -⟩ := flockRangeUnlock_shrinks hs hl
  intro m
  cases m with
  | exclusive => exact hexcl.nonempty (hs .exclusive)
  | shared => exact hshared.nonempty (hs .shared)

theorem held_flockRangeUnlock_le : (s.flockRangeUnlock l).2.held ≤ s.held := by
  obtain ⟨hexcl, hshared, -⟩ := flockRangeUnlock_shrinks hs hl
  intro m o
  cases m with
  | exclusive => exact hexcl.covered_le o
  | shared => exact hshared.covered_le o

end

section
variable (gone : RangeLockDetails → Bool)
include gone

theorem locks_removeMatching :
    (s.removeMatching gone).2.locks m = (s.locks m).filter fun e => !gone e := by
  cases m <;> rfl

theorem waiters_removeMatching :
    (s.removeMatching gone).2.waiters m = (s.waiters m).filter fun e => !gone e := by
  cases m
  · exact cancelMatching_queue
  · exact cancelMatching_queue

theorem held_removeMatching_le : (s.removeMatching gone).2.held ≤ s.held := by
  intro m o b ⟨e, he, ho, hb⟩
  rw [locks_removeMatching] at he
  exact ⟨e, List.mem_of_mem_filter he, ho, hb⟩

end

theorem removeMatching_eq_self (h : (s.removeMatching gone).1 = false) :
    (s.removeMatching gone).2 = s := by
  simp only [removeMatching, Bool.or_eq_false_iff, cancelMatching_any] at h
  obtain ⟨⟨⟨h1, h2⟩, h3⟩, h4⟩ := h
  have hfilter : ∀ l : List RangeLockDetails, l.any gone = false → (l.filter fun e =>
    !gone e) = l := by
    intro l hl
    rw [List.filter_eq_self]
    intro e he
    rw [Bool.not_eq_true']
    exact Bool.eq_false_iff.mpr (List.any_eq_false.mp hl e he)
  unfold removeMatching
  simp only [cancelMatching_queue, cancelMatching_ids_of_not_any h3,
    cancelMatching_ids_of_not_any h4, hfilter _ h3, hfilter _ h4]
  have he : (s.exclRangeFLocks.filter fun e => !gone e) = s.exclRangeFLocks := by
    ext1
    exact hfilter _ h1
  have hs : (s.sharedRangeFLocks.filter fun e => !gone e) = s.sharedRangeFLocks := by
    ext1
    exact hfilter _ h2
  rw [he, hs]

/-- The merge that enters an exclusive range. -/
def mergeExcl (s : RangeLocks) (l : RangeLockDetails) : RangeLockDetails × StdSet ltExcl :=
  mergeInto (fun l e => decide (e.start ≤ l.endPos + 1)) s.exclRangeFLocks l

/-- The merge that enters a shared range. -/
def mergeShared (s : RangeLocks) (l : RangeLockDetails) : RangeLockDetails × StdSet ltShared :=
  mergeInto (fun _ _ => true) s.sharedRangeFLocks l

theorem grant_eq_exclusive (hl : l.Asks .exclusive) :
    s.grant l = { s with exclRangeFLocks := (s.mergeExcl l).2 } := if_neg (by simp [hl.isShared])

theorem grant_eq_shared (hl : l.Asks .shared) :
    s.grant l = { s with sharedRangeFLocks := (s.mergeShared l).2 } :=
  if_pos (by simp [hl.isShared])

theorem enqueue_eq_exclusive (hl : l.Asks .exclusive) : s.enqueue l = { s with
      waitersExclRangeFLock := s.waitersExclRangeFLock ++ [l]
      waitersLockIDsRangeFLock := insert l.lockAckID s.waitersLockIDsRangeFLock } :=
  if_neg (by simp [hl.isShared])

theorem enqueue_eq_shared (hl : l.Asks .shared) : s.enqueue l = { s with
      waitersSharedRangeFLock := s.waitersSharedRangeFLock ++ [l]
      waitersLockIDsRangeFLock := insert l.lockAckID s.waitersLockIDsRangeFLock } :=
  if_pos (by simp [hl.isShared])

@[simp] theorem grant_waiters : (s.grant l).waiters m = s.waiters m := by
  unfold grant
  split <;> cases m <;> rfl

@[simp] theorem grant_waitersLockIDs :
    (s.grant l).waitersLockIDsRangeFLock = s.waitersLockIDsRangeFLock := by
  unfold grant
  split <;> rfl

theorem noTie_shared : NoTie (fun _ _ => true) s.sharedRangeFLocks l := by
  intro f _ ho
  apply ltShared_or_of_owner_ne
  rw [owner_mergeInto]
  exact ho.symm

theorem held_grant_le (hl : l.Asks m) : (s.grant l).held ≤ s.held.add m l.owner l.bytes := by
  intro m' o b hb
  cases m with
  | exclusive =>
    rw [grant_eq_exclusive hl] at hb
    cases m' with
    | exclusive => exact (mergeInto_covered_le hb).imp_right fun h => ⟨rfl, h⟩
    | shared => exact .inl hb
  | shared =>
    rw [grant_eq_shared hl] at hb
    cases m' with
    | exclusive => exact .inl hb
    | shared => exact (mergeInto_covered_le hb).imp_right fun h => ⟨rfl, h⟩

/-- The kind of request that can get lost: one that starts inside the file and reaches the last
offset, where `end + 1` is `0`. -/
def Overflows (l : RangeLockDetails) : Prop :=
  0 < l.start ∧ l.start < maxOffset ∧ l.endPos = maxOffset

section
variable (hs : ∀ m, ∀ e ∈ s.locks m, e.Nonempty)
include hs

/-- No exclusive lock of another owner can stand in the place of a request that nothing blocks. -/
theorem noTie_excl (hx : s.held.Excludes)
    (hl : l.Asks .exclusive) (hb : ¬s.held.Blocks .exclusive l.owner l.bytes) :
    NoTie (fun l e => decide (e.start ≤ l.endPos + 1)) s.exclRangeFLocks l := by
  intro f hf ho
  by_contra hn
  obtain ⟨h1, h2⟩ := not_or.mp hn
  have hstart := tableOrder_excl.start_eq _ _ h1 h2
  have hne : (s.mergeExcl l).1.Nonempty := mergeLoop_spans.nonempty hl.nonempty
  -- the first byte of `f` is one of the request or of its owner
  have hbf : f.start ∈ s.held .exclusive f.owner :=
    ⟨f, hf, rfl, (hs .exclusive f hf).start_mem⟩
  rcases mem_of_mem_mergeLoop (hstart ▸ hne.start_mem) with hbl | hbl
  · exact hb ⟨.exclusive, f.owner, f.start, hbl, hbf, ho, fun h => LockMode.noConfusion h.1⟩
  · exact LockMode.noConfusion (hx .exclusive .exclusive _ _ _ hbf hbl ho).1

theorem locks_grant (hl : l.Asks m) : ∀ m, ∀ e ∈ (s.grant l).locks m, e.Nonempty := by
  intro m' e he
  cases m with
  | exclusive =>
    rw [grant_eq_exclusive hl] at he
    cases m' with
    | exclusive => exact nonempty_of_mem_mergeInto hl.nonempty (hs .exclusive) he
    | shared => exact hs .shared e he
  | shared =>
    rw [grant_eq_shared hl] at he
    cases m' with
    | exclusive => exact hs .exclusive e he
    | shared => exact nonempty_of_mem_mergeInto hl.nonempty (hs .shared) he

theorem held_le_grant (hx : s.held.Excludes)
    (hl : l.Asks m) (hb : ¬s.held.Blocks m l.owner l.bytes) : s.held ≤ (s.grant l).held := by
  intro m' o b hm
  cases m with
  | exclusive =>
    rw [grant_eq_exclusive hl]
    cases m' with
    | exclusive =>
      exact covered_le_mergeInto tableOrder_excl hl.nonempty (hs .exclusive)
        (noTie_excl hs hx hl hb) o hm
    | shared => exact hm
  | shared =>
    rw [grant_eq_shared hl]
    cases m' with
    | exclusive => exact hm
    | shared =>
      exact covered_le_mergeInto tableOrder_shared hl.nonempty (hs .shared) noTie_shared o hm

theorem bytes_subset_held_grant (hx : s.held.Excludes)
    (hl : l.Asks m) (hb : ¬s.held.Blocks m l.owner l.bytes) (hsafe : ¬Overflows l) :
    l.bytes ⊆ (s.grant l).held m l.owner := by
  intro b hbl
  cases m with
  | exclusive =>
    rw [grant_eq_exclusive hl]
    exact mem_covered_mergeInto tableOrder_excl hl.nonempty (hs .exclusive)
      (noTie_excl hs hx hl hb) hsafe hbl
  | shared =>
    rw [grant_eq_shared hl]
    exact mem_covered_mergeInto tableOrder_shared hl.nonempty (hs .shared) noTie_shared hsafe hbl

end

/-! ## Granting waiters -/

/-- One waiter is granted: it leaves its queue and enters the table of its mode. A writer is free
if nothing before it in its queue opposes it, a reader if no waiting writer does. -/
inductive GrantStep (s : RangeLocks) (w : RangeLockDetails) : RangeLocks → Prop where
  | exclusive (before after : List RangeLockDetails)
      (hq : s.waitersExclRangeFLock = before ++ w :: after)
      (hfree : s.flockRangeCheckConflictsEx w before.length = none) :
      GrantStep s w { (s.flockRangeExclusive w).2 with
          waitersExclRangeFLock := before ++ after
          waitersLockIDsRangeFLock := s.waitersLockIDsRangeFLock.erase w.lockAckID }
  | shared (before after : List RangeLockDetails)
      (hq : s.waitersSharedRangeFLock = before ++ w :: after)
      (hfree : s.flockRangeCheckConflicts w = none) :
      GrantStep s w { (s.flockRangeShared w).2 with
          waitersSharedRangeFLock := before ++ after
          waitersLockIDsRangeFLock := s.waitersLockIDsRangeFLock.erase w.lockAckID }

namespace GrantStep

section
variable (h : GrantStep s w s')
include h

theorem queue :
    ∃ m before after, s.waiters m = before ++ w :: after ∧ s'.waiters m = before ++ after ∧
      ∀ m', m' ≠ m → s'.waiters m' = s.waiters m' := by
  cases h with
  | exclusive before after hq hfree =>
    refine ⟨.exclusive, before, after, hq, rfl, fun m' hm => ?_⟩
    cases m' with
    | exclusive => exact absurd rfl hm
    | shared => rfl
  | shared before after hq hfree =>
    refine ⟨.shared, before, after, hq, rfl, fun m' hm => ?_⟩
    cases m' with
    | exclusive => rfl
    | shared => exact absurd rfl hm

theorem mem_waiters : ∃ m, w ∈ s.waiters m := by
  obtain ⟨m, before, after, hq, -, -⟩ := h.queue
  refine ⟨m, ?_⟩
  rw [hq]
  exact List.mem_append_right _ List.mem_cons_self

theorem waiters_sublist (m : LockMode) : (s'.waiters m).Sublist (s.waiters m) := by
  obtain ⟨m', before, after, hq, hq', hother⟩ := h.queue
  by_cases hm : m = m'
  · rw [hm, hq, hq']
    exact (List.Sublist.refl _).append (List.sublist_cons_self w after)
  · rw [hother m hm]

theorem eq_or_mem_waiters (hv : v ∈ s.waiters m) : v = w ∨ v ∈ s'.waiters m := by
  obtain ⟨m', before, after, hq, hq', hother⟩ := h.queue
  by_cases hm : m = m'
  · rw [hm, hq, List.mem_append, List.mem_cons, or_left_comm, ← List.mem_append] at hv
    rwa [hm, hq']
  · rw [hother m hm]
    exact .inr hv

end

end GrantStep

/-- The loop writes the queue before it reads it. -/
theorem tryNextExclLoop_congr (ns before after q : List RangeLockDetails) :
    tryNextExclLoop { s with waitersExclRangeFLock := q } ns before after =
      s.tryNextExclLoop ns before after := by
  cases after <;> rfl

theorem tryNextSharedLoop_congr (ns before after q : List RangeLockDetails) :
    tryNextSharedLoop { s with waitersSharedRangeFLock := q } ns before after =
      s.tryNextSharedLoop ns before after := by
  cases after <;> rfl

/-- The writer just granted, and those the loop has still to see. -/
theorem tryNextExclLoop_cons (hq : s.waitersExclRangeFLock = before ++ w :: after)
    (ns : List RangeLockDetails) :
    ((s.flockRangeCheckConflictsEx w before.length).isSome ∧
      s.tryNextExclLoop ns before (w :: after) = s.tryNextExclLoop ns (before ++ [w]) after) ∨
    ∃ s', GrantStep s w s' ∧ s'.waitersExclRangeFLock = before ++ after ∧
      s.tryNextExclLoop ns before (w :: after) =
        s'.tryNextExclLoop (ns ++ [(s.mergeExcl w).1]) before after := by
  have hs : { s with waitersExclRangeFLock := before ++ w :: after } = s := by rw [← hq]
  rw [tryNextExclLoop, hs]
  cases hc : s.flockRangeCheckConflictsEx w before.length with
  | some e => exact .inl ⟨rfl, rfl⟩
  | none => exact .inr ⟨_, .exclusive before after hq hc, rfl, (tryNextExclLoop_congr ..).symm⟩

theorem tryNextSharedLoop_cons (hq : s.waitersSharedRangeFLock = before ++ w :: after) :
    ((s.flockRangeCheckConflicts w).isSome ∧
      s.tryNextSharedLoop ns before (w :: after) = s.tryNextSharedLoop ns (before ++ [w]) after) ∨
    ∃ s', GrantStep s w s' ∧ s'.waitersSharedRangeFLock = before ++ after ∧
      s'.waitersExclRangeFLock = s.waitersExclRangeFLock ∧
      s.tryNextSharedLoop ns before (w :: after) =
        s'.tryNextSharedLoop (ns ++ [(s.mergeShared w).1]) before after := by
  have hs : { s with waitersSharedRangeFLock := before ++ w :: after } = s := by rw [← hq]
  rw [tryNextSharedLoop, hs]
  cases hc : s.flockRangeCheckConflicts w with
  | some e => exact .inl ⟨rfl, rfl⟩
  | none =>
    exact .inr ⟨_, .shared before after hq hc, rfl, rfl, (tryNextSharedLoop_congr ..).symm⟩

theorem tryNextExclLoop_nil (hq : s.waitersExclRangeFLock = before) :
    s.tryNextExclLoop ns before [] = (ns, s) := by
  rw [tryNextExclLoop, ← hq]

theorem tryNextSharedLoop_nil (hq : s.waitersSharedRangeFLock = before) :
    s.tryNextSharedLoop ns before [] = (ns, s) := by
  rw [tryNextSharedLoop, ← hq]

section
variable (s : RangeLocks) (before after : List RangeLockDetails)

/-- The loop over the writers grants some of them, in order, and notifies these. -/
theorem tryNextExclLoop_steps
    (hq : s.waitersExclRangeFLock = before ++ after) (ns : List RangeLockDetails) :
    ∃ ws, Steps GrantStep s ws (s.tryNextExclLoop ns before after).2 ∧
      (s.tryNextExclLoop ns before after).1.map (·.lockAckID) = (ns ++ ws).map (·.lockAckID) := by
  induction after generalizing s ns before with
  | nil =>
    rw [List.append_nil] at hq
    rw [tryNextExclLoop_nil hq]
    exact ⟨[], .nil, by rw [List.append_nil]⟩
  | cons w after ih =>
    rcases tryNextExclLoop_cons hq ns with ⟨-, h⟩ | ⟨s', hstep, hq', h⟩ <;> rw [h]
    · exact ih s (before ++ [w]) (by rw [hq, List.append_assoc]; rfl) ns
    · obtain ⟨ws, hsteps, hns⟩ := ih s' before hq' (ns ++ [(s.mergeExcl w).1])
      refine ⟨w :: ws, .cons hstep hsteps, ?_⟩
      rw [hns]
      simp [mergeExcl, mergeInto_lockAckID]

/-- The loop over the readers grants some of them, in order, and notifies these. -/
theorem tryNextSharedLoop_steps
    (hq : s.waitersSharedRangeFLock = before ++ after) (ns : List RangeLockDetails) :
    ∃ ws, Steps GrantStep s ws (s.tryNextSharedLoop ns before after).2 ∧
      (s.tryNextSharedLoop ns before after).1.map (·.lockAckID) = (ns ++ ws).map (·.lockAckID) := by
  induction after generalizing s ns before with
  | nil =>
    rw [List.append_nil] at hq
    rw [tryNextSharedLoop_nil hq]
    exact ⟨[], .nil, by rw [List.append_nil]⟩
  | cons w after ih =>
    rcases tryNextSharedLoop_cons hq with ⟨-, h⟩ | ⟨s', hstep, hq', -, h⟩ <;> rw [h]
    · exact ih s (before ++ [w]) (by rw [hq, List.append_assoc]; rfl) ns
    · obtain ⟨ws, hsteps, hns⟩ := ih s' before hq' (ns ++ [(s.mergeShared w).1])
      refine ⟨w :: ws, .cons hstep hsteps, ?_⟩
      rw [hns]
      simp [mergeShared, mergeInto_lockAckID]

theorem flockRangeTryNextWaiters_steps : ∃ ws, Steps GrantStep s ws s.flockRangeTryNextWaiters.2 ∧
      s.flockRangeTryNextWaiters.1.map (·.lockAckID) = ws.map (·.lockAckID) := by
  obtain ⟨ws, hsteps, hns⟩ := tryNextExclLoop_steps s [] _ rfl []
  obtain ⟨vs, hsteps', hns'⟩ := tryNextSharedLoop_steps
    (s.tryNextExclLoop [] [] s.waitersExclRangeFLock).2 [] _ rfl
    (s.tryNextExclLoop [] [] s.waitersExclRangeFLock).1
  refine ⟨ws ++ vs, hsteps.append hsteps', ?_⟩
  rw [List.map_append] at hns' ⊢
  rw [hns, List.nil_append] at hns'
  exact hns'

end

/-! ## Calls -/

/-- What a call does before it tries the waiters: whether something was released, what it answers,
and the tables and queues it leaves. -/
inductive Edit (s : RangeLocks) : RangeLockOp → Bool → Bool → RangeLocks → Prop where
  | cancel (l : RangeLockDetails) (hc : l.isCancel) :
      Edit s (.flock l) (s.removeMatching l.equalsHandle).1 true (s.removeMatching l.equalsHandle).2
  | cancelByClientID (id : NumNodeID) :
      Edit s (.cancelByClientID id) (s.removeMatching fun e => e.clientNumID == id).1 true
        (s.removeMatching fun e => e.clientNumID == id).2
  | cancelAllWaiters : Edit s .cancelAllWaiters false true s.flockRangeCancelAllWaiters
  | unlock (l : RangeLockDetails) (hc : l.isCancel = false) (hu : l.isUnlock) :
      Edit s (.flock l) (s.flockRangeUnlock l).1 true (s.flockRangeUnlock l).2
  /-- The request is queued already. -/
  | waiting (l : RangeLockDetails) (hc : l.isCancel = false) (hu : l.isUnlock = false)
      (hid : l.lockAckID ∈ s.waitersLockIDsRangeFLock) : Edit s (.flock l) false false s
  /-- The owner has the lock already. -/
  | granted (l : RangeLockDetails) (hc : l.isCancel = false) (hu : l.isUnlock = false)
      (hid : l.lockAckID ∉ s.waitersLockIDsRangeFLock) (hg : s.flockRangeIsGranted l) :
      Edit s (.flock l) false true s
  | grant (l : RangeLockDetails) (hc : l.isCancel = false) (hu : l.isUnlock = false)
      (hid : l.lockAckID ∉ s.waitersLockIDsRangeFLock) (hg : s.flockRangeIsGranted l = false)
      (hfree : s.flockRangeCheckConflicts l = none) :
      Edit s (.flock l) (s.flockRangeUnlock l).1 true ((s.flockRangeUnlock l).2.grant l)
  | enqueue (l : RangeLockDetails) (hc : l.isCancel = false) (hu : l.isUnlock = false)
      (hid : l.lockAckID ∉ s.waitersLockIDsRangeFLock) (hg : s.flockRangeIsGranted l = false)
      (hconf : (s.flockRangeCheckConflicts l).isSome) (hw : l.allowsWaiting) :
      Edit s (.flock l) (s.flockRangeUnlock l).1 false ((s.flockRangeUnlock l).2.enqueue l)
  | refuse (l : RangeLockDetails) (hc : l.isCancel = false) (hu : l.isUnlock = false)
      (hid : l.lockAckID ∉ s.waitersLockIDsRangeFLock) (hg : s.flockRangeIsGranted l = false)
      (hconf : (s.flockRangeCheckConflicts l).isSome) (hw : l.allowsWaiting = false) :
      Edit s (.flock l) false false s

theorem Edit.granted_cases (h : Edit s (.flock l) released true s') (hc : l.isCancel = false)
    (hu : l.isUnlock = false) :
    (s.flockRangeIsGranted l ∧ s' = s) ∨
    (s.flockRangeCheckConflicts l = none ∧ s' = (s.flockRangeUnlock l).2.grant l) := by
  cases h with
  | cancel _ hc' => exact absurd (hc.symm.trans hc') Bool.false_ne_true
  | unlock _ _ hu' => exact absurd (hu.symm.trans hu') Bool.false_ne_true
  | granted _ _ _ _ hg => exact .inl ⟨hg, rfl⟩
  | grant _ _ _ _ _ hfree => exact .inr ⟨hfree, rfl⟩

theorem Edit.eq_of_waiting {released granted : Bool} (h : Edit s (.flock l) released granted s')
    (hc : l.isCancel = false) (hu : l.isUnlock = false)
    (hid : l.lockAckID ∈ s.waitersLockIDsRangeFLock) : released = false := by
  cases h with
  | cancel _ hc' => exact absurd (hc.symm.trans hc') Bool.false_ne_true
  | unlock _ _ hu' => exact absurd (hu.symm.trans hu') Bool.false_ne_true
  | waiting => rfl
  | granted _ _ _ hid' => exact absurd hid hid'
  | grant _ _ _ hid' => exact absurd hid hid'
  | enqueue _ _ _ hid' => exact absurd hid hid'
  | refuse _ _ _ hid' => exact absurd hid hid'

theorem flockRangeUnlocked_edit (s : RangeLocks) (l : RangeLockDetails) :
    ∃ released granted s', Edit s (.flock l) released granted s' ∧
      s.flockRangeUnlocked l = finish released granted s' := by
  unfold flockRangeUnlocked
  split
  · rename_i hc
    exact ⟨_, _, _, .cancel l hc, rfl⟩
  rename_i hc
  rw [Bool.not_eq_true] at hc
  split
  · rename_i hu
    exact ⟨_, _, _, .unlock l hc hu, rfl⟩
  rename_i hu
  rw [Bool.not_eq_true] at hu
  split
  · rename_i hid
    exact ⟨_, _, _, .waiting l hc hu hid, rfl⟩
  rename_i hid
  split
  · rename_i hg
    exact ⟨_, _, _, .granted l hc hu hid hg, rfl⟩
  rename_i hg
  rw [Bool.not_eq_true] at hg
  cases hconf : s.flockRangeCheckConflicts l with
  | none => exact ⟨_, _, _, .grant l hc hu hid hg hconf, rfl⟩
  | some e =>
    have hsome : (s.flockRangeCheckConflicts l).isSome := by rw [hconf]; rfl
    cases hw : l.allowsWaiting with
    | true => exact ⟨_, _, _, .enqueue l hc hu hid hg hsome hw, rfl⟩
    | false => exact ⟨_, _, _, .refuse l hc hu hid hg hsome hw, rfl⟩

theorem call_edit (s : RangeLocks) (op : RangeLockOp) :
    ∃ released granted s', Edit s op released granted s' ∧
      s.call op = finish released granted s' := by
  cases op with
  | flock l => exact s.flockRangeUnlocked_edit l
  | cancelByClientID id =>
    refine ⟨_, _, _, .cancelByClientID id, ?_⟩
    simp only [call, flockRangeCancelByClientID, finish]
    split <;> rfl
  | cancelAllWaiters => exact ⟨_, _, _, .cancelAllWaiters, rfl⟩

theorem finish_steps : ∃ ws, Steps GrantStep s ws (finish released granted s).2 ∧
      (finish released granted s).1.2.map (·.lockAckID) = ws.map (·.lockAckID) ∧
      (released = false → ws = []) := by
  cases released with
  | false => exact ⟨[], .nil, rfl, fun _ => rfl⟩
  | true =>
    obtain ⟨ws, hsteps, hns⟩ := s.flockRangeTryNextWaiters_steps
    exact ⟨ws, hsteps, hns, Bool.noConfusion⟩

@[simp] theorem finish_granted : (finish released granted s).1.1 = granted := by
  cases released <;> rfl

/-- A call is an edit and then, if that released something, a sequence of grants, which are the ones
it notifies. -/
theorem call_steps (s : RangeLocks) (op : RangeLockOp) :
    ∃ released s' ws, Edit s op released (s.call op).1.1 s' ∧ Steps GrantStep s' ws (s.step op) ∧
      (s.call op).1.2.map (·.lockAckID) = ws.map (·.lockAckID) ∧ (released = false → ws = []) := by
  obtain ⟨released, granted, s', hedit, hcall⟩ := s.call_edit op
  obtain ⟨ws, hsteps, hns⟩ := finish_steps
  unfold step
  rw [hcall, finish_granted]
  exact ⟨released, s', ws, hedit, hsteps, hns⟩

end RangeLocks

end Congfs
