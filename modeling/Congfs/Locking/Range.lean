import Congfs.Lib.IndexedQueue
import Congfs.Lib.Run
import Congfs.Locking.Details

/-!
# Range locks of a file inode

The tables that `FileInode` keeps for `fcntl` locks: the granted exclusive and shared ranges, each
in a `std::set` with a comparator of its own, one queue of waiters for each mode, and the ids of the
queued requests. The functions are those of `FileInode.cpp`. A function that also edits the tables
returns them next to its result, and one that edits its request (a granted request grows by the
ranges it is merged with) returns the request too.

The exclusive and the shared table are treated alike but for the comparator and the loop condition:
the exclusive one is ordered by start, so its loops end at the first range that starts too late.
The loops therefore take that condition as an argument.
-/

namespace Congfs

open RangeLockDetails StdSet

/-! ## Loops over one table -/

variable {lt : RangeLockDetails → RangeLockDetails → Prop}

/-- Merge a request with the ranges of its owner that it touches; these leave the table. -/
def mergeLoop (inReach : RangeLockDetails → RangeLockDetails → Bool) :
    RangeLockDetails → List RangeLockDetails → RangeLockDetails × List RangeLockDetails
  | l, [] => (l, [])
  | l, e :: es =>
    if inReach l e then
      if l.equalsHandle e && l.isMergeable e then mergeLoop inReach (l.merge e) es
      else
        let r := mergeLoop inReach l es
        (r.1, e :: r.2)
    else (l, e :: es)

theorem mergeLoop_sublist (inReach : RangeLockDetails → RangeLockDetails → Bool)
    (l : RangeLockDetails) (es : List RangeLockDetails) :
    (mergeLoop inReach l es).2.Sublist es := by
  induction es generalizing l with
  | nil => exact List.Sublist.slnil
  | cons e es ih =>
    simp only [mergeLoop]
    split
    · split
      · exact (ih _).cons _
      · exact (ih _).cons_cons _
    · exact List.Sublist.refl _

/-- Merge a request into a table: the loop, then the insertion of what it has grown to. -/
def mergeInto [DecidableRel lt] [IsStrictOrder RangeLockDetails lt]
    (inReach : RangeLockDetails → RangeLockDetails → Bool) (table : StdSet lt)
    (l : RangeLockDetails) : RangeLockDetails × StdSet lt :=
  let r := mergeLoop inReach l table.toList
  (r.1, insert r.1 ⟨r.2, table.sorted.sublist (mergeLoop_sublist ..)⟩)

/-- One range of the owner that overlaps `l` decides whether all of `l` is held. -/
def isGrantedLoop (l : RangeLockDetails) : List RangeLockDetails → Bool
  | [] => false
  | e :: es =>
    if !l.equalsHandle e then isGrantedLoop l es
    else match l.overlapsEx e with
      | .equals => true
      | .isContained => true
      | .contains => false
      | .startOverlap => false
      | .endOverlap => false
      | .none => isGrantedLoop l es

/-- The outcome of a loop of `flockRangeUnlock`: `returned` if the whole function returned from
within it. -/
structure UnlockLoop (lt : RangeLockDetails → RangeLockDetails → Prop) where
  table : StdSet lt
  returned : Bool
  lockRemoved : Bool

theorem overlaps_trim_eq_false {l e : RangeLockDetails}
    (h : l.overlapsEx e = .startOverlap ∨ l.overlapsEx e = .endOverlap) :
    l.overlaps e ∧ l.overlaps (e.trim l) = false := by
  rcases h with h | h <;> have hs := overlapsEx_spec h <;> unfold overlaps trim <;> grind

/-- How much an unlock loop still has to look at. A trimmed range may come up once more, but it no
longer overlaps. -/
def unlockMeasure (l : RangeLockDetails) (c : Cursor lt) : Nat :=
  c.after.length + c.after.countP l.overlaps

theorem unlockMeasure_tail (hc : c.after = e :: es) (hd : d.after = es) :
    unlockMeasure l d < unlockMeasure l c := by
  unfold unlockMeasure
  rw [hc, hd, List.length_cons, List.countP_cons]
  omega

section
variable [DecidableRel lt] [IsStrictOrder RangeLockDetails lt]

theorem unlockMeasure_trim {c : Cursor lt} (hc : c.after = e :: es)
    (h : l.overlapsEx e = .startOverlap ∨ l.overlapsEx e = .endOverlap) :
    unlockMeasure l (c.erase.insert (e.trim l)) < unlockMeasure l c := by
  obtain ⟨he, ht⟩ := overlaps_trim_eq_false h
  have hes : c.erase.after = es := by rw [Cursor.erase_after, hc, List.tail_cons]
  rcases Cursor.insert_cases (e.trim l) c.erase with ⟨-, hi⟩ | ⟨-, hi⟩ <;> rw [hes] at hi
  · exact unlockMeasure_tail hc hi
  · have hlen : (insertList lt (e.trim l) es).length ≤ es.length + 1 := length_insertList_le
    unfold unlockMeasure
    rw [hi, hc, countP_insertList ht, List.length_cons, List.countP_cons_of_pos he]
    omega

/-- Take the bytes of `l` from the ranges of its owner. A range that spans `l` ends the search. -/
def unlockLoop (inReach : RangeLockDetails → Bool) (l : RangeLockDetails) (c : Cursor lt)
    (lockRemoved : Bool) : UnlockLoop lt :=
  match _hc : c.after with
  | [] => ⟨c.toSet, false, lockRemoved⟩
  | e :: _ =>
    if !inReach e then ⟨c.toSet, false, lockRemoved⟩
    else if !l.equalsHandle e then unlockLoop inReach l c.next lockRemoved
    else match _ho : l.overlapsEx e with
      | .equals => ⟨c.erase.toSet, true, true⟩
      | .isContained =>
        if l.start == e.start || l.endPos == e.endPos then
          -- one locked area remains
          ⟨c.erase.toSet.insert (e.trim l), true, true⟩
        else
          -- two locked areas remain
          ⟨(c.erase.toSet.insert (e.split l).1).insert (e.split l).2, true, true⟩
      | .contains => unlockLoop inReach l c.erase true
      -- the trimmed range may have another place in the table
      | .startOverlap => unlockLoop inReach l (c.erase.insert (e.trim l)) true
      | .endOverlap => unlockLoop inReach l (c.erase.insert (e.trim l)) true
      | .none => unlockLoop inReach l c.next lockRemoved
termination_by unlockMeasure l c
decreasing_by
  · exact unlockMeasure_tail _hc (by rw [Cursor.next_after, _hc, List.tail_cons])
  · exact unlockMeasure_tail _hc (by rw [Cursor.erase_after, _hc, List.tail_cons])
  · exact unlockMeasure_trim _hc (.inl _ho)
  · exact unlockMeasure_trim _hc (.inr _ho)
  · exact unlockMeasure_tail _hc (by rw [Cursor.next_after, _hc, List.tail_cons])

end

/-! ## The tables -/

structure RangeLocks where
  exclRangeFLocks : StdSet ltExcl
  sharedRangeFLocks : StdSet ltShared
  waitersExclRangeFLock : List RangeLockDetails
  waitersSharedRangeFLock : List RangeLockDetails
  waitersLockIDsRangeFLock : Finset String

/-- The first waiting writer that conflicts with `l`, among the given number of them. A negative
number never gets to 0, so it stands for the whole queue. -/
def checkExclWaiters (l : RangeLockDetails) : Int → List RangeLockDetails → Option RangeLockDetails
  | _, [] => none
  | n, w :: ws =>
    if n = 0 then none
    else if l.overlaps w && !l.equalsHandle w then some w
    else checkExclWaiters l (n - 1) ws

namespace RangeLocks

def empty : RangeLocks := ⟨∅, ∅, [], [], ∅⟩

variable (s : RangeLocks) (l : RangeLockDetails)

/-- A lock of another owner that keeps the request from being granted, if there is one. Writers are
preferred and do not starve each other: a request is also kept out by a writer that waits. -/
def flockRangeCheckConflictsEx (maxExclWaitersCheckNum : Int) : Option RangeLockDetails :=
  ((s.exclRangeFLocks.toList.takeWhile fun e => decide (e.start ≤ l.endPos)).find?
      fun e => l.overlaps e && !l.equalsHandle e).or <|
    (if l.isExclusive then
      s.sharedRangeFLocks.toList.find? fun e => l.overlaps e && !l.equalsHandle e
    else none).or <|
    checkExclWaiters l maxExclWaitersCheckNum s.waitersExclRangeFLock

def flockRangeCheckConflicts : Option RangeLockDetails :=
  s.flockRangeCheckConflictsEx l (-1)

def flockRangeShared : RangeLockDetails × RangeLocks :=
  let r := mergeInto (fun _ _ => true) s.sharedRangeFLocks l
  (r.1, { s with sharedRangeFLocks := r.2 })

/-- Ranges that start behind `l.endPos + 1` are out of reach of a merge with `l`. -/
def flockRangeExclusive : RangeLockDetails × RangeLocks :=
  let r := mergeInto (fun l e => decide (e.start ≤ l.endPos + 1)) s.exclRangeFLocks l
  (r.1, { s with exclRangeFLocks := r.2 })

def flockRangeIsGranted : Bool :=
  if l.isExclusive then
    isGrantedLoop l (s.exclRangeFLocks.toList.takeWhile fun e => decide (e.start ≤ l.endPos))
  else if l.isShared then isGrantedLoop l s.sharedRangeFLocks.toList
  else false

/-- Take the bytes of `l` from its owner, and tell whether a lock was removed. If an exclusive range
spans `l`, the shared ranges are not looked at. -/
def flockRangeUnlock : Bool × RangeLocks :=
  let excl := unlockLoop (fun e => decide (e.start ≤ l.endPos)) l s.exclRangeFLocks.begin false
  if excl.returned then (true, { s with exclRangeFLocks := excl.table })
  else
    let shared := unlockLoop (fun _ => true) l s.sharedRangeFLocks.begin excl.lockRemoved
    (shared.returned || shared.lockRemoved,
      { s with exclRangeFLocks := excl.table, sharedRangeFLocks := shared.table })

/-- The loop of `flockRangeTryNextWaiters` over the waiting writers: those it has passed over,
and those still to come. A writer has to respect the writers before it in the queue. -/
def tryNextExclLoop (s : RangeLocks) (notifyList before : List RangeLockDetails) :
    List RangeLockDetails → List RangeLockDetails × RangeLocks
  | [] => (notifyList, { s with waitersExclRangeFLock := before })
  | w :: after =>
    let s := { s with waitersExclRangeFLock := before ++ w :: after }
    if (s.flockRangeCheckConflictsEx w before.length).isSome then
      tryNextExclLoop s notifyList (before ++ [w]) after
    else
      let r := s.flockRangeExclusive w
      tryNextExclLoop
        { r.2 with waitersLockIDsRangeFLock := s.waitersLockIDsRangeFLock.erase w.lockAckID }
        (notifyList ++ [r.1]) before after

/-- The loop of `flockRangeTryNextWaiters` over the waiting readers. -/
def tryNextSharedLoop (s : RangeLocks) (notifyList before : List RangeLockDetails) :
    List RangeLockDetails → List RangeLockDetails × RangeLocks
  | [] => (notifyList, { s with waitersSharedRangeFLock := before })
  | w :: after =>
    let s := { s with waitersSharedRangeFLock := before ++ w :: after }
    if (s.flockRangeCheckConflicts w).isSome then
      tryNextSharedLoop s notifyList (before ++ [w]) after
    else
      let r := s.flockRangeShared w
      tryNextSharedLoop
        { r.2 with waitersLockIDsRangeFLock := s.waitersLockIDsRangeFLock.erase w.lockAckID }
        (notifyList ++ [r.1]) before after

def flockRangeTryNextWaiters : List RangeLockDetails × RangeLocks :=
  let r := s.tryNextExclLoop [] [] s.waitersExclRangeFLock
  r.2.tryNextSharedLoop r.1 [] r.2.waitersSharedRangeFLock

/-- Drop every lock and every waiter that matches, and tell whether there was one. -/
def removeMatching (gone : RangeLockDetails → Bool) : Bool × RangeLocks :=
  let excl := cancelMatching (·.lockAckID) gone s.waitersExclRangeFLock s.waitersLockIDsRangeFLock
  let shared := cancelMatching (·.lockAckID) gone s.waitersSharedRangeFLock excl.2.2
  (s.exclRangeFLocks.toList.any gone || s.sharedRangeFLocks.toList.any gone || excl.1 || shared.1,
    { exclRangeFLocks := s.exclRangeFLocks.filter fun e => !gone e
      sharedRangeFLocks := s.sharedRangeFLocks.filter fun e => !gone e
      waitersExclRangeFLock := excl.2.1
      waitersSharedRangeFLock := shared.2.1
      waitersLockIDsRangeFLock := shared.2.2 })

def flockRangeCancelByHandle : Bool × RangeLocks :=
  s.removeMatching l.equalsHandle

def flockRangeCancelByClientID (clientNumID : NumNodeID) : List RangeLockDetails × RangeLocks :=
  let r := s.removeMatching fun e => e.clientNumID == clientNumID
  if r.1 then r.2.flockRangeTryNextWaiters else ([], r.2)

def flockRangeCancelAllWaiters : RangeLocks :=
  { s with
    waitersLockIDsRangeFLock := ∅
    waitersExclRangeFLock := []
    waitersSharedRangeFLock := [] }

/-- The end of `flockRangeUnlocked`: the waiters are tried only if something was released. -/
def finish (tryNextWaiters immediatelyGranted : Bool) (s : RangeLocks) :
    (Bool × List RangeLockDetails) × RangeLocks :=
  if tryNextWaiters then
    let r := s.flockRangeTryNextWaiters
    ((immediatelyGranted, r.1), r.2)
  else ((immediatelyGranted, []), s)

/-- Queue a request behind those of its mode. -/
def enqueue : RangeLocks :=
  if l.isShared then
    { s with
      waitersSharedRangeFLock := s.waitersSharedRangeFLock ++ [l]
      waitersLockIDsRangeFLock := insert l.lockAckID s.waitersLockIDsRangeFLock }
  else
    { s with
      waitersExclRangeFLock := s.waitersExclRangeFLock ++ [l]
      waitersLockIDsRangeFLock := insert l.lockAckID s.waitersLockIDsRangeFLock }

/-- Enter a request into the table of its mode. -/
def grant : RangeLocks :=
  if l.isShared then (s.flockRangeShared l).2 else (s.flockRangeExclusive l).2

/-- One range-lock request: whether it was granted, and the waiters that were granted with it. -/
def flockRangeUnlocked : (Bool × List RangeLockDetails) × RangeLocks :=
  if l.isCancel then
    let r := s.flockRangeCancelByHandle l
    finish r.1 true r.2
  else if l.isUnlock then
    let r := s.flockRangeUnlock l
    finish r.1 true r.2
  else if l.lockAckID ∈ s.waitersLockIDsRangeFLock then ((false, []), s)
  else if s.flockRangeIsGranted l then ((true, []), s)
  else
    let hasConflicts := (s.flockRangeCheckConflicts l).isSome
    -- an up- or downgrade gives up the old locks, also when it then has to wait
    let r := if !hasConflicts || l.allowsWaiting then s.flockRangeUnlock l else (false, s)
    if !hasConflicts then finish r.1 true (r.2.grant l)
    else if l.allowsWaiting then finish r.1 false (r.2.enqueue l)
    else finish r.1 false r.2

end RangeLocks

inductive RangeLockOp where
  | flock (l : RangeLockDetails)
  | cancelByClientID (clientNumID : NumNodeID)
  | cancelAllWaiters
deriving DecidableEq, Repr

/-- Requests ask for one operation on a range of at least one byte. -/
def RangeLockOp.Valid : RangeLockOp → Prop
  | .flock l => l.lockTypeFlags.OneOp ∧ l.start ≤ l.endPos
  | _ => True

instance : DecidablePred RangeLockOp.Valid := fun op => by
  unfold RangeLockOp.Valid; cases op <;> infer_instance

namespace RangeLocks

/-- One call: its result, the waiters it granted, and the tables after it. -/
def call (s : RangeLocks) : RangeLockOp → (Bool × List RangeLockDetails) × RangeLocks
  | .flock l => s.flockRangeUnlocked l
  | .cancelByClientID id =>
    let r := s.flockRangeCancelByClientID id
    ((true, r.1), r.2)
  | .cancelAllWaiters => ((true, []), s.flockRangeCancelAllWaiters)

def step (s : RangeLocks) (op : RangeLockOp) : RangeLocks := (s.call op).2

end RangeLocks

end Congfs
