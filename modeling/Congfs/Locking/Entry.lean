import Congfs.Lib.IndexedQueue
import Congfs.Lib.Run
import Congfs.Locking.Details

/-!
# Entry locks of a file inode

The lock container that `FileInode` keeps for `flock` (and, with empty shared queues, for append
locks): at most one exclusive holder, the shared holders, one queue of waiters for each mode, and
the ids of the queued requests. The functions are those of `FileInode.cpp`. A function that also
edits the container returns it next to its result.

`removeMatching` is the common body of the two ways to drop everything of one party, by handle
(`flockEntryCancelByHandle`) and by client (`flockEntryGenericCancelByClientID`).
-/

namespace Congfs

/-- `EntryLockQueuesContainer`. -/
structure EntryLockQueues where
  exclLock : EntryLockDetails
  sharedLocks : StdSet EntryLockDetails.lt
  waitersExclLock : List EntryLockDetails
  waitersSharedLock : List EntryLockDetails
  waitersLockIDs : Finset String

namespace EntryLockQueues

def empty : EntryLockQueues := ⟨.unset, ∅, [], [], ∅⟩

variable (q : EntryLockQueues) (l : EntryLockDetails)

/-- A lock that keeps the request from being granted, if there is one. Writers are preferred: a
reader is also kept out by a writer that waits. -/
def flockEntryCheckConflicts : Option EntryLockDetails :=
  if q.exclLock.isSet && !q.exclLock.equalsHandle l then some q.exclLock
  else if l.isExclusive then q.sharedLocks.toList.find? fun s => !s.equalsHandle l
  else q.waitersExclLock.head?

def flockEntryIsGranted : Bool :=
  if l.isExclusive then q.exclLock.equalsHandle l
  else if l.isShared then (q.sharedLocks.find l).isSome
  else false

/-- Release the lock of a handle, the exclusive one first. -/
def flockEntryUnlock : Bool × EntryLockQueues :=
  if q.exclLock.equalsHandle l then (true, { q with exclLock := .unset })
  else match q.sharedLocks.find l with
    | some e => (true, { q with sharedLocks := q.sharedLocks.erase e })
    | none => (false, q)

def flockEntryShared : EntryLockQueues :=
  { q with sharedLocks := q.sharedLocks.insert l }

def flockEntryExclusive : EntryLockQueues :=
  { q with exclLock := l }

/-- The loop of `flockEntryTryNextWaiters` that grants all shared waiters. -/
def grantWaitersShared (q : EntryLockQueues) :
    List EntryLockDetails → List EntryLockDetails × EntryLockQueues
  | [] => ([], { q with waitersSharedLock := [] })
  | w :: ws =>
    let r := grantWaitersShared
      { flockEntryShared q w with waitersLockIDs := q.waitersLockIDs.erase w.lockAckID } ws
    (w :: r.1, r.2)

/-- Grant what can be granted of the queues: all readers if no writer waits, else one writer. -/
def flockEntryTryNextWaiters : List EntryLockDetails × EntryLockQueues :=
  if q.exclLock.isSet then ([], q)
  else if !q.waitersSharedLock.isEmpty && q.waitersExclLock.isEmpty then
    q.grantWaitersShared q.waitersSharedLock
  else match q.waitersExclLock with
    | [] => ([], q)
    | w :: ws => ([w], { flockEntryExclusive q w with
        waitersLockIDs := q.waitersLockIDs.erase w.lockAckID
        waitersExclLock := ws })

/-- Drop every lock and every waiter that matches, and tell whether there was one. -/
def removeMatching (gone : EntryLockDetails → Bool) : Bool × EntryLockQueues :=
  let exclGone := q.exclLock.isSet && gone q.exclLock
  let excl := cancelMatching (·.lockAckID) gone q.waitersExclLock q.waitersLockIDs
  let shared := cancelMatching (·.lockAckID) gone q.waitersSharedLock excl.2.2
  (exclGone || q.sharedLocks.toList.any gone || excl.1 || shared.1,
    { exclLock := if exclGone then .unset else q.exclLock
      sharedLocks := q.sharedLocks.filter fun s => !gone s
      waitersExclLock := excl.2.1
      waitersSharedLock := shared.2.1
      waitersLockIDs := shared.2.2 })

def flockEntryCancelByHandle : Bool × EntryLockQueues :=
  q.removeMatching l.equalsHandle

def flockEntryGenericCancelByClientID (clientNumID : NumNodeID) :
    List EntryLockDetails × EntryLockQueues :=
  let r := q.removeMatching fun s => s.clientNumID == clientNumID
  if r.1 then r.2.flockEntryTryNextWaiters else ([], r.2)

def flockEntryGenericCancelAllWaiters : EntryLockQueues :=
  { q with waitersLockIDs := ∅, waitersExclLock := [], waitersSharedLock := [] }

/-- The end of `flockEntryUnlocked`: the waiters are tried only if something was released. -/
def finish (tryNextWaiters immediatelyGranted : Bool) (q : EntryLockQueues) :
    (Bool × List EntryLockDetails) × EntryLockQueues :=
  if tryNextWaiters then
    let r := q.flockEntryTryNextWaiters
    ((immediatelyGranted, r.1), r.2)
  else ((immediatelyGranted, []), q)

/-- Queue a request behind those of its mode. -/
def enqueue : EntryLockQueues :=
  if l.isShared then
    { q with
      waitersSharedLock := q.waitersSharedLock ++ [l]
      waitersLockIDs := insert l.lockAckID q.waitersLockIDs }
  else
    { q with
      waitersExclLock := q.waitersExclLock ++ [l]
      waitersLockIDs := insert l.lockAckID q.waitersLockIDs }

/-- Enter a request into the locks of its mode. -/
def grant : EntryLockQueues :=
  if l.isShared then q.flockEntryShared l else q.flockEntryExclusive l

/-- One `flock` request: whether it was granted, and the waiters that were granted with it. -/
def flockEntryUnlocked : (Bool × List EntryLockDetails) × EntryLockQueues :=
  if l.isCancel then
    let r := q.flockEntryCancelByHandle l
    finish r.1 true r.2
  else if l.isUnlock then
    let r := q.flockEntryUnlock l
    finish r.1 true r.2
  else if l.lockAckID ∈ q.waitersLockIDs then ((false, []), q)
  else if q.flockEntryIsGranted l then ((true, []), q)
  else
    let hasConflicts := (q.flockEntryCheckConflicts l).isSome
    -- an up- or downgrade gives up the old lock, also when it then has to wait
    let r := if !hasConflicts || l.allowsWaiting then q.flockEntryUnlock l else (false, q)
    if !hasConflicts then finish r.1 true (r.2.grant l)
    else if l.allowsWaiting then finish r.1 false (r.2.enqueue l)
    else finish r.1 false r.2

end EntryLockQueues

inductive EntryLockOp where
  | flock (l : EntryLockDetails)
  | cancelByClientID (clientNumID : NumNodeID)
  | cancelAllWaiters
deriving DecidableEq, Repr

/-- Requests ask for one operation and come from a client, whose id is not 0. -/
def EntryLockOp.Valid : EntryLockOp → Prop
  | .flock l => l.lockTypeFlags.OneOp ∧ l.clientNumID ≠ 0
  | _ => True

instance : DecidablePred EntryLockOp.Valid := fun op => by
  unfold EntryLockOp.Valid; cases op <;> infer_instance

namespace EntryLockQueues

def step (q : EntryLockQueues) : EntryLockOp → EntryLockQueues
  | .flock l => (q.flockEntryUnlocked l).2
  | .cancelByClientID id => (q.flockEntryGenericCancelByClientID id).2
  | .cancelAllWaiters => q.flockEntryGenericCancelAllWaiters

end EntryLockQueues

end Congfs
