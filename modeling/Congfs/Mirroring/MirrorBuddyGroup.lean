import Congfs.Lib.MinHeap
import Congfs.Lib.Run

/-!
# Sequence numbers of mirrored requests

A client numbers its requests to a buddy group, and tells the server with each of them which numbers
it is done with: a number that was released since the last request, or all numbers below those that
are in flight. The numbers in flight are kept in a binary heap, so that the least of them is known.
Callers have a pointer to the slot of their number, and a slot has a pointer back to it.

The sections under the mutex are atomic. A semaphore lets as many callers in as there are slots; it
is taken before the section that acquires a number, and given back behind the one that releases it.
-/

namespace Congfs.Mirroring

open Function (update)

/-- The variable of a caller that has the address of its slot. -/
abbrev SeqNoHandle := ℕ

structure BuddySequenceNumber where
  pSelf : SeqNoHandle
  value : UInt64
  deriving DecidableEq, Repr

/-- Slots are known by their index; `handles` is what the callers' variables hold. The capacity is a
16-bit number, so that sums of indices do not overflow. -/
structure MirrorBuddyGroup where
  sequence : UInt64
  slotsAvail : ℕ
  seqNoInFlight : ℕ → BuddySequenceNumber
  inFlightSize : ℕ
  inFlightCapacity : ℕ
  finishedSeqNums : ℕ → UInt64
  firstFinishedIndex : ℕ
  finishedCount : ℕ
  handles : SeqNoHandle → Option ℕ

namespace MirrorBuddyGroup

/-- What is in the arrays and in the callers' variables is arbitrary. -/
def construct (doneBufferSize : ℕ) (seqNoInFlight : ℕ → BuddySequenceNumber)
    (finishedSeqNums : ℕ → UInt64) (handles : SeqNoHandle → Option ℕ) : MirrorBuddyGroup where
  sequence := 0
  slotsAvail := doneBufferSize
  seqNoInFlight := seqNoInFlight
  inFlightSize := 0
  inFlightCapacity := doneBufferSize
  finishedSeqNums := finishedSeqNums
  firstFinishedIndex := 0
  finishedCount := 0
  handles := handles

variable (group : MirrorBuddyGroup)

/-- Two slots change places, and the handles of both are set. -/
def swapSlots (i j : ℕ) : MirrorBuddyGroup :=
  let seqNoInFlight := swapAt group.seqNoInFlight i j
  { group with
    seqNoInFlight := seqNoInFlight
    handles := update (update group.handles (seqNoInFlight i).pSelf (some i))
      (seqNoInFlight j).pSelf (some j) }

structure Acquired where
  seqNo : UInt64
  acknowledgeSeq : UInt64
  isSelective : Bool
  deriving DecidableEq, Repr

/-- The next number gets the slot behind the others. -/
def addInFlight (handle : SeqNoHandle) : MirrorBuddyGroup :=
  let seqNo := group.sequence + 1
  { group with
    sequence := seqNo
    seqNoInFlight := update group.seqNoInFlight group.inFlightSize ⟨handle, seqNo⟩
    inFlightSize := group.inFlightSize + 1
    handles := update group.handles handle (some group.inFlightSize) }

/-- The section under the mutex. There is no number before the server has told where to start. -/
def acquireSequenceNumber (handle : SeqNoHandle) : Option Acquired × MirrorBuddyGroup :=
  if group.sequence = 0 then
    (none, { group with
        slotsAvail := group.slotsAvail + 1
        handles := update group.handles handle none })
  else
    let group := group.addInFlight handle
    let seqNo := group.sequence
    if group.finishedCount > 0 then
      (some ⟨seqNo, group.finishedSeqNums group.firstFinishedIndex, true⟩, { group with
          firstFinishedIndex := (group.firstFinishedIndex + 1) % group.inFlightCapacity
          finishedCount := group.finishedCount - 1 })
    else (some ⟨seqNo, (group.seqNoInFlight 0).value - 1, false⟩, group)

/-- The ring of numbers that are not acknowledged yet. -/
def addFinished (value : UInt64) : MirrorBuddyGroup :=
  if group.finishedCount < group.inFlightCapacity then
    { group with
      finishedCount := group.finishedCount + 1
      finishedSeqNums := update group.finishedSeqNums
        ((group.firstFinishedIndex + (group.finishedCount + 1) - 1) % group.inFlightCapacity)
        value }
  else
    let firstFinishedIndex := (group.firstFinishedIndex + 1) % group.inFlightCapacity
    { group with
      firstFinishedIndex := firstFinishedIndex
      finishedSeqNums := update group.finishedSeqNums firstFinishedIndex value }

/-- The first loop of a release: the slot is moved to the root. -/
def decreaseKey (group : MirrorBuddyGroup) : (fuel index : ℕ) → MirrorBuddyGroup
  | 0, _ => group
  | fuel + 1, index =>
    if index = 0 then group
    else
      let parentIndex := index / 2
      decreaseKey (group.swapSlots index parentIndex) fuel parentIndex

def minNode (i : ℕ) : ℕ :=
  let leftChild := 2 * i + 1
  let rightChild := 2 * i + 2
  let minNode := if leftChild < group.inFlightSize ∧
    (group.seqNoInFlight leftChild).value < (group.seqNoInFlight i).value then leftChild else i
  if rightChild < group.inFlightSize ∧
    (group.seqNoInFlight rightChild).value < (group.seqNoInFlight minNode).value then
    rightChild else minNode

/-- The second loop: the new root is moved down. -/
def moveDown (group : MirrorBuddyGroup) : (fuel i : ℕ) → MirrorBuddyGroup
  | 0, _ => group
  | fuel + 1, i =>
    let minNode := group.minNode i
    if minNode ≠ i then moveDown (group.swapSlots i minNode) fuel minNode else group

def removeRoot : MirrorBuddyGroup :=
  let group := { group with inFlightSize := group.inFlightSize - 1 }
  let group := group.swapSlots 0 group.inFlightSize
  group.moveDown group.inFlightSize 0

/-- The section under the mutex. A handle that was not acquired is not released. -/
def releaseSequenceNumber (handle : SeqNoHandle) : MirrorBuddyGroup :=
  match group.handles handle with
  | none => group
  | some slot =>
    let group := group.addFinished (group.seqNoInFlight slot).value
    (group.decreaseKey slot slot).removeRoot

def setSeqNoBase (seqNoBase : UInt64) : MirrorBuddyGroup :=
  if group.sequence < seqNoBase then { group with sequence := seqNoBase } else group

end MirrorBuddyGroup

/-! ## Runs -/

/-- A group with its callers: how many have taken the semaphore and have no number yet, or have
given their number back but not the semaphore; the handles with their numbers; the numbers that were
released. -/
structure GroupUse where
  group : MirrorBuddyGroup
  entering : ℕ
  leaving : ℕ
  held : List (SeqNoHandle × UInt64)
  released : List UInt64

namespace GroupUse

inductive Action
  | enter
  | acquire (handle : SeqNoHandle)
  | release (handle : SeqNoHandle)
  | leave
  | setSeqNoBase (seqNoBase : UInt64)

variable (use : GroupUse)

/-- A caller has no number at the moment. -/
def MayAcquire (handle : SeqNoHandle) : Prop :=
  0 < use.entering ∧ handle ∉ use.held.map Prod.fst

instance mayAcquireDecidable (handle : SeqNoHandle) : Decidable (use.MayAcquire handle) :=
  inferInstanceAs (Decidable (_ ∧ _))

def acquired (result : Option MirrorBuddyGroup.Acquired × MirrorBuddyGroup) (handle : SeqNoHandle) :
    GroupUse :=
  { use with
    group := result.2
    entering := use.entering - 1
    held := (result.1.map fun acquired => (handle, acquired.seqNo)).toList ++ use.held }

/-- A step that its caller cannot take has no effect. -/
def step : Action → GroupUse
  | .enter =>
    if use.group.slotsAvail = 0 then use
    else
      { use with
        group := { use.group with slotsAvail := use.group.slotsAvail - 1 }
        entering := use.entering + 1 }
  | .acquire handle =>
    if use.MayAcquire handle then use.acquired (use.group.acquireSequenceNumber handle)
      handle else use
  | .release handle =>
    match use.held.lookup handle with
    | none => use
    | some seqNo =>
      { use with
        group := use.group.releaseSequenceNumber handle
        leaving := use.leaving + 1
        held := use.held.filter fun pair => decide (pair.1 ≠ handle)
        released := seqNo :: use.released }
  | .leave =>
    if use.leaving = 0 then use
    else
      { use with
        group := { use.group with slotsAvail := use.group.slotsAvail + 1 }
        leaving := use.leaving - 1 }
  | .setSeqNoBase seqNoBase => { use with group := use.group.setSeqNoBase seqNoBase }

def init (doneBufferSize : ℕ) (seqNoInFlight : ℕ → BuddySequenceNumber)
    (finishedSeqNums : ℕ → UInt64) (handles : SeqNoHandle → Option ℕ) : GroupUse :=
  ⟨.construct doneBufferSize seqNoInFlight finishedSeqNums handles, 0, 0, [], []⟩

end GroupUse
end Congfs.Mirroring
