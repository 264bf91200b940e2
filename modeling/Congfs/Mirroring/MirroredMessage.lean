import Congfs.Lib.StdMap
import Congfs.Mirroring.SequenceNumbers

/-!
# Mirrored requests and their retries

A request carries the number of its caller and what the client is done with. The server keeps a slot
for each number that is not acknowledged, with the response as soon as there is one: a copy of a
request that finds a slot is not executed again. The retry loop of the client keeps the number over
its retries, except behind an indirect communication error.

Responses are those of the messages, of any type. Copies of a request can be lost, and come in any
order; a copy is taken up by the server only while the client has its number.
-/

namespace Congfs.Mirroring

variable {ρ : Type*}

/-! ## The server's session -/

structure MirrorStateSlot (ρ : Type*) where
  response : Option ρ
  deriving DecidableEq

/-- `slots` are the slots that were made, in their order; a message that executes has one of them
also when the map has dropped it. -/
structure Session (ρ : Type*) where
  slots : List (MirrorStateSlot ρ)
  mirrorProcessState : StdMap ℕ ((· < ·) : UInt64 → UInt64 → Prop)

namespace Session

variable (session : Session ρ)

/-- The slot of a number, and whether it is new. -/
def insertSlot (thisSeqno : UInt64) : (ℕ × Bool) × Session ρ :=
  match session.mirrorProcessState.find thisSeqno with
  | some slot => ((slot, false), session)
  | none =>
    ((session.slots.length, true),
      { slots := session.slots ++ [⟨none⟩]
        mirrorProcessState := session.mirrorProcessState.assign thisSeqno session.slots.length })

def acquireMirrorStateSlot (endSeqno thisSeqno : UInt64) : (ℕ × Bool) × Session ρ :=
  insertSlot
    { session with mirrorProcessState := session.mirrorProcessState.eraseBelow (endSeqno + 1) }
    thisSeqno

def acquireMirrorStateSlotSelective (finishedSeqno thisSeqno : UInt64) : (ℕ × Bool) × Session ρ :=
  insertSlot
    { session with mirrorProcessState := session.mirrorProcessState.erase finishedSeqno } thisSeqno

def getSeqNoBase : UInt64 :=
  match session.mirrorProcessState.toList.getLast? with
  | some entry => entry.1 + 1
  | none => 1

end Session

/-! ## Requests and responses -/

structure RequestHeader where
  msgSequence : UInt64
  msgSequenceDone : UInt64
  isSelectiveAck : Bool
  deriving DecidableEq, Repr

/-- The flag of the header is set, but never cleared. -/
def RequestHeader.acquire (header : RequestHeader) : Option MirrorBuddyGroup.Acquired →
    RequestHeader
  | none => { header with msgSequence := 0 }
  | some acquired =>
    { msgSequence := acquired.seqNo
      msgSequenceDone := acquired.acknowledgeSeq
      isSelectiveAck := header.isSelectiveAck || acquired.isSelective }

inductive Reply (ρ : Type*)
  | tryAgain
  | newSeqNoBase (seqNoBase : UInt64)
  | response (response : ρ)
  deriving DecidableEq

/-- A run of `executeLocally`, with the slot of its message and the response it has come to. -/
structure Execution (ρ : Type*) where
  seqNo : UInt64
  mirrorState : ℕ
  outcome : Option ρ
  deriving DecidableEq

/-- The callers on the client have a header each; `sent` are the copies that have left the
client. -/
structure MirroredRequests (ρ : Type*) where
  use : GroupUse
  headers : SeqNoHandle → RequestHeader
  sent : List RequestHeader
  session : Session ρ
  executions : List (Execution ρ)
  replies : List (UInt64 × Reply ρ)

namespace MirroredRequests

variable (s : MirroredRequests ρ)

/-- Of a message that gets a slot. -/
def processSlot (seqNo : UInt64) (acquired : (ℕ × Bool) × Session ρ) : MirroredRequests ρ :=
  let ((slot, isNewState), session) := acquired
  if isNewState then
    { s with
      session := session
      executions := s.executions ++ [⟨seqNo, slot, none⟩] }
  else
    let reply := match session.slots[slot]?.bind MirrorStateSlot.response with
      | some response => .response response
      | none => .tryAgain
    { s with
      session := session
      replies := s.replies ++ [(seqNo, reply)] }

def processIncoming (header : RequestHeader) : MirroredRequests ρ :=
  if header.msgSequence = 0 then
    { s with replies := s.replies ++ [(0, .newSeqNoBase s.session.getSeqNoBase)] }
  else if header.isSelectiveAck then
    s.processSlot header.msgSequence
      (s.session.acquireMirrorStateSlotSelective header.msgSequenceDone header.msgSequence)
  else
    s.processSlot header.msgSequence
      (s.session.acquireMirrorStateSlot header.msgSequenceDone header.msgSequence)

/-- The response is stored, and sent. -/
def finishOperation (index : ℕ) (execution : Execution ρ) (response : ρ) : MirroredRequests ρ :=
  { s with
    session := { s.session with slots := s.session.slots.set execution.mirrorState ⟨some response⟩ }
    executions := s.executions.set index { execution with outcome := some response }
    replies := s.replies ++ [(execution.seqNo, .response response)] }

inductive Event (ρ : Type*)
  /-- A message is set up. -/
  | newRequest (caller : SeqNoHandle)
  /-- A caller takes the semaphore of the group. -/
  | enter
  | acquire (caller : SeqNoHandle)
  | send (caller : SeqNoHandle)
  | deliver (copy : ℕ)
  | finish (index : ℕ) (response : ρ)
  /-- The client gets the reply to a request without a number. -/
  | newSeqNoBase (reply : ℕ)
  /-- The retry behind an indirect communication error. -/
  | dropNumber (caller : SeqNoHandle)
  /-- The end of the retry loop. -/
  | exit (caller : SeqNoHandle)
  | leave

/-- The client has the number, or the request has none. -/
def MayDeliver (header : RequestHeader) : Prop :=
  header.msgSequence = 0 ∨ header.msgSequence ∈ s.use.held.map Prod.snd

instance mayDeliverDecidable (header : RequestHeader) : Decidable (s.MayDeliver header) :=
  inferInstanceAs (Decidable (_ ∨ _))

def setHeader (caller : SeqNoHandle) (header : RequestHeader) : MirroredRequests ρ :=
  { s with headers := Function.update s.headers caller header }

def groupStep (action : GroupUse.Action) : MirroredRequests ρ := { s with use := s.use.step action }

def step : Event ρ → MirroredRequests ρ
  | .newRequest caller =>
    if caller ∈ s.use.held.map Prod.fst then s else s.setHeader caller ⟨0, 0, false⟩
  | .enter => s.groupStep .enter
  | .acquire caller =>
    if (s.headers caller).msgSequence = 0 ∧ s.use.MayAcquire caller then
      (s.groupStep (.acquire caller)).setHeader caller
        ((s.headers caller).acquire (s.use.group.acquireSequenceNumber caller).1)
    else s
  | .send caller => { s with sent := s.sent ++ [s.headers caller] }
  | .deliver copy =>
    match s.sent[copy]? with
    | none => s
    | some header => if s.MayDeliver header then s.processIncoming header else s
  | .finish index response =>
    match s.executions[index]? with
    | none => s
    | some execution =>
      if execution.outcome.isSome then s else s.finishOperation index execution response
  | .newSeqNoBase reply =>
    match s.replies[reply]? with
    | some (_, .newSeqNoBase seqNoBase) => s.groupStep (.setSeqNoBase seqNoBase)
    | _ => s
  | .dropNumber caller =>
    if caller ∈ s.use.held.map Prod.fst then
      (s.groupStep (.release caller)).setHeader caller { s.headers caller with msgSequence := 0 }
    else s
  | .exit caller => s.groupStep (.release caller)
  | .leave => s.groupStep .leave

/-- A client that has not sent anything, and a session that is new. -/
def init (doneBufferSize : ℕ) (seqNoInFlight : ℕ → BuddySequenceNumber)
    (finishedSeqNums : ℕ → UInt64) (handles : SeqNoHandle → Option ℕ) : MirroredRequests ρ :=
  ⟨.init doneBufferSize seqNoInFlight finishedSeqNums handles, fun _ => ⟨0, 0, false⟩, [],
    ⟨[], ∅⟩, [], []⟩

end MirroredRequests
end Congfs.Mirroring
