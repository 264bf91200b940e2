import Congfs.Events.FileEventLog
import Congfs.Lib.Run

/-!
# What the listener does not hear of

`FileEventLogger::log` sends the packets and counts those that are lost. What the system calls give
is part of the call. The time of the last connection attempt, which is one reason for `tryReconnect`
to fail, is left out.
-/

namespace Congfs.Events

structure FileEvent where
  type : UInt32
  path : List UInt8
  targetValid : Bool
  target : List UInt8

/-- The values of `errno` that are told apart; `EWOULDBLOCK` is `EAGAIN`. -/
inductive Errno | epipe | eagain | emsgsize | other

inductive SendRes
  | sent (bytes : ℕ)
  | failed (errno : Errno)

structure LogCall where
  event : FileEvent
  (entryId parentID targetParentID : List UInt8)
  (missedAnyEvent reconnects allocates : Bool)
  send : SendRes
  /-- After a broken pipe: `tryReconnect` fails with the given `errno`, or `send` is called
  again. -/
  sendAgain : Except Errno SendRes

variable (call : LogCall)

def LogCall.data : FileEventData where
  type := call.event.type
  entryId := call.entryId
  parentId := call.parentID
  path := call.event.path
  targetPath := if call.event.targetValid then call.event.target else []
  targetParentId := call.targetParentID

/-- The connection and the result after the attempts to send. -/
def LogCall.sendRes : Bool × SendRes :=
  match call.send, call.sendAgain with
  | .failed .epipe, .error errno => (false, .failed errno)
  | .failed .epipe, .ok sendRes => (true, sendRes)
  | sendRes, _ => (true, sendRes)

/-- The size of the serialized item, unless it fits into no buffer there is. -/
def FileEventLogItem.itemSize (item : FileEventLogItem) (allocates : Bool) : Option ℕ :=
  let ser := item.serialize (.ofBuffer (List.replicate 20524 0))
  if ser.good then some ser.size
  else if allocates then
    let ser := item.serialize (.ofBuffer (List.replicate ser.size 0))
    if ser.good then some ser.size else none
  else none

structure FileEventLogger where
  /-- Whether `sockFD` is a descriptor. -/
  connected : Bool := false
  droppedEventsSeq : UInt64 := 0
  missedEventsSeq : UInt64 := 0

namespace FileEventLogger

variable (logger : FileEventLogger)

def drop (connected : Bool) : FileEventLogger :=
  { logger with connected, droppedEventsSeq := logger.droppedEventsSeq + 1 }

/-- Sends the packet if the item could be serialized, and gives the item if all of it was sent. -/
def deliver (logItem : FileEventLogItem) : Option ℕ → FileEventLogger × Option FileEventLogItem
  | none => (logger.drop true, none)
  | some itemSize =>
    match call.sendRes with
    | (connected, .sent bytes) =>
      if bytes = itemSize then ({ logger with connected }, some logItem) else
        (logger.drop false, none)
    | (connected, .failed .eagain) => (logger.drop connected, none)
    | (connected, .failed .emsgsize) => (logger.drop connected, none)
    | (_, .failed _) => (logger.drop false, none)

def log : FileEventLogger × Option FileEventLogItem :=
  if !(logger.connected || call.reconnects) then (logger.drop false, none) else
  let missedEventsSeq := logger.missedEventsSeq + if call.missedAnyEvent then 1 else 0
  let logItem := ⟨logger.droppedEventsSeq, missedEventsSeq, call.data⟩
  { logger with missedEventsSeq }.deliver call logItem (logItem.itemSize call.allocates)

theorem deliver_cases (logItem : FileEventLogItem) (size : Option ℕ) :
    ∃ connected, logger.deliver call logItem size = ({ logger with connected }, some logItem) ∨
      logger.deliver call logItem size = (logger.drop connected, none) := by
  unfold deliver
  split
  · exact ⟨_, .inr rfl⟩
  · split
    · split
      · exact ⟨_, .inl rfl⟩
      · exact ⟨_, .inr rfl⟩
    all_goals exact ⟨_, .inr rfl⟩

/-- Either the packet with the values of the counters is delivered, or the event is counted. -/
theorem log_cases : ∃ missed, missed = logger.missedEventsSeq +
      (if call.missedAnyEvent && (logger.connected || call.reconnects) then 1 else 0) ∧
    ∃ connected, logger.log call = (⟨connected, logger.droppedEventsSeq, missed⟩,
        some ⟨logger.droppedEventsSeq, missed, call.data⟩) ∨
      logger.log call = (⟨connected, logger.droppedEventsSeq + 1, missed⟩, none) := by
  unfold log
  cases logger.connected || call.reconnects
  · exact ⟨_, by simp, _, .inr rfl⟩
  · simp only [Bool.not_true, Bool.false_eq_true, if_false, Bool.and_true]
    exact ⟨_, rfl, deliver_cases call ⟨logger.connected, logger.droppedEventsSeq, _⟩ _ _⟩

end FileEventLogger

/-- The logger, how many events were not handed to the socket, and how many calls reported missed
ones. -/
structure Logging where
  logger : FileEventLogger := {}
  lost : ℕ := 0
  missed : ℕ := 0

namespace Logging

def step (use : Logging) (call : LogCall) : Logging where
  logger := (use.logger.log call).1
  lost := use.lost + if (use.logger.log call).2.isSome then 0 else 1
  missed := use.missed + if call.missedAnyEvent then 1 else 0

def Counted (use : Logging) : Prop :=
  use.logger.droppedEventsSeq = .ofNat use.lost ∧ use.logger.missedEventsSeq = .ofNat use.missed

/-- The packet that the call delivers has the values from before, but its own flag is counted. -/
def Delivers (use : Logging) (call : LogCall) : Prop :=
  ∀ item, (use.logger.log call).2 = some item →
    item.droppedEventsSeq = .ofNat use.lost ∧ item.missedEventsSeq = .ofNat (use.step call).missed

/-- A call that reports missed events has a connection or gets one. -/
def Hears (use : Logging) (call : LogCall) : Prop :=
  call.missedAnyEvent → use.logger.connected ∨ call.reconnects

variable {use : Logging} {call}

/-- With the right values before the call, those after it are right exactly if it is heard. -/
theorem counted_step_iff (h : use.Counted) : (use.step call).Counted ↔ use.Hears call := by
  obtain ⟨missed, hmissed, connected, hlog⟩ := use.logger.log_cases call
  have hiff : missed = .ofNat (use.step call).missed ↔ use.Hears call := by
    simp only [hmissed, step, h.2, Hears, UInt64.ofNat_add]
    cases call.missedAnyEvent
    · simp
    · cases use.logger.connected <;> cases call.reconnects <;> simp
  rcases hlog with hlog | hlog <;> simp [Counted, ← hiff, step, hlog, h.1]

theorem delivers (h : use.Counted) (h' : (use.step call).Counted) : use.Delivers call := by
  intro item hitem
  obtain ⟨missed, -, connected, hlog | hlog⟩ := use.logger.log_cases call
  · rw [Counted, step, hlog] at h'
    rw [hlog] at hitem
    cases hitem
    exact ⟨h.1, h'.2⟩
  · rw [hlog] at hitem
    cases hitem

theorem accounts_iff (calls : List LogCall) :
    (EveryState step Counted {} calls ∧ EveryStep step Delivers {} calls) ↔
      EveryStep step Hears {} calls := by
  have start : Counted {} := ⟨rfl, rfl⟩
  have hstates : EveryState step Counted {} calls ↔ EveryStep step Hears {} calls :=
    everyState_iff_of_inv (I := Counted) (fun _ h => h) (fun _ _ h => (counted_step_iff h).mpr)
      (fun _ _ h deaf hc => deaf ((counted_step_iff h).mp hc)) start calls
  refine ⟨fun h => hstates.mp h.1, fun h => ⟨hstates.mpr h, ?_⟩⟩
  refine everyStep_of_inv (fun use call hears hc => ?_) start h
  have hc' := (counted_step_iff hc).mpr hears
  exact ⟨hc', delivers hc hc'⟩

/-- Without a connection the missed events of a call are not counted. -/
theorem log_forgets_missed :
    let call : LogCall :=
      ⟨⟨0, [], false, []⟩, [], [], [], true, false, false, .sent 0, .error .other⟩
    (step {} call).logger.missedEventsSeq = 0 ∧ (step {} call).missed = 1 := by
  decide

end Logging

end Congfs.Events
