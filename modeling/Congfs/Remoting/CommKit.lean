import Congfs.Lib.Run
import Congfs.Nodes.Basic

/-!
# The communication state machine of the client

`FhgfsOpsCommkit_communicate` talks to several targets at once. Each target has a state, and a round
lets every one of them do something before the sockets are polled. What the network, the pools and
the target states answer is collected in `Env`, separately for every step.

The state of a target is kept as the number the code stores.
-/

namespace Congfs

inductive CommKitState where
  | prepare | sendHeader | sendData | recvHeader | recvData | socketInvalidate | cleanup
  | retryWait | done
  deriving DecidableEq, Repr

namespace CommKitState

def code : CommKitState → ℤ
  | prepare => 0
  | sendHeader => 1
  | sendData => 2
  | recvHeader => 3
  | recvData => 4
  | socketInvalidate => 5
  | cleanup => 6
  | retryWait => 7
  | done => 8

/-- The `switch` over the stored number; `none` is its default. -/
def ofCode (n : ℤ) : Option CommKitState :=
  [prepare, sendHeader, sendData, recvHeader, recvData, socketInvalidate, cleanup, retryWait,
    done].find? fun state => state.code = n

theorem ofCode_code : ofCode state.code = some state := by
  cases state <;> rfl

theorem code_injective : Function.Injective code := by
  intro a b h
  have hab : ofCode a.code = ofCode b.code := congrArg ofCode h
  rwa [ofCode_code, ofCode_code, Option.some.injEq] at hab

end CommKitState

inductive CKTargetBadAction where
  | skipTarget | continueTarget
  deriving DecidableEq, Repr

namespace CommKit

def msgbufSize : ℕ := 4096

def netmsgMinLength : ℕ := 40

def internal : ℤ := 1

def interrupted : ℤ := 2

def communication : ℤ := 3

def unknownNode : ℤ := 5

def unknownTarget : ℤ := 15

def addressFault : ℤ := 21

def again : ℤ := 22

/-- The operations a communication is made of, and its flags. The handlers that a kind of message
does not have are skipped by the `switch`. -/
structure ContextOps where
  hasSelectedTargetBad : Bool
  hasSendData : Bool
  hasRecvHeader : Bool
  hasRecvData : Bool
  retryBuddyFallback : Bool
  retryLoopEagain : Bool

/-- What does not change during a communication. -/
structure Config where
  ops : ContextOps
  hasIoInfo : Bool
  isBuddyMirror : Bool
  connRetriesEnabled : Bool
  /-- 0 for any number of retries. -/
  maxNumRetries : ℕ

structure TargetInfo where
  state : ℤ
  headerBuffer : Option (List UInt8)
  headerSize : ℕ
  targetID : UInt16
  useBuddyMirrorSecond : Bool
  /-- A reference to the node is held. -/
  node : Bool
  /-- The pointer is not `NULL`. A released socket stays in it until the next preparation. -/
  socket : Bool
  /-- A connection was acquired and neither released nor invalidated. -/
  connected : Bool
  nodeResult : ℤ

open CommKitState

def initTargetInfo (targetID : UInt16) : TargetInfo where
  state := prepare.code
  headerBuffer := none
  headerSize := 0
  targetID := targetID
  useBuddyMirrorSecond := false
  node := false
  socket := false
  connected := false
  nodeResult := -internal

structure Context where
  numRetryWaiters : ℤ
  numDone : ℤ
  numAcquiredConns : ℤ
  numPollSocks : ℕ
  pollTimedOut : Bool
  currentRetryNum : ℕ

/-- What the calls made during one step give. -/
structure Env where
  fatalSignalPending : Bool
  nodeIsActive : Bool
  /-- A poll error is injected. -/
  injectPollTimeout : Bool
  /-- The socket has one of the events that are waited for. -/
  ready : Bool
  allocHeaderBuffer : Option (List UInt8)
  primaryTargetID : UInt16 → UInt16
  secondaryTargetID : UInt16 → UInt16
  /-- Whether the state is known; if not, the state is what the memory held before. -/
  getState : UInt16 → Bool × CombinedTargetState
  /-- The action for an unusable target, and the result it sets if it does. -/
  selectedTargetBad : CKTargetBadAction × Option ℤ
  /-- 0, or the error of the failed lookup. -/
  referenceNode : ℤ
  /-- The bytes of the request and the result it sets if it does; no bytes for no request. -/
  prepareHeader : List UInt8 × Option ℤ
  acquireStreamSocket : Bool
  sendHeaderComplete : Bool
  /-- The result, with `true` for a bad address. -/
  sendData : ℤ × Bool
  injectRecvTimeout : Bool
  /-- What the two receive calls of a header can deliver; nothing if the call fails. -/
  recvHead : List UInt8
  recvBody : List UInt8
  recvHeader : ℤ × Option ℤ
  recvData : ℤ × Bool × Option ℤ
  pollFails : Bool

variable (cfg : Config)

section
variable (env : Env) (context : Context) (info : TargetInfo)

def setResult : Option ℤ → TargetInfo
  | none => info
  | some nodeResult => { info with nodeResult }

def setState (state : CommKitState) : TargetInfo :=
  { info with state := state.code }

/-- The number in the first four bytes, little endian. -/
def extractMsgLengthFromBuf (buf : List UInt8) : ℕ :=
  (buf.getD 0 0).toNat + 0x100 * (buf.getD 1 0).toNat + 0x10000 * (buf.getD 2 0).toNat +
    0x1000000 * (buf.getD 3 0).toNat

/-! ## The handlers -/

def addSocketPollstate : Context :=
  { context with numPollSocks := context.numPollSocks + 1 }

/-- `none` if the socket is ready. -/
def prepareIo : Option (Context × TargetInfo) :=
  if env.fatalSignalPending ∨ ¬env.nodeIsActive then
    some (context, setState info .socketInvalidate)
  else if context.pollTimedOut ∨ env.injectPollTimeout then
    some (context, setState { info with nodeResult := -communication } .socketInvalidate)
  else if ¬env.ready then some (addSocketPollstate context, info)
  else none

/-- The target the request goes to; 0 for an invalid group. -/
def selectTargetID : UInt16 :=
  if cfg.hasIoInfo ∧ cfg.isBuddyMirror then
    if info.useBuddyMirrorSecond then env.secondaryTargetID info.targetID
    else env.primaryTargetID info.targetID
  else info.targetID

def targetUnusable (selectedTargetID : UInt16) : Prop :=
  (env.getState selectedTargetID).1 = false ∨
    (env.getState selectedTargetID).2.reachabilityState = .offline ∨
    (cfg.hasIoInfo ∧ cfg.isBuddyMirror ∧ (env.getState selectedTargetID).2.consistencyState ≠ .good)

instance (env : Env) (selectedTargetID : UInt16) :
    Decidable (targetUnusable cfg env selectedTargetID) := by
  unfold targetUnusable
  infer_instance

def freeHeaderBuffer : TargetInfo := { info with headerBuffer := none }

end

variable (env : Env)

section
variable (context : Context) (info : TargetInfo)

/-- The part of the preparation behind the check of the target state. -/
def prepareConnect : Bool × Context × TargetInfo :=
  let allowWaitForConn := context.numAcquiredConns = 0
  if env.referenceNode ≠ 0 then
    (false, context, setState { info with nodeResult := -env.referenceNode } .cleanup)
  else
    let info := setResult { info with
      node := true
      headerBuffer := some (env.prepareHeader.1 ++
        (info.headerBuffer.getD []).drop env.prepareHeader.1.length)
      headerSize := env.prepareHeader.1.length } env.prepareHeader.2
    if info.headerSize = 0 then (false, context, setState info .cleanup)
    else if ¬env.acquireStreamSocket then
      if ¬allowWaitForConn then
        -- the state is kept, which is not the preparation any more if the target was unusable
        (false, context, freeHeaderBuffer { info with node := false })
      else (false, context, setState info .cleanup)
    else
      (true, { context with numAcquiredConns := context.numAcquiredConns + 1 },
        setState { info with socket := true, connected := true } .sendHeader)

variable (context : Context) (info : TargetInfo)

def prepareGeneric : Bool × Context × TargetInfo :=
  let info := { info with socket := false, nodeResult := -communication }
  match env.allocHeaderBuffer with
  | none => (false, context, { info with headerBuffer := none })
  | some buf =>
    let info := { info with headerBuffer := some buf }
    let selectedTargetID := selectTargetID cfg env info
    if cfg.hasIoInfo ∧ cfg.isBuddyMirror ∧ selectedTargetID = 0 then
      (false, context, setState { info with nodeResult := -unknownTarget } .cleanup)
    else if targetUnusable cfg env selectedTargetID then
      let info := setState info .cleanup
      if ¬cfg.ops.hasSelectedTargetBad then (false, context, freeHeaderBuffer info)
      else
        let info := setResult info env.selectedTargetBad.2
        if env.selectedTargetBad.1 = .skipTarget then (false, context, freeHeaderBuffer info)
        else prepareConnect env context info
    else prepareConnect env context info

def sendheaderGeneric : TargetInfo :=
  if ¬env.sendHeaderComplete then setState info .socketInvalidate
  else setState { info with headerSize := 0 } .sendData

def senddataGeneric : Context × TargetInfo :=
  match prepareIo env context info with
  | some res => res
  | none =>
    if env.sendData.1 < 0 then
      (context,
        setState (if env.sendData.2 then { info with nodeResult := -addressFault } else info)
        .socketInvalidate)
    else if env.sendData.1 = 0 then (addSocketPollstate context, setState info .recvHeader)
    else (addSocketPollstate context, info)

/-- Receives up to a total of `length` bytes, behind the first `headerSize` bytes of the buffer. -/
def receiveInto (length : ℕ) (available : List UInt8) : TargetInfo :=
  let buf := info.headerBuffer.getD []
  let bytes := available.take (length - info.headerSize)
  { info with
    headerBuffer := some (buf.take info.headerSize ++ bytes ++
      buf.drop (info.headerSize + bytes.length))
    headerSize := info.headerSize + bytes.length }

/-- After the first part: what the buffer says about the length of the message. -/
def recvHead : TargetInfo :=
  if info.headerSize < netmsgMinLength then receiveInto info netmsgMinLength env.recvHead
  else info

def recvheaderGeneric : Context × TargetInfo :=
  match prepareIo env context info with
  | some res => res
  | none =>
    let failed := (context, setState info .socketInvalidate)
    if env.injectRecvTimeout then failed
    else if info.headerSize < netmsgMinLength ∧ env.recvHead = [] then failed
    else
      let received := info.headerSize < netmsgMinLength
      let info := recvHead env info
      let msgLength := extractMsgLengthFromBuf (info.headerBuffer.getD [])
      if msgLength > msgbufSize then
        (context, { info with
          state := -socketInvalidate.code, nodeResult := -communication })
      else if info.headerSize < msgLength ∧ env.recvBody = [] then
        (context, setState info .socketInvalidate)
      else
        let receivedBody := info.headerSize < msgLength
        let info := if info.headerSize < msgLength then receiveInto info msgLength env.recvBody
          else info
        if info.headerSize < msgLength then (context, info)
        else if ¬received ∧ ¬receivedBody then
          -- nothing was received in this call, and the result still is the initial error
          (context, setState info .socketInvalidate)
        else
          let info := setResult info env.recvHeader.2
          (context, setState info (if env.recvHeader.1 < 0 then .socketInvalidate else .recvData))

def recvdataGeneric : Context × TargetInfo :=
  match prepareIo env context info with
  | some res => res
  | none =>
    let info := setResult info env.recvData.2.2
    if env.recvData.1 < 0 then
      (context, setState (if env.recvData.2.1 then { info with nodeResult := -addressFault }
        else info) .socketInvalidate)
    else if env.recvData.1 = 0 then (context, setState info .cleanup)
    else (addSocketPollstate context, info)

def socketinvalidateGeneric : Context × TargetInfo :=
  let nodeResult :=
    if env.fatalSignalPending then -interrupted
    else if ¬env.nodeIsActive then -unknownNode
    else if info.nodeResult = -addressFault then info.nodeResult
    else -communication
  ({ context with numAcquiredConns := context.numAcquiredConns - 1 },
    setState { info with nodeResult, socket := false, connected := false } .cleanup)

/-- Gives everything back; the pointer to the socket stays. -/
def releaseResources : Context × TargetInfo :=
  let info' := { info with headerBuffer := none, node := false }
  if info.socket then
    ({ context with numAcquiredConns := context.numAcquiredConns - 1 },
      { info' with connected := false })
  else (context, info')

def finish : Context × TargetInfo :=
  ({ context with numDone := context.numDone + 1 }, setState info .done)

def cleanupGeneric : Context × TargetInfo :=
  let (context, info) := releaseResources context info
  if info.nodeResult = -communication ∨
      (info.nodeResult = -again ∧ cfg.ops.retryLoopEagain) then
    if env.fatalSignalPending then finish context { info with nodeResult := -interrupted }
    else if cfg.connRetriesEnabled ∧
        (cfg.maxNumRetries = 0 ∨ context.currentRetryNum < cfg.maxNumRetries) then
      ({ context with numRetryWaiters := context.numRetryWaiters + 1 }, setState info .retryWait)
    else finish context info
  else finish context info

/-- The `switch` of a round for one target; `none` is `BUG()`. -/
def handle : Option (Context × TargetInfo) :=
  let recvdata := if cfg.ops.hasRecvData then recvdataGeneric env context info
    else cleanupGeneric cfg env context info
  let recvheader := if cfg.ops.hasRecvHeader then recvheaderGeneric env context info else recvdata
  match ofCode info.state with
  | none => none
  | some .prepare =>
    match prepareGeneric cfg env context info with
    | (false, context, info) => some (context, info)
    | (true, context, info) => some (addSocketPollstate context, sendheaderGeneric env info)
  | some .sendHeader => some (addSocketPollstate context, sendheaderGeneric env info)
  | some .sendData =>
    some (if cfg.ops.hasSendData then senddataGeneric env context info else recvheader)
  | some .recvHeader => some recvheader
  | some .recvData => some recvdata
  | some .cleanup => some (cleanupGeneric cfg env context info)
  | some .socketInvalidate =>
    let (context, info) := socketinvalidateGeneric env context info
    some (cleanupGeneric cfg env context info)
  | some .retryWait => some (context, info)
  | some .done => some (context, info)

/-! ## Retries -/

/-- What a retry does with a waiting target, from the states of the target and of its buddy, and
whether the retries are counted anew; `none` to cancel all retries. -/
def retryDecide (hasBuddy : Bool) (target buddy : Bool × CombinedTargetState) :
    Option (TargetInfo × Bool) :=
  let (getTargetStateRes, targetState) := target
  let (getBuddyTargetStateRes, buddyTargetState) := buddy
  if (¬getTargetStateRes ∧ hasBuddy ∧ ¬getBuddyTargetStateRes) ∨
      (targetState.reachabilityState = .offline ∧
      buddyTargetState.reachabilityState = .offline) then
    none
  else if cfg.ops.retryBuddyFallback ∧ (¬getTargetStateRes ∨ targetState.consistencyState ≠ .good ∨
        targetState.reachabilityState ≠ .online) ∧
      getBuddyTargetStateRes ∧ buddyTargetState.consistencyState = .good ∧
      buddyTargetState.reachabilityState = .online then
    some (setState { info with useBuddyMirrorSecond := !info.useBuddyMirrorSecond } .prepare, true)
  else if (cfg.hasIoInfo ∧ cfg.isBuddyMirror) ∧ (targetState.reachabilityState ≠ .online ∨
      targetState.consistencyState ≠ .good) then
    some (setState info .prepare, true)
  else if info.nodeResult = -again ∧ cfg.ops.retryLoopEagain then
    some (setState info .prepare, true)
  else some (setState info .prepare, false)

/-- The other target of the group, or the target itself. -/
def buddyTargetID : UInt16 :=
  if cfg.hasIoInfo ∧ cfg.isBuddyMirror then
    if info.useBuddyMirrorSecond then env.primaryTargetID info.targetID
    else env.secondaryTargetID info.targetID
  else info.targetID

def retryTarget : Option (TargetInfo × Bool) :=
  let targetID := selectTargetID cfg env info
  let buddyTargetID := buddyTargetID cfg env info
  if targetID = buddyTargetID then
    retryDecide cfg info false (env.getState targetID) (true, (env.getState targetID).2)
  else retryDecide cfg info true (env.getState targetID) (env.getState buddyTargetID)

/-- The loop over the targets: those it has changed, with whether the retries are counted anew, and
whether it was left because of an offline target. -/
def retryTargets (env : Env) : List TargetInfo → List TargetInfo × Bool × Bool
  | [] => ([], false, false)
  | info :: infos =>
    if info.state = retryWait.code then
      match retryTarget cfg env info with
      | none => (info :: infos, false, true)
      | some (info, reset) =>
        let (infos, resetRetries, cancelRetries) := retryTargets env infos
        (info :: infos, reset || resetRetries, cancelRetries)
    else
      let (infos, resetRetries, cancelRetries) := retryTargets env infos
      (info :: infos, resetRetries, cancelRetries)

def cancelTarget : Context × TargetInfo :=
  if info.state ≠ retryWait.code ∧ info.state ≠ prepare.code then
    (context, info)
  else finish context info

def cancelTargets (context : Context) : List TargetInfo → Context × List TargetInfo
  | [] => (context, [])
  | info :: infos =>
    let (context, info) := cancelTarget context info
    let (context, infos) := cancelTargets context infos
    (context, info :: infos)

def startRetry (infos : List TargetInfo) : Context × List TargetInfo :=
  let context := { context with numRetryWaiters := 0, pollTimedOut := false }
  let (infos, resetRetries, cancelRetries) := retryTargets cfg env infos
  if cancelRetries then cancelTargets context infos
  else ({ context with
    currentRetryNum := if resetRetries then 0 else context.currentRetryNum + 1 }, infos)

end

/-! ## The loop -/

inductive Status where
  | running | bug | ended
  deriving DecidableEq, Repr

/-- A state of `FhgfsOpsCommkit_communicate`: the targets that were handled in this round, and those
that were not yet. -/
structure System where
  context : Context
  handled : List TargetInfo
  todo : List TargetInfo
  status : Status

def System.infos (s : System) : List TargetInfo := s.handled ++ s.todo

/-- The end of a round: polling, or a retry if all that is left is waiting for one. -/
def endRound (context : Context) (infos : List TargetInfo) : Context × List TargetInfo :=
  if context.numPollSocks ≠ 0 then
    ({ context with pollTimedOut := context.pollTimedOut || env.pollFails }, infos)
  else if context.numRetryWaiters ≠ 0 ∧
      context.numDone + context.numRetryWaiters = infos.length then
    startRetry cfg env context infos
  else (context, infos)

/-- One target is handled, or the round ends. -/
def step (s : System) (env : Env) : System :=
  match s.status with
  | .bug => s
  | .ended => s
  | .running =>
    match s.todo with
    | info :: todo =>
      match handle cfg env s.context info with
      | none => { s with status := .bug }
      | some (context, info) => { s with context, handled := s.handled ++ [info], todo }
    | [] =>
      let (context, infos) := endRound cfg env s.context s.handled
      if context.numDone = infos.length then
        { context, handled := infos, todo := [], status := .ended }
      else
        { context := { context with numPollSocks := 0 }, handled := [], todo := infos,
          status := .running }

def communicate (targetIDs : List UInt16) : System where
  context := ⟨0, 0, 0, 0, false, 0⟩
  handled := []
  todo := targetIDs.map initTargetInfo
  status := .running

end CommKit
end Congfs
