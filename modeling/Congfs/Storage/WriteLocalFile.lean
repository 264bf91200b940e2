import Congfs.Lib.Extent
import Congfs.Nodes.Basic
import Mathlib.Algebra.Group.Nat.Defs

/-!
# Write requests on a storage server

A request is answered with the number of bytes that were written, or with a negative error. Its
payload comes behind it on the connection: it is received in blocks, and each block is sent on to
the secondary before it is written. On an error the rest of the payload is received all the same, so
that the next message is found where it starts.

What the operating system and the other servers answer is the environment, by the place of the call:
`sends 2` is what happens when the third block is sent on, and `pwrites 2 0` the first write for it.
An exception of the socket that leads to the client is the result `none`.
-/

namespace Congfs.Storage

open Extent

namespace Err

def success : ℕ := 0

def internal : ℕ := 1

def interrupted : ℕ := 2

def communication : ℕ := 3

def unknownNode : ℕ := 5

def pathNotExists : ℕ := 8

def noSpace : ℕ := 14

def unknownTarget : ℕ := 15

def storageSrvCrashed : ℕ := 23

def dquot : ℕ := 25

/-- The system errors of the list of errors, by the number of the error. -/
def sysErrs : List ℕ :=
  [0, 121, 4, 70, 110, 121, 121, 17, 2, 16, 121, 999, 20, 39, 28, 121, 11, 121, 121, 27, 22,
    14, 11, 121, 1, 122, 12, 34, 61, 95, 22]

def fromSysErr (errCode : ℕ) : ℕ :=
  if errCode ∈ sysErrs then sysErrs.idxOf errCode else internal

end Err

/-- Of the message. The flags are those of its header. -/
structure WriteLocalFileMsg where
  offset : ℤ
  count : ℕ
  count_pos : 0 < count
  buddyMirror : Bool
  buddyMirrorForward : Bool
  buddyMirrorSecond : Bool
  disableIO : Bool
  useQuota : Bool
  sessionCheck : Bool

/-- A `pwrite` of at least one byte. -/
inductive PwriteResult
  | wrote (more : ℕ)
  | error (errno : ℕ)

/-- Of sending one block to the secondary: over the connection that there is, and over new ones. -/
structure SendResults where
  first : Bool
  retries : ℕ → Bool

structure WriteEnv where
  bufferLength : ℕ
  bufferLength_pos : 0 < bufferLength
  tuneFileWriteSize : ℕ
  tuneFileWriteSize_pos : 0 < tuneFileWriteSize
  isDirectIO : Bool
  quotaEnableEnforcement : Bool
  targetKnown : Bool
  /-- The session of the file, if there is one, and whether the server has crashed since its
  start. -/
  isServerCrashed : Option Bool
  quotaExceeded : Bool
  fdValid : Bool
  consistencyState : TargetConsistencyState
  openChunkRes : ℕ
  secondaryTargetID : UInt16
  secondaryState : Option CombinedTargetState
  referenceErr : ℕ
  /-- What comes on the connection of the client, from the payload on. -/
  input : ℕ → UInt8
  recvs : ℕ → Bool
  padRecvs : ℕ → Option ℕ
  pwrites : ℕ → ℕ → PwriteResult
  connects : ℕ → Bool
  sends : ℕ → SendResults
  padSends : ℕ → SendResults
  /-- The value of the secondary's response, if there is one. -/
  answer : Option ℤ

/-- A connection to the secondary, with the request that was sent on it and its payload so far. -/
structure MirrorSocket where
  offset : ℤ
  count : ℕ
  sent : List UInt8

structure WriteState where
  mirrorToSock : Option MirrorSocket
  mirrorRetriesLeft : ℕ
  received : ℕ
  chunk : ℤ → Option UInt8
  buddyNeedsResync : Bool

inductive WriteReturn
  | threw
  | returned (success : Bool) (writeClientRes : ℤ)
  deriving DecidableEq

def mirrorRetriesNum : ℕ := 1

variable (env : WriteEnv) (msg : WriteLocalFileMsg)

def doSessionCheck : Bool := if msg.buddyMirror then false else msg.sessionCheck

/-- A round of `sendToMirror` over a new connection starts the request anew. No connection is left
behind a round that fails. -/
def retryMirror (results : ℕ → Bool) (buf : List UInt8) (offset : ℤ) (toBeMirrored : ℕ) :
    (mirrorRetriesLeft round : ℕ) → Bool × Option MirrorSocket × ℕ
  | 0, _ => (false, none, 0)
  | mirrorRetriesLeft + 1, round =>
    if toBeMirrored ≠ msg.count then (false, none, mirrorRetriesLeft + 1)
    else if results round then (true, some ⟨offset, toBeMirrored, buf⟩, mirrorRetriesLeft)
    else retryMirror results buf offset toBeMirrored mirrorRetriesLeft (round + 1)

/-- Whether the block was sent, or there is no connection to send it on. -/
def sendToMirror (results : SendResults) (buf : List UInt8) (offset : ℤ) (toBeMirrored : ℕ)
    (st : WriteState) : Bool × WriteState :=
  match st.mirrorToSock with
  | none => (true, st)
  | some sock =>
    if results.first then
      (true, { st with mirrorToSock := some { sock with sent := sock.sent ++ buf } })
    else
      let (mirrorRes, mirrorToSock, mirrorRetriesLeft) :=
        retryMirror msg results.retries buf offset toBeMirrored st.mirrorRetriesLeft 0
      (mirrorRes, { st with mirrorToSock := mirrorToSock, mirrorRetriesLeft := mirrorRetriesLeft })

variable (st : WriteState)

/-- The next bytes on the connection of the client. -/
def recvBuf (length : ℕ) : List UInt8 :=
  (List.range length).map fun i => env.input (st.received + i)

def recvPaddingLoop (padLen : ℕ) : (fuel piece toBeReceived : ℕ) → WriteState → Bool × WriteState
  | 0, _, _, st => (true, st)
  | fuel + 1, piece, toBeReceived, st =>
    if toBeReceived = 0 then (true, st)
    else
      match env.padRecvs piece with
      | none => (false, st)
      | some more =>
        let recvRes := min (more + 1) (min toBeReceived env.bufferLength)
        let buf := recvBuf env st recvRes
        let st := { st with received := st.received + recvRes }
        let (_, st) :=
          sendToMirror msg (env.padSends piece) buf (msg.offset + padLen - toBeReceived)
            toBeReceived st
        recvPaddingLoop padLen fuel (piece + 1) (toBeReceived - recvRes) st

/-- Whether the rest could be received. -/
def incrementalRecvPadding (padLen : ℕ) (st : WriteState) : Bool × WriteState :=
  recvPaddingLoop env msg padLen padLen 0 padLen st

def doWriteLoop (pwrite : ℕ → PwriteResult) (buf : List UInt8) (offset : ℤ) :
    (fuel call sumWriteRes : ℕ) → (ℤ → Option UInt8) → (Option ℕ × ℕ) × (ℤ → Option UInt8)
  | 0, _, sumWriteRes, chunk => ((some sumWriteRes, 0), chunk)
  | fuel + 1, call, sumWriteRes, chunk =>
    match pwrite call with
    | .error errno => ((if sumWriteRes > 0 then some sumWriteRes else none, errno), chunk)
    | .wrote more =>
      let writeRes := min (more + 1) (buf.length - sumWriteRes)
      let chunk := writeAt chunk (offset + sumWriteRes) ((buf.drop sumWriteRes).take writeRes)
      let sumWriteRes := sumWriteRes + writeRes
      if sumWriteRes ≠ buf.length then doWriteLoop pwrite buf offset fuel (call + 1)
        sumWriteRes chunk
      else ((some sumWriteRes, 0), chunk)

/-- The number of bytes, or nothing for an error, with the system error. -/
def doWrite (pwrite : ℕ → PwriteResult) (buf : List UInt8) (offset : ℤ) (chunk : ℤ → Option UInt8) :
    (Option ℕ × ℕ) × (ℤ → Option UInt8) :=
  doWriteLoop pwrite buf offset buf.length 0 0 chunk

def exactStaticRecvSize : ℕ :=
  if env.isDirectIO then env.bufferLength else min env.bufferLength env.tuneFileWriteSize

/-- The rest is received before the result is returned. -/
def paddedResult (padLen : ℕ) (result : ℤ) (st : WriteState) : Option ℤ × WriteState :=
  let (received, st) := incrementalRecvPadding env msg padLen st
  (if received then some result else none, st)

open Err

def recvAndWriteLoop : (fuel block toBeReceived : ℕ) → (writeOffset : ℤ) → WriteState →
    Option ℤ × WriteState
  | 0, _, _, _, st => (some msg.count, st)
  | fuel + 1, block, toBeReceived, writeOffset, st =>
    let recvLength := min (exactStaticRecvSize env) toBeReceived
    if env.recvs block then
      let buf := recvBuf env st recvLength
      let st := { st with received := st.received + recvLength }
      let (mirrorRes, st) := sendToMirror msg (env.sends block) buf writeOffset toBeReceived st
      if mirrorRes then
        let ((writeRes, errCode), chunk) :=
          if msg.disableIO then ((some recvLength, 0), st.chunk)
          else doWrite (env.pwrites block) buf writeOffset st.chunk
        let st := { st with chunk := chunk }
        let toBeReceived := toBeReceived - recvLength
        match writeRes with
        | none => paddedResult env msg toBeReceived (-(fromSysErr errCode)) st
        | some writeRes =>
          if writeRes ≠ recvLength then
            paddedResult env msg toBeReceived
              ((msg.count - toBeReceived : ℤ) - (recvLength - writeRes : ℤ)) st
          else if toBeReceived ≠ 0 then
            recvAndWriteLoop fuel (block + 1) toBeReceived (writeOffset + writeRes) st
          else (some msg.count, st)
      else paddedResult env msg toBeReceived (-communication) st
    else (none, st)

def incrementalRecvAndWriteStateful : Option ℤ × WriteState :=
  recvAndWriteLoop env msg msg.count 0 msg.count msg.offset st

def openFile : ℕ :=
  if env.fdValid then 0
  else if env.consistencyState ≠ .good ∧ msg.buddyMirror ∧ ¬msg.buddyMirrorSecond then communication
  else env.openChunkRes

/-- The retries that are left when the request has been sent to the secondary. -/
def connectMirror (results : ℕ → Bool) : (mirrorRetriesLeft round : ℕ) → Option ℕ
  | 0, round => if results round then some 0 else none
  | mirrorRetriesLeft + 1, round =>
    if results round then some (mirrorRetriesLeft + 1)
    else connectMirror results mirrorRetriesLeft (round + 1)

def prepareMirroring : ℕ × WriteState :=
  if ¬msg.buddyMirrorForward then (0, st)
  else if env.secondaryTargetID = 0 then (unknownTarget, st)
  else
    match env.secondaryState with
    | none => (communication, st)
    | some secondaryState =>
      if secondaryState.reachabilityState = .offline then (0, { st with buddyNeedsResync := true })
      else if (secondaryState.reachabilityState ≠ .online ∨
        secondaryState.consistencyState ≠ .good) ∧
        secondaryState.consistencyState ≠ .needsResync then (communication, st)
      else if env.referenceErr ≠ 0 then (env.referenceErr, st)
      else
        match connectMirror env.connects st.mirrorRetriesLeft 0 with
        | none => (communication, { st with mirrorRetriesLeft := 0 })
        | some mirrorRetriesLeft =>
          (0, { st with
              mirrorToSock := some ⟨msg.offset, msg.count, []⟩
              mirrorRetriesLeft := mirrorRetriesLeft })

/-- The error is cut to 32 bits. -/
def finishMirroring : ℤ × WriteState :=
  match st.mirrorToSock with
  | none => (0, st)
  | some _ =>
    match env.answer with
    | none => (communication, st)
    | some mirrorWriteRes =>
      if mirrorWriteRes = msg.count then (0, st)
      else if mirrorWriteRes ≥ 0 then (noSpace, st)
      else if mirrorWriteRes = -unknownTarget then (0, { st with buddyNeedsResync := true })
      else ((-mirrorWriteRes).bmod (2 ^ 32), st)

def serverCrashed : Bool := doSessionCheck msg && env.isServerCrashed.getD true

def cleanup (writeClientRes : ℤ) (st : WriteState) : WriteReturn × WriteState :=
  let (finishMirroringRes, st) := finishMirroring env msg st
  let writeClientRes := if writeClientRes > 0 ∧ finishMirroringRes ≠ 0 then -finishMirroringRes
    else writeClientRes
  (.returned true (if serverCrashed env msg then -storageSrvCrashed else writeClientRes), st)

/-- The end of the part that catches the exceptions of the socket. -/
def catchSocket (result : Option ℤ × WriteState) : WriteReturn × WriteState :=
  match result.1 with
  | some writeClientRes => cleanup env msg writeClientRes result.2
  | none => (.returned false (-1), (finishMirroring env msg result.2).2)

def write : WriteReturn × WriteState :=
  if ¬env.targetKnown then
    (.returned false (if msg.buddyMirror then communication else unknownTarget), st)
  else if msg.useQuota ∧ env.quotaEnableEnforcement ∧ env.quotaExceeded then
    match paddedResult env msg msg.count (-dquot) st with
    | (some writeClientRes, st) => cleanup env msg writeClientRes st
    | (none, st) => (.threw, st)
  else if openFile env msg ≠ 0 then
    catchSocket env msg (paddedResult env msg msg.count (-openFile env msg) st)
  else
    let (prepMirrorRes, st) := prepareMirroring env msg st
    if prepMirrorRes ≠ 0 then catchSocket env msg (paddedResult env msg msg.count
      (-prepMirrorRes) st)
    else catchSocket env msg (incrementalRecvAndWriteStateful env msg st)

def WriteState.init (chunk : ℤ → Option UInt8) :
    WriteState := ⟨none, mirrorRetriesNum, 0, chunk, false⟩

end Congfs.Storage
