import Congfs.Lib.FlatFile
import Congfs.Resync.FileSyncSlave

/-!
# Receiving the blocks of a chunk file

`ResyncLocalFileMsgEx` on the buddy. The first message of a file empties the buddy's chunk. If the
sender has found zeros, the receiver does not write them: it leaves holes between the data, and
enlarges the file if there are zeros at the end of the message.

A write that succeeds has written at least one byte, so the loops of the writes end within as many
rounds as there are bytes.
-/

namespace Congfs.Resync

open Storage FlatFile

structure ChunkFile where
  data : List UInt8
  attribs : Attribs
  deriving DecidableEq

structure ReceiveEnv where
  target : Bool
  openChunkFile : Bool
  /-- The attributes of a new file. -/
  created : Attribs
  pwrite : ℕ → PwriteResult
  /-- The error, if there is one: of the truncation for zeros, and of the other one. -/
  ftruncate : Bool → Option ℕ
  fchmod : Bool
  fchown : Bool

variable (env : ReceiveEnv)

/-- The error, if there is one, and the content of the file. -/
def doWriteLoop (offset : ℕ) : ℕ → ℕ → List UInt8 → ℕ → List UInt8 → Option ℕ × List UInt8
  | 0, _, _, _, file => (none, file)
  | rounds + 1, call, buf, sumWriteRes, file =>
    match env.pwrite call with
    | .error errno => (some errno, file)
    | .wrote more =>
      let writeRes := min buf.length (more + 1)
      let file := overwrite 0 file (offset + sumWriteRes) (buf.take writeRes)
      if buf.drop writeRes = [] then (none, file)
      else doWriteLoop offset rounds (call + 1) (buf.drop writeRes) (sumWriteRes + writeRes) file

section
variable (buf : List UInt8) (offset : ℕ) (file : List UInt8)

def doWrite : Option ℕ × List UInt8 :=
  doWriteLoop env offset (buf.length + 1) 0 buf 0 file

def doWriteSparseLoop (offset : ℕ) : ℕ → ℕ → List UInt8 → ℕ → List UInt8 → Option ℕ × List UInt8
  | 0, _, _, _, file => (none, file)
  | rounds + 1, call, buf, sumWriteRes, file =>
    let area := buf.take sparseBlockSize
    if area.all (· == 0) then
      let rest := buf.drop area.length
      if rest = [] then
        match env.ftruncate true with
        | some errno => (some errno, file)
        | none => (none, padded 0 file (offset + sumWriteRes + area.length))
      else doWriteSparseLoop offset rounds call rest (sumWriteRes + area.length) file
    else
      match env.pwrite call with
      | .error errno => (some errno, file)
      | .wrote more =>
        let writeRes := min area.length (more + 1)
        let file := overwrite 0 file (offset + sumWriteRes) (area.take writeRes)
        if buf.drop writeRes = [] then (none, file)
        else
          doWriteSparseLoop offset rounds (call + 1) (buf.drop writeRes)
            (sumWriteRes + writeRes) file

def doWriteSparse : Option ℕ × List UInt8 :=
  doWriteSparseLoop env offset (buf.length + 1) 0 buf 0 file

end

def doTrunc (length : ℕ) (file : List UInt8) : Option ℕ × List UInt8 :=
  match env.ftruncate false with
  | some errno => (some errno, file)
  | none => (none, padded 0 file length)

/-- What a message leaves: the result, the chunk, and whether the target is set to bad. -/
structure Received where
  retVal : ℕ
  chunk : Option ChunkFile
  bad : Bool

variable (msg : ResyncLocalFileMsg)

def setAttribs (received : Received) (file : ChunkFile) : Received :=
  if msg.flags.setAttribs ∧ received.retVal = Err.success then
    let attribs := msg.chunkAttribs.getD ⟨0, 0, 0⟩
    let file := if env.fchmod then
      { file with attribs := { file.attribs with mode := attribs.mode } } else file
    let file := if env.fchown then
        { file with attribs := { attribs with mode := file.attribs.mode } } else file
    if ¬env.fchmod ∨ ¬env.fchown then ⟨Err.internal, some file, true⟩
    else { received with chunk := some file }
  else { received with chunk := some file }

def writeData (file : List UInt8) : Received × List UInt8 :=
  let (writeErrno, file) :=
    if msg.flags.checkSparse then doWriteSparse env msg.data msg.offset file
    else doWrite env msg.data msg.offset file
  let received : Received := ⟨(writeErrno.map Err.fromSysErr).getD Err.success, none,
    writeErrno.isSome⟩
  if msg.flags.trunc then
    let (truncErrno, file) := doTrunc env (msg.offset + msg.data.length) file
    (⟨(truncErrno.map Err.fromSysErr).getD received.retVal, none, received.bad ||
      truncErrno.isSome⟩, file)
  else (received, file)

def processIncoming (chunk : Option ChunkFile) : Received :=
  if ¬env.target then ⟨Err.pathNotExists, chunk, false⟩
  else if ¬env.openChunkFile then ⟨Err.pathNotExists, chunk, true⟩
  else
    let file := chunk.getD ⟨[], env.created⟩
    let file := if msg.offset = 0 ∧ ¬msg.flags.noData then { file with data := [] } else file
    if msg.flags.noData then setAttribs env msg ⟨Err.success, none, false⟩ file
    else
      let (received, data) := writeData env msg file.data
      setAttribs env msg received { file with data }

/-- One message after the other: whether all of them succeed, and the chunk behind them. -/
def receiveAll (envs : ℕ → ReceiveEnv) :
    ℕ → List ResyncLocalFileMsg → Option ChunkFile → Bool × Option ChunkFile
  | _, [], chunk => (true, chunk)
  | n, msg :: msgs, chunk =>
    let received := processIncoming (envs n) msg chunk
    let (ok, chunk) := receiveAll envs (n + 1) msgs received.chunk
    (decide (received.retVal = Err.success) && ok, chunk)

end Congfs.Resync
