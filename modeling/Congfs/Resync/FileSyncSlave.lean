import Congfs.Storage.WriteLocalFile

/-!
# Syncing a chunk file with the buddy

`BuddyResyncerFileSyncSlave::doResync` reads a chunk file block by block and sends the blocks to the
buddy. A block of zeros is only sent if it is the first one. The last message has less than a block
of data, possibly none, and the attributes of the file. A file that does not exist any more is
removed on the buddy.

What the operating system and the buddy answer is the environment, by the number of the block.
`fuel` bounds the numbers of blocks and of tries to reach the buddy.
-/

namespace Congfs.Resync

open Storage

abbrev Path := List UInt8

/-! ## Requests to the buddy -/

/-- What comes of a request, by the number of the try. -/
structure Tries (α : Type) where
  /-- Of the buddy's target, before the try; `none` if it is not known. -/
  state : ℕ → Option TargetReachabilityState
  response : ℕ → Option α
  /-- `getSelfTerminateNotIdle`, after a try without a response. -/
  terminate : ℕ → Bool

section
variable {α : Type}

/-- The response, and whether the state was known. -/
def requestLoop (tries : Tries α) : ℕ → ℕ → Option (Option α × Bool)
  | 0, _ => none
  | fuel + 1, n =>
    match tries.state n with
    | none => some (none, false)
    | some .offline => some (none, true)
    | some _ =>
      match tries.response n with
      | some respMsg => some (some respMsg, true)
      | none => if tries.terminate n then some (none, true) else requestLoop tries fuel (n + 1)

/-- The response, or the error that is made of it. -/
def request (tries : Tries α) (fuel : ℕ) : Option (Except ℕ α) :=
  match requestLoop tries fuel 0 with
  | none => none
  | some (none, _) => some (.error Err.communication)
  | some (some _, false) => some (.error Err.internal)
  | some (some respMsg, true) => some (.ok respMsg)

end

/-! ## One chunk file -/

def syncBlockSize : ℕ := 1048576

def sparseBlockSize : ℕ := 4096

structure Attribs where
  mode : ℕ
  userID : ℕ
  groupID : ℕ
  deriving DecidableEq

structure MsgFlags where
  setAttribs : Bool
  noData : Bool
  trunc : Bool
  checkSparse : Bool
  deriving DecidableEq

structure ResyncLocalFileMsg where
  offset : ℕ
  data : List UInt8
  flags : MsgFlags
  /-- Only set together with the flag. -/
  chunkAttribs : Option Attribs
  deriving DecidableEq

inductive OpenResult
  | opened
  | noEntry
  | error

structure Stat where
  size : ℕ
  attribs : Attribs

structure FileEnv where
  node : Bool
  openat : ℕ → OpenResult
  /-- The paths that could not be removed. -/
  rm : Tries (List Path)
  lseek : ℕ → Bool
  /-- Of the given block, at the given offset. -/
  read : ℕ → ℕ → Option (List UInt8)
  fstat : ℕ → Option Stat
  /-- The result of the buddy. -/
  resync : ℕ → Tries ℕ
  /-- `getSelfTerminateNotIdle`, behind the block. -/
  terminate : ℕ → Bool

inductive BlockDone
  | skipped (offset : ℕ) (data : List UInt8)
  | acked (msg : ResyncLocalFileMsg)
  deriving DecidableEq

def BlockDone.msg : BlockDone → Option ResyncLocalFileMsg
  | skipped .. => none
  | acked msg => some msg

structure FileSync where
  offset : ℕ
  resyncMsgFlags : MsgFlags
  retVal : ℕ
  blocks : List BlockDone
  removed : Bool
  deriving DecidableEq

/-- The messages that have reached the buddy. -/
def FileSync.sent (out : FileSync) : List ResyncLocalFileMsg := out.blocks.filterMap BlockDone.msg

def FileSync.start : FileSync where
  offset := 0
  resyncMsgFlags := ⟨false, false, false, false⟩
  retVal := Err.success
  blocks := []
  removed := false

/-- The search for zeros: whether there is data, and whether zeros follow data. -/
def scanLoop : ℕ → List UInt8 → Bool → Bool × Bool
  | 0, _, dataFound => (dataFound, false)
  | rounds + 1, data, dataFound =>
    if data = [] then (dataFound, false)
    else if (data.take sparseBlockSize).all (· == 0) then
      if dataFound then (dataFound, true)
      else scanLoop rounds (data.drop sparseBlockSize) dataFound
    else scanLoop rounds (data.drop sparseBlockSize) true

/-- Each round is through with at least one byte. -/
def scan (data : List UInt8) : Bool × Bool := scanLoop data.length data false

section
variable {data : List UInt8}

theorem all_zero_iff : data.all (· == 0) ↔ data = List.replicate data.length 0 := by
  rw [List.all_eq_true, List.eq_replicate_iff]
  simp

theorem scanLoop_dataFound (rounds : ℕ) (dataFound : Bool) (h : data.length ≤ rounds) :
    (scanLoop rounds data dataFound).1 = (dataFound || !data.all (· == 0)) := by
  induction rounds generalizing data dataFound with
  | zero =>
    cases List.length_eq_zero_iff.mp (Nat.le_zero.mp h)
    simp [scanLoop]
  | succ rounds ih =>
    have hdrop : (data.drop sparseBlockSize).length = data.length - sparseBlockSize :=
      List.length_drop
    have hsize : 0 < sparseBlockSize := by decide
    have hparts : data.all (· == 0) =
        ((data.take sparseBlockSize).all (· == 0) && (data.drop sparseBlockSize).all (· == 0)) := by
      rw [← List.all_append, List.take_append_drop]
    rw [scanLoop, hparts]
    split
    · rename_i hnil
      simp [hnil]
    · split
      · rename_i hzero
        rw [hzero, Bool.true_and]
        cases dataFound
        · exact ih false (by omega)
        · rfl
      · rename_i hdata
        rw [ih true (by omega), Bool.eq_false_iff.mpr hdata]
        simp

theorem scan_dataFound : (scan data).1 = !data.all (· == 0) := by
  rw [scan, scanLoop_dataFound _ _ le_rfl, Bool.false_or]

end

variable (env : FileEnv) (fuel : ℕ)

def removeBuddyChunkUnlocked : Option Bool :=
  match request env.rm fuel with
  | none => none
  | some (.error _) => some false
  | some (.ok failedPaths) => some failedPaths.isEmpty

variable (n : ℕ) (data : List UInt8) (st : FileSync)

/-- The offset, the flags and the attributes of the message. -/
def prepareMsg : ResyncLocalFileMsg :=
  if data.length < syncBlockSize then
    match env.fstat n with
    | none => ⟨st.offset, data, st.resyncMsgFlags, none⟩
    | some stat =>
      let flags := { st.resyncMsgFlags with setAttribs := true }
      if stat.size < st.offset then ⟨stat.size, data, flags, some stat.attribs⟩
      else if st.offset ≠ 0 ∧ data = [] then
        ⟨st.offset, data, { flags with trunc := true }, some stat.attribs⟩
      else ⟨st.offset, data, flags, some stat.attribs⟩
  else ⟨st.offset, data, st.resyncMsgFlags, none⟩

/-- The state at the end of the loop, and whether there was a whole block. -/
def sendBlock : Option (FileSync × Bool) :=
  let resyncMsg := prepareMsg env n data st
  let st := { st with offset := resyncMsg.offset, resyncMsgFlags := resyncMsg.flags }
  match request (env.resync n) fuel with
  | none => none
  | some (.error e) => some ({ st with retVal := e }, false)
  | some (.ok syncRes) =>
    if syncRes ≠ Err.success then some ({ st with retVal := syncRes }, false)
    else
      some ({ st with offset := st.offset + data.length, blocks := st.blocks ++
        [.acked resyncMsg] }, decide (data.length = syncBlockSize))

/-- A block, up to the label at the end of the loop; `.inl` if the function returns before. -/
def syncBlock : Option (FileSync ⊕ (FileSync × Bool)) :=
  match env.openat n with
  | .error => some (.inl { st with retVal := Err.internal })
  | .noEntry =>
    match removeBuddyChunkUnlocked env fuel with
    | none => none
    | some true => some (.inl { st with removed := true })
    | some false => some (.inl { st with retVal := Err.internal })
  | .opened =>
    -- without an error
    if ¬env.lseek n then some (.inl st)
    else
      match env.read n st.offset with
      | none => some (.inr ({ st with retVal := Err.internal }, false))
      | some data =>
        let data := data.take syncBlockSize
        let (dataFound, sparse) := scan data
        if st.offset ≠ 0 ∧ data.length = syncBlockSize ∧ ¬dataFound then
          some (.inr ({ st with
            offset := st.offset + data.length, blocks := st.blocks ++
              [.skipped st.offset data] }, true))
        else
          let checkSparse := st.resyncMsgFlags.checkSparse || (data ≠ [] && (sparse || !dataFound))
          (sendBlock env fuel n data
            { st with resyncMsgFlags := { st.resyncMsgFlags with checkSparse } }).map .inr

def resyncLoop : ℕ → ℕ → FileSync → Option FileSync
  | 0, _, _ => none
  | rounds + 1, n, st =>
    match syncBlock env fuel n st with
    | none => none
    | some (.inl st) => some st
    | some (.inr (st, full)) =>
      if env.terminate n then some { st with retVal := Err.interrupted }
      else if full then resyncLoop rounds (n + 1) st
      else some st

def doResync : Option FileSync :=
  if ¬env.node then some { FileSync.start with retVal := Err.unknownNode }
  else resyncLoop env fuel fuel 0 FileSync.start

end Congfs.Resync
