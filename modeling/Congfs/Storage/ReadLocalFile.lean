import Congfs.Lib.FlatFile
import Congfs.Lib.Framing
import Congfs.Lib.Scatter

/-!
# Read requests on a storage server

The answer to a request is a stream of blocks, each behind its length, which ends with a zero, or
with the negative number of an error. The file is read into a buffer of the worker, with a gap in
front of the data for the length, so that a block and its length are sent in one piece. If the
server knows that a block is the last one, it sends the final zero with it.

`pread` is what the operating system answers: to the call of the given number, for the count and the
offset of the call. A call that fails has no bytes. What was sent and the results of the calls are
kept.
-/

namespace Congfs.Storage

open Scatter Framing.Framed FlatFile Framing List

namespace ReadLocalFile

def internal : ℤ := 1

/-- From so many bytes of sequential reads on, `tuneFileReadSize` is used. -/
def useTunefilereadTrigger : ℤ := 4194304

structure ReadLocalFileV2Msg where
  offset : ℤ
  count : ℕ
  count_pos : 0 < count
  count_lt : count < 9223372036854775808
  disableIO : Bool

structure ReadEnv where
  bufferLength : ℕ
  pageSize : ℕ
  tuneFileReadSize : ℕ
  tuneFileReadAheadSize : ℤ
  tuneFileReadAheadTriggerSize : ℤ
  pread : ℕ → ℕ → ℤ → Option (List UInt8)

namespace ReadEnv
variable (env : ReadEnv)

def readBufOffset : ℕ := max 8 env.pageSize

def readBufEndReserve : ℕ := max 8 env.pageSize

def readBufLenProtocolCutoff : ℕ := env.readBufOffset + env.readBufEndReserve

end ReadEnv

structure SessionLocalFile where
  offset : ℤ
  isDirectIO : Bool
  /-- How much was read sequentially. -/
  readCounter : ℤ
  lastReadAheadTrigger : ℤ

structure ReadState where
  session : SessionLocalFile
  diskReadBytes : ℕ
  /-- The buffer behind the gap. -/
  dataBuf : ℕ → UInt8
  sent : List UInt8
  preads : List (Option (List UInt8))

namespace ReadState

def start (session : SessionLocalFile) (dataBuf : ℕ → UInt8) : ReadState where
  session := session
  diskReadBytes := 0
  dataBuf := dataBuf
  sent := []
  preads := []

variable (st : ReadState)

def send (bytes : List UInt8) : ReadState := { st with sent := st.sent ++ bytes }

def setOffset (offset : ℤ) : ReadState :=
  { st with session := { st.session with offset } }

def count (readRes : ℕ) : ReadState :=
  { st with
    session := { st.session with readCounter := st.session.readCounter + readRes }
    diskReadBytes := st.diskReadBytes + readRes }

def data (readRes : ℕ) : List UInt8 := (List.range' 0 readRes).map st.dataBuf

end ReadState

def sendLengthInfo (lengthInfo : ℤ) (st : ReadState) : ReadState := st.send (encode lengthInfo)

def sendLengthInfoAndData (lengthInfo : ℕ) (isFinal : Bool) (st : ReadState) : ReadState :=
  if isFinal then
    st.send (encode lengthInfo ++ st.data lengthInfo ++ encode 0)
  else st.send (encode lengthInfo ++ st.data lengthInfo)

/-- The read-ahead itself is only a hint to the operating system. -/
def checkAndStartReadAhead (readAheadTriggerSize readAheadSize : ℤ) (st : ReadState) : ReadState :=
  if readAheadSize = 0 then st
  else
    let nextReadAheadTrigger :=
      if st.session.lastReadAheadTrigger ≠ 0 then st.session.lastReadAheadTrigger + readAheadSize
      else readAheadTriggerSize
    if st.session.readCounter < nextReadAheadTrigger then st
    else { st with session := { st.session with lastReadAheadTrigger := st.session.readCounter } }

variable (env : ReadEnv) (msg : ReadLocalFileV2Msg)

/-- The number of bytes, or `none` for -1. Without input and output, whatever is in the buffer is
sent. -/
def readBlock (readLength : ℕ) (readOffset : ℤ) (st : ReadState) : Option ℕ × ReadState :=
  if msg.disableIO then (some readLength, st)
  else
    let res := env.pread st.preads.length readLength readOffset
    (res.map List.length,
      { st with dataBuf := store st.dataBuf 0 (res.getD []), preads := st.preads ++ [res] })

section
variable (session : SessionLocalFile)

def skipReadAhead : Bool := msg.disableIO || session.isDirectIO

/-- One round of the loop: the result of the read, or what the next round starts with. -/
def readRound (maxReadAtOnceLen : ℕ) (readAheadSize : ℤ) (toBeRead : ℕ) (readOffset : ℤ)
    (st : ReadState) : (ℤ × ReadState) ⊕ (ℕ × ℤ × ReadState) :=
  let readLength := min maxReadAtOnceLen toBeRead
  let (readRes, st) := readBlock env msg readLength readOffset st
  match readRes with
  | none => .inl (-1, sendLengthInfo (-internal) (st.setOffset (-1)))
  | some readRes =>
    let left := toBeRead - readRes
    let newOffset := msg.offset + msg.count - left
    let st := (st.setOffset newOffset).count readRes
    if readRes = readLength then
      let isFinal := left = 0
      let st := sendLengthInfoAndData readRes isFinal st
      let st := checkAndStartReadAhead env.tuneFileReadAheadTriggerSize readAheadSize st
      if isFinal then .inl (msg.count, st) else .inr (left, readOffset + readRes, st)
    else
      let st := if 0 < readRes then sendLengthInfoAndData readRes true st else sendLengthInfo 0 st
      .inl (msg.count - left, st)

/-- The loop, for at most `fuel` rounds. -/
def readLoop (maxReadAtOnceLen : ℕ) (readAheadSize : ℤ) :
    ℕ → ℕ → ℤ → ReadState → Option (ℤ × ReadState)
  | 0, _, _, _ => none
  | fuel + 1, toBeRead, readOffset, st =>
    match readRound env msg maxReadAtOnceLen readAheadSize toBeRead readOffset st with
    | .inl res => some res
    | .inr (toBeRead, readOffset, st) =>
      readLoop maxReadAtOnceLen readAheadSize fuel toBeRead readOffset st

/-- The counter of sequential reads starts anew if the read does not continue the last one. -/
def startSession : SessionLocalFile :=
  if session.offset < 0 ∨ session.offset ≠ msg.offset then
    { session with readCounter := 0, lastReadAheadTrigger := 0 }
  else session

def maxReadAtOnceLen : ℕ :=
  let dataBufLen := env.bufferLength - env.readBufLenProtocolCutoff
  if useTunefilereadTrigger ≤ session.readCounter ∧ ¬session.isDirectIO then
    min dataBufLen env.tuneFileReadSize
  else dataBufLen

end

def incrementalReadStatefulAndSendV2 (fuel : ℕ) (st : ReadState) : Option (ℤ × ReadState) :=
  if env.bufferLength ≤ env.readBufLenProtocolCutoff then some (-1, sendLengthInfo (-internal) st)
  else
    let readAheadSize := if skipReadAhead msg st.session then 0 else env.tuneFileReadAheadSize
    let session := startSession msg st.session
    readLoop env msg (maxReadAtOnceLen env session) readAheadSize fuel msg.count msg.offset
      { st with session }

/-! ## What is sent -/

section
variable {env msg} {file : List UInt8} {st st' : ReadState} {maxLen toBeRead : ℕ}
    {readAheadSize readOffset : ℤ}

/-- The bytes of the file, fewer than asked for only at its end, or a failure. -/
def Reads (env : ReadEnv) (file : List UInt8) : Prop :=
  ∀ call count offset, env.pread call count offset = none ∨
    env.pread call count offset = some (slice file offset.toNat count)

theorem sent_sendLengthInfoAndData {n : ℕ} {isFinal : Bool} :
    (sendLengthInfoAndData n isFinal st).sent =
      st.sent ++ (encode n ++ st.data n ++ if isFinal then encode 0 else []) := by
  cases isFinal
  · simp [sendLengthInfoAndData, ReadState.send]
  · simp [sendLengthInfoAndData, ReadState.send]

theorem preads_sendLengthInfoAndData : (sendLengthInfoAndData n isFinal st).preads = st.preads := by
  cases isFinal <;> rfl

theorem checkAndStartReadAhead_eq :
    ∃ session, checkAndStartReadAhead trigger size st = { st with session } := by
  unfold checkAndStartReadAhead
  split
  · exact ⟨_, rfl⟩
  · dsimp only
    split <;> split <;> exact ⟨_, rfl⟩

theorem sent_afterBlock (trigger size offset : ℤ) (n : ℕ) (isFinal : Bool) (st : ReadState) :
    ∃ out, checkAndStartReadAhead trigger size
        (sendLengthInfoAndData n isFinal ((st.setOffset offset).count n)) = out ∧
      out.sent = st.sent ++ (encode n ++ st.data n ++ if isFinal then encode 0 else []) ∧
      out.preads = st.preads := by
  obtain ⟨session, heq⟩ := checkAndStartReadAhead_eq
  exact ⟨_, heq, sent_sendLengthInfoAndData, preads_sendLengthInfoAndData⟩

/-- A read fails, or a block is in the buffer. -/
inductive BlockRead (msg : ReadLocalFileV2Msg) (file : List UInt8) (readLength : ℕ) (readOffset : ℤ)
    (st : ReadState) : Option ℕ → ReadState → Prop
  | failed {st' : ReadState} : st'.sent = st.sent → st'.preads = st.preads ++ [none] →
    BlockRead msg file readLength readOffset st none st'
  | block {st' : ReadState} {preads : List (Option (List UInt8))} (block : List UInt8) :
    st'.sent = st.sent → st'.preads = st.preads ++ preads → none ∉ preads →
    st'.data block.length = block → block.length ≤ readLength →
    (msg.disableIO = false → block = slice file readOffset.toNat readLength) →
    BlockRead msg file readLength readOffset st (some block.length) st'

theorem readBlock_blockRead (h : Reads env file) (readLength : ℕ) (readOffset : ℤ)
    (st : ReadState) :
    BlockRead msg file readLength readOffset st (readBlock env msg readLength readOffset st).1
      (readBlock env msg readLength readOffset st).2 := by
  unfold readBlock
  split_ifs with hio
  · have hlen : (st.data readLength).length = readLength := by simp [ReadState.data]
    have hblock := @BlockRead.block msg file readLength readOffset st st [] (st.data readLength) rfl
      (append_nil _).symm not_mem_nil (by rw [hlen]) (Nat.le_of_eq hlen)
      fun h => by rw [h] at hio; cases hio
    rwa [hlen] at hblock
  · rcases h st.preads.length readLength readOffset with hres | hres
    · rw [hres]
      exact .failed rfl rfl
    · rw [hres]
      refine .block _ rfl rfl ?_ map_store ?_ fun _ => rfl
      · simp
      · rw [length_slice]
        exact Nat.min_le_left _ _

/-- What the read of `toBeRead` bytes from `readOffset` on sends between two states. -/
structure Answered (msg : ReadLocalFileV2Msg) (file : List UInt8) (toBeRead : ℕ) (readOffset : ℤ)
    (st st' : ReadState) (s : Framing.Framed) : Prop where
  sent : st'.sent = st.sent ++ s.bytes
  length_le : s.data.length ≤ toBeRead
  reads : ∃ preads, st'.preads = st.preads ++ preads ∧ (none ∈ preads → s.last < 0) ∧
    (msg.disableIO = false → none ∉ preads →
      s.last = 0 ∧ s.data = slice file readOffset.toNat toBeRead)

inductive RoundDone (msg : ReadLocalFileV2Msg) (file : List UInt8) (toBeRead : ℕ) (readOffset : ℤ)
    (st : ReadState) : (ℤ × ReadState) ⊕ (ℕ × ℤ × ReadState) → Prop
  | returned {st' : ReadState} {s : Framing.Framed} (res : ℤ) :
    Answered msg file toBeRead readOffset st st' s →
    RoundDone msg file toBeRead readOffset st (.inl (res, st'))
  | next {st' : ReadState} {preads : List (Option (List UInt8))} {left : ℕ} (block : List UInt8) :
    block ≠ [] → toBeRead = block.length + left → 0 < left →
    st'.sent = st.sent ++ (encode block.length ++ block) →
    st'.preads = st.preads ++ preads → none ∉ preads →
    (msg.disableIO = false → block = slice file readOffset.toNat block.length) →
    RoundDone msg file toBeRead readOffset st (.inr (left, readOffset + block.length, st'))

theorem Answered.of_block (hne : block ≠ [])
    (hsent : st'.sent = st.sent ++ (encode block.length ++ block ++ encode 0))
    (hlen : block.length ≤ toBeRead) (hpreads : st'.preads = st.preads ++ preads)
    (hok : none ∉ preads)
    (hblock : msg.disableIO = false → block = slice file readOffset.toNat toBeRead) :
    Answered msg file toBeRead readOffset st st'
      (.cons block hne (.final 0 (Int.le_refl 0) (by decide))) where
  sent := by rw [hsent, bytes_cons, bytes_final]
  length_le := by rwa [data_cons, data_final, append_nil]
  reads := by
    refine ⟨preads, hpreads, fun hnone => absurd hnone hok, fun hio _ => ⟨rfl, ?_⟩⟩
    rw [data_cons, data_final, append_nil]
    exact hblock hio

theorem Answered.of_error (hsent : st'.sent = st.sent ++ encode (-1))
    (hpreads : st'.preads = st.preads ++ [none]) :
    Answered msg file toBeRead readOffset st st' (.final (-1) (by decide) (by decide)) where
  sent := by rw [hsent, bytes_final]
  length_le := Nat.zero_le _
  reads := ⟨[none], hpreads, fun _ => by decide, fun _ hok => absurd mem_cons_self hok⟩

theorem Answered.of_nothing (hsent : st'.sent = st.sent ++ encode 0)
    (hpreads : st'.preads = st.preads ++ preads) (hok : none ∉ preads)
    (hblock : msg.disableIO = false → slice file readOffset.toNat toBeRead = []) :
    Answered msg file toBeRead readOffset st st' (.final 0 (Int.le_refl 0) (by decide)) where
  sent := by rw [hsent, bytes_final]
  length_le := Nat.zero_le _
  reads := ⟨preads, hpreads, fun hnone => absurd hnone hok, fun hio _ => ⟨rfl, (hblock hio).symm⟩⟩

theorem readRound_done (h : Reads env file) (hmax : 0 < maxLen) (hpos : 0 < toBeRead) :
    RoundDone msg file toBeRead readOffset st
      (readRound env msg maxLen readAheadSize toBeRead readOffset st) := by
  have hread := @readBlock_blockRead env msg file h (min maxLen toBeRead) readOffset st
  unfold readRound
  dsimp only
  generalize readBlock env msg (min maxLen toBeRead) readOffset st = out at hread ⊢
  obtain ⟨readRes, st'⟩ := out
  cases hread with
  | failed hsent hpreads =>
    refine .returned _ (.of_error ?_ hpreads)
    rw [← hsent]
    rfl
  | block block hsent hpreads hok hdata hlen hio =>
    dsimp only
    obtain ⟨hlenMax, hlenLeft⟩ := Nat.le_min.mp hlen
    split
    · -- as much as was asked for
      rename_i hfull
      have hne : block ≠ [] := by
        rintro rfl
        rw [length_nil] at hfull
        omega
      obtain ⟨out, hout, houtSent, houtPreads⟩ := sent_afterBlock env.tuneFileReadAheadTriggerSize
        readAheadSize (msg.offset + msg.count - (toBeRead - block.length : ℕ)) block.length
        (decide (toBeRead - block.length = 0)) st'
      rw [hdata, hsent] at houtSent
      rw [hpreads] at houtPreads
      rw [← hfull] at hio
      rw [hout]
      split_ifs with hleft
      · rw [decide_eq_true hleft, if_pos rfl] at houtSent
        refine .returned _ (.of_block hne houtSent hlenLeft houtPreads hok fun hio' => ?_)
        have hall : toBeRead = block.length := by omega
        rw [hall]
        exact hio hio'
      · rw [decide_eq_false hleft, if_neg Bool.false_ne_true, append_nil] at houtSent
        exact .next block hne (by omega) (by omega) houtSent houtPreads hok hio
    · -- the end of the file
      have hend (hio' : msg.disableIO = false) : block = slice file readOffset.toNat toBeRead := by
        have hblock := hio hio'
        have hlt : (slice file readOffset.toNat (min maxLen toBeRead)).length <
            min maxLen toBeRead := by
          rw [← hblock]
          omega
        have hsplit : toBeRead = min maxLen toBeRead + (toBeRead - min maxLen toBeRead) := by omega
        rw [hsplit, slice_add, slice_eq_nil_of_short hlt (Nat.le_of_lt hlt), append_nil]
        exact hblock
      split_ifs with hblock
      · have hne : block ≠ [] := length_pos_iff.mp hblock
        refine .returned _ (.of_block hne ?_ hlenLeft ?_ hok hend)
        · have hbytes := @sent_sendLengthInfoAndData ((st'.setOffset (msg.offset + msg.count -
            (toBeRead - block.length : ℕ))).count block.length) block.length true
          rw [hbytes, if_pos rfl, ← hsent]
          change st'.sent ++ (_ ++ st'.data block.length ++ _) = _
          rw [hdata]
        · exact hpreads
      · have hnil : block = [] := length_eq_zero_iff.mp (Nat.eq_zero_of_not_pos hblock)
        refine .returned _ (.of_nothing ?_ hpreads hok fun hio' => ?_)
        · rw [← hsent]
          rfl
        · rw [← hend hio', hnil]

/-- The whole loop. Each round reads something, so it ends within `toBeRead` rounds. -/
theorem readLoop_answered (h : Reads env file) (hmax : 0 < maxLen) (hpos : 0 < toBeRead)
    (hoffset : 0 ≤ readOffset) :
    ∃ res out, (∀ fuel, toBeRead ≤ fuel →
        readLoop env msg maxLen readAheadSize fuel toBeRead readOffset st = some (res, out)) ∧
      ∃ s, Answered msg file toBeRead readOffset st out s := by
  induction toBeRead using Nat.strongRecOn generalizing readOffset st with
  | ind toBeRead ih =>
    have hround := @readRound_done env msg file st maxLen toBeRead readAheadSize
      readOffset h hmax hpos
    have hsucc {fuel : ℕ} (hfuel : toBeRead ≤ fuel) : ∃ fuel', fuel = fuel' + 1 :=
      ⟨fuel - 1, by omega⟩
    generalize hres : readRound env msg maxLen readAheadSize toBeRead readOffset st =
      result at hround
    cases hround with
    | returned res hans =>
      refine ⟨res, _, fun fuel hfuel => ?_, _, hans⟩
      obtain ⟨fuel, rfl⟩ := hsucc hfuel
      rw [readLoop, hres]
    | @next st' preads left block hne hleft hpos hsent hpreads hok hio =>
      have hblock : 0 < block.length := length_pos_iff.mpr hne
      obtain ⟨res, out, hloop, s, hans⟩ := @ih left (by omega) st' (readOffset + block.length) hpos
        (by omega)
      refine ⟨res, out, fun fuel hfuel => ?_, .cons block hne s, ?_, ?_, ?_⟩
      · obtain ⟨fuel, rfl⟩ := hsucc hfuel
        rw [readLoop, hres]
        exact hloop fuel (by omega)
      · rw [hans.sent, hsent, bytes_cons, append_assoc]
      · have hle := hans.length_le
        rw [data_cons, length_append]
        omega
      · obtain ⟨preads', hpreads', hfail, hdata⟩ := hans.reads
        refine ⟨preads ++ preads', ?_, fun hnone => ?_, fun hio' hnone => ?_⟩
        · rw [hpreads', hpreads, append_assoc]
        · rcases mem_append.mp hnone with hmem | hmem
          · exact absurd hmem hok
          · exact hfail hmem
        · obtain ⟨hlast, hdata⟩ := hdata hio' fun hmem => hnone (mem_append_right _ hmem)
          have hplace : (readOffset + block.length).toNat =
            readOffset.toNat + block.length := by omega
          refine ⟨hlast, ?_⟩
          rw [data_cons, hdata, hleft, slice_add, hplace, ← hio hio']

theorem incrementalRead_answered (h : Reads env file)
    (hbuf : env.readBufLenProtocolCutoff < env.bufferLength) (htune : 0 < env.tuneFileReadSize)
    (hoffset : 0 ≤ msg.offset) (st : ReadState) :
    ∃ res out, (∀ fuel, msg.count ≤ fuel →
        incrementalReadStatefulAndSendV2 env msg fuel st = some (res, out)) ∧
      ∃ s, Answered msg file msg.count msg.offset st out s := by
  have hmax : 0 < maxReadAtOnceLen env (startSession msg st.session) := by
    rw [maxReadAtOnceLen]
    split <;> omega
  obtain ⟨res, out, hloop, s, hans⟩ := @readLoop_answered env msg file
    { st with session := startSession msg st.session } _ msg.count
    (if skipReadAhead msg st.session then 0 else env.tuneFileReadAheadSize) msg.offset h hmax
    msg.count_pos hoffset
  refine ⟨res, out, fun fuel hfuel => ?_, s, hans.sent, hans.length_le, hans.reads⟩
  rw [incrementalReadStatefulAndSendV2, if_neg (Nat.not_le.mpr hbuf)]
  exact hloop fuel hfuel

end

end ReadLocalFile
end Congfs.Storage
