import Congfs.Remoting.Split
import Mathlib.Data.List.GetD

/-!
# Reading a file

`FhgfsOps_read` without a cache buffer: `FhgfsOpsRemoting_readfileVec` reads the pieces of a round
in parallel and stops at the first one that is short. If the file goes on behind it, the rest is
read by `FhgfsOpsHelper_readOrClearUser`, one chunk at a time and with zeros for what a target does
not have.
-/

namespace Congfs

open Segment

abbrev UserBuffer := ℕ → UInt8

namespace UserBuffer

def put (buf : UserBuffer) (start : ℕ) (bytes : List UInt8) : UserBuffer := fun i =>
  if start ≤ i then bytes.getD (i - start) (buf i) else buf i

/-- `clear_user`. -/
def clear (buf : UserBuffer) (start size : ℕ) : UserBuffer := fun i =>
  if start ≤ i ∧ i < start + size then 0 else buf i

end UserBuffer

/-- What the targets answer to a read: the number of bytes or a negative error, and the bytes. -/
structure ReadAnswers where
  nodeResult : FileState → Int64
  received : FileState → List UInt8

namespace FhgfsOpsRemoting

def outOfMem : Int64 := 26

variable (answers : ReadAnswers)

/-- Every piece is received into its own part of the buffer, which starts at `base`. -/
def receive (base : ℕ) (buf : UserBuffer) (states : List FileState) : UserBuffer :=
  states.foldl (fun buf state => buf.put (base + state.data.pos.toNat) (answers.received state)) buf

/-- The verification of a round: the usable bytes, and what to return if the read ends here. -/
def readfileVerify : Int64 → List FileState → Int64 × Option Int64
  | usableReadSize, [] => (usableReadSize, none)
  | usableReadSize, state :: states =>
    let nodeResult := answers.nodeResult state
    if nodeResult = state.expectedNodeResult then
      readfileVerify (usableReadSize + nodeResult) states
    else if nodeResult ≥ 0 then (usableReadSize, some (usableReadSize + nodeResult))
    else (usableReadSize, some nodeResult)

def readRounds (base : ℕ) (retVal : Int64) : Int64 → UserBuffer → List Round → Int64 × UserBuffer
  | _, buf, [] => (retVal, buf)
  | usableReadSize, buf, round :: rounds =>
    if round.states = [] then (-outOfMem, buf)
    else
      match readfileVerify answers usableReadSize round.states with
      | (usableReadSize', none) =>
        readRounds base retVal usableReadSize' (receive answers base buf round.states) rounds
      | (_, some ret) => (ret, receive answers base buf round.states)

def readfileVec (sp : Splitter) (base : ℕ) (offset : Int64) (count : UInt64) (buf : UserBuffer) :
    Int64 × UserBuffer :=
  readRounds answers base count.toInt64 0 buf (sp.rounds offset count)

end FhgfsOpsRemoting

/-- The `MIN` of the kernel module. -/
def minSize (a b : UInt64) : UInt64 := if a < b then a else b

theorem toNat_minSize : (minSize a b).toNat = min a.toNat b.toNat := by
  rw [minSize]
  split <;> rename_i h <;> rw [UInt64.lt_iff_toNat_lt] at h <;> omega

namespace FhgfsOpsHelper
open FhgfsOpsRemoting
variable (answers : ReadAnswers) (sp : Splitter)

/-- One step of the loop: read a part of a chunk, and clear what the target does not have. -/
def readOrClearChunk (currentBufOffset : ℕ) (currentReadSize : UInt64) (currentOffset : Int64)
    (buf : UserBuffer) : Except Int64 Unit × UserBuffer :=
  let read := readfileVec answers sp currentBufOffset currentOffset currentReadSize buf
  if read.1 < 0 then (.error (-read.1), read.2)
  else if read.1.toUInt64 < currentReadSize then
    (.ok (), read.2.clear (currentBufOffset + read.1.toUInt64.toNat)
      (currentReadSize - read.1.toUInt64).toNat)
  else (.ok (), read.2)

/-- The loop over the chunks. It takes at least one byte in every step. -/
def readOrClearChunks (base : ℕ) (size : UInt64) :
    ℕ → UInt64 → Int64 → UserBuffer → Except Int64 Unit × UserBuffer
  | 0, _, _, buf => (.ok (), buf)
  | fuel + 1, toBeRead, currentOffset, buf =>
    if toBeRead = 0 then (.ok (), buf)
    else
      let currentReadSize := minSize (sp.currentChunkSize currentOffset) toBeRead
      let chunk := readOrClearChunk answers sp (base + (size - toBeRead).toNat) currentReadSize
        currentOffset buf
      match chunk.1 with
      | .error e => (.error e, chunk.2)
      | .ok () =>
        readOrClearChunks base size fuel (toBeRead - currentReadSize)
          (currentOffset + currentReadSize.toInt64) chunk.2

def readOrClearUser (base : ℕ) (size : UInt64) (offset : Int64) (buf : UserBuffer) :
    Except Int64 Unit × UserBuffer :=
  readOrClearChunks answers sp base size size.toNat size offset buf

end FhgfsOpsHelper

namespace FhgfsOps
variable (answers : ReadAnswers) (sp : Splitter) (i_size : Int64)

/-- `__FhgfsOps_readSparse`; errors are the codes before their translation to system errors. -/
def readSparse (base : ℕ) (size : UInt64) (offset : Int64) (buf : UserBuffer) :
    Except Int64 Int64 × UserBuffer :=
  if i_size ≤ offset then (.ok 0, buf)
  else
    let size := minSize size (i_size - offset).toUInt64
    match FhgfsOpsHelper.readOrClearUser answers sp base size offset buf with
    | (.error e, buf) => (.error e, buf)
    | (.ok (), buf) => (.ok size.toInt64, buf)

/-- `FhgfsOps_read` of an inode without a cache buffer, so that `FhgfsOpsHelper_readCached` reads
from the servers. -/
def read (size : UInt64) (offset : Int64) (buf : UserBuffer) : Except Int64 Int64 × UserBuffer :=
  let cached := FhgfsOpsRemoting.readfileVec answers sp 0 offset size buf
  if cached.1 < 0 then (.error (-cached.1), cached.2)
  else if cached.1.toUInt64 < size ∧ i_size > offset + cached.1 then
    match readSparse answers sp i_size cached.1.toUInt64.toNat (size - cached.1.toUInt64)
        (offset + cached.1) cached.2 with
    | (.error e, buf) => (.error e, buf)
    | (.ok readSparseRes, buf) => (.ok (cached.1 + readSparseRes), buf)
  else (.ok cached.1, cached.2)

end FhgfsOps

namespace UserBuffer
variable {buf val : UserBuffer} {start i : ℕ} {bytes : List UInt8}

theorem put_eq (hbytes : ∀ j (hj : j < bytes.length), bytes[j] = val (start + j))
    (h : buf i = val i ∨ start ≤ i ∧ i < start + bytes.length) :
    buf.put start bytes i = val i := by
  rw [put]
  split_ifs with hle
  · by_cases hlt : i - start < bytes.length
    · rw [List.getD_eq_getElem _ _ hlt, hbytes _ hlt, Nat.add_sub_cancel' hle]
    · rw [List.getD_eq_default _ _ (not_lt.mp hlt)]
      exact h.resolve_right (by omega)
  · exact h.resolve_right (by omega)

end UserBuffer

namespace FhgfsOpsRemoting

/-- How much of a piece a read has received. -/
def readSegment (answers : ReadAnswers) (state : FileState) : Segment where
  start := state.data.pos.toNat
  size := state.totalSize.toNat
  done := min (answers.received state).length state.totalSize.toNat
  done_le := min_le_right _ _

/-- The answer for a piece brings bytes of `val`, the contents that the buffer is to have. -/
structure Delivers (answers : ReadAnswers) (base : ℕ) (val : UserBuffer) (state : FileState) :
    Prop where
  nodeResult_eq : answers.nodeResult state = Int64.ofNat (answers.received state).length
  length_le : (answers.received state).length ≤ state.totalSize.toNat
  totalSize_lt : state.totalSize.toNat < 2 ^ 63
  byte : ∀ j (hj : j < (answers.received state).length),
    (answers.received state)[j] = val (base + state.data.pos.toNat + j)

variable {answers : ReadAnswers} {base : ℕ} {val buf : UserBuffer} {state : FileState}
  {states : List FileState}

theorem Delivers.done_eq (h : Delivers answers base val state) :
    (readSegment answers state).done = (answers.received state).length :=
  min_eq_left h.length_le

theorem Delivers.complete_iff (h : Delivers answers base val state) :
    (readSegment answers state).done = (readSegment answers state).size ↔
      answers.nodeResult state = state.expectedNodeResult := by
  have hlt := h.length_le.trans_lt h.totalSize_lt
  rw [h.done_eq, h.nodeResult_eq, FileState.expectedNodeResult, Word.toInt64_eq, ← Int64.toInt_inj,
    Int64.toInt_ofNat_of_lt hlt, Int64.toInt_ofNat_of_lt h.totalSize_lt, Nat.cast_inj]
  rfl

section
variable (h : ∀ state ∈ states, Delivers answers base val state)
include h

theorem receive_eq
    (hi : buf i = val i ∨ ∃ b, i = base + b ∧ Segment.Covers (states.map (readSegment answers)) b) :
    receive answers base buf states i = val i := by
  induction states generalizing buf with
  | nil => exact hi.resolve_right (by simp [Segment.Covers])
  | cons state states ih =>
    obtain ⟨hstate, hstates⟩ := List.forall_mem_cons.mp h
    refine ih hstates ?_
    rcases hi with hi | ⟨b, rfl, s, hs, hle, hlt⟩
    · exact .inl (UserBuffer.put_eq hstate.byte (.inl hi))
    · rcases List.mem_cons.mp hs with rfl | hs
      · rw [hstate.done_eq] at hlt
        have hle' : state.data.pos.toNat ≤ b := hle
        have hlt' : b < state.data.pos.toNat + (answers.received state).length := hlt
        exact .inl (UserBuffer.put_eq hstate.byte (.inr (by omega)))
      · exact .inr ⟨b, rfl, s, hs, hle, hlt⟩

theorem readfileVerify_complete
    (hcomplete : ∀ s ∈ states.map (readSegment answers), s.done = s.size) (acc : ℕ) :
    readfileVerify answers (Int64.ofNat acc) states =
      (Int64.ofNat (acc + total (states.map (readSegment answers))), none) := by
  induction states generalizing acc with
  | nil => rfl
  | cons state states ih =>
    obtain ⟨hstate, hstates⟩ := List.forall_mem_cons.mp h
    obtain ⟨hdone, hrest⟩ := List.forall_mem_cons.mp hcomplete
    rw [readfileVerify]
    simp only [if_pos (hstate.complete_iff.mp hdone)]
    rw [hstate.nodeResult_eq, ← Int64.ofNat_add, ih hstates hrest, List.map_cons,
      total_cons, ← hdone, hstate.done_eq, add_assoc]

theorem readfileVerify_incomplete
    (hshort : ¬ ∀ s ∈ states.map (readSegment answers), s.done = s.size) (acc : ℕ) :
    (readfileVerify answers (Int64.ofNat acc) states).2 =
      some (Int64.ofNat (acc + transferred (states.map (readSegment answers)))) := by
  induction states generalizing acc with
  | nil => exact absurd (by simp) hshort
  | cons state states ih =>
    obtain ⟨hstate, hstates⟩ := List.forall_mem_cons.mp h
    have hnonneg : answers.nodeResult state ≥ 0 := by
      rw [hstate.nodeResult_eq]
      exact (Int64.ofNat_le_iff_le (by norm_num)
        (hstate.length_le.trans_lt hstate.totalSize_lt)).mpr (Nat.zero_le _)
    rw [readfileVerify, List.map_cons, transferred]
    by_cases hdone : (readSegment answers state).done = (readSegment answers state).size
    · have hrest : ¬ ∀ s ∈ states.map (readSegment answers), s.done = s.size :=
        fun hrest => hshort (List.forall_mem_cons.mpr ⟨hdone, hrest⟩)
      simp only [if_pos (hstate.complete_iff.mp hdone), if_pos hdone]
      rw [hstate.nodeResult_eq, ← Int64.ofNat_add, ih hstates hrest, ← hdone, hstate.done_eq,
        add_assoc]
    · simp only [if_neg (mt hstate.complete_iff.mpr hdone), if_neg hdone, if_pos hnonneg]
      rw [hstate.nodeResult_eq, ← Int64.ofNat_add, hstate.done_eq]

end

/-- What a read leaves in the buffer: right bytes stay right, and the bytes it reports are right. -/
theorem readRounds_eq {rounds : List Round} {a acc : ℕ} {retVal : Int64}
    (hne : ∀ round ∈ rounds, round.states ≠ [])
    (h : ∀ state ∈ rounds.flatMap Round.states, Delivers answers base val state)
    (hsegs : Segment.Consecutive a ((rounds.flatMap Round.states).map (readSegment answers)))
    (hret : retVal = Int64.ofNat
      (acc + total ((rounds.flatMap Round.states).map (readSegment answers)))) :
    (readRounds answers base retVal (Int64.ofNat acc) buf rounds).1 = Int64.ofNat
      (acc + transferred ((rounds.flatMap Round.states).map (readSegment answers))) ∧
    ∀ i, buf i = val i ∨ (∃ b, i = base + (a + b) ∧
        b < transferred ((rounds.flatMap Round.states).map (readSegment answers))) →
      (readRounds answers base retVal (Int64.ofNat acc) buf rounds).2 i = val i := by
  induction rounds generalizing a acc buf with
  | nil => exact ⟨hret, fun i hi => hi.resolve_right (by simp [transferred])⟩
  | cons round rounds ih =>
    obtain ⟨hround, hne'⟩ := List.forall_mem_cons.mp hne
    rw [List.flatMap_cons, List.map_append] at hsegs hret ⊢
    obtain ⟨hcons, hcons'⟩ := Segment.Consecutive.append_iff.mp hsegs
    have hstates : ∀ state ∈ round.states, Delivers answers base val state :=
      fun s hs => h s (List.mem_append_left _ hs)
    rw [readRounds, if_neg hround]
    by_cases hcomplete : ∀ s ∈ round.states.map (readSegment answers), s.done = s.size
    · rw [readfileVerify_complete hstates hcomplete, transferred_append_of_complete hcomplete]
      rw [total_append, ← add_assoc] at hret
      obtain ⟨hres, hbuf⟩ := @ih (receive answers base buf round.states)
        (a + total (round.states.map (readSegment answers)))
        (acc + total (round.states.map (readSegment answers))) hne'
        (fun s hs => h s (List.mem_append_right _ hs)) hcons' hret
      refine ⟨by rw [← add_assoc]; exact hres, fun i hi => hbuf i ?_⟩
      rcases hi with hi | ⟨b, rfl, hb⟩
      · exact .inl (receive_eq hstates (.inl hi))
      · by_cases hin : b < total (round.states.map (readSegment answers))
        · rw [← transferred_of_complete hcomplete] at hin
          exact .inl (receive_eq hstates (.inr ⟨a + b, rfl, covers_of_lt_transferred hcons hin⟩))
        · refine .inr ⟨b - total (round.states.map (readSegment answers)), ?_, by omega⟩
          omega
    · obtain ⟨usable, hverify⟩ : ∃ usable, readfileVerify answers (Int64.ofNat acc) round.states =
          (usable, some (Int64.ofNat
            (acc + transferred (round.states.map (readSegment answers))))) :=
        ⟨_, Prod.ext rfl (readfileVerify_incomplete hstates hcomplete acc)⟩
      rw [transferred_append_of_incomplete hcomplete, hverify]
      refine ⟨rfl, fun i hi => receive_eq hstates ?_⟩
      rcases hi with hi | ⟨b, rfl, hb⟩
      · exact .inl hi
      · exact .inr ⟨a + b, rfl, covers_of_lt_transferred hcons hb⟩

end FhgfsOpsRemoting
end Congfs
