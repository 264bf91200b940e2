import Congfs.Remoting.Split

/-!
# Writing a file

`FhgfsOpsRemoting_writefileVec` sends the pieces of a round, lets
`__FhgfsOpsRemoting_writefileVerify` look at the answers and goes on with the next round if all of
them were complete. The verifier counts the bytes of its round only, and its count is what the whole
call returns when a target wrote too little.
-/

namespace Congfs.FhgfsOpsRemoting

open Segment List

/-- What the targets answer: the number of bytes written, at most those that were sent, or a
negative error. -/
structure Answers where
  nodeResult : FileState → Int64
  le_expected : ∀ state, nodeResult state ≤ state.expectedNodeResult

/-- The bits of `ioInfo->firstWriteDone`. -/
abbrev FirstWriteDone := UInt32 → Bool

structure Verified where
  ok : Bool
  outWritten : Int64
  firstWriteDone : FirstWriteDone

variable (answers : Answers)

/-- The loop over the states of a round: `i` counts the targets, `outWritten` the bytes. -/
def writefileVerify (firstTargetIndex numStripeNodes : UInt32) :
    UInt32 → Int64 → FirstWriteDone → List FileState → Verified
  | _, outWritten, firstWriteDone, [] => ⟨true, outWritten, firstWriteDone⟩
  | i, outWritten, firstWriteDone, state :: states =>
    let nodeResult := answers.nodeResult state
    let counted := state.expectedNodeResult ≥ nodeResult
    let currentTargetIndex := (firstTargetIndex + i) % numStripeNodes
    let firstWriteDone' :=
      if counted then Function.update firstWriteDone currentTargetIndex true else firstWriteDone
    let outWritten' := if counted then outWritten + nodeResult else outWritten
    let i' := if counted then i + 1 else i
    if state.expectedNodeResult = nodeResult then
      writefileVerify firstTargetIndex numStripeNodes i' outWritten' firstWriteDone' states
    else ⟨false, if nodeResult ≥ 0 then outWritten' else nodeResult, firstWriteDone'⟩

/-- What a call returns and leaves behind, and the rounds that it sent. -/
structure Written where
  retVal : Int64
  firstWriteDone : FirstWriteDone
  sent : List Round

/-- The outer loop over the rounds. -/
def writeRounds (numStripeTargets : UInt32) (retVal : Int64) : FirstWriteDone → List Round → Written
  | firstWriteDone, [] => ⟨retVal, firstWriteDone, []⟩
  | firstWriteDone, round :: rounds =>
    let verified := writefileVerify answers round.firstTargetIndex numStripeTargets 0 0
      firstWriteDone round.states
    if verified.ok then
      let rest := writeRounds numStripeTargets retVal verified.firstWriteDone rounds
      { rest with sent := round :: rest.sent }
    else ⟨verified.outWritten, verified.firstWriteDone, [round]⟩

section
variable (type : StripePatternType) (pattern : StripePattern) (alloc : UInt64 → Bool)
  (serializeWrites : Bool)

/-- The state of the first piece of a round comes from a memory pool that waits for memory. Only
the later ones can fail: `alloc` tells which. -/
def writeSplitter : Splitter where
  type := type
  pattern := pattern
  alloc first pos := first || alloc pos
  serialize := serializeWrites

def writefileVec (offset : Int64) (count : UInt64) (firstWriteDone : FirstWriteDone) : Written :=
  let sp := writeSplitter type pattern alloc serializeWrites
  writeRounds answers sp.numStripeTargets count.toInt64 firstWriteDone (sp.rounds offset count)

end

/-- A target acknowledged the byte at position `b` of the request. -/
def Acknowledged (sent : List Round) (b : ℕ) : Prop :=
  ∃ round ∈ sent, ∃ state ∈ round.states, state.data.pos.toNat ≤ b ∧
    (b : ℤ) < state.data.pos.toNat + (answers.nodeResult state).toInt

/-- The first piece that is not written completely. -/
def firstIncomplete (states : List FileState) : Option FileState :=
  states.find? fun state => state.expectedNodeResult ≠ answers.nodeResult state

/-- If the first piece that is not written completely is in a later round than the first, then its
target reports an error. -/
def NotShortLater : List Round → Prop
  | [] => True
  | first :: rest => firstIncomplete answers first.states = none →
      ∀ state ∈ firstIncomplete answers (rest.flatMap Round.states), answers.nodeResult state < 0

/-! ## Answers as segments -/

namespace Answers

theorem toNatClampNeg_le (state : FileState) :
    (answers.nodeResult state).toNatClampNeg ≤ state.totalSize.toNat := by
  have hle := Int64.le_iff_toInt_le.mp (answers.le_expected state)
  have hclamp : (answers.nodeResult state).toNatClampNeg = (answers.nodeResult state).toInt.toNat :=
    rfl
  have hword := (answers.nodeResult state).toInt_lt
  rw [FileState.expectedNodeResult, Word.toInt64_eq] at hle
  by_cases hsize : state.totalSize.toNat < 2 ^ 63
  · rw [Int64.toInt_ofNat_of_lt hsize] at hle
    omega
  · omega

def segment (state : FileState) : Segment where
  start := state.data.pos.toNat
  size := state.totalSize.toNat
  done := (answers.nodeResult state).toNatClampNeg
  done_le := answers.toNatClampNeg_le state

variable {answers} {state : FileState}

/-- The pieces of a round are small enough that an answer tells whether they are complete. -/
theorem segment_complete_iff (hpos : 0 < state.totalSize.toNat)
    (hlt : state.totalSize.toNat < 2 ^ 63) :
    (answers.segment state).done = (answers.segment state).size ↔
      state.expectedNodeResult = answers.nodeResult state := by
  rw [FileState.expectedNodeResult, Word.toInt64_eq]
  refine ⟨fun h => ?_, fun h => ?_⟩
  · have hdone : (answers.nodeResult state).toInt.toNat = state.totalSize.toNat := h
    rw [← Int64.toInt_inj, Int64.toInt_ofNat_of_lt hlt]
    omega
  · exact (congrArg Int64.toNatClampNeg h.symm).trans (Int64.toNatClampNeg_ofNat_of_lt hlt)

theorem acknowledged_iff_covers : Acknowledged answers sent b ↔
      Segment.Covers ((sent.flatMap Round.states).map answers.segment) b := by
  simp only [Acknowledged, Segment.Covers, mem_map, mem_flatMap]
  constructor
  · rintro ⟨round, hround, state, hstate, hle, hlt⟩
    have hclamp : (answers.segment state).done = (answers.nodeResult state).toInt.toNat := rfl
    refine ⟨_, ⟨state, ⟨round, hround, hstate⟩, rfl⟩, hle, ?_⟩
    exact (show b < state.data.pos.toNat + (answers.segment state).done by omega)
  · rintro ⟨_, ⟨state, ⟨round, hround, hstate⟩, rfl⟩, hle, hlt⟩
    have hle' : state.data.pos.toNat ≤ b := hle
    have hlt' : b < state.data.pos.toNat + (answers.nodeResult state).toInt.toNat := hlt
    exact ⟨round, hround, state, hstate, hle', by omega⟩

end Answers

/-! ## One round -/

/-- Pieces as the splitter makes them. -/
def Small (states : List FileState) : Prop :=
  ∀ state ∈ states, 0 < state.totalSize.toNat ∧ state.totalSize.toNat < 2 ^ 63

variable {answers} {state : FileState} {states states' : List FileState}

theorem firstIncomplete_cons_of_complete (h : state.expectedNodeResult = answers.nodeResult state) :
    firstIncomplete answers (state :: states) = firstIncomplete answers states := by
  rw [firstIncomplete, find?_cons_of_neg (by simpa using h), firstIncomplete]

theorem firstIncomplete_cons_of_incomplete (h : state.expectedNodeResult ≠
    answers.nodeResult state) : firstIncomplete answers (state :: states) = some state :=
  find?_cons_of_pos (by simpa using h)

theorem firstIncomplete_append : firstIncomplete answers (states ++ states') =
    (firstIncomplete answers states).or (firstIncomplete answers states') :=
  find?_append

theorem complete_of_firstIncomplete_eq_none (hsmall : Small states)
    (h : firstIncomplete answers states = none) :
    ∀ s ∈ states.map answers.segment, s.done = s.size := by
  intro s hs
  obtain ⟨state, hstate, rfl⟩ := mem_map.mp hs
  have hcomplete := find?_eq_none.mp h state hstate
  exact (Answers.segment_complete_iff (hsmall state hstate).1 (hsmall state hstate).2).mpr
    (by simpa using hcomplete)

variable {first num i : UInt32} {done : FirstWriteDone}

theorem writefileVerify_complete (h : firstIncomplete answers states = none) :
    (writefileVerify answers first num i outWritten done states).ok := by
  induction states generalizing i outWritten done with
  | nil => rfl
  | cons state states ih =>
    by_cases hstate : state.expectedNodeResult = answers.nodeResult state
    · rw [firstIncomplete_cons_of_complete hstate] at h
      rw [writefileVerify]
      simp only [if_pos hstate]
      exact ih h
    · exact absurd ((firstIncomplete_cons_of_incomplete hstate).symm.trans h) (by simp)

/-- The verifier counts the bytes written up to the first piece that is not complete; an error
replaces the count. -/
theorem writefileVerify_incomplete (hsmall : Small states)
    (h : firstIncomplete answers states = some state) :
    (writefileVerify answers first num i (Int64.ofNat acc) done states).ok = false ∧
    (writefileVerify answers first num i (Int64.ofNat acc) done states).outWritten =
      if answers.nodeResult state ≥ 0 then
        Int64.ofNat (acc + transferred (states.map answers.segment))
      else answers.nodeResult state := by
  induction states generalizing i acc done with
  | nil => simp [firstIncomplete] at h
  | cons t states ih =>
    obtain ⟨hpos, hlt⟩ := hsmall t mem_cons_self
    have hsegment : (answers.segment t).done = (answers.segment t).size ↔
        t.expectedNodeResult = answers.nodeResult t := Answers.segment_complete_iff hpos hlt
    rw [writefileVerify, map_cons, transferred]
    simp only [ge_iff_le, answers.le_expected t, if_true]
    by_cases ht : t.expectedNodeResult = answers.nodeResult t
    · rw [firstIncomplete_cons_of_complete ht] at h
      rw [if_pos ht, if_pos (hsegment.mpr ht), ← ht, FileState.expectedNodeResult, Word.toInt64_eq,
        ← Int64.ofNat_add, ← add_assoc]
      exact ih (fun s hs => hsmall s (mem_cons_of_mem t hs)) h
    · obtain rfl : t = state :=
        Option.some.inj ((firstIncomplete_cons_of_incomplete ht).symm.trans h)
      rw [if_neg ht, if_neg (mt hsegment.mp ht)]
      refine ⟨rfl, ?_⟩
      split_ifs with hnonneg
      · rw [Int64.ofNat_add]
        exact congrArg (Int64.ofNat acc + ·) (Int64.ofNat_toNatClampNeg _ hnonneg).symm
      · rfl

/-! ## All rounds -/

variable (num) (retVal : Int64) (done) {rounds : List Round}

theorem writeRounds_complete (h : firstIncomplete answers (rounds.flatMap Round.states) = none) :
    (writeRounds answers num retVal done rounds).retVal = retVal ∧
      (writeRounds answers num retVal done rounds).sent = rounds := by
  induction rounds generalizing done with
  | nil => exact ⟨rfl, rfl⟩
  | cons round rounds ih =>
    rw [flatMap_cons, firstIncomplete_append, Option.or_eq_none_iff] at h
    rw [writeRounds]
    simp only [writefileVerify_complete h.1, if_true]
    obtain ⟨hret, hsent⟩ := ih (writefileVerify answers round.firstTargetIndex num 0 0 done
      round.states).firstWriteDone h.2
    exact ⟨hret, congrArg (round :: ·) hsent⟩

/-- The call ends with the round of the first piece that is not complete, and returns what was
counted in this round. -/
theorem writeRounds_incomplete (hsmall : Small (rounds.flatMap Round.states))
    (h : firstIncomplete answers (rounds.flatMap Round.states) = some state) :
    ∃ before round after, rounds = before ++ round :: after ∧
      firstIncomplete answers (before.flatMap Round.states) = none ∧
      firstIncomplete answers round.states = some state ∧
      (writeRounds answers num retVal done rounds).sent = before ++ [round] ∧
      (writeRounds answers num retVal done rounds).retVal =
        if answers.nodeResult state ≥ 0 then
          Int64.ofNat (transferred (round.states.map answers.segment))
        else answers.nodeResult state := by
  induction rounds generalizing done with
  | nil => simp [firstIncomplete] at h
  | cons round rounds ih =>
    rw [flatMap_cons] at h hsmall
    rw [firstIncomplete_append] at h
    cases hround : firstIncomplete answers round.states with
    | none =>
      rw [hround, Option.none_or] at h
      obtain ⟨before, last, after, rfl, hbefore, hlast, hsent, hret⟩ :=
        ih (writefileVerify answers round.firstTargetIndex num 0 0 done
          round.states).firstWriteDone (fun s hs => hsmall s (mem_append_right _ hs)) h
      refine ⟨round :: before, last, after, rfl, ?_, hlast, ?_⟩
      · rw [flatMap_cons, firstIncomplete_append, hround, hbefore]
        rfl
      · rw [writeRounds]
        simp only [writefileVerify_complete hround, if_true]
        exact ⟨congrArg (round :: ·) hsent, hret⟩
    | some t =>
      rw [hround, Option.some_or] at h
      obtain rfl := Option.some.inj h
      obtain ⟨hok, hout⟩ : (writefileVerify answers round.firstTargetIndex num 0 (Int64.ofNat 0)
          done round.states).ok = false ∧ _ :=
        writefileVerify_incomplete (fun s hs => hsmall s (mem_append_left _ hs)) hround
      rw [zero_add] at hout
      refine ⟨[], round, rounds, rfl, rfl, hround, ?_⟩
      rw [writeRounds, show (0 : Int64) = Int64.ofNat 0 from rfl]
      simp only [hok, Bool.false_eq_true, if_false]
      exact ⟨rfl, hout⟩

section Call
variable (type : StripePatternType) (pattern : StripePattern) (alloc : UInt64 → Bool)
  (serializeWrites : Bool) (offset : Int64) (count : UInt64)

abbrev stripeRounds : List Round :=
  (writeSplitter type pattern alloc serializeWrites).rounds offset count

theorem small_stripeRounds : Small
    ((stripeRounds type pattern alloc serializeWrites offset count).flatMap Round.states) := by
  obtain ⟨cur, hcut, -⟩ :=
    (writeSplitter type pattern alloc serializeWrites).rounds_cut (fun _ => rfl) offset count
  intro state hstate
  obtain ⟨hpos, hle⟩ := hcut.totalSize_pos state hstate
  exact ⟨hpos, (hle.trans_lt pattern.chunk_lt).trans (by norm_num)⟩

theorem consecutive_stripeRounds (answers : Answers) : Segment.Consecutive 0
    (((stripeRounds type pattern alloc serializeWrites offset count).flatMap
      Round.states).map answers.segment) :=
  Splitter.rounds_consecutive _ (fun _ => rfl) _ _ (fun _ => rfl) (fun _ => rfl)

theorem total_stripeRounds (answers : Answers) : total
    (((stripeRounds type pattern alloc serializeWrites offset count).flatMap
      Round.states).map answers.segment) = count.toNat :=
  Splitter.rounds_total _ (fun _ => rfl) _ _ (fun _ => rfl)

theorem length_stripeRounds_le :
    ∀ round ∈ stripeRounds type pattern alloc serializeWrites offset count,
      round.states.length ≤ pattern.layout.width :=
  Splitter.roundsFrom_forall (fun _ _ => Splitter.length_round_le) _ _

theorem transferred_round_lt (answers : Answers) {round : Round}
    (hround : round ∈ stripeRounds type pattern alloc serializeWrites offset count) :
    transferred (round.states.map answers.segment) < 2 ^ 63 := by
  obtain ⟨cur, hcut, -⟩ :=
    (writeSplitter type pattern alloc serializeWrites).rounds_cut (fun _ => rfl) offset count
  have hlen := length_stripeRounds_le type pattern alloc serializeWrites offset count round hround
  have hsum : (round.states.map fun s => s.totalSize.toNat).sum < 2 ^ 63 :=
    Splitter.sum_round_lt (writeSplitter type pattern alloc serializeWrites) hlen
      fun s hs => (hcut.totalSize_pos s (mem_flatMap.mpr ⟨round, hround, hs⟩)).2
  refine transferred_le_total.trans_lt ?_
  rw [total, map_map]
  exact hsum

end Call

variable {sent before after : List Round} {round : Round}

theorem isGreatest_sent (answers : Answers) (after : List Round) (h : Segment.Consecutive 0
      (((sent ++ after).flatMap Round.states).map answers.segment)) :
    IsGreatest {n : ℕ | ∀ b < n, Acknowledged answers sent b}
      (transferred ((sent.flatMap Round.states).map answers.segment)) := by
  rw [flatMap_append, map_append, Segment.Consecutive.append_iff] at h
  have hgreatest := isGreatest_transferred h.1
  simp only [zero_add] at hgreatest
  simpa only [Answers.acknowledged_iff_covers] using hgreatest

theorem notShortLater_of_complete (h : firstIncomplete answers
    (rounds.flatMap Round.states) = none) : NotShortLater answers rounds := by
  cases rounds with
  | nil => trivial
  | cons first rest =>
    rw [flatMap_cons, firstIncomplete_append, Option.or_eq_none_iff] at h
    intro _ state hstate
    rw [h.2] at hstate
    cases hstate

theorem total_pos (hstates : ∀ round ∈ before, round.states ≠ [])
    (hsmall : Small (before.flatMap Round.states)) (hne : before ≠ []) (answers : Answers) :
    0 < total ((before.flatMap Round.states).map answers.segment) := by
  obtain ⟨first, rest, rfl⟩ := exists_cons_of_ne_nil hne
  obtain ⟨state, states, hstate⟩ :=
    exists_cons_of_ne_nil (hstates first mem_cons_self)
  have hpos := (hsmall state (by simp [hstate])).1
  rw [flatMap_cons, hstate, cons_append, map_cons, total_cons]
  exact Nat.add_pos_left hpos _

section
variable (hbefore : firstIncomplete answers (before.flatMap Round.states) = none)
include hbefore

/-- The bytes of all rounds up to the one that ends the call. -/
theorem transferred_sent (hsmall : Small (before.flatMap Round.states)) :
    transferred (((before ++ [round]).flatMap Round.states).map answers.segment) =
      total ((before.flatMap Round.states).map answers.segment) +
        transferred (round.states.map answers.segment) := by
  rw [flatMap_append, map_append, transferred_append_of_complete
    (complete_of_firstIncomplete_eq_none hsmall hbefore), flatMap_singleton]

theorem notShortLater_iff (hround : firstIncomplete answers round.states = some state) :
    NotShortLater answers (before ++ round :: after) ↔ before = [] ∨ answers.nodeResult
    state < 0 := by
  cases before with
  | nil => simp [NotShortLater, hround]
  | cons first before =>
    rw [flatMap_cons, firstIncomplete_append, Option.or_eq_none_iff] at hbefore
    simp [NotShortLater, hbefore, firstIncomplete_append, hround]

/-- The result of a call whose first incomplete piece wrote something, or nothing, but did not
fail. -/
theorem isGreatest_iff_of_short (hsmall : Small (before.flatMap Round.states))
    (hstates : ∀ round ∈ before, round.states ≠ [])
    (hconsecutive : Segment.Consecutive 0
      (((before ++ round :: after).flatMap Round.states).map answers.segment))
    (hlt : transferred (round.states.map answers.segment) < 2 ^ 63) :
    IsGreatest {n : ℕ | ∀ b < n, Acknowledged answers (before ++ [round]) b} (Int64.ofNat
          (transferred (round.states.map answers.segment))).toNatClampNeg ↔
      before = [] := by
  have happend : before ++ round :: after = (before ++ [round]) ++ after := by simp
  have hgreatest := isGreatest_sent answers after (happend ▸ hconsecutive)
  rw [transferred_sent hbefore hsmall] at hgreatest
  rw [Int64.toNatClampNeg_ofNat_of_lt hlt]
  constructor
  · intro h
    by_contra hne
    have hpos := total_pos hstates hsmall hne answers
    have heq := h.unique hgreatest
    omega
  · rintro rfl
    simpa using hgreatest

end

/-- If a call returns a length, then it is the length of the longest prefix of the request that
the targets acknowledged, exactly if the first piece that was not written completely is in the
first round or failed. -/
theorem writefileVec_eq_acknowledged_iff (answers : Answers) (type : StripePatternType)
    (pattern : StripePattern) (alloc : UInt64 → Bool) (serializeWrites : Bool) (offset : Int64)
    (count : UInt64) (firstWriteDone : FirstWriteDone) :
    (0 ≤ (writefileVec answers type pattern alloc serializeWrites offset count
        firstWriteDone).retVal →
      IsGreatest {n : ℕ | ∀ b < n, Acknowledged answers (writefileVec answers type pattern alloc
          serializeWrites offset count firstWriteDone).sent b}
        (writefileVec answers type pattern alloc serializeWrites offset count
          firstWriteDone).retVal.toNatClampNeg) ↔
    NotShortLater answers (stripeRounds type pattern alloc serializeWrites offset count) := by
  have hsmall := small_stripeRounds type pattern alloc serializeWrites offset count
  have hconsecutive :=
    consecutive_stripeRounds type pattern alloc serializeWrites offset count answers
  have htotal := total_stripeRounds type pattern alloc serializeWrites offset count answers
  cases hfirst : firstIncomplete answers
      ((stripeRounds type pattern alloc serializeWrites offset count).flatMap Round.states) with
  | none =>
    refine iff_of_true (fun hnonneg => ?_) (notShortLater_of_complete hfirst)
    obtain ⟨hret, hsent⟩ := writeRounds_complete
      (writeSplitter type pattern alloc serializeWrites).numStripeTargets firstWriteDone
      count.toInt64 hfirst
    have hgreatest := isGreatest_sent answers [] (by simpa using hconsecutive)
    rw [transferred_of_complete (complete_of_firstIncomplete_eq_none hsmall hfirst),
      htotal] at hgreatest
    rw [writefileVec, hret] at hnonneg ⊢
    rw [hsent, Word.toNatClampNeg_toInt64 hnonneg]
    exact hgreatest
  | some state =>
    obtain ⟨before, round, after, heq, hbefore, hround, hsent, hret⟩ := writeRounds_incomplete
      (writeSplitter type pattern alloc serializeWrites).numStripeTargets firstWriteDone
      count.toInt64 hsmall hfirst
    have hmem : ∀ r ∈ before ++ round :: after, r.states ≠ [] := fun r hr =>
      Splitter.rounds_states_ne_nil _ (fun _ => rfl) offset count r (heq ▸ hr)
    have hlt := transferred_round_lt type pattern alloc serializeWrites offset count answers
      (heq ▸ mem_append_right before mem_cons_self)
    rw [heq] at hsmall hconsecutive
    rw [heq, notShortLater_iff hbefore hround, writefileVec, hret, hsent]
    by_cases hfail : answers.nodeResult state ≥ 0
    · rw [if_pos hfail, isGreatest_iff_of_short hbefore (fun s hs => hsmall s (by simp [hs]))
        (fun r hr => hmem r (mem_append_left _ hr)) hconsecutive hlt]
      have hnonneg : (0 : Int64) ≤ Int64.ofNat (transferred (round.states.map answers.segment)) :=
        (Int64.ofNat_le_iff_le (by norm_num) hlt).mpr (Nat.zero_le _)
      simp [hnonneg, Int64.not_lt.mpr hfail]
    · rw [if_neg hfail]
      exact iff_of_true (fun h => absurd h hfail) (.inr (Int64.not_le.mp hfail))

/-- One target with chunks of 64 KiB. -/
def oneTarget : StripePattern where
  chunkSize := 0x10000
  stripeTargetIDs := [1]
  chunkSize_pow := ⟨16, rfl⟩
  targets_pos := by decide
  targets_lt := by decide

/-- The target writes the first piece of a request, and at most 100 bytes of every other. -/
def diskFull : Answers where
  nodeResult state :=
    if state.data.pos = 0 then state.expectedNodeResult
    else if state.expectedNodeResult ≤ 100 then state.expectedNodeResult else 100
  le_expected state := by
    split
    · exact Int64.le_refl _
    · split
      · exact Int64.le_refl _
      · exact Int64.le_of_lt (Int64.not_le.mp ‹_›)

def twoChunks : Written :=
  writefileVec diskFull .raid0 oneTarget (fun _ => true) false 0 0x20000 fun _ => false

/-- Of two chunks the target writes the first one and 100 bytes of the second one. The call
returns 100. -/
theorem writefileVec_forgets_first_round : twoChunks.retVal = 100 ∧
    ∀ b < 0x10000 + 100, Acknowledged diskFull twoChunks.sent b := by
  refine ⟨by decide +kernel, fun b hb => ?_⟩
  by_cases hfirst : b < 0x10000
  · refine ⟨_, mem_cons_self, _, mem_cons_self, Nat.zero_le b, ?_⟩
    exact (show (b : ℤ) < 0 + 0x10000 by omega)
  · refine ⟨_, mem_cons_of_mem _ mem_cons_self, _, mem_cons_self, not_lt.mp hfirst, ?_⟩
    exact (show (b : ℤ) < 0x10000 + 100 by omega)

end Congfs.FhgfsOpsRemoting
