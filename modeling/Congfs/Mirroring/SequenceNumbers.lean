import Congfs.Mirroring.InFlight

/-!
# Numbers in flight and what is acknowledged

The numbers of the callers are those in the slots, and each handle has the address of its slot
(`Sound`). A number that is acknowledged is not in use any more (`AckSafe`). Both hold along every
run in which the releases find the right way up the heap, and the counter does not wrap.
-/

namespace Congfs.Mirroring.GroupUse

open MirrorBuddyGroup

variable {use : GroupUse} {handle : SeqNoHandle} {seqNo : UInt64}

structure Sound (use : GroupUse) : Prop where
  distinct : ∀ i j, i < use.group.inFlightSize → j < use.group.inFlightSize →
    (use.group.seqNoInFlight i).value = (use.group.seqNoInFlight j).value → i = j
  atMost : use.group.inFlightSize ≤ use.group.inFlightCapacity
  own : ∀ handle seqNo, (handle, seqNo) ∈ use.held ↔ ∃ slot < use.group.inFlightSize,
    use.group.handles handle = some slot ∧ use.group.seqNoInFlight slot = ⟨handle, seqNo⟩

/-- The acknowledgement that comes with a number is about numbers that no caller has. -/
def AckSafe (use : GroupUse) : Action → Prop
  | .acquire handle => use.MayAcquire handle →
    ∀ acquired, (use.group.acquireSequenceNumber handle).1 = some acquired →
      if acquired.isSelective then
        acquired.acknowledgeSeq ∈ use.released ∧
          acquired.acknowledgeSeq ∉ (use.step (.acquire handle)).held.map Prod.snd
      else ∀ seqNo ∈ (use.step (.acquire handle)).held.map Prod.snd, acquired.acknowledgeSeq < seqNo
  | _ => True

/-- The counter does not wrap, and a release finds the ancestors of its slot. -/
def Regular (use : GroupUse) : Action → Prop
  | .acquire _ => use.group.sequence + 1 ≠ 0
  | .release handle => ∀ slot ∈ use.group.handles handle, RightWay use.group.inFlightSize slot
  | _ => True

instance regularDecidable (use : GroupUse) : (action : Action) → Decidable (use.Regular action)
  | .acquire _ => inferInstanceAs (Decidable (_ ≠ _))
  | .release handle =>
    inferInstanceAs (Decidable (∀ slot ∈ use.group.handles handle,
      RightWay use.group.inFlightSize slot))
  | .enter | .leave | .setSeqNoBase _ => inferInstanceAs (Decidable True)

structure Inv (use : GroupUse) : Prop where
  valid : use.group.Valid
  slots : use.group.slotsAvail + use.entering + use.group.inFlightSize + use.leaving =
    use.group.inFlightCapacity
  ring : use.group.finishedCount + use.group.inFlightSize ≤ use.group.inFlightCapacity
  held : ∀ s : BuddySequenceNumber, (s.pSelf, s.value) ∈ use.held ↔ use.group.InFlight s
  released : ∀ seqNo ∈ use.released, seqNo.toNat ≤ use.group.sequence.toNat ∧
    ∀ s, use.group.InFlight s → s.value ≠ seqNo
  first : use.group.firstFinishedIndex < use.group.inFlightCapacity
  finished : ∀ k, k < use.group.finishedCount →
    use.group.finishedSeqNums ((use.group.firstFinishedIndex + k) %
    use.group.inFlightCapacity) ∈ use.released

namespace Inv

theorem init (hpos : 1 ≤ doneBufferSize) (seqNoInFlight : ℕ → BuddySequenceNumber)
    (finishedSeqNums : ℕ → UInt64) (handles : SeqNoHandle → Option ℕ) :
    (GroupUse.init doneBufferSize seqNoInFlight finishedSeqNums handles).Inv where
  valid := by
    have hnone :
      ∀ s, ¬(construct doneBufferSize seqNoInFlight finishedSeqNums handles).InFlight s := by
      rintro s ⟨k, hk, -⟩
      exact Nat.not_lt_zero k hk
    exact ⟨fun k hk => absurd hk (Nat.not_lt_zero k), fun s _ hs => absurd hs (hnone s),
      fun i _ hi => absurd hi (Nat.not_lt_zero i), fun s hs => absurd hs (hnone s)⟩
  slots := by simp only [GroupUse.init, construct, add_zero]
  ring := Nat.zero_le _
  held s := by
    refine ⟨fun hs => (by cases hs), ?_⟩
    rintro ⟨k, hk, -⟩
    exact absurd hk (Nat.not_lt_zero k)
  released seqNo hseqNo := by cases hseqNo
  first := hpos
  finished k hk := absurd hk (Nat.not_lt_zero k)

/-- Of what an acquisition returns, and of the ring behind it. -/
theorem acquire_cases (hsequence : use.group.sequence ≠ 0) (handle : SeqNoHandle) :
    0 < use.group.finishedCount ∧ use.group.acquireSequenceNumber handle =
      (some ⟨use.group.sequence + 1, use.group.finishedSeqNums use.group.firstFinishedIndex, true⟩,
        { use.group.addInFlight handle with
          firstFinishedIndex := (use.group.firstFinishedIndex + 1) % use.group.inFlightCapacity
          finishedCount := use.group.finishedCount - 1 }) ∨
    use.group.finishedCount = 0 ∧ use.group.acquireSequenceNumber handle =
      (some ⟨use.group.sequence + 1,
      ((use.group.addInFlight handle).seqNoInFlight 0).value - 1, false⟩,
        use.group.addInFlight handle) := by
  rw [acquireSequenceNumber, if_neg hsequence]
  dsimp only
  split_ifs with hcount
  · exact .inl ⟨hcount, rfl⟩
  · exact .inr ⟨Nat.eq_zero_of_not_pos hcount, rfl⟩

theorem step_acquire (hmay : use.MayAcquire handle) : use.step (.acquire handle) =
    use.acquired (use.group.acquireSequenceNumber handle) handle := if_pos hmay

section
variable (h : use.Inv)
include h

theorem sound : use.Sound where
  distinct i j hi hj heq := by
    have hslot := h.valid.distinct _ _ ⟨i, hi, rfl⟩ ⟨j, hj, rfl⟩ heq
    exact h.valid.linked.pSelf_inj hi hj (congrArg _ hslot)
  atMost := by
    have := h.slots
    omega
  own handle seqNo := by
    rw [h.held ⟨handle, seqNo⟩]
    constructor
    · rintro ⟨k, hk, hslot⟩
      have hlinked := h.valid.linked k hk
      rw [hslot] at hlinked
      exact ⟨k, hk, hlinked, hslot⟩
    · rintro ⟨k, hk, -, hslot⟩
      exact ⟨k, hk, hslot⟩

theorem congr {use' : GroupUse} (hgroup : use'.group = { use.group with
        sequence := use'.group.sequence
        slotsAvail := use'.group.slotsAvail
        handles := use'.group.handles })
    (hsequence : use.group.sequence.toNat ≤ use'.group.sequence.toNat)
    (hhandles : ∀ s, use.group.InFlight s → use'.group.handles s.pSelf = use.group.handles s.pSelf)
    (hslots : use'.group.slotsAvail + use'.entering + use.group.inFlightSize + use'.leaving =
      use.group.inFlightCapacity)
    (hheld : use'.held = use.held) (hreleased : use'.released = use.released) : use'.Inv := by
  have hseq : use'.group.seqNoInFlight = use.group.seqNoInFlight := by rw [hgroup]
  have hsize : use'.group.inFlightSize = use.group.inFlightSize := by rw [hgroup]
  have hcapacity : use'.group.inFlightCapacity = use.group.inFlightCapacity := by rw [hgroup]
  have hcount : use'.group.finishedCount = use.group.finishedCount := by rw [hgroup]
  have hfirst : use'.group.firstFinishedIndex = use.group.firstFinishedIndex := by rw [hgroup]
  have hnums : use'.group.finishedSeqNums = use.group.finishedSeqNums := by rw [hgroup]
  refine ⟨h.valid.congr hseq hsize hhandles hsequence, ?_, ?_, fun s =>
    ?_, fun seqNo hmem => ?_, ?_, ?_⟩
  · rw [hsize, hcapacity]
    exact hslots
  · rw [hcount, hsize, hcapacity]
    exact h.ring
  · rw [hheld, inFlight_congr hseq hsize]
    exact h.held s
  · rw [hreleased] at hmem
    obtain ⟨hle, hne⟩ := h.released seqNo hmem
    exact ⟨hle.trans hsequence, fun s hs => hne s ((inFlight_congr hseq hsize).mp hs)⟩
  · rw [hfirst, hcapacity]
    exact h.first
  · rw [hcount, hnums, hfirst, hcapacity, hreleased]
    exact h.finished

theorem enter : (use.step .enter).Inv := by
  rw [step]
  split
  · exact h
  · refine h.congr rfl le_rfl (fun _ _ => rfl) ?_ rfl rfl
    have := h.slots
    dsimp only
    omega

theorem leave : (use.step .leave).Inv := by
  rw [step]
  split
  · exact h
  · refine h.congr rfl le_rfl (fun _ _ => rfl) ?_ rfl rfl
    have := h.slots
    dsimp only
    omega

theorem setSeqNoBase (seqNoBase : UInt64) : (use.step (.setSeqNoBase seqNoBase)).Inv := by
  rw [step, MirrorBuddyGroup.setSeqNoBase]
  split_ifs with hlt
  · exact h.congr rfl (UInt64.lt_iff_toNat_lt.mp hlt).le (fun _ _ => rfl) h.slots rfl rfl
  · exact h

theorem fresh (hmay : use.MayAcquire handle) (s : BuddySequenceNumber)
    (hs : use.group.InFlight s) : s.pSelf ≠ handle := by
  rintro rfl
  exact hmay.2 (List.mem_map.mpr ⟨_, (h.held s).mpr hs, rfl⟩)

theorem acquired (hmay : use.MayAcquire handle) (hwrap : use.group.sequence + 1 ≠ 0)
    {group : MirrorBuddyGroup}
    (hgroup : group = { use.group.addInFlight handle with
        firstFinishedIndex := group.firstFinishedIndex
        finishedCount := group.finishedCount })
    (hring : group.finishedCount + (use.group.inFlightSize + 1) ≤ use.group.inFlightCapacity)
    (hfirst : group.firstFinishedIndex < use.group.inFlightCapacity)
    (hfinished : ∀ k, k < group.finishedCount →
      use.group.finishedSeqNums ((group.firstFinishedIndex + k) %
      use.group.inFlightCapacity) ∈ use.released) :
    Inv { use with
        group := group
        entering := use.entering - 1
        held := (handle, use.group.sequence + 1) :: use.held } := by
  have hseq : group.seqNoInFlight = (use.group.addInFlight handle).seqNoInFlight := by rw [hgroup]
  have hsize : group.inFlightSize = use.group.inFlightSize + 1 := by rw [hgroup]; rfl
  have hcapacity : group.inFlightCapacity = use.group.inFlightCapacity := by rw [hgroup]; rfl
  have hsequence : group.sequence = use.group.sequence + 1 := by rw [hgroup]; rfl
  have hinFlight : ∀ s, group.InFlight s ↔ use.group.InFlight s ∨ s =
    ⟨handle, use.group.sequence + 1⟩ :=
    fun s => (inFlight_congr hseq hsize).trans inFlight_addInFlight
  refine ⟨?_, ?_, ?_, fun s => ?_, fun seqNo hmem => ?_, ?_, fun k hk => ?_⟩
  · refine (h.valid.addInFlight (h.fresh hmay) hwrap).congr hseq hsize (fun s _ => ?_) ?_
    · rw [hgroup]
    · rw [hsequence]
      exact le_rfl
  · have hslots := h.slots
    have hentering := hmay.1
    have havail : group.slotsAvail = use.group.slotsAvail := by rw [hgroup]; rfl
    simp only [hsize, hcapacity, havail]
    omega
  · simp only [hsize, hcapacity]
    exact hring
  · rw [hinFlight, ← h.held s, List.mem_cons, or_comm]
    cases s
    simp only [Prod.mk.injEq, BuddySequenceNumber.mk.injEq]
  · obtain ⟨hle, hne⟩ := h.released seqNo hmem
    simp only [hsequence, sequence_succ hwrap]
    refine ⟨Nat.le_succ_of_le hle, fun s hs => ?_⟩
    rcases (hinFlight s).mp hs with hs | rfl
    · exact hne s hs
    · rintro rfl
      rw [sequence_succ hwrap] at hle
      omega
  · simp only [hcapacity]
    exact hfirst
  · have hnums : group.finishedSeqNums = use.group.finishedSeqNums := by rw [hgroup]; rfl
    simp only [hnums, hcapacity]
    exact hfinished k hk

theorem acquire (hwrap : use.group.sequence + 1 ≠ 0) : (use.step (.acquire handle)).Inv := by
  by_cases hmay : use.MayAcquire handle
  · rw [step_acquire hmay]
    by_cases hsequence : use.group.sequence = 0
    · rw [acquireSequenceNumber, if_pos hsequence]
      refine h.congr rfl le_rfl (fun s hs => ?_) ?_ rfl rfl
      · exact Function.update_of_ne (h.fresh hmay s hs) _ _
      · have hslots := h.slots
        have hentering := hmay.1
        simp only [GroupUse.acquired]
        omega
    · rcases acquire_cases hsequence handle with ⟨hcount, heq⟩ | ⟨hcount, heq⟩
      · rw [heq]
        refine h.acquired hmay hwrap rfl ?_ (Nat.mod_lt _ (Nat.zero_lt_of_lt h.first))
          fun k hk => ?_
        · have hring := h.ring
          dsimp only
          omega
        · have hk' : k + 1 < use.group.finishedCount := by
            dsimp only at hk
            omega
          have hmem := h.finished (k + 1) hk'
          rw [Nat.mod_add_mod, Nat.add_assoc, Nat.add_comm 1 k]
          exact hmem
      · rw [heq]
        have hnone : (use.group.addInFlight handle).finishedCount = 0 := hcount
        refine h.acquired hmay hwrap rfl ?_ h.first fun k hk => ?_
        · have hslots := h.slots
          have hentering := hmay.1
          rw [hnone]
          omega
        · rw [hnone] at hk
          exact absurd hk (Nat.not_lt_zero k)
  · rw [step, if_neg hmay]
    exact h

theorem finished_addFinished {value : UInt64}
    (hroom : use.group.finishedCount < use.group.inFlightCapacity) :
    (use.group.addFinished value).finishedCount = use.group.finishedCount + 1 ∧
      (use.group.addFinished value).firstFinishedIndex = use.group.firstFinishedIndex ∧
      ∀ k, k < use.group.finishedCount + 1 → (use.group.addFinished value).finishedSeqNums
          ((use.group.firstFinishedIndex + k) %
          use.group.inFlightCapacity) ∈ value :: use.released := by
  rw [addFinished, if_pos hroom]
  refine ⟨rfl, rfl, fun k hk => ?_⟩
  dsimp only
  rw [Function.update_apply]
  split_ifs with hne
  · exact List.mem_cons_self
  · rcases Nat.lt_succ_iff_lt_or_eq.mp hk with hk | rfl
    · exact List.mem_cons_of_mem _ (h.finished k hk)
    · exact absurd (congrArg (· % _) (Nat.add_succ_sub_one _ _).symm) hne

theorem release (hregular : use.Regular (.release handle)) : (use.step (.release handle)).Inv := by
  rw [step]
  cases hlookup : use.held.lookup handle with
  | none => exact h
  | some seqNo =>
    have hmem : (handle, seqNo) ∈ use.held := by
      obtain ⟨l1, l2, hl, -⟩ := List.lookup_eq_some_iff.mp hlookup
      rw [hl]
      exact List.mem_append_right l1 List.mem_cons_self
    obtain ⟨slot, hslot, hseqNo⟩ := (h.held ⟨handle, seqNo⟩).mp hmem
    have hhandle : use.group.handles handle = some slot := by
      have hlinked := h.valid.linked slot hslot
      rw [hseqNo] at hlinked
      exact hlinked
    have hrel := h.valid.release hhandle hslot (hregular slot hhandle)
    rw [hseqNo] at hrel
    have hadd := addFinished_rest use.group seqNo
    have hsame : ∀ s, (use.group.addFinished seqNo).InFlight s ↔ use.group.InFlight s := by
      intro s
      rw [hadd]
      exact .rfl
    have hold : ∀ s, (use.group.releaseSequenceNumber handle).InFlight s ↔
        use.group.InFlight s ∧ s ≠ ⟨handle, seqNo⟩ := by
      intro s
      rw [hrel.removed.slots, hsame]
    have hring := h.ring
    have hslots := h.slots
    obtain ⟨hcount, hfirst, hfinished⟩ := @finished_addFinished _ h seqNo (by omega)
    have hrest := hrel.removed.rest
    generalize use.group.releaseSequenceNumber handle = group at hrel hold hrest
    have hsize : group.inFlightSize = use.group.inFlightSize - 1 := by rw [hrest, hadd]
    have hcapacity : group.inFlightCapacity = use.group.inFlightCapacity := by rw [hrest, hadd]
    have hsequence : group.sequence = use.group.sequence := by rw [hrest, hadd]
    have havail : group.slotsAvail = use.group.slotsAvail := by rw [hrest, hadd]
    have hcount' : group.finishedCount = use.group.finishedCount + 1 := by rw [hrest, hcount]
    have hfirst' : group.firstFinishedIndex = use.group.firstFinishedIndex := by rw [hrest, hfirst]
    refine ⟨hrel.valid, ?_, ?_, fun s => ?_, fun seqNo' hreleased => ?_, ?_, fun k hk => ?_⟩
    · simp only [hsize, hcapacity, havail]
      omega
    · simp only [hsize, hcapacity, hcount']
      omega
    · rw [hold, ← h.held s, List.mem_filter, decide_eq_true_iff]
      refine and_congr_right fun hs => not_congr ⟨fun heq => ?_, fun heq => heq ▸ rfl⟩
      exact h.valid.linked.eq_of_pSelf ((h.held s).mp hs) ⟨slot, hslot, hseqNo⟩ heq
    · simp only [hsequence]
      rcases List.mem_cons.mp hreleased with rfl | hreleased
      · refine ⟨(h.valid.bounded _ ⟨slot, hslot, hseqNo⟩).2, fun s hs heq => ?_⟩
        obtain ⟨hs, hne⟩ := (hold s).mp hs
        exact hne (h.valid.distinct s _ hs ⟨slot, hslot, hseqNo⟩ heq)
      · obtain ⟨hle, hne⟩ := h.released seqNo' hreleased
        exact ⟨hle, fun s hs => hne s ((hold s).mp hs).1⟩
    · simp only [hfirst', hcapacity]
      exact h.first
    · simp only [hcount'] at hk
      have hnums :
        group.finishedSeqNums = (use.group.addFinished seqNo).finishedSeqNums := by rw [hrest]
      simp only [hnums, hfirst', hcapacity]
      exact hfinished k hk

theorem step (action : Action) (hregular : use.Regular action) : (use.step action).Inv := by
  cases action with
  | enter => exact h.enter
  | acquire handle => exact h.acquire hregular
  | release handle => exact h.release hregular
  | leave => exact h.leave
  | setSeqNoBase seqNoBase => exact h.setSeqNoBase seqNoBase

theorem mem_held : seqNo ∈ use.held.map Prod.snd ↔ ∃ s, use.group.InFlight s ∧ s.value = seqNo := by
  rw [List.mem_map]
  constructor
  · rintro ⟨⟨handle, seqNo⟩, hmem, rfl⟩
    exact ⟨⟨handle, seqNo⟩, (h.held ⟨handle, seqNo⟩).mp hmem, rfl⟩
  · rintro ⟨s, hs, rfl⟩
    exact ⟨_, (h.held s).mpr hs, rfl⟩

/-- The number before that of the root is below all others. -/
theorem root_pred_lt (hmem : seqNo ∈ use.held.map Prod.snd) :
    (use.group.seqNoInFlight 0).value - 1 < seqNo := by
  obtain ⟨s, ⟨k, hk, rfl⟩, rfl⟩ := h.mem_held.mp hmem
  have hroot := h.valid.ordered.root_le hk
  have hpos := (h.valid.bounded _ ⟨0, by omega, rfl⟩).1
  rw [UInt64.lt_iff_toNat_lt, UInt64.toNat_sub_of_le]
  · exact (Nat.sub_lt hpos Nat.one_pos).trans_le hroot
  · exact UInt64.le_iff_toNat_le.mpr hpos

theorem ackSafe (action : Action) (hregular : use.Regular action) : use.AckSafe action := by
  cases action with
  | enter | release | leave | setSeqNoBase => trivial
  | acquire handle =>
    intro hmay acquired hacquired
    have hinv := h.step (.acquire handle) hregular
    by_cases hsequence : use.group.sequence = 0
    · rw [acquireSequenceNumber, if_pos hsequence] at hacquired
      cases hacquired
    rcases acquire_cases hsequence handle with ⟨hcount, heq⟩ | ⟨hcount, heq⟩
    · rw [heq] at hacquired
      cases hacquired
      have hfinished := h.finished 0 hcount
      rw [Nat.add_zero, Nat.mod_eq_of_lt h.first] at hfinished
      have hreleased : use.group.finishedSeqNums use.group.firstFinishedIndex ∈
          (use.step (.acquire handle)).released := by
        rw [step_acquire hmay]
        exact hfinished
      refine (if_pos rfl).mpr ⟨hfinished, fun hheld => ?_⟩
      obtain ⟨s, hs, hvalue⟩ := hinv.mem_held.mp hheld
      exact (hinv.released _ hreleased).2 s hs hvalue
    · have hgroup : (use.step (.acquire handle)).group = use.group.addInFlight handle := by
        rw [step_acquire hmay, heq]
        rfl
      rw [heq] at hacquired
      cases hacquired
      refine (if_neg Bool.false_ne_true).mpr fun seqNo hmem => ?_
      have hlt := hinv.root_pred_lt hmem
      rw [hgroup] at hlt
      exact hlt

end

end Inv

/-- For callers that have a handle each, and release what they have acquired. -/
theorem sound_of_regular {doneBufferSize : ℕ} (hpos : 1 ≤ doneBufferSize)
    (seqNoInFlight : ℕ → BuddySequenceNumber) (finishedSeqNums : ℕ → UInt64)
    (handles : SeqNoHandle → Option ℕ) (actions : List Action)
    (hregular : EveryStep step Regular (init doneBufferSize seqNoInFlight
    finishedSeqNums handles) actions) :
    EveryState step Sound (init doneBufferSize seqNoInFlight finishedSeqNums handles) actions ∧
      EveryStep step AckSafe (init doneBufferSize seqNoInFlight finishedSeqNums handles)
      actions := by
  have hinit := Inv.init hpos seqNoInFlight finishedSeqNums handles
  exact ⟨everyState_of_inv (I := Inv) (fun _ action hc h => h.step action hc) (fun _ h => h.sound)
    hinit hregular,
    everyStep_of_inv (I := Inv) (fun _ action hc h => ⟨h.step action hc, h.ackSafe action hc⟩)
    hinit hregular⟩

def emptyGroup (doneBufferSize : ℕ) : GroupUse := init doneBufferSize (fun _ => ⟨0, 0⟩)
    (fun _ => 0) fun _ => none

/-- The older of two numbers is released, and acknowledged with the third. -/
def oneReleased : List Action :=
  [.setSeqNoBase 1, .enter, .acquire 0, .enter, .acquire 1, .release 0, .leave, .enter, .acquire 0]

theorem sound_oneReleased : EveryState step Sound (emptyGroup 2) oneReleased ∧
    EveryStep step AckSafe (emptyGroup 2) oneReleased :=
  sound_of_regular (by decide) _ _ _ _ (by decide +kernel)

/-- Seven numbers in flight, of which those in the slots 5, 2 and 0 are released, each with the next
number acquired behind it. -/
def outOfOrder : List Action :=
  .setSeqNoBase 1 :: ([0, 1, 2, 3, 4, 5, 6].flatMap fun handle => [.enter, .acquire handle]) ++
    ([5, 1, 0].flatMap fun handle => [.release handle, .leave, .enter, .acquire handle])

/-- The next request acknowledges everything up to 4, which is in flight. -/
theorem acknowledged_in_flight :
    ¬EveryStep step AckSafe (emptyGroup 8) (outOfOrder ++ [.enter, .acquire 7]) := by
  intro h
  have hsplit : outOfOrder ++ [.enter, .acquire 7] = (outOfOrder ++ [.enter]) ++
    .acquire 7 :: [] := by
    rw [List.append_assoc, List.singleton_append]
  rw [hsplit] at h
  have hack := h.run_left (by decide +kernel) ⟨12, 4, false⟩ (by decide +kernel)
  have hlt := (if_neg Bool.false_ne_true).mp hack 4 (by decide +kernel)
  exact absurd hlt (by decide)

end Congfs.Mirroring.GroupUse
