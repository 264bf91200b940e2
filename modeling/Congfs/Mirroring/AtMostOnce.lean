import Congfs.Mirroring.MirroredMessage

/-!
# A request is executed at most once

What a request acknowledges is not in use when its number is acquired, and numbers that are acquired
later are larger (`AckOk`). So the slot of a number stays in the map as long as the client has the
number, and a copy finds it there.
-/

namespace Congfs.Mirroring

open StdMap
open List

/-! ## Numbers of the client -/

namespace GroupUse

open MirrorBuddyGroup

variable {use use' : GroupUse} {seqNo : UInt64} {caller : SeqNoHandle}

/-- Numbers that are new are larger than all before. -/
structure Later (use use' : GroupUse) : Prop where
  sequence : use.group.sequence.toNat ≤ use'.group.sequence.toNat
  held : ∀ seqNo ∈ use'.held.map Prod.snd,
    seqNo ∈ use.held.map Prod.snd ∨ use.group.sequence.toNat < seqNo.toNat

theorem Later.refl : Later use use := ⟨le_rfl, fun _ => .inl⟩

theorem mem_held_acquire (hmay : use.MayAcquire caller)
    (hmem : seqNo ∈ (use.step (.acquire caller)).held.map Prod.snd) :
    seqNo ∈ use.held.map Prod.snd ∨ seqNo = use.group.sequence + 1 ∧ use.group.sequence ≠ 0 := by
  rw [Inv.step_acquire hmay] at hmem
  by_cases hsequence : use.group.sequence = 0
  · rw [acquireSequenceNumber, if_pos hsequence] at hmem
    exact .inl hmem
  · rcases Inv.acquire_cases hsequence caller with ⟨-, heq⟩ | ⟨-, heq⟩ <;> rw [heq] at hmem <;>
      rcases mem_cons.mp hmem with rfl | hmem
    · exact .inr ⟨rfl, hsequence⟩
    · exact .inl hmem
    · exact .inr ⟨rfl, hsequence⟩
    · exact .inl hmem

theorem sequence_acquire (hmay : use.MayAcquire caller) :
    (use.step (.acquire caller)).group.sequence =
      if use.group.sequence = 0 then 0 else use.group.sequence + 1 := by
  rw [Inv.step_acquire hmay]
  split_ifs with hsequence
  · rw [acquireSequenceNumber, if_pos hsequence]
    exact hsequence
  · rcases Inv.acquire_cases hsequence caller with ⟨-, heq⟩ | ⟨-, heq⟩ <;> rw [heq] <;> rfl

theorem later_step (hregular : use.Regular action) : Later use (use.step action) := by
  cases action with
  | enter =>
    rw [step]
    split
    · exact .refl
    · exact ⟨le_rfl, fun _ => .inl⟩
  | acquire caller =>
    by_cases hmay : use.MayAcquire caller
    · refine ⟨?_, fun seqNo hmem => ?_⟩
      · rw [sequence_acquire hmay]
        split_ifs with hsequence
        · rw [hsequence]
        · rw [sequence_succ hregular]
          exact Nat.le_succ _
      · rcases mem_held_acquire hmay hmem with hmem | ⟨rfl, -⟩
        · exact .inl hmem
        · rw [sequence_succ hregular]
          exact .inr (Nat.lt_succ_self _)
    · rw [step, if_neg hmay]
      exact .refl
  | release caller =>
    rw [step]
    split
    · exact .refl
    · refine ⟨(congrArg _ (releaseSequenceNumber_sequence _ _)).ge, fun seqNo hmem => .inl ?_⟩
      obtain ⟨pair, hpair, rfl⟩ := mem_map.mp hmem
      exact mem_map_of_mem (mem_of_mem_filter hpair)
  | leave =>
    rw [step]
    split
    · exact .refl
    · exact ⟨le_rfl, fun _ => .inl⟩
  | setSeqNoBase seqNoBase =>
    rw [step, setSeqNoBase]
    split_ifs with hlt
    · exact ⟨(UInt64.lt_iff_toNat_lt.mp hlt).le, fun _ => .inl⟩
    · exact .refl

/-- What a header acknowledges is not in use, and never will be. -/
structure AckOk (use : GroupUse) (header : RequestHeader) : Prop where
  known : header.msgSequenceDone.toNat ≤ use.group.sequence.toNat
  unused : if header.isSelectiveAck then header.msgSequenceDone ∉ use.held.map Prod.snd
    else ∀ seqNo ∈ use.held.map Prod.snd, header.msgSequenceDone < seqNo

theorem AckOk.later (h : use.AckOk header) (hlater : Later use use') : use'.AckOk header where
  known := h.known.trans hlater.sequence
  unused := by
    have hunused := h.unused
    have hknown := h.known
    split_ifs at hunused with hselective
    · rw [if_pos hselective]
      intro hmem
      rcases hlater.held _ hmem with hmem | hlt
      · exact hunused hmem
      · omega
    · rw [if_neg hselective]
      intro seqNo hmem
      rcases hlater.held _ hmem with hmem | hlt
      · exact hunused seqNo hmem
      · exact UInt64.lt_iff_toNat_lt.mpr (by omega)

/-- Also if the flag is left from an earlier number of the same request. -/
theorem Inv.ackOk_acquire (h : use.Inv) (hregular : use.Regular (.acquire caller))
    (hmay : use.MayAcquire caller) (header : RequestHeader)
    (hseqNo : (header.acquire (use.group.acquireSequenceNumber caller).1).msgSequence ≠ 0) :
    (use.step (.acquire caller)).AckOk
    (header.acquire (use.group.acquireSequenceNumber caller).1) := by
  cases hacquired : (use.group.acquireSequenceNumber caller).1 with
  | none =>
    rw [hacquired] at hseqNo
    exact absurd rfl hseqNo
  | some acquired =>
    have hsafe := h.ackSafe (.acquire caller) hregular hmay acquired hacquired
    have hinv := h.step (.acquire caller) hregular
    have hlater := later_step hregular
    split_ifs at hsafe with hselective
    · refine ⟨(h.released _ hsafe.1).1.trans hlater.sequence, ?_⟩
      simp only [RequestHeader.acquire, hselective, Bool.or_true, if_true]
      exact hsafe.2
    · have hnew : acquired.seqNo ∈ (use.step (.acquire caller)).held.map Prod.snd := by
        rw [step_acquire hmay, GroupUse.acquired, hacquired]
        exact mem_cons_self
      obtain ⟨slot, hslot, hvalue⟩ := hinv.mem_held.mp hnew
      have hbounded := (hinv.valid.bounded slot hslot).2
      have hlt := UInt64.lt_iff_toNat_lt.mp (hsafe _ hnew)
      rw [hvalue] at hbounded
      refine ⟨(hlt.trans_le hbounded).le, ?_⟩
      by_cases hflag : (header.acquire (some acquired)).isSelectiveAck
      · rw [if_pos hflag]
        exact fun hmem => UInt64.lt_irrefl _ (hsafe _ hmem)
      · rw [if_neg hflag]
        exact hsafe

end GroupUse

/-! ## Requests and executions -/

namespace MirroredRequests

variable {ρ : Type*} {s : MirroredRequests ρ} {caller : SeqNoHandle} {seqNo : UInt64}
    {header : RequestHeader}
  {response : ρ}

structure AtMostOnce (s : MirroredRequests ρ) : Prop where
  once : (s.executions.map Execution.seqNo).Nodup
  answered : ∀ seqNo response, (seqNo, Reply.response response) ∈ s.replies →
    ∃ execution ∈ s.executions, execution.seqNo = seqNo ∧ execution.outcome = some response

/-- The steps of the client are regular for its group. -/
def Regular (s : MirroredRequests ρ) : Event ρ → Prop
  | .acquire caller => s.use.Regular (.acquire caller)
  | .dropNumber caller | .exit caller => s.use.Regular (.release caller)
  | _ => True

instance regularDecidable (s : MirroredRequests ρ) : (event : Event ρ) → Decidable (s.Regular event)
  | .acquire caller => inferInstanceAs (Decidable (s.use.Regular (.acquire caller)))
  | .dropNumber caller | .exit caller =>
    inferInstanceAs (Decidable (s.use.Regular (.release caller)))
  | .newRequest _ | .enter | .send _ | .deliver _ | .finish _ _ | .newSeqNoBase _ | .leave =>
    inferInstanceAs (Decidable True)

/-- Executions are known by their place, which is also that of their slot. -/
structure Inv (s : MirroredRequests ρ) : Prop where
  use : s.use.Inv
  headers : ∀ caller, (s.headers caller).msgSequence ≠ 0 → s.use.AckOk (s.headers caller)
  sent : ∀ header ∈ s.sent, header.msgSequence ≠ 0 → s.use.AckOk header
  known : ∀ execution ∈ s.executions, execution.seqNo.toNat ≤ s.use.group.sequence.toNat
  slots : s.session.slots = s.executions.map fun execution => ⟨execution.outcome⟩
  mirrorState : ∀ index (execution : Execution ρ), s.executions[index]? = some execution →
    execution.mirrorState = index
  entries : ∀ seqNo slot, s.session.mirrorProcessState.find seqNo = some slot →
    ∃ execution : Execution ρ, s.executions[slot]? = some execution ∧ execution.seqNo = seqNo
  kept : ∀ index (execution : Execution ρ), s.executions[index]? = some execution →
    execution.seqNo ∈ s.use.held.map Prod.snd →
      s.session.mirrorProcessState.find execution.seqNo = some index
  once : (s.executions.map Execution.seqNo).Nodup
  answered : ∀ seqNo response, (seqNo, Reply.response response) ∈ s.replies →
    ∃ execution ∈ s.executions, execution.seqNo = seqNo ∧ execution.outcome = some response

namespace Inv

section
variable (h : s.Inv)
include h

theorem atMostOnce : s.AtMostOnce := ⟨h.once, h.answered⟩

theorem groupStep (action : GroupUse.Action) (hregular : s.use.Regular action) :
    (s.groupStep action).Inv := by
  have hlater := GroupUse.later_step hregular
  refine ⟨h.use.step action hregular, fun caller hne => (h.headers caller hne).later hlater,
    fun header hmem hne => (h.sent header hmem hne).later hlater,
    fun exec hmem => (h.known exec hmem).trans hlater.sequence, h.slots, h.mirrorState, h.entries,
    fun index exec hindex hmem => ?_, h.once, h.answered⟩
  rcases hlater.held _ hmem with hmem | hlt
  · exact h.kept index exec hindex hmem
  · have hknown := h.known exec (mem_of_getElem? hindex)
    omega

theorem setHeader (hheader : header.msgSequence ≠ 0 → s.use.AckOk header) :
    (s.setHeader caller header).Inv := by
  refine ⟨h.use, fun caller' hne => ?_, h.sent, h.known, h.slots, h.mirrorState, h.entries,
    h.kept, h.once, h.answered⟩
  simp only [MirroredRequests.setHeader] at hne ⊢
  rw [Function.update_apply] at hne ⊢
  split_ifs at hne with heq
  · rw [if_pos heq]
    exact hheader hne
  · rw [if_neg heq]
    exact h.headers caller' hne

theorem send (caller : SeqNoHandle) : (s.step (.send caller)).Inv := by
  refine ⟨h.use, h.headers, fun header hmem hne => ?_, h.known, h.slots, h.mirrorState,
    h.entries, h.kept, h.once, h.answered⟩
  rcases mem_append.mp hmem with hmem | hmem
  · exact h.sent header hmem hne
  · rw [mem_singleton] at hmem
    subst hmem
    exact h.headers caller hne

theorem acquire (hregular : s.Regular (.acquire caller)) : (s.step (.acquire caller)).Inv := by
  rw [step]
  split_ifs with hmay
  · exact (h.groupStep (.acquire caller) hregular).setHeader (h.use.ackOk_acquire hregular hmay.2 _)
  · exact h

theorem reply {reply : Reply ρ} (hreply : ∀ response, reply = .response response →
    ∃ exec ∈ s.executions, exec.seqNo = seqNo ∧ exec.outcome = some response) :
    Inv { s with replies := s.replies ++ [(seqNo, reply)] } := by
  refine ⟨h.use, h.headers, h.sent, h.known, h.slots, h.mirrorState, h.entries, h.kept, h.once,
    fun seqNo' response hmem => ?_⟩
  rcases mem_append.mp hmem with hmem | hmem
  · exact h.answered seqNo' response hmem
  · rw [mem_singleton, Prod.mk.injEq] at hmem
    obtain ⟨rfl, heq⟩ := hmem
    exact hreply response heq.symm

theorem drop {mirrorProcessState : StdMap ℕ ((· < ·) : UInt64 → UInt64 → Prop)}
    (hsub : ∀ seqNo slot, mirrorProcessState.find seqNo = some slot →
      s.session.mirrorProcessState.find seqNo = some slot)
    (hheld : ∀ seqNo ∈ s.use.held.map Prod.snd,
      mirrorProcessState.find seqNo = s.session.mirrorProcessState.find seqNo) :
    Inv { s with session := { s.session with mirrorProcessState := mirrorProcessState } } :=
  ⟨h.use, h.headers, h.sent, h.known, h.slots, h.mirrorState,
    fun seqNo slot hfind => h.entries seqNo slot (hsub seqNo slot hfind),
    fun index exec hindex hmem => (hheld _ hmem).trans (h.kept index exec hindex hmem), h.once,
    h.answered⟩

theorem execute (hheld : seqNo ∈ s.use.held.map Prod.snd)
    (hnew : s.session.mirrorProcessState.find seqNo = none) :
    Inv { s with
        session :=
          { slots := s.session.slots ++ [⟨none⟩]
            mirrorProcessState := s.session.mirrorProcessState.assign seqNo s.session.slots.length }
        executions := s.executions ++ [⟨seqNo, s.session.slots.length, none⟩] } := by
  have hlength : s.session.slots.length = s.executions.length := by rw [h.slots, length_map]
  have hfresh : seqNo ∉ s.executions.map Execution.seqNo := by
    intro hmem
    obtain ⟨exec, hexecution, rfl⟩ := mem_map.mp hmem
    obtain ⟨index, hindex⟩ := getElem?_of_mem hexecution
    cases hnew.symm.trans (h.kept index exec hindex hheld)
  have hcases : ∀ index exec,
      (s.executions ++ [⟨seqNo, s.session.slots.length, none⟩])[index]? = some exec →
      s.executions[index]? = some exec ∨
        index = s.executions.length ∧ exec = ⟨seqNo, s.executions.length, none⟩ := by
    intro index exec hindex
    rw [getElem?_append] at hindex
    split_ifs at hindex with hge
    · exact .inl hindex
    · have hzero : index - s.executions.length = 0 := by
        by_contra hne
        rw [getElem?_eq_none (by rw [length_singleton]; omega)] at hindex
        cases hindex
      rw [hzero] at hindex
      exact .inr ⟨by omega, (Option.some.inj hindex).symm.trans (by rw [hlength])⟩
  refine ⟨h.use, h.headers, h.sent, fun exec hmem => ?_, ?_, fun index exec hindex => ?_,
    fun seqNo' slot hfind => ?_, fun index exec hindex hmem =>
    ?_, ?_, fun seqNo' response hmem => ?_⟩
  · rcases mem_append.mp hmem with hmem | hmem
    · exact h.known exec hmem
    · rw [mem_singleton] at hmem
      obtain ⟨slot, hslot, hvalue⟩ := h.use.mem_held.mp hheld
      have hbounded := (h.use.valid.bounded slot hslot).2
      rw [hmem, ← hvalue]
      exact hbounded
  · rw [map_append, ← h.slots]
    rfl
  · rcases hcases index exec hindex with hindex | ⟨rfl, rfl⟩
    · exact h.mirrorState index exec hindex
    · rfl
  · by_cases heq : seqNo' = seqNo
    · subst heq
      rw [find_assign_self, Option.some.injEq] at hfind
      subst hfind
      refine ⟨⟨seqNo', s.session.slots.length, none⟩, ?_, rfl⟩
      rw [hlength, getElem?_append_right le_rfl, Nat.sub_self]
      rfl
    · dsimp only at hfind
      rw [find_assign_of_ne heq] at hfind
      obtain ⟨exec, hindex, hseqNo⟩ := h.entries seqNo' slot hfind
      refine ⟨exec, ?_, hseqNo⟩
      rw [getElem?_append_left (List.getElem?_eq_some_iff.mp hindex).1]
      exact hindex
  · dsimp only
    rcases hcases index exec hindex with hold | ⟨rfl, rfl⟩
    · have hne : exec.seqNo ≠ seqNo := by
        rintro rfl
        exact hfresh (mem_map_of_mem (mem_of_getElem? hold))
      rw [find_assign_of_ne hne]
      exact h.kept index exec hold hmem
    · rw [find_assign_self, hlength]
  · rw [map_append, nodup_append]
    refine ⟨h.once, nodup_singleton _, fun a ha b hb heq => ?_⟩
    rw [map_singleton, mem_singleton] at hb
    rw [heq, hb] at ha
    exact hfresh ha
  · obtain ⟨exec, hexecution, hanswer⟩ := h.answered seqNo' response hmem
    exact ⟨exec, mem_append_left _ hexecution, hanswer⟩

theorem insertSlot (hheld : seqNo ∈ s.use.held.map Prod.snd) :
    (s.processSlot seqNo (s.session.insertSlot seqNo)).Inv := by
  rw [Session.insertSlot]
  cases hfind : s.session.mirrorProcessState.find seqNo with
  | none => exact h.execute hheld hfind
  | some slot =>
    obtain ⟨exec, hindex, hseqNo⟩ := h.entries seqNo slot hfind
    refine h.reply fun response hresponse => ⟨exec, mem_of_getElem? hindex, hseqNo, ?_⟩
    rw [h.slots, getElem?_map, hindex] at hresponse
    dsimp only [Option.map_some, Option.bind_some] at hresponse
    cases houtcome : exec.outcome with
    | none =>
      rw [houtcome] at hresponse
      cases hresponse
    | some outcome =>
      rw [houtcome] at hresponse
      cases hresponse
      rfl

theorem processIncoming (hmem : header ∈ s.sent) (hmay : s.MayDeliver header) :
    (s.processIncoming header).Inv := by
  rw [MirroredRequests.processIncoming]
  split
  · exact h.reply fun _ hreply => (by cases hreply)
  · rename_i hne
    have hheld : header.msgSequence ∈ s.use.held.map Prod.snd := hmay.resolve_left hne
    have hack := (h.sent header hmem hne).unused
    split_ifs with hselective
    · rw [if_pos hselective] at hack
      refine insertSlot (s := { s with session :=
        { s.session with
          mirrorProcessState := s.session.mirrorProcessState.erase header.msgSequenceDone } })
        (h.drop (fun seqNo slot hfind => ?_) fun seqNo hseqNo => ?_) hheld
      · rw [find_erase] at hfind
        split at hfind
        · cases hfind
        · exact hfind
      · rw [find_erase, if_neg]
        rintro rfl
        exact hack hseqNo
    · rw [if_neg hselective] at hack
      refine insertSlot (s := { s with session :=
        { s.session with
          mirrorProcessState := s.session.mirrorProcessState.eraseBelow
            (header.msgSequenceDone + 1) } })
        (h.drop (fun seqNo slot hfind => ?_) fun seqNo hseqNo => ?_) hheld
      · rw [find_eraseBelow] at hfind
        split at hfind
        · cases hfind
        · exact hfind
      · rw [find_eraseBelow, if_neg]
        have hlt := UInt64.lt_iff_toNat_lt.mp (hack seqNo hseqNo)
        rw [UInt64.lt_iff_toNat_lt, UInt64.toNat_add]
        have hone : (1 : UInt64).toNat = 1 := rfl
        omega

theorem finishOperation (hindex : s.executions[index]? = some exec)
    (houtcome : exec.outcome = none) (response : ρ) :
    (s.finishOperation index exec response).Inv := by
  obtain ⟨hlt, hget⟩ := List.getElem?_eq_some_iff.mp hindex
  -- Only the outcome of the one exec changes.
  have hback : ∀ (i : ℕ) (e : Execution ρ),
      (s.executions.set index { exec with outcome := some response })[i]? = some e →
      ∃ e0 : Execution ρ, s.executions[i]? = some e0 ∧ e.seqNo = e0.seqNo ∧ e.mirrorState =
      e0.mirrorState := by
    intro i e hi
    rw [getElem?_set] at hi
    split_ifs at hi with heq
    · rw [Option.some.injEq] at hi
      exact ⟨exec, heq ▸ hindex, hi ▸ rfl, hi ▸ rfl⟩
    · exact ⟨e, hi, rfl, rfl⟩
  have hforth : ∀ (i : ℕ) (e0 : Execution ρ), s.executions[i]? = some e0 → ∃ e : Execution ρ,
        (s.executions.set index { exec with outcome := some response })[i]? = some e ∧
          e.seqNo = e0.seqNo ∧ ∀ r, e0.outcome = some r → e.outcome = some r := by
    intro i e0 hi
    rw [getElem?_set]
    split_ifs with heq
    · rw [← heq, hindex, Option.some.injEq] at hi
      subst hi
      refine ⟨_, rfl, rfl, fun r hr => ?_⟩
      cases houtcome.symm.trans hr
    · exact ⟨e0, hi, rfl, fun _ => id⟩
  refine ⟨h.use, h.headers, h.sent, fun e hmem => ?_, ?_, fun i e hi =>
    ?_, fun seqNo slot hfind => ?_,
    fun i e hi hmem => ?_, ?_, fun seqNo r hmem => ?_⟩
  · obtain ⟨i, hi⟩ := getElem?_of_mem hmem
    obtain ⟨e0, hi0, hseqNo, -⟩ := hback i e hi
    rw [hseqNo]
    exact h.known e0 (mem_of_getElem? hi0)
  · simp only [MirroredRequests.finishOperation]
    rw [h.mirrorState index exec hindex, h.slots, map_set]
  · obtain ⟨e0, hi0, -, hmirrorState⟩ := hback i e hi
    rw [hmirrorState]
    exact h.mirrorState i e0 hi0
  · obtain ⟨e0, hi0, rfl⟩ := h.entries seqNo slot hfind
    obtain ⟨e, hi, hseqNo, -⟩ := hforth slot e0 hi0
    exact ⟨e, hi, hseqNo⟩
  · obtain ⟨e0, hi0, hseqNo, -⟩ := hback i e hi
    rw [hseqNo] at hmem ⊢
    exact h.kept i e0 hi0 hmem
  · have hsame : (s.executions.set index { exec with outcome := some response }).map
        Execution.seqNo = s.executions.map Execution.seqNo := by
      have hlt' : index < (s.executions.map Execution.seqNo).length := by rwa [length_map]
      have hget' : (s.executions.map Execution.seqNo)[index] = exec.seqNo := by
        rw [getElem_map, hget]
      rw [map_set, ← hget', set_getElem_self]
    simp only [MirroredRequests.finishOperation]
    rw [hsame]
    exact h.once
  · rcases mem_append.mp hmem with hmem | hmem
    · obtain ⟨e0, hmem0, rfl, hr⟩ := h.answered seqNo r hmem
      obtain ⟨i, hi0⟩ := getElem?_of_mem hmem0
      obtain ⟨e, hi, hseqNo, houtcome⟩ := hforth i e0 hi0
      exact ⟨e, mem_of_getElem? hi, hseqNo, houtcome r hr⟩
    · rw [mem_singleton, Prod.mk.injEq, Reply.response.injEq] at hmem
      obtain ⟨rfl, rfl⟩ := hmem
      exact ⟨_, mem_set hlt _, rfl, rfl⟩

theorem step (event : Event ρ) (hregular : s.Regular event) : (s.step event).Inv := by
  cases event with
  | newRequest caller =>
    rw [MirroredRequests.step]
    split
    · exact h
    · exact h.setHeader fun hne => absurd rfl hne
  | enter => exact h.groupStep .enter trivial
  | acquire caller => exact h.acquire hregular
  | send caller => exact h.send caller
  | deliver copy =>
    rw [MirroredRequests.step]
    split
    · exact h
    · rename_i header hcopy
      split_ifs with hmay
      · exact h.processIncoming (mem_of_getElem? hcopy) hmay
      · exact h
  | finish index response =>
    rw [MirroredRequests.step]
    split
    · exact h
    · rename_i exec hindex
      split_ifs with hnone
      · exact h
      · exact h.finishOperation hindex (Option.not_isSome_iff_eq_none.mp hnone) response
  | newSeqNoBase reply =>
    rw [MirroredRequests.step]
    split
    · exact h.groupStep (.setSeqNoBase _) trivial
    · exact h
  | dropNumber caller =>
    rw [MirroredRequests.step]
    split
    · exact (h.groupStep (.release caller) hregular).setHeader fun hne => absurd rfl hne
    · exact h
  | exit caller => exact h.groupStep (.release caller) hregular
  | leave => exact h.groupStep .leave trivial

end

theorem init (hpos : 1 ≤ doneBufferSize) (seqNoInFlight : ℕ → BuddySequenceNumber)
    (finishedSeqNums : ℕ → UInt64) (handles : SeqNoHandle → Option ℕ) :
    (MirroredRequests.init doneBufferSize seqNoInFlight finishedSeqNums handles :
    MirroredRequests ρ).Inv :=
  ⟨.init hpos seqNoInFlight finishedSeqNums handles, fun _ hne => absurd rfl hne, fun _ hmem =>
    (by cases hmem),
    fun _ hmem => (by cases hmem), rfl, fun _ _ hindex => (by cases hindex), fun _ _ hfind =>
      (by cases hfind),
    fun _ _ hindex => (by cases hindex), nodup_nil, fun _ _ hmem => (by cases hmem)⟩

end Inv

theorem atMostOnce_of_regular {doneBufferSize : ℕ} (hpos : 1 ≤ doneBufferSize)
    (seqNoInFlight : ℕ → BuddySequenceNumber) (finishedSeqNums : ℕ → UInt64)
    (handles : SeqNoHandle → Option ℕ) (events : List (Event ρ))
    (hregular : EveryStep step Regular (init doneBufferSize seqNoInFlight
    finishedSeqNums handles) events) :
    EveryState step AtMostOnce (init doneBufferSize seqNoInFlight finishedSeqNums handles) events :=
  everyState_of_inv (I := Inv) (fun _ event hc h => h.step event hc) (fun _ h => h.atMostOnce)
    (.init hpos seqNoInFlight finishedSeqNums handles) hregular

def emptyRequests (doneBufferSize : ℕ) : MirroredRequests ρ :=
  init doneBufferSize (fun _ => ⟨0, 0⟩) (fun _ => 0) fun _ => none

/-- The first request has no number, and the server tells where to start. -/
def started : List (Event ρ) := [.enter, .acquire 0, .send 0, .deliver 0, .newSeqNoBase 0]

/-- The response is lost, and the request is sent once more. -/
def sentTwice (response : ρ) : List (Event ρ) :=
  started ++ [.enter, .acquire 0, .send 0, .deliver 1, .finish 0 response, .send 0, .deliver 2,
    .exit 0, .leave]

theorem atMostOnce_sentTwice : (run step (emptyRequests 1) (sentTwice true)).replies =
        [(0, .newSeqNoBase 1), (2, .response true), (2, .response true)] ∧
      EveryState step AtMostOnce (emptyRequests 1) (sentTwice true) :=
  ⟨by decide +kernel, atMostOnce_of_regular (by decide) _ _ _ _ (by decide +kernel)⟩

/-- The request with number 4 is taken up; then other numbers are released and acquired until the
client acknowledges it; and then it is sent once more. -/
def acknowledgedEarly : List (Event Unit) :=
  started ++ ([0, 1, 2, 3, 4, 5, 6].flatMap fun caller => [.enter, .acquire caller]) ++
    [.send 2, .deliver 1] ++
    ([5, 1, 0].flatMap fun caller => [.exit caller, .leave, .newRequest caller, .enter,
    .acquire caller]) ++ [.enter, .acquire 7, .send 7, .deliver 2, .send 2, .deliver 3]

theorem executed_twice : ¬EveryState step AtMostOnce (emptyRequests 8) acknowledgedEarly := by
  intro h
  have honce := h.last.once
  exact absurd honce (by decide)

end MirroredRequests
end Congfs.Mirroring
