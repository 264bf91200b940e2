import Congfs.Storage.WriteBlocks

/-!
# A write request takes its payload from the connection

Every way through the request receives the payload once, except one: when a block cannot be sent to
the secondary, the bytes that are still to be received are counted with the block that was received
already.
-/

namespace Congfs.Storage

open Extent

variable (env : WriteEnv) (msg : WriteLocalFileMsg)

/-- What becomes of the pieces of a rest that is received and dropped: nothing if one cannot be
received, or else whether they were all sent to the secondary. -/
def drainLoop : (fuel piece toBeReceived : ℕ) → Option Bool
  | 0, _, _ => some true
  | fuel + 1, piece, toBeReceived =>
    if toBeReceived = 0 then some true
    else (env.padRecvs piece).bind fun more =>
      (drainLoop fuel (piece + 1) (toBeReceived - min (more + 1)
        (min toBeReceived env.bufferLength))).map ((env.padSends piece).first && ·)

def drain (padLen : ℕ) : Option Bool := drainLoop env padLen 0 padLen

/-- The retries that are left if the request has been sent to the secondary. -/
def mirrorConnection : Option ℕ :=
  if msg.buddyMirrorForward ∧ env.secondaryTargetID ≠ 0 ∧ env.referenceErr = 0 ∧
      ∃ state ∈ env.secondaryState, state.reachabilityState ≠ .offline ∧
        (state.reachabilityState = .online ∧ state.consistencyState = .good ∨
          state.consistencyState = .needsResync) then
    connectMirror env.connects mirrorRetriesNum 0
  else none

section
variable {env msg} {st : WriteState} {padLen fuel piece left : ℕ} {conn : Option ℕ}

/-- What receiving the rest leaves as it was. -/
structure Drained (n : ℕ) (st st' : WriteState) : Prop where
  received : st'.received = st.received + n
  chunk : st'.chunk = st.chunk
  resync : st'.buddyNeedsResync = st.buddyNeedsResync
  none : st.mirrorToSock = none → st'.mirrorToSock = none

theorem Drained.trans (h : Drained m st st') (h' : Drained n st' st'') :
    Drained (m + n) st st'' where
  received := by rw [h'.received, h.received, add_assoc]
  chunk := h'.chunk.trans h.chunk
  resync := h'.resync.trans h.resync
  none := h'.none ∘ h.none

theorem recvPaddingLoop_piece (hne : left ≠ 0) (hrecv : env.padRecvs piece = some more) :
    ∃ recvRes sent, recvPaddingLoop env msg padLen (fuel + 1) piece left st =
        recvPaddingLoop env msg padLen fuel (piece + 1) (left - recvRes) sent ∧
      drainLoop env (fuel + 1) piece left =
        (drainLoop env fuel (piece + 1) (left - recvRes)).map ((env.padSends piece).first && ·) ∧
      0 < recvRes ∧ recvRes ≤ left ∧ Drained recvRes st sent ∧
      ∀ {offset count}, left < msg.count →
        st.mirrorToSock = some ⟨offset, count, payload env st.received⟩ →
        sent.mirrorToSock = if (env.padSends piece).first then
          some ⟨offset, count, payload env sent.received⟩ else none := by
  have hbuf := env.bufferLength_pos
  obtain ⟨recvRes, hrecvRes⟩ : ∃ recvRes, recvRes = min (more + 1) (min left env.bufferLength) :=
    ⟨_, rfl⟩
  obtain ⟨sent, hsent⟩ :
    ∃ sent, sent = (sendToMirror msg (env.padSends piece) (recvBuf env st recvRes)
      (msg.offset + padLen - left) left
      { st with received := st.received + recvRes }).2 := ⟨_, rfl⟩
  have hrest := hsent.trans (sendToMirror_rest ..)
  have hreceived : sent.received = st.received + recvRes := by rw [hrest]
  refine ⟨recvRes, sent, ?_, ?_, by omega, by omega, ⟨hreceived, ?_, ?_, fun hnone => ?_⟩,
    fun hlt hsock => ?_⟩
  · rw [recvPaddingLoop, if_neg hne, hrecv, hsent, hrecvRes]
  · rw [drainLoop, if_neg hne, hrecv, hrecvRes, Option.bind_some]
  · rw [hrest]
  · rw [hrest]
  · simp only [hsent, sendToMirror, hnone]
  · rw [hreceived, hsent]
    simp only [sendToMirror, hsock]
    split
    · dsimp only
      rw [recvBuf_eq rfl]
    · exact (retryMirror_of_ne hlt.ne).2

theorem recvPaddingLoop_spec (hfuel : left ≤ fuel) :
    (recvPaddingLoop env msg padLen fuel piece left st).1 =
        (drainLoop env fuel piece left).isSome ∧
      ((drainLoop env fuel piece left).isSome →
        Drained left st (recvPaddingLoop env msg padLen fuel piece left st).2) := by
  induction fuel generalizing piece left st with
  | zero =>
    rw [Nat.le_zero.mp hfuel]
    exact ⟨rfl, fun _ => ⟨rfl, rfl, rfl, id⟩⟩
  | succ fuel ih =>
    by_cases hzero : left = 0
    · rw [recvPaddingLoop, drainLoop, if_pos hzero, if_pos hzero, hzero]
      exact ⟨rfl, fun _ => ⟨rfl, rfl, rfl, id⟩⟩
    cases hrecv : env.padRecvs piece with
    | none =>
      rw [recvPaddingLoop, drainLoop, if_neg hzero, if_neg hzero, hrecv]
      exact ⟨rfl, fun hsome => absurd hsome Bool.false_ne_true⟩
    | some more =>
      obtain ⟨recvRes, sent, hloop, hdrain, hpos, hle, hpiece, -⟩ :=
        recvPaddingLoop_piece hzero hrecv
      obtain ⟨hres, hdrained⟩ := @ih sent (piece + 1) (left - recvRes) (by omega)
      rw [hloop, hdrain, Option.isSome_map]
      refine ⟨hres, fun hsome => ?_⟩
      have hall := hpiece.trans (hdrained hsome)
      rwa [Nat.add_sub_cancel' hle] at hall

theorem paddedResult_spec (padLen : ℕ) (result : ℤ) (st : WriteState) :
    ((paddedResult env msg padLen result st).1 = (drain env padLen).map fun _ => result) ∧
      ((drain env padLen).isSome → Drained padLen st (paddedResult env msg padLen
      result st).2) := by
  obtain ⟨hres, hdrained⟩ := @recvPaddingLoop_spec env msg st padLen padLen 0 padLen le_rfl
  rw [paddedResult, incrementalRecvPadding]
  dsimp only at hres hdrained ⊢
  refine ⟨?_, hdrained⟩
  rw [hres, drain]
  cases drainLoop env padLen 0 padLen <;> rfl

theorem drained_of_paddedResult (h : (paddedResult env msg padLen result st).1 = some res) :
    res = result ∧ Drained padLen st (paddedResult env msg padLen result st).2 := by
  obtain ⟨hres, hdrained⟩ := @paddedResult_spec env msg padLen result st
  rw [hres, Option.map_eq_some_iff] at h
  obtain ⟨forwarded, hdrain, rfl⟩ := h
  exact ⟨rfl, hdrained (by rw [hdrain]; rfl)⟩

/-! ## Before the loop -/

theorem mirrorConnection_of_not_forward (h : ¬msg.buddyMirrorForward) :
    mirrorConnection env msg = none :=
  if_neg fun hall => h hall.1

/-- The loop starts with the connection that the environment gives; a secondary that is left out
needs a resync. -/
theorem prepareMirroring_spec (chunk : ℤ → Option UInt8) :
    ((prepareMirroring env msg (.init chunk)).1 = 0 →
      AtBlock env msg (mirrorConnection env msg) (msg.buddyMirrorForward &&
        (mirrorConnection env msg).isNone) 0 (prepareMirroring env msg (.init chunk)).2) ∧
    ((prepareMirroring env msg (.init chunk)).1 ≠ 0 → mirrorConnection env msg = none ∧
      (prepareMirroring env msg (.init chunk)).2.received = 0 ∧
      (prepareMirroring env msg (.init chunk)).2.mirrorToSock = none) := by
  have hatBlock : ∀ conn sock retries resync,
      (sock = conn.map fun _ => (⟨msg.offset, msg.count, []⟩ : MirrorSocket)) →
      (∀ r ∈ conn, retries = r) →
      AtBlock env msg conn resync 0 ⟨sock, retries, 0, chunk, resync⟩ := by
    intro conn sock retries resync hsock hretries
    have hzero : 0 * exactStaticRecvSize env = 0 := Nat.zero_mul _
    refine ⟨⟨hzero.symm, fun _ => ?_, ?_, rfl⟩, hzero.symm ▸ msg.count_pos, fun _ => hretries⟩
    · rw [hzero]
      exact .nil
    · rw [hzero]
      exact hsock
  rw [prepareMirroring]
  split
  · rename_i hforward
    have hconn := @mirrorConnection_of_not_forward env msg hforward
    rw [hconn, Bool.eq_false_iff.mpr hforward]
    exact ⟨fun _ => hatBlock none none _ false rfl (fun _ hmem => (by cases hmem)), fun hne =>
      absurd rfl hne⟩
  rename_i hforward
  rw [not_not] at hforward
  rw [hforward, Bool.true_and]
  split
  · rename_i htarget
    have hconn : mirrorConnection env msg = none := if_neg fun hall => hall.2.1 htarget
    exact ⟨fun hzero => (by cases hzero), fun _ => ⟨hconn, rfl, rfl⟩⟩
  rename_i htarget
  cases hstate : env.secondaryState with
  | none =>
    have hconn : mirrorConnection env msg = none := by
      refine if_neg fun ⟨_, _, _, state, hmem, _⟩ => ?_
      rw [hstate] at hmem
      cases hmem
    exact ⟨fun hzero => (by cases hzero), fun _ => ⟨hconn, rfl, rfl⟩⟩
  | some state =>
    dsimp only
    split
    · rename_i hoffline
      have hconn : mirrorConnection env msg = none := by
        refine if_neg fun ⟨_, _, _, state', hmem, hnot, _⟩ => ?_
        rw [hstate] at hmem
        cases hmem
        exact hnot hoffline
      rw [hconn]
      exact ⟨fun _ => hatBlock none none _ true rfl (fun _ hmem => (by cases hmem)), fun hne =>
        absurd rfl hne⟩
    rename_i hoffline
    split
    · rename_i hunclear
      have hconn : mirrorConnection env msg = none := by
        refine if_neg fun ⟨_, _, _, state', hmem, _, hclear⟩ => ?_
        rw [hstate] at hmem
        cases hmem
        rcases hclear with ⟨honline, hgood⟩ | hneeds
        · exact hunclear.1.elim (fun h => h honline) fun h => h hgood
        · exact hunclear.2 hneeds
      exact ⟨fun hzero => (by cases hzero), fun _ => ⟨hconn, rfl, rfl⟩⟩
    rename_i hclear
    split
    · rename_i herr
      have hconn : mirrorConnection env msg = none := if_neg fun hall => herr hall.2.2.1
      exact ⟨fun hzero => absurd hzero herr, fun _ => ⟨hconn, rfl, rfl⟩⟩
    rename_i herr
    have hconn : mirrorConnection env msg = connectMirror env.connects mirrorRetriesNum 0 := by
      refine if_pos ⟨hforward, htarget, not_not.mp herr, state, hstate, hoffline, ?_⟩
      by_cases hneeds : state.consistencyState = .needsResync
      · exact .inr hneeds
      · have hgood := mt (not_and_not_right.mp hclear) hneeds
        rw [not_or, not_not, not_not] at hgood
        exact .inl hgood
    rw [hconn, WriteState.init]
    cases connectMirror env.connects mirrorRetriesNum 0 with
    | none => exact ⟨fun hzero => (by cases hzero), fun _ => ⟨rfl, rfl, rfl⟩⟩
    | some retries =>
      refine ⟨fun _ => hatBlock (some retries) _ _ false rfl fun r hmem => ?_, fun hne =>
        absurd rfl hne⟩
      exact Option.some.inj hmem

/-! ## The whole request -/

theorem finishMirroring_received : (finishMirroring env msg st).2.received = st.received := by
  rw [finishMirroring]
  split
  · rfl
  · split
    · rfl
    · split
      · rfl
      · split
        · rfl
        · split <;> rfl

theorem cleanup_received : (cleanup env msg res st).2.received = st.received :=
  finishMirroring_received

/-- Behind the part with the socket, the client gets a response only if nothing was thrown. -/
theorem of_catchSocket (h : (catchSocket env msg result).1 = .returned true res) :
    ∃ r, result.1 = some r ∧ (catchSocket env msg result) = cleanup env msg r result.2 := by
  rw [catchSocket] at h ⊢
  cases hresult : result.1 with
  | none =>
    rw [hresult] at h
    cases h
  | some r => exact ⟨r, rfl, rfl⟩

end

def QuotaStops : Prop := msg.useQuota ∧ env.quotaEnableEnforcement ∧ env.quotaExceeded

/-- A block of the payload cannot be sent to the secondary, before anything else stops the
request. -/
def MirrorFails : Prop :=
  ¬QuotaStops env msg ∧ openFile env msg = 0 ∧
    ∃ block, FirstStop env msg (mirrorConnection env msg) block .send

section
variable {env msg} {chunk : ℤ → Option UInt8}

/-- The ways to a response: the payload is dropped, or the loop runs. -/
theorem write_cases (h : (write env msg (.init chunk)).1 = .returned true res) :
    (∃ (result : ℤ) (st : WriteState), st.received = 0 ∧ st.mirrorToSock = none ∧ result ≤ 0 ∧
        ¬MirrorFails env msg ∧ (paddedResult env msg msg.count result st).1 = some result ∧
        write env msg (.init chunk) =
          cleanup env msg result (paddedResult env msg msg.count result st).2) ∨
    (¬QuotaStops env msg ∧ openFile env msg = 0 ∧ (prepareMirroring env msg (.init chunk)).1 = 0 ∧
      ∃ r, (loopAt env msg 0 msg.count (prepareMirroring env msg (.init chunk)).2).1 = some r ∧
        write env msg (.init chunk) =
          cleanup env msg r (loopAt env msg 0 msg.count
          (prepareMirroring env msg (.init chunk)).2).2) := by
  rw [write] at h ⊢
  split at h
  · cases h
  rename_i hknown
  rw [if_neg hknown]
  split at h
  · rename_i hquota
    rw [if_pos hquota]
    generalize hpadded : paddedResult env msg msg.count (-Err.dquot) (.init chunk) = padded at h
    obtain ⟨r, st⟩ := padded
    cases r with
    | none => cases h
    | some r =>
      have hr := (drained_of_paddedResult (congrArg Prod.fst hpadded)).1
      subst hr
      refine .inl ⟨_, _, rfl, rfl, by decide, fun hfails => hfails.1 hquota,
        congrArg Prod.fst hpadded, ?_⟩
      rw [hpadded]
  rename_i hquota
  rw [if_neg hquota]
  split at h
  · rename_i hopen
    rw [if_pos hopen]
    obtain ⟨r, hr, hcatch⟩ := of_catchSocket h
    obtain rfl := (drained_of_paddedResult hr).1
    exact .inl ⟨_, _, rfl, rfl, by omega, fun hfails => hopen hfails.2.1, hr, hcatch⟩
  rename_i hopen
  rw [if_neg hopen]
  obtain ⟨-, hfailed⟩ := @prepareMirroring_spec env msg chunk
  dsimp only at h ⊢
  split_ifs at h with hprep
  · rw [if_pos hprep]
    obtain ⟨hconn, hreceived, hsock⟩ := hfailed hprep
    obtain ⟨r, hr, hcatch⟩ := of_catchSocket h
    obtain rfl := (drained_of_paddedResult hr).1
    refine .inl ⟨_, _, hreceived, hsock, by omega, fun ⟨_, _, block, hstop⟩ => ?_, hr, hcatch⟩
    rw [hconn] at hstop
    exact not_firstStop_send_none hstop
  · rw [if_neg hprep]
    obtain ⟨r, hr, hcatch⟩ := of_catchSocket h
    rw [incrementalRecvAndWriteStateful_eq] at hr hcatch ⊢
    exact .inr ⟨hquota, not_not.mp hopen, not_not.mp hprep, r, hr, hcatch⟩

/-- The response is behind exactly the payload unless sending a block to the secondary has
failed. -/
theorem received_iff {res : ℤ} (h : (write env msg (.init chunk)).1 = .returned true res) :
    (write env msg (.init chunk)).2.received = msg.count ↔ ¬MirrorFails env msg := by
  rcases write_cases h with ⟨result, st, hreceived, -, -, hfails, hpadded, hwrite⟩ |
    ⟨hquota, hopen, hprep, r, hr, hwrite⟩
  · rw [hwrite, cleanup_received, (drained_of_paddedResult hpadded).2.received,
      hreceived, zero_add]
    exact ⟨fun _ => hfails, fun _ => rfl⟩
  · rw [hwrite, cleanup_received]
    have hstart := (@prepareMirroring_spec env msg chunk).1 hprep
    rcases hstart.loopAt_run (Nat.sub_le _ _) (fun before hlt =>
      absurd hlt (Nat.not_lt_zero before)) with
      ⟨hnone, st', hprogress, hloop⟩ | ⟨block, stop, st', fuel', hfirst, hblock, hloop⟩
    · rw [hloop]
      exact ⟨fun _ ⟨_, _, block, hstop⟩ => hnone.not_firstStop hstop, fun _ => hprogress.received⟩
    · rw [hloop] at hr ⊢
      cases stop with
      | recv =>
        rw [loopAt_recv hfirst.2.1] at hr
        cases hr
      | send =>
        obtain ⟨sent, hreceived, hsend⟩ := @AtBlock.loopAt_send _ _ _ _ _ _ fuel' hblock hfirst.2.1
        rw [hsend] at hr ⊢
        rw [(drained_of_paddedResult hr).2.received, hreceived]
        have hpos := blockLen_pos hblock.lt
        exact ⟨fun heq => by omega, fun hnot => absurd ⟨hquota, hopen, block, hfirst⟩ hnot⟩
      | write written =>
        obtain ⟨-, st'', result, hsent, -, -, hpadded⟩ :=
          @AtBlock.loopAt_write _ _ _ _ _ _ fuel' hblock _ hfirst.2.1
        rw [hpadded] at hr ⊢
        rw [(drained_of_paddedResult hr).2.received, hsent.received]
        have hle := @blockLen_le env msg block
        have hlt := hblock.lt
        refine ⟨fun _ ⟨_, _, block', hstop⟩ => ?_, fun _ => by omega⟩
        cases (hfirst.unique hstop).2

/-- Everything works: blocks of two bytes, and a secondary that is reachable and good. -/
def steadyEnv : WriteEnv where
  bufferLength := 2
  bufferLength_pos := by decide
  tuneFileWriteSize := 2
  tuneFileWriteSize_pos := by decide
  isDirectIO := false
  quotaEnableEnforcement := false
  targetKnown := true
  isServerCrashed := some false
  quotaExceeded := false
  fdValid := true
  consistencyState := .good
  openChunkRes := 0
  secondaryTargetID := 2
  secondaryState := some ⟨.online, .good⟩
  referenceErr := 0
  input := UInt8.ofNat
  recvs := fun _ => true
  padRecvs := fun _ => some 1
  pwrites := fun _ _ => .wrote 1
  connects := fun _ => true
  sends := fun _ => ⟨true, fun _ => true⟩
  padSends := fun _ => ⟨true, fun _ => true⟩
  answer := some 4

def mirroredMsg : WriteLocalFileMsg where
  offset := 0
  count := 4
  count_pos := by decide
  buddyMirror := true
  buddyMirrorForward := true
  buddyMirrorSecond := false
  disableIO := false
  useQuota := false
  sessionCheck := false

theorem received_iff_steadyEnv :
    (write steadyEnv mirroredMsg (.init fun _ => none)).1 = .returned true 4 ∧
      ((write steadyEnv mirroredMsg (.init fun _ => none)).2.received = 4 ↔
        ¬MirrorFails steadyEnv mirroredMsg) :=
  ⟨by decide +kernel, @received_iff _ _ _ 4 (by decide +kernel)⟩

/-- The second block cannot be sent on: two bytes of the next message are dropped. -/
theorem received_beyond_payload :
    ∃ env, (write env mirroredMsg (.init fun _ => none)).1 = .returned true (-3) ∧
      (write env mirroredMsg (.init fun _ => none)).2.received = mirroredMsg.count + 2 :=
  ⟨{ steadyEnv with sends := fun block => ⟨decide (block = 0), fun _ => true⟩ }, by decide +kernel,
    by decide +kernel⟩

end
end Congfs.Storage
