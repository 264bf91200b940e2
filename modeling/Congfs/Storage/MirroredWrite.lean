import Congfs.Storage.WritePayload

/-!
# Acknowledged writes are on both copies

The secondary stores what comes on its connection, as far as its answer says. The primary
acknowledges a write if that answer covers the whole payload. But it does not ask for the answer
when the connection is lost while the rest of the payload is dropped, behind a block that was
written in part.

What is acknowledged stays in the file (`holdsAt_writes`).
-/

namespace Congfs.Storage

open Extent

variable (env : WriteEnv) (msg : WriteLocalFileMsg)

/-- A file of the secondary that its answer allows: it has stored as many bytes as it says of those
that were sent. -/
def Answered (sock : Option MirrorSocket) (secondary : ℤ → Option UInt8) : Prop :=
  ∀ s ∈ sock, ∀ v : ℕ, env.answer = some (v : ℤ) → HoldsAt secondary s.offset (s.sent.take v)

/-- The secondary is left behind anyway. -/
def SecondaryBehind : Prop :=
  ∃ state ∈ env.secondaryState, state.reachabilityState = .offline ∨
    state.consistencyState = .needsResync

/-- What the response to the client means for both files. -/
def StoredOnBoth (chunk : ℤ → Option UInt8) : Prop :=
  ∀ v : ℕ, 0 < v → (write env msg (.init chunk)).1 = .returned true v →
    (v ≤ msg.count ∧ HoldsAt (write env msg (.init chunk)).2.chunk msg.offset (payload env v)) ∧
      ((write env msg (.init chunk)).2.buddyNeedsResync ∨ SecondaryBehind env ∨
        ∀ secondary, Answered env (write env msg (.init chunk)).2.mirrorToSock secondary →
          HoldsAt secondary msg.offset (payload env v))

/-- A block is written in part, and then the connection to a secondary that is good is lost with the
rest. -/
def LosesMirror : Prop :=
  env.targetKnown ∧ ¬QuotaStops env msg ∧ openFile env msg = 0 ∧ ¬serverCrashed env msg ∧
    (mirrorConnection env msg).isSome ∧ ¬SecondaryBehind env ∧
    ∃ block written, FirstStop env msg (mirrorConnection env msg) block (.write written) ∧
    0 < written ∧
      drain env (msg.count - block * exactStaticRecvSize env - blockLen env msg block) = some false

section
variable {env msg} {st : WriteState} {padLen fuel piece left : ℕ} {conn : Option ℕ} {block : ℕ}
  {resync : Bool}

/-! ## The rest of the payload -/

/-- The rest goes to the secondary as well, or the connection is closed. -/
theorem recvPaddingLoop_sock {offset : ℤ} {count : ℕ} {forwarded : Bool} (hfuel : left ≤ fuel)
    (hlt : left < msg.count)
    (hsock : st.mirrorToSock = some ⟨offset, count, payload env st.received⟩)
    (hdrain : drainLoop env fuel piece left = some forwarded) :
    (recvPaddingLoop env msg padLen fuel piece left st).2.mirrorToSock =
      if forwarded then some ⟨offset, count, payload env (st.received + left)⟩ else none := by
  induction fuel generalizing piece left st forwarded with
  | zero =>
    rw [Nat.le_zero.mp hfuel]
    cases hdrain
    exact hsock
  | succ fuel ih =>
    by_cases hzero : left = 0
    · rw [drainLoop, if_pos hzero] at hdrain
      cases hdrain
      rw [recvPaddingLoop, if_pos hzero, hzero]
      exact hsock
    cases hrecv : env.padRecvs piece with
    | none =>
      rw [drainLoop, if_neg hzero, hrecv] at hdrain
      cases hdrain
    | some more =>
      obtain ⟨recvRes, sent, hloop, heq, hpos, hle, hpiece, hsend⟩ :=
        recvPaddingLoop_piece hzero hrecv
      have hsend := hsend hlt hsock
      rw [heq, Option.map_eq_some_iff] at hdrain
      obtain ⟨tail, htail, rfl⟩ := hdrain
      rw [hloop]
      cases hfirst : (env.padSends piece).first with
      | false =>
        rw [hfirst, if_neg Bool.false_ne_true] at hsend
        have hsome : (drainLoop env fuel (piece + 1) (left - recvRes)).isSome := by
          rw [htail]
          rfl
        exact ((recvPaddingLoop_spec (by omega)).2 hsome).none hsend
      | true =>
        rw [hfirst, if_pos rfl] at hsend
        rw [@ih sent (piece + 1) (left - recvRes) tail (by omega) (by omega) hsend htail,
          hpiece.received, Bool.true_and, Nat.add_assoc, Nat.add_sub_cancel' hle]

/-! ## What the loop acknowledges -/

/-- The first `m` bytes were written, and all of the payload was sent to the secondary if it could
be. -/
structure Acked (env : WriteEnv) (msg : WriteLocalFileMsg) (conn : Option ℕ)
    (resync forwarded : Bool) (m : ℕ)
    (st : WriteState) : Prop where
  pos : 0 < m
  le : m ≤ msg.count
  chunk : HoldsAt st.chunk msg.offset (payload env m)
  sock : st.mirrorToSock =
    if forwarded then conn.map fun _ => ⟨msg.offset, msg.count, payload env msg.count⟩ else none
  resync : st.buddyNeedsResync = resync

theorem AtBlock.acked_write {written : ℕ} {sent : Bool} (h : AtBlock env msg conn resync block st)
    (hio : msg.disableIO = false) (hstop : stopAt env msg conn block = some (.write written))
    (hpos : 0 < written)
    (hdrain : drain env (msg.count - block * exactStaticRecvSize env - blockLen env msg block) =
      some sent) :
    (loopAt env msg block (fuel + 1) st).1 =
    some ((block * exactStaticRecvSize env + written : ℕ) : ℤ) ∧
      Acked env msg conn resync sent (block * exactStaticRecvSize env + written)
        (loopAt env msg block (fuel + 1) st).2 := by
  obtain ⟨rfl, st', result, hsent, hresult, -, hloop⟩ := @AtBlock.loopAt_write _ _ _ _ _ _
    fuel h _ hstop
  obtain ⟨hres, hdrained⟩ := @paddedResult_spec env msg
    (msg.count - block * exactStaticRecvSize env - blockLen env msg block) result st'
  rw [hdrain] at hres hdrained
  have hdrained' := hdrained rfl
  have hle := @blockLen_le env msg block
  have hle' := hsent.le
  rw [hloop]
  refine ⟨by rw [hres, hresult hpos]; rfl, by omega, by omega, ?_, ?_, ?_⟩
  · rw [hdrained'.chunk]
    exact hsent.chunk hio
  · cases conn with
    | none => rw [hdrained'.none hsent.sock, Option.map_none, ite_self]
    | some retries =>
      have hsock : st'.mirrorToSock = some ⟨msg.offset, msg.count, payload env st'.received⟩ := by
        rw [hsent.sock, hsent.received]
        rfl
      have hpadded := @recvPaddingLoop_sock env msg st'
        (msg.count - block * exactStaticRecvSize env - blockLen env msg block) _ 0 _ _ _ _
        le_rfl (by omega) hsock hdrain
      have hall : st'.received + (msg.count - block * exactStaticRecvSize env - blockLen
          env msg block) = msg.count := by
        rw [hsent.received]
        omega
      rw [hall] at hpadded
      exact hpadded
  · rw [hdrained'.resync]
    exact hsent.resync

/-- The loop leaves something to acknowledge, and whether the secondary got all of it. -/
def LocalAck (env : WriteEnv) (msg : WriteLocalFileMsg) (conn : Option ℕ)
    (forwarded : Bool) : Prop :=
  NoStop env msg conn ∧ forwarded ∨
    ∃ block written, FirstStop env msg conn block (.write written) ∧ 0 < written ∧
      drain env (msg.count - block * exactStaticRecvSize env - blockLen env msg block) =
      some forwarded

theorem AtBlock.acked_of_pos (h : AtBlock env msg conn resync 0 st) (hio : msg.disableIO = false)
    (hr : (loopAt env msg 0 msg.count st).1 = some r) (hpos : 0 < r) :
    ∃ forwarded, LocalAck env msg conn forwarded ∧ ∃ m : ℕ, r = m ∧
      Acked env msg conn resync forwarded m (loopAt env msg 0 msg.count st).2 := by
  rcases h.loopAt_run (Nat.sub_le _ _) (fun before hlt => absurd hlt (Nat.not_lt_zero before)) with
    ⟨hnone, st', hprogress, hloop⟩ | ⟨last, stop, st', fuel', hfirst, hblock, hloop⟩
  · rw [hloop] at hr ⊢
    refine ⟨true, .inl ⟨hnone, rfl⟩, msg.count, (Option.some.inj hr).symm, msg.count_pos, le_rfl,
      hprogress.chunk hio, hprogress.sock, hprogress.resync⟩
  · rw [hloop] at hr ⊢
    cases stop with
    | recv =>
      rw [loopAt_recv hfirst.2.1] at hr
      cases hr
    | send =>
      obtain ⟨sent, -, hsend⟩ := @AtBlock.loopAt_send _ _ _ _ _ _ fuel' hblock hfirst.2.1
      rw [hsend] at hr
      have hneg := (drained_of_paddedResult hr).1
      rw [hneg] at hpos
      exact absurd hpos (by decide)
    | write written =>
      obtain ⟨-, st'', result, hsent, hsome, hzero, hpadded⟩ :=
        @AtBlock.loopAt_write _ _ _ _ _ _ fuel' hblock _ hfirst.2.1
      have hr' := hr
      rw [hpadded] at hr'
      obtain ⟨rfl, -⟩ := drained_of_paddedResult hr'
      have hwritten : 0 < written := by
        by_contra hnot
        omega
      rw [(@paddedResult_spec env msg _ _ st'').1, Option.map_eq_some_iff] at hr'
      obtain ⟨forwarded, hdrain, -⟩ := hr'
      obtain ⟨hres, hacked⟩ := @AtBlock.acked_write _ _ _ fuel' _ _ _ _ _ hblock hio hfirst.2.1
        hwritten hdrain
      exact ⟨forwarded, .inr ⟨last, written, hfirst, hwritten, hdrain⟩, _, hsome hwritten, hacked⟩

theorem AtBlock.acked_of_lost (h : AtBlock env msg conn resync 0 st) (hio : msg.disableIO = false)
    (hfirst : FirstStop env msg conn last (.write written)) (hpos : 0 < written)
    (hdrain : drain env (msg.count - last * exactStaticRecvSize env - blockLen env msg last) =
    some sent) : ∃ m : ℕ, (loopAt env msg 0 msg.count st).1 = some (m : ℤ) ∧
      Acked env msg conn resync sent m (loopAt env msg 0 msg.count st).2 := by
  rcases h.loopAt_run (Nat.sub_le _ _) (fun before hlt => absurd hlt (Nat.not_lt_zero before)) with
    ⟨hnone, -⟩ | ⟨last', stop, st', fuel', hfirst', hblock, hloop⟩
  · exact absurd hfirst hnone.not_firstStop
  · obtain ⟨rfl, rfl⟩ := hfirst.unique hfirst'
    rw [hloop]
    exact ⟨_, hblock.acked_write hio hfirst.2.1 hpos hdrain⟩

/-! ## The response -/

theorem cleanup_eq : cleanup env msg r st =
      (.returned true (if serverCrashed env msg then -Err.storageSrvCrashed
        else if r > 0 ∧ (finishMirroring env msg st).1 ≠ 0 then
        -(finishMirroring env msg st).1 else r),
        (finishMirroring env msg st).2) := rfl

theorem finishMirroring_none (h : st.mirrorToSock = none) : finishMirroring env msg st =
    (0, st) := by
  rw [finishMirroring, h]

/-- If the response is positive, the result of the server is, and the secondary has agreed. -/
theorem of_cleanup_pos {r : ℤ} {v : ℕ} (hv : 0 < v) (hanswer : ∀ a ∈ env.answer, -32 < a)
    (h : (cleanup env msg r st).1 = .returned true v) :
    ¬serverCrashed env msg ∧ 0 < r ∧ r = v ∧ (finishMirroring env msg st).1 = 0 := by
  rw [cleanup_eq, WriteReturn.returned.injEq] at h
  have h := h.2
  split at h
  · have hcrashed : ((Err.storageSrvCrashed : ℕ) : ℤ) = 23 := rfl
    omega
  · rename_i hcrashed
    have hfinish : 0 ≤ (finishMirroring env msg st).1 := by
      rw [finishMirroring]
      split
      · exact le_rfl
      · split
        · exact Int.natCast_nonneg _
        · rename_i a ha
          have hlt := hanswer a ha
          split
          · exact le_rfl
          · split
            · exact Int.natCast_nonneg _
            · split
              · exact le_rfl
              · rw [Int.bmod_eq_of_le (by omega) (by omega)]
                omega
    split_ifs at h with hnot
    · omega
    · exact ⟨hcrashed, by omega, h, not_not.mp fun hne => hnot ⟨by omega, hne⟩⟩

/-- What the secondary has if the primary is content with its answer. -/
theorem finishMirroring_stored (hanswer : ∀ a ∈ env.answer, -32 < a)
    (hsock : st.mirrorToSock = some sock) (h : (finishMirroring env msg st).1 = 0) :
    (finishMirroring env msg st).2.buddyNeedsResync ∨ env.answer = some (msg.count : ℤ) := by
  rw [finishMirroring, hsock] at h ⊢
  cases ha : env.answer with
  | none =>
    rw [ha] at h
    cases h
  | some a =>
    rw [ha] at h
    dsimp only at h ⊢
    split at h
    · rename_i hall
      exact .inr (by rw [hall])
    · rename_i hall
      split at h
      · cases h
      · rename_i hneg
        split_ifs at h with hunknown
        · rw [if_neg hall, if_neg hneg, if_pos hunknown]
          exact .inl rfl
        · have hlt := hanswer a ha
          rw [Int.bmod_eq_of_le (by omega) (by omega)] at h
          omega

theorem finishMirroring_rest : (finishMirroring env msg st).2.chunk = st.chunk ∧
      (finishMirroring env msg st).2.mirrorToSock = st.mirrorToSock ∧
      (st.buddyNeedsResync → (finishMirroring env msg st).2.buddyNeedsResync) := by
  rw [finishMirroring]
  split
  · exact ⟨rfl, rfl, id⟩
  · split
    · exact ⟨rfl, rfl, id⟩
    · split
      · exact ⟨rfl, rfl, id⟩
      · split
        · exact ⟨rfl, rfl, id⟩
        · split
          · exact ⟨rfl, rfl, fun _ => rfl⟩
          · exact ⟨rfl, rfl, id⟩

theorem write_eq (hknown : env.targetKnown) (hquota : ¬QuotaStops env msg)
    (hopen : openFile env msg = 0) (hprep : (prepareMirroring env msg (.init chunk)).1 = 0) :
    write env msg (.init chunk) =
      catchSocket env msg (loopAt env msg 0 msg.count
      (prepareMirroring env msg (.init chunk)).2) := by
  rw [QuotaStops] at hquota
  rw [write, if_neg (not_not.mpr hknown), if_neg hquota, if_neg (not_not.mpr hopen)]
  dsimp only
  rw [if_neg (not_not.mpr hprep), incrementalRecvAndWriteStateful_eq]

theorem storedOnBoth_of_not_losesMirror (hforward : msg.buddyMirrorForward)
    (hio : msg.disableIO = false) (hanswer : ∀ a ∈ env.answer, -32 < a)
    (hlost : ¬LosesMirror env msg) :
    StoredOnBoth env msg chunk := by
  intro v hv hwrite
  have hknown : env.targetKnown := by
    by_contra hnot
    rw [write, if_pos hnot] at hwrite
    cases hwrite
  rcases write_cases hwrite with ⟨result, st, -, -, hle, -, -, heq⟩ | ⟨hquota, hopen,
    hprep, r, hr, heq⟩
  · rw [heq] at hwrite
    obtain ⟨-, hpos, -, -⟩ := of_cleanup_pos hv hanswer hwrite
    omega
  · rw [heq] at hwrite ⊢
    obtain ⟨hcrashed, hpos, hrv, hfinish⟩ := of_cleanup_pos hv hanswer hwrite
    have hstart := (@prepareMirroring_spec env msg chunk).1 hprep
    obtain ⟨sent, hack, m, hrm, hacked⟩ := hstart.acked_of_pos hio hr hpos
    obtain rfl : m = v := by omega
    generalize (loopAt env msg 0 msg.count (prepareMirroring env msg (.init chunk)).2).2 =
      st at hacked hfinish ⊢
    obtain ⟨hchunk, hsock, hresync⟩ := @finishMirroring_rest env msg st
    refine ⟨⟨hacked.le, ?_⟩, ?_⟩
    · rw [cleanup_eq, hchunk]
      exact hacked.chunk
    rw [cleanup_eq, hsock]
    cases hconn : mirrorConnection env msg with
    | none =>
      refine .inl (hresync ?_)
      rw [hacked.resync, hforward, hconn]
      rfl
    | some retries =>
      cases sent with
      | false =>
        -- The connection was lost with the rest of the payload.
        refine .inr (.inl (not_not.mp fun hbehind => hlost ?_))
        refine ⟨hknown, hquota, hopen, hcrashed, by rw [hconn]; rfl, hbehind, ?_⟩
        rcases hack with ⟨-, hfalse⟩ | hstop
        · cases hfalse
        · exact hstop
      | true =>
        have hsocket := hacked.sock
        rw [if_pos rfl, hconn] at hsocket
        rcases finishMirroring_stored hanswer hsocket hfinish with hneeds | hall
        · exact .inl hneeds
        · refine .inr (.inr fun secondary hstored => ?_)
          have hholds := (hstored _ hsocket msg.count hall).take m
          rw [List.take_take, take_payload (by omega)] at hholds
          have hmin : min m msg.count = m := min_eq_left hacked.le
          rw [hmin] at hholds
          exact hholds

theorem not_storedOnBoth_of_losesMirror (hio : msg.disableIO = false)
    (hlost : LosesMirror env msg) : ¬StoredOnBoth env msg chunk := by
  obtain ⟨hknown, hquota, hopen, hcrashed, hconn, hbehind, last, written, hfirst, hpos, hdrain⟩ :=
    hlost
  intro hstored
  have hprep : (prepareMirroring env msg (.init chunk)).1 = 0 := by
    by_contra hne
    rw [((@prepareMirroring_spec env msg chunk).2 hne).1] at hconn
    cases hconn
  have hstart := (@prepareMirroring_spec env msg chunk).1 hprep
  obtain ⟨m, hr, hacked⟩ := hstart.acked_of_lost hio hfirst hpos hdrain
  have hwrite := write_eq hknown hquota hopen hprep
  rw [catchSocket, hr] at hwrite
  dsimp only at hwrite
  generalize (loopAt env msg 0 msg.count (prepareMirroring env msg (.init chunk)).2).2 =
    st at hacked hwrite
  have hsock : st.mirrorToSock = none := hacked.sock
  rw [cleanup_eq, finishMirroring_none hsock, if_neg hcrashed, if_neg (fun h => h.2 rfl)] at hwrite
  obtain ⟨-, hneeds | hbehind' | hholds⟩ := hstored m hacked.pos (by rw [hwrite])
  · rw [hwrite, hacked.resync] at hneeds
    cases hmirror : mirrorConnection env msg with
    | none =>
      rw [hmirror] at hconn
      cases hconn
    | some retries =>
      rw [hmirror, Option.isNone_some, Bool.and_false] at hneeds
      cases hneeds
  · exact hbehind hbehind'
  · refine not_holdsAt_empty (fun hnil => ?_) (hholds (fun _ => none) fun s hs => ?_)
    · have hlen := congrArg List.length hnil
      rw [length_payload] at hlen
      exact hacked.pos.ne' hlen
    · rw [hwrite, hsock] at hs
      cases hs

/-- For answers that are a number of bytes or the negative value of an error. -/
theorem storedOnBoth_iff {chunk : ℤ → Option UInt8} (hforward : msg.buddyMirrorForward)
    (hio : msg.disableIO = false) (hanswer : ∀ a ∈ env.answer, -32 < a) :
    StoredOnBoth env msg chunk ↔ ¬LosesMirror env msg :=
  ⟨fun hstored hlost => not_storedOnBoth_of_losesMirror hio hlost hstored,
    storedOnBoth_of_not_losesMirror hforward hio hanswer⟩

theorem storedOnBoth_steadyEnv :
    (write steadyEnv mirroredMsg (.init fun _ => none)).1 = .returned true 4 ∧
      (StoredOnBoth steadyEnv mirroredMsg (fun _ => none) ↔ ¬LosesMirror steadyEnv mirroredMsg) :=
  ⟨by decide +kernel, storedOnBoth_iff rfl rfl (by decide)⟩

/-- The disk takes one byte of the first block, and the connection to the secondary breaks with the
second. -/
def brokenEnv : WriteEnv :=
  { steadyEnv with
    pwrites := fun _ call => if call = 0 then .wrote 0 else .error 28
    padSends := fun _ => ⟨false, fun _ => false⟩
    answer := none }

/-- The client is told that one byte was written. -/
theorem acknowledged_on_primary_only : ¬StoredOnBoth brokenEnv mirroredMsg fun _ => none := by
  intro hstored
  obtain ⟨-, hneeds | ⟨state, hmem, hbehind⟩ | hholds⟩ := hstored 1 one_pos (by decide +kernel)
  · exact absurd hneeds (by decide +kernel)
  · cases hmem
    exact absurd hbehind (by decide)
  · have hsock : (write brokenEnv mirroredMsg (.init fun _ => none)).2.mirrorToSock.isNone := by
      decide +kernel
    refine not_holdsAt_empty (by decide) (hholds (fun _ => none) fun s hs => ?_)
    cases hs

/-! ## What a request leaves alone -/

variable {p : ℤ}

theorem sendToMirror_chunk : (sendToMirror msg results buf offset toBeMirrored st).2.chunk =
    st.chunk := by
  rw [sendToMirror_rest]

theorem paddedResult_chunk : (paddedResult env msg padLen result st).2.chunk = st.chunk := by
  suffices ∀ fuel piece left st,
      (recvPaddingLoop env msg padLen fuel piece left st).2.chunk = st.chunk from this ..
  intro fuel
  induction fuel with
  | zero => exact fun _ _ _ => rfl
  | succ fuel ih =>
    intro piece left st
    rw [recvPaddingLoop]
    split
    · rfl
    · split
      · rfl
      · exact (ih ..).trans sendToMirror_chunk

theorem prepareMirroring_chunk : (prepareMirroring env msg st).2.chunk = st.chunk := by
  rw [prepareMirroring]
  split
  · rfl
  · split
    · rfl
    · split
      · rfl
      · split_ifs
        · rfl
        · rfl
        · rfl
        · split <;> rfl

theorem catchSocket_chunk : (catchSocket env msg result).2.chunk = result.2.chunk := by
  rw [catchSocket]
  split
  · exact finishMirroring_rest.1
  · exact finishMirroring_rest.1

theorem doWriteLoop_outside {chunk : ℤ → Option UInt8} (hp : p < offset ∨ offset + buf.length ≤ p) :
    (doWriteLoop pwrite buf offset fuel call sum chunk).2 p = chunk p := by
  induction fuel generalizing call sum chunk with
  | zero => rfl
  | succ fuel ih =>
    rw [doWriteLoop]
    split
    · rfl
    · have hwrite : ∀ n, writeAt chunk (offset + sum) ((buf.drop sum).take n) p = chunk p := by
        intro n
        refine if_neg ?_
        rw [List.length_take, List.length_drop]
        omega
      dsimp only
      split
      · exact ih.trans (hwrite _)
      · exact hwrite _

/-- Every block is in the range of the request. -/
theorem recvAndWriteLoop_outside (hp : p < msg.offset ∨ msg.offset + msg.count ≤ p)
    (hstart : msg.offset ≤ writeOffset) (hend : writeOffset + left = msg.offset + msg.count) :
    (recvAndWriteLoop env msg fuel block left writeOffset st).2.chunk p = st.chunk p := by
  induction fuel generalizing block left writeOffset st with
  | zero => rfl
  | succ fuel ih =>
    rw [recvAndWriteLoop]
    split
    · dsimp only
      set sent := sendToMirror msg (env.sends block) _ writeOffset left _ with hsent
      replace hsent : sent.2.chunk = st.chunk := hsent ▸ sendToMirror_chunk
      split
      · set written := (if msg.disableIO then _ else _ : (Option ℕ × ℕ) × (ℤ → Option UInt8)) with
          heq
        have hwritten : written.2 p = st.chunk p := by
          rw [heq, ← hsent]
          split
          · rfl
          · refine doWriteLoop_outside ?_
            rw [recvBuf, List.length_map, List.length_range]
            omega
        split
        · rw [paddedResult_chunk]
          exact hwritten
        · split_ifs
          · rw [paddedResult_chunk]
            exact hwritten
          · exact (ih (by omega) (by omega)).trans hwritten
          · exact hwritten
      · rw [paddedResult_chunk, hsent]
    · rfl

theorem write_outside (hp : p < msg.offset ∨ msg.offset + msg.count ≤ p) :
    (write env msg st).2.chunk p = st.chunk p := by
  rw [write]
  split
  · rfl
  · split
    · have hpadded := @paddedResult_chunk env msg st msg.count (-Err.dquot)
      split
      · rename_i heq
        rw [heq] at hpadded
        rw [cleanup_eq, finishMirroring_rest.1, hpadded]
      · rename_i heq
        rw [heq] at hpadded
        rw [hpadded]
    · split
      · rw [catchSocket_chunk, paddedResult_chunk]
      · dsimp only
        split
        · rw [catchSocket_chunk, paddedResult_chunk, prepareMirroring_chunk]
        · rw [catchSocket_chunk, incrementalRecvAndWriteStateful, recvAndWriteLoop_outside
            hp le_rfl rfl, prepareMirroring_chunk]

/-- The file after a run of requests. -/
def writes (requests : List (WriteEnv × WriteLocalFileMsg)) (chunk : ℤ → Option UInt8) :
    ℤ → Option UInt8 :=
  requests.foldl (fun chunk request => (write request.1 request.2 (.init chunk)).2.chunk) chunk

theorem writes_outside {requests : List (WriteEnv × WriteLocalFileMsg)}
    (hp : ∀ r ∈ requests, p < r.2.offset ∨ r.2.offset + r.2.count ≤ p) :
    writes requests chunk p = chunk p := by
  induction requests generalizing chunk with
  | nil => rfl
  | cons r requests ih =>
    obtain ⟨hr, hrest⟩ := List.forall_mem_cons.mp hp
    exact (ih hrest).trans (write_outside hr)

section
variable {v : ℕ} (hio : msg.disableIO = false) (hanswer : ∀ a ∈ env.answer, -32 < a) (hv : 0 < v)
include hio hanswer hv

theorem holdsAt_of_acked (hack : (write env msg (.init chunk)).1 = .returned true v) :
    HoldsAt (write env msg (.init chunk)).2.chunk msg.offset (payload env v) := by
  rcases write_cases hack with ⟨result, st, -, -, hle, -, -, heq⟩ | ⟨-, -, hprep, r, hr, heq⟩
  · rw [heq] at hack
    obtain ⟨-, hpos, -, -⟩ := of_cleanup_pos hv hanswer hack
    omega
  · rw [heq] at hack ⊢
    obtain ⟨-, hpos, hrv, -⟩ := of_cleanup_pos hv hanswer hack
    obtain ⟨sent, -, m, hrm, hacked⟩ :=
      ((@prepareMirroring_spec env msg chunk).1 hprep).acked_of_pos hio hr hpos
    obtain rfl : m = v := by omega
    rw [cleanup_eq, finishMirroring_rest.1]
    exact hacked.chunk

/-- What is acknowledged stays in the file, whatever becomes of later requests for other bytes. -/
theorem holdsAt_writes (hack : (write env msg (.init (writes before chunk))).1 = .returned true v)
    (hafter : ∀ r ∈ after, msg.offset + v ≤ r.2.offset ∨ r.2.offset + r.2.count ≤ msg.offset) :
    HoldsAt (writes (before ++ (env, msg) :: after) chunk) msg.offset (payload env v) := by
  intro i hi
  have hlen := @length_payload env v
  rw [writes, List.foldl_append, List.foldl_cons, ← writes, ← writes, writes_outside fun r hr => ?_]
  · exact holdsAt_of_acked hio hanswer hv hack i hi
  · have hdisjoint := hafter r hr
    omega

end

theorem holdsAt_writes_brokenEnv :
    HoldsAt
    (writes ([] ++ (steadyEnv, mirroredMsg) :: [(brokenEnv, { mirroredMsg with offset := 4 })])
      fun _ => none) 0 (payload steadyEnv 4) :=
  holdsAt_writes rfl (by decide) (by decide) (by decide +kernel) (by decide)

end
end Congfs.Storage
