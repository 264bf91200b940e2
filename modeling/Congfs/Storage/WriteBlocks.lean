import Congfs.Storage.WriteLocalFile

/-!
# The blocks of a write request

What ends the loop over the blocks can be told from the environment (`stopAt`): a block that cannot
be received, that cannot be sent to the secondary, or that is not written as a whole. As long as
nothing ends it, the server has received, sent on and written the same bytes (`Progress`).
-/

namespace Congfs.Storage

open Extent List

variable (env : WriteEnv) (msg : WriteLocalFileMsg)

/-- The first `n` bytes behind the request. -/
def payload (n : ℕ) : List UInt8 := (List.range n).map env.input

def blockLen (block : ℕ) : ℕ := min (exactStaticRecvSize env)
    (msg.count - block * exactStaticRecvSize env)

/-- The bytes that the calls for a buffer of the given length write, up to the first error. -/
def bytesWritten (pwrite : ℕ → PwriteResult) (length : ℕ) : (fuel call sumWriteRes : ℕ) → ℕ
  | 0, _, sumWriteRes => sumWriteRes
  | fuel + 1, call, sumWriteRes =>
    match pwrite call with
    | .error _ => sumWriteRes
    | .wrote more =>
      let sumWriteRes := sumWriteRes + min (more + 1) (length - sumWriteRes)
      if sumWriteRes ≠ length then bytesWritten pwrite length fuel (call + 1) sumWriteRes
        else sumWriteRes

/-- What `doWrite` makes of the number of bytes. -/
def writeResult : ℕ → Option ℕ
  | 0 => none
  | written + 1 => some (written + 1)

/-- Of the bytes of a block. -/
def blockWritten (block : ℕ) : ℕ :=
  if msg.disableIO then blockLen env msg block
  else bytesWritten (env.pwrites block) (blockLen env msg block) (blockLen env msg block) 0 0

/-- A block goes out on the connection that there is; the first one, also on a new one. -/
def Forwards (mirrorRetriesLeft block : ℕ) : Prop :=
  (env.sends block).first ∨ block = 0 ∧ ∃ round < mirrorRetriesLeft, (env.sends 0).retries round

instance forwardsDecidable (mirrorRetriesLeft block : ℕ) :
    Decidable (Forwards env mirrorRetriesLeft block) :=
  inferInstanceAs (Decidable (_ ∨ _ ∧ _))

inductive Stop
  | recv
  | send
  | write (written : ℕ)
  deriving DecidableEq

/-- What ends the loop at a block; `conn` are the retries that are left if there is a connection. -/
def stopAt (conn : Option ℕ) (block : ℕ) : Option Stop :=
  if ¬env.recvs block then some .recv
  else if ∃ mirrorRetriesLeft ∈ conn, ¬Forwards env mirrorRetriesLeft block then some .send
  else if blockWritten env msg block ≠ blockLen env msg block then some
    (.write (blockWritten env msg block))
  else none

/-- The first `n` bytes were received, sent on and written. -/
structure Progress (conn : Option ℕ) (resync : Bool) (n : ℕ) (st : WriteState) : Prop where
  received : st.received = n
  chunk : msg.disableIO = false → HoldsAt st.chunk msg.offset (payload env n)
  sock : st.mirrorToSock = conn.map fun _ => ⟨msg.offset, msg.count, payload env n⟩
  resync : st.buddyNeedsResync = resync

section
variable {env msg} {conn : Option ℕ} {resync : Bool} {block n : ℕ} {st : WriteState}

theorem exactStaticRecvSize_pos (env : WriteEnv) : 0 < exactStaticRecvSize env := by
  have := env.bufferLength_pos
  have := env.tuneFileWriteSize_pos
  rw [exactStaticRecvSize]
  split <;> omega

@[simp] theorem length_payload : (payload env n).length = n := by
  rw [payload, length_map, length_range]

theorem payload_add :
    payload env (n + m) = payload env n ++ (List.range m).map fun i => env.input (n + i) := by
  rw [payload, range_add, map_append, map_map]
  rfl

theorem take_payload (h : m ≤ n) : (payload env n).take m = payload env m := by
  obtain ⟨k, rfl⟩ : ∃ k, n = m + k := ⟨n - m, by omega⟩
  rw [payload_add, take_left']
  exact length_payload

theorem recvBuf_eq (h : st.received = n) (m : ℕ) :
    payload env (n + m) = payload env n ++ recvBuf env st m := by
  rw [payload_add, recvBuf, h]

theorem payload_append_take (h : st.received = n) (hle : k ≤ m) :
    payload env n ++ (recvBuf env st m).take k = payload env (n + k) := by
  have heq := congrArg (List.take (n + k)) (@recvBuf_eq env n st h m)
  rw [take_payload (by omega)] at heq
  have hlen := @List.take_length_add_append _ (payload env n) (recvBuf env st m) k
  rw [length_payload] at hlen
  rw [heq, hlen]

@[simp] theorem length_recvBuf : (recvBuf env st m).length = m := by
  rw [recvBuf, length_map, length_range]

theorem blockLen_pos (h : block * exactStaticRecvSize env < msg.count) :
    0 < blockLen env msg block := by
  have := exactStaticRecvSize_pos env
  rw [blockLen]
  omega

/-! ## Writing a block -/

theorem writeResult_of_pos (h : 0 < n) : writeResult n = some n := by
  cases n with
  | zero => cases h
  | succ n => rfl

theorem doWriteLoop_spec {buf : List UInt8} {offset : ℤ} {fuel call sum : ℕ}
    {chunk : ℤ → Option UInt8} {before : List UInt8} {start : ℤ}
    (hstart : offset = start + before.length) (hsum : sum < buf.length)
    (hfuel : buf.length ≤ sum + fuel) (hchunk : HoldsAt chunk start (before ++ buf.take sum)) :
    (doWriteLoop pwrite buf offset fuel call sum chunk).1.1 =
        writeResult (bytesWritten pwrite buf.length fuel call sum) ∧
      bytesWritten pwrite buf.length fuel call sum ≤ buf.length ∧
      HoldsAt (doWriteLoop pwrite buf offset fuel call sum chunk).2 start
        (before ++ buf.take (bytesWritten pwrite buf.length fuel call sum)) := by
  induction fuel generalizing call sum chunk with
  | zero => omega
  | succ fuel ih =>
    rw [doWriteLoop, bytesWritten]
    cases pwrite call with
    | error errno =>
      refine ⟨?_, hsum.le, hchunk⟩
      rcases Nat.eq_zero_or_pos sum with rfl | hpos
      · rfl
      · rw [if_pos hpos, writeResult_of_pos hpos]
    | wrote more =>
      dsimp only
      obtain ⟨writeRes, hwriteRes⟩ :
        ∃ writeRes, writeRes = min (more + 1) (buf.length - sum) := ⟨_, rfl⟩
      rw [← hwriteRes]
      have hle : sum + writeRes ≤ buf.length := by omega
      have hnext : HoldsAt (writeAt chunk (offset + sum) ((buf.drop sum).take writeRes)) start
          (before ++ buf.take (sum + writeRes)) := by
        have happend := @HoldsAt.append _ _ _ _ ((buf.drop sum).take writeRes) hchunk
        have hlen : start + ((before ++ buf.take sum).length : ℤ) = offset + sum := by
          rw [length_append, length_take, min_eq_left hsum.le, hstart]
          omega
        rw [hlen, append_assoc, ← take_add] at happend
        exact happend
      split
      · exact ih (by omega) (by omega) hnext
      · exact ⟨(writeResult_of_pos (by omega)).symm, hle, hnext⟩

theorem doWrite_spec {pwrite : ℕ → PwriteResult} {buf : List UInt8} {chunk : ℤ → Option UInt8}
    {before : List UInt8} {start : ℤ} (hpos : 0 < buf.length)
    (hchunk : HoldsAt chunk start before) : (doWrite pwrite buf (start + before.length) chunk).1.1 =
        writeResult (bytesWritten pwrite buf.length buf.length 0 0) ∧
      bytesWritten pwrite buf.length buf.length 0 0 ≤ buf.length ∧
      HoldsAt (doWrite pwrite buf (start + before.length) chunk).2 start
        (before ++ buf.take (bytesWritten pwrite buf.length buf.length 0 0)) :=
  doWriteLoop_spec rfl hpos (by omega) (by rw [take_zero, append_nil]; exact hchunk)

/-! ## Sending a block -/

theorem retryMirror_spec {round : ℕ} : ((∃ k < retries, results (round + k)) →
      (retryMirror msg results buf offset msg.count retries round).1 ∧
      (retryMirror msg results buf offset msg.count retries round).2.1 =
        some ⟨offset, msg.count, buf⟩) ∧
    ((¬∃ k < retries, results (round + k)) →
      (retryMirror msg results buf offset msg.count retries round).1 = false ∧
      (retryMirror msg results buf offset msg.count retries round).2.1 = none) := by
  induction retries generalizing round with
  | zero => exact ⟨fun ⟨k, hk, _⟩ => absurd hk (Nat.not_lt_zero k), fun _ => ⟨rfl, rfl⟩⟩
  | succ retries ih =>
    rw [retryMirror, if_neg (not_not.mpr rfl)]
    by_cases hround : results round
    · rw [if_pos hround]
      exact ⟨fun _ => ⟨rfl, rfl⟩, fun hnone => absurd ⟨0, Nat.succ_pos _, hround⟩ hnone⟩
    · rw [if_neg hround]
      have hshift : (∃ k < retries + 1, results (round + k)) ↔
          ∃ k < retries, results (round + 1 + k) := by
        constructor
        · rintro ⟨k, hk, hresult⟩
          cases k with
          | zero => exact absurd hresult hround
          | succ k => exact ⟨k, by omega, by rwa [add_assoc, add_comm 1 k]⟩
        · rintro ⟨k, hk, hresult⟩
          exact ⟨k + 1, by omega, by rwa [add_assoc, add_comm 1 k] at hresult⟩
      rw [hshift]
      exact ih

theorem retryMirror_of_ne {round : ℕ} (h : toBeMirrored ≠ msg.count) :
    (retryMirror msg results buf offset toBeMirrored retries round).1 = false ∧
      (retryMirror msg results buf offset toBeMirrored retries round).2.1 = none := by
  cases retries with
  | zero => exact ⟨rfl, rfl⟩
  | succ retries =>
    rw [retryMirror, if_pos h]
    exact ⟨rfl, rfl⟩

theorem sendToMirror_rest (results : SendResults) (buf : List UInt8) (offset : ℤ) (toBeMirrored : ℕ)
    (st : WriteState) : (sendToMirror msg results buf offset toBeMirrored st).2 = { st with
        mirrorToSock := (sendToMirror msg results buf offset toBeMirrored st).2.mirrorToSock
        mirrorRetriesLeft :=
          (sendToMirror msg results buf offset toBeMirrored st).2.mirrorRetriesLeft } := by
  rw [sendToMirror]
  split
  · rfl
  · split <;> rfl

theorem sendToMirror_block {buf : List UInt8} (hlt : block * exactStaticRecvSize env < msg.count)
    (hsock : st.mirrorToSock =
      conn.map fun _ => ⟨msg.offset, msg.count, payload env (block * exactStaticRecvSize env)⟩)
    (hretries : block = 0 → ∀ retriesLeft ∈ conn, st.mirrorRetriesLeft = retriesLeft)
    (hbuf : payload env n = payload env (block * exactStaticRecvSize env) ++ buf)
    {out : Bool × WriteState}
    (hout : out = sendToMirror msg (env.sends block) buf
    (msg.offset + (block * exactStaticRecvSize env : ℕ))
      (msg.count - block * exactStaticRecvSize env) st) :
    ((∃ retriesLeft ∈ conn, ¬Forwards env retriesLeft block) → out.1 = false ∧
    out.2.mirrorToSock = none) ∧ ((¬∃ retriesLeft ∈ conn, ¬Forwards env retriesLeft block) →
      out.1 ∧ out.2.mirrorToSock = conn.map fun _ => ⟨msg.offset, msg.count, payload env n⟩) := by
  cases conn with
  | none =>
    have hnone : st.mirrorToSock = none := hsock
    rw [sendToMirror, hnone] at hout
    subst hout
    refine ⟨fun ⟨_, hmem, _⟩ => (by cases hmem), fun _ => ⟨rfl, hnone⟩⟩
  | some retriesLeft =>
    have hiff : (∃ r ∈ some retriesLeft, ¬Forwards env r block) ↔
      ¬Forwards env retriesLeft block := by
      simp only [Option.mem_some, exists_eq_left']
    rw [hiff, not_not]
    have hsome : st.mirrorToSock =
        some ⟨msg.offset, msg.count, payload env (block * exactStaticRecvSize env)⟩ := hsock
    rw [sendToMirror, hsome] at hout
    dsimp only at hout
    split_ifs at hout with hfirst
    · subst hout
      refine ⟨fun hnot => absurd (.inl hfirst) hnot, fun _ => ⟨rfl, ?_⟩⟩
      rw [hbuf]
      rfl
    · subst hout
      rcases Nat.eq_zero_or_pos block with rfl | hpos
      · -- The retries start the request anew.
        have hleft := hretries rfl retriesLeft rfl
        have hforwards : Forwards env retriesLeft 0 ↔
            ∃ round < retriesLeft, (env.sends 0).retries (0 + round) := by
          simp only [Forwards, hfirst, true_and, Bool.false_eq_true, false_or, zero_add]
        have hstart : payload env (0 * exactStaticRecvSize env) = [] := by
          rw [Nat.zero_mul]
          rfl
        rw [hstart, nil_append] at hbuf
        rw [hforwards, hleft, Nat.zero_mul, Nat.sub_zero]
        refine ⟨retryMirror_spec.2, fun hround => ?_⟩
        obtain ⟨hres, hsock'⟩ := retryMirror_spec.1 hround
        refine ⟨hres, hsock'.trans ?_⟩
        rw [hbuf, Int.natCast_zero, Int.add_zero]
        rfl
      · have hne : msg.count - block * exactStaticRecvSize env ≠ msg.count := by
          have := Nat.mul_pos hpos (exactStaticRecvSize_pos env)
          omega
        have hnot : ¬Forwards env retriesLeft block := by
          rintro (hyes | ⟨rfl, -⟩)
          · exact hfirst hyes
          · exact absurd hpos (lt_irrefl 0)
        exact ⟨fun _ => retryMirror_of_ne hne, fun hyes => absurd hyes hnot⟩

/-! ## The loop -/

/-- Before a block. The first block can be sent again as often as there are retries. -/
structure AtBlock (env : WriteEnv) (msg : WriteLocalFileMsg) (conn : Option ℕ)
    (resync : Bool) (block : ℕ)
    (st : WriteState) : Prop extends Progress env msg conn resync
      (block * exactStaticRecvSize env) st where
  lt : block * exactStaticRecvSize env < msg.count
  retries : block = 0 → ∀ retriesLeft ∈ conn, st.mirrorRetriesLeft = retriesLeft

/-- The loop at a block, with as much fuel as bytes. -/
def loopAt (env : WriteEnv) (msg : WriteLocalFileMsg) (block fuel : ℕ) (st : WriteState) :
    Option ℤ × WriteState :=
  recvAndWriteLoop env msg fuel block (msg.count - block * exactStaticRecvSize env)
    (msg.offset + (block * exactStaticRecvSize env : ℕ)) st

section
variable {fuel : ℕ}

theorem loopAt_recv (hstop : stopAt env msg conn block = some .recv) :
    loopAt env msg block (fuel + 1) st = (none, st) := by
  have hrecv : ¬env.recvs block := by
    intro hrecv
    rw [stopAt, if_neg (not_not.mpr hrecv)] at hstop
    split at hstop
    · cases hstop
    · split at hstop <;> cases hstop
  exact if_neg hrecv

theorem blockLen_le : block * exactStaticRecvSize env + blockLen env msg block ≤
    max msg.count (block * exactStaticRecvSize env) := by
  rw [blockLen]
  omega

/-- A block was sent on, and written as far as the calls go. -/
structure SentBlock (env : WriteEnv) (msg : WriteLocalFileMsg) (conn : Option ℕ)
    (resync : Bool) (block : ℕ)
    (st : WriteState) : Prop where
  received : st.received = block * exactStaticRecvSize env + blockLen env msg block
  resync : st.buddyNeedsResync = resync
  sock : st.mirrorToSock = conn.map fun _ =>
    ⟨msg.offset, msg.count, payload env (block * exactStaticRecvSize env + blockLen env msg block)⟩
  chunk : msg.disableIO = false →
    HoldsAt st.chunk msg.offset (payload env (block * exactStaticRecvSize env + blockWritten
    env msg block))
  le : blockWritten env msg block ≤ blockLen env msg block

theorem stopAt_eq_none : stopAt env msg conn block = none ↔ env.recvs block ∧
    (¬∃ retries ∈ conn, ¬Forwards env retries block) ∧
      blockWritten env msg block = blockLen env msg block := by
  rw [stopAt]
  split
  · rename_i hrecv
    exact ⟨fun hnone => (by cases hnone), fun hall => absurd hall.1 hrecv⟩
  · rename_i hrecv
    split
    · rename_i hforwards
      exact ⟨fun hnone => (by cases hnone), fun hall => absurd hforwards hall.2.1⟩
    · rename_i hforwards
      split_ifs with hwritten
      · exact ⟨fun hnone => (by cases hnone), fun hall => absurd hall.2.2 hwritten⟩
      · exact ⟨fun _ => ⟨not_not.mp hrecv, hforwards, not_not.mp hwritten⟩, fun _ => rfl⟩

theorem stopAt_eq_write (h : stopAt env msg conn block = some (.write written)) :
    env.recvs block ∧ (¬∃ retries ∈ conn, ¬Forwards env retries block) ∧
      written = blockWritten env msg block ∧ blockWritten env msg block ≠ blockLen env
      msg block := by
  rw [stopAt] at h
  split at h
  · cases h
  · rename_i hrecv
    split at h
    · cases h
    · rename_i hforwards
      split at h
      · rename_i hwritten
        cases h
        exact ⟨not_not.mp hrecv, hforwards, rfl, hwritten⟩
      · cases h

section
variable (h : AtBlock env msg conn resync block st)
include h

theorem AtBlock.received_sent : ∃ (mirrorRes : Bool) (sent : WriteState),
      sendToMirror msg (env.sends block) (recvBuf env st (blockLen env msg block))
          (msg.offset + (block * exactStaticRecvSize env : ℕ))
          (msg.count - block * exactStaticRecvSize env)
          { st with received := st.received + blockLen env msg block } = (mirrorRes, sent) ∧
      sent.received = block * exactStaticRecvSize env + blockLen env msg block ∧
      sent.chunk = st.chunk ∧ sent.buddyNeedsResync = resync ∧
      ((∃ retries ∈ conn, ¬Forwards env retries block) → mirrorRes = false ∧
      sent.mirrorToSock = none) ∧ ((¬∃ retries ∈ conn, ¬Forwards env retries block) → mirrorRes ∧
        sent.mirrorToSock = conn.map fun _ =>
          ⟨msg.offset, msg.count, payload env (block * exactStaticRecvSize env + blockLen env
            msg block)⟩) := by
  have hspec := @sendToMirror_block env msg conn block _
    { st with received := st.received + blockLen env msg block } _ h.lt h.sock h.retries
    (recvBuf_eq h.received (blockLen env msg block)) _ rfl
  have hrest := @sendToMirror_rest msg (env.sends block) (recvBuf env st (blockLen env msg block))
    (msg.offset + (block * exactStaticRecvSize env : ℕ))
    (msg.count - block * exactStaticRecvSize env)
    { st with received := st.received + blockLen env msg block }
  generalize sendToMirror msg (env.sends block) (recvBuf env st (blockLen env msg block))
    (msg.offset + (block * exactStaticRecvSize env : ℕ))
    (msg.count - block * exactStaticRecvSize env)
    { st with received := st.received + blockLen env msg block } = out at hspec hrest
  obtain ⟨mirrorRes, sent⟩ := out
  dsimp only at hrest
  refine ⟨mirrorRes, sent, rfl, ?_, ?_, ?_, hspec.1, hspec.2⟩
  · rw [hrest, ← h.received]
  · rw [hrest]
  · rw [hrest]
    exact h.resync

theorem AtBlock.loopAt_send (hstop : stopAt env msg conn block = some .send) :
    ∃ sent : WriteState, sent.received = block * exactStaticRecvSize env + blockLen env msg block ∧
      loopAt env msg block (fuel + 1) st =
        paddedResult env msg (msg.count - block * exactStaticRecvSize env)
        (-Err.communication) sent := by
  obtain ⟨mirrorRes, sent, hsend, hreceived, -, -, hfails, -⟩ := h.received_sent
  have hcases : env.recvs block ∧ ∃ retries ∈ conn, ¬Forwards env retries block := by
    rw [stopAt] at hstop
    split at hstop
    · cases hstop
    · rename_i hrecv
      split at hstop
      · rename_i hforwards
        exact ⟨not_not.mp hrecv, hforwards⟩
      · split at hstop <;> cases hstop
  obtain ⟨rfl, -⟩ := hfails hcases.2
  refine ⟨sent, hreceived, ?_⟩
  rw [loopAt, recvAndWriteLoop, if_pos hcases.1]
  dsimp only
  rw [← blockLen, hsend]
  exact if_neg Bool.false_ne_true

theorem AtBlock.loopAt_sent (hrecv : env.recvs block)
    (hforwards : ¬∃ retries ∈ conn, ¬Forwards env retries block) :
    ∃ (st' : WriteState) (errCode : ℕ), SentBlock env msg conn resync block st' ∧
      (blockWritten env msg block = 0 → loopAt env msg block (fuel + 1) st =
        paddedResult env msg (msg.count - block * exactStaticRecvSize env - blockLen env msg block)
          (-(Err.fromSysErr errCode)) st') ∧
      (0 < blockWritten env msg block → blockWritten env msg block ≠ blockLen env msg block →
        loopAt env msg block (fuel + 1) st =
          paddedResult env msg (msg.count - block * exactStaticRecvSize env - blockLen
          env msg block)
            ((block * exactStaticRecvSize env + blockWritten env msg block : ℕ) : ℤ) st') ∧
      (blockWritten env msg block = blockLen env msg block → loopAt env msg block (fuel + 1) st =
        if msg.count - block * exactStaticRecvSize env - blockLen env msg block ≠ 0 then
          recvAndWriteLoop env msg fuel (block + 1)
            (msg.count - block * exactStaticRecvSize env - blockLen env msg block)
            (msg.offset + (block * exactStaticRecvSize env : ℕ) + blockLen env msg block) st'
        else (some (msg.count : ℤ), st')) := by
  obtain ⟨mirrorRes, sent, hsend, hreceived, hchunk, hresync, -, hsent⟩ := h.received_sent
  obtain ⟨rfl, hsock⟩ := hsent hforwards
  have hpos := blockLen_pos h.lt
  -- What the calls for the block leave of it, and of the file.
  obtain ⟨writeRes, errCode, chunk, hwrite, hres, hle, hholds⟩ : ∃ writeRes errCode chunk,
      (if msg.disableIO then ((some (blockLen env msg block), 0), sent.chunk)
        else doWrite (env.pwrites block) (recvBuf env st (blockLen env msg block))
          (msg.offset + (block * exactStaticRecvSize env : ℕ)) sent.chunk) =
          ((writeRes, errCode), chunk) ∧
      writeRes = writeResult (blockWritten env msg block) ∧
      blockWritten env msg block ≤ blockLen env msg block ∧
      (msg.disableIO = false → HoldsAt chunk msg.offset
        (payload env (block * exactStaticRecvSize env + blockWritten env msg block))) := by
    rw [blockWritten]
    split_ifs with hdisable
    · exact ⟨_, _, _, rfl, (writeResult_of_pos hpos).symm, le_rfl, fun henable =>
        absurd (henable.symm.trans hdisable) Bool.false_ne_true⟩
    · have hspec := @doWrite_spec (env.pwrites block)
        (recvBuf env st (blockLen env msg block)) sent.chunk
        (payload env (block * exactStaticRecvSize env)) msg.offset (by rwa [length_recvBuf])
        (hchunk ▸ h.chunk (Bool.eq_false_iff.mpr hdisable))
      rw [length_payload, length_recvBuf] at hspec
      refine ⟨_, _, _, rfl, hspec.1, hspec.2.1, fun _ => ?_⟩
      rw [← payload_append_take h.received hspec.2.1]
      exact hspec.2.2
  have hloop : loopAt env msg block (fuel + 1) st = writeRes.elim
        (paddedResult env msg (msg.count - block * exactStaticRecvSize env - blockLen env msg block)
          (-(Err.fromSysErr errCode)) { sent with chunk := chunk })
        fun writeRes =>
          if writeRes ≠ blockLen env msg block then
            paddedResult env msg (msg.count - block * exactStaticRecvSize env - blockLen
              env msg block)
              ((msg.count - (msg.count - block * exactStaticRecvSize env - blockLen env msg
              block : ℕ) : ℤ) -
                (blockLen env msg block - writeRes : ℤ)) { sent with chunk := chunk }
          else if msg.count - block * exactStaticRecvSize env - blockLen env msg block ≠ 0 then
            recvAndWriteLoop env msg fuel (block + 1)
              (msg.count - block * exactStaticRecvSize env - blockLen env msg block)
              (msg.offset + (block * exactStaticRecvSize env : ℕ) + writeRes)
              { sent with chunk := chunk }
          else (some (msg.count : ℤ), { sent with chunk := chunk }) := by
    rw [loopAt, recvAndWriteLoop, if_pos hrecv]
    dsimp only
    rw [← blockLen, hsend]
    rw [if_pos rfl, hwrite]
    cases writeRes <;> rfl
  refine ⟨{ sent with chunk := chunk }, errCode, ⟨hreceived, hresync, hsock, hholds, hle⟩,
    fun hzero => ?_, fun hwritten hne => ?_, fun hall => ?_⟩
  · rw [hloop, hres, hzero]
    rfl
  · rw [hloop, hres, writeResult_of_pos hwritten, Option.elim_some, if_pos hne]
    congr 1
    have := @blockLen_le env msg block
    omega
  · rw [hloop, hres, hall, writeResult_of_pos hpos, Option.elim_some, if_neg (not_not.mpr rfl)]

/-- A block that is not written as a whole ends the loop; the result counts the bytes that were
written. -/
theorem AtBlock.loopAt_write {written : ℕ}
    (hstop : stopAt env msg conn block = some (.write written)) :
    written = blockWritten env msg block ∧ ∃ (st' : WriteState) (result : ℤ),
      SentBlock env msg conn resync block st' ∧
      (0 < written → result = ((block * exactStaticRecvSize env + written : ℕ) : ℤ)) ∧
      (written = 0 → result ≤ 0) ∧
      loopAt env msg block (fuel + 1) st =
        paddedResult env msg (msg.count - block * exactStaticRecvSize env - blockLen env msg block)
        result st' := by
  obtain ⟨hrecv, hforwards, rfl, hne⟩ := stopAt_eq_write hstop
  obtain ⟨st', errCode, hsent, hnone, hsome, -⟩ := @AtBlock.loopAt_sent _ _ _ _ _ _ fuel h
    hrecv hforwards
  refine ⟨rfl, st', ?_⟩
  rcases Nat.eq_zero_or_pos (blockWritten env msg block) with hzero | hpos
  · exact ⟨_, hsent, fun hpos => absurd hzero hpos.ne', fun _ => by omega, hnone hzero⟩
  · exact ⟨_, hsent, fun _ => rfl, fun hzero => absurd hzero hpos.ne', hsome hpos hne⟩

/-- A block that nothing stops is followed by the next one, or was the last. -/
theorem AtBlock.loopAt_next (hstop : stopAt env msg conn block = none) :
    ∃ st', (AtBlock env msg conn resync (block + 1) st' ∧
        loopAt env msg block (fuel + 1) st = loopAt env msg (block + 1) fuel st') ∨
      (Progress env msg conn resync msg.count st' ∧ msg.count ≤
      (block + 1) * exactStaticRecvSize env ∧
        loopAt env msg block (fuel + 1) st = (some (msg.count : ℤ), st')) := by
  obtain ⟨hrecv, hforwards, hwritten⟩ := stopAt_eq_none.mp hstop
  obtain ⟨st', errCode, hsent, -, -, hloop⟩ := @AtBlock.loopAt_sent _ _ _ _ _ _ fuel h
    hrecv hforwards
  have hprogress : Progress env msg conn resync
      (block * exactStaticRecvSize env + blockLen env msg block) st' :=
    ⟨hsent.received, hwritten ▸ hsent.chunk, hsent.sock, hsent.resync⟩
  have hlt := h.lt
  have hlen : blockLen env msg block =
    min (exactStaticRecvSize env) (msg.count - block * exactStaticRecvSize env) := rfl
  refine ⟨st', ?_⟩
  rw [hloop hwritten, loopAt, Nat.succ_mul]
  split
  · have hfull : blockLen env msg block = exactStaticRecvSize env := by omega
    rw [hfull] at hprogress ⊢
    refine .inl ⟨⟨?_, ?_, fun hzero => (by cases hzero)⟩, ?_⟩
    · rw [Nat.succ_mul]
      exact hprogress
    · rw [Nat.succ_mul]
      omega
    · rw [Nat.sub_sub, Int.natCast_add, Int.add_assoc]
  · have hall : block * exactStaticRecvSize env + blockLen env msg block = msg.count := by omega
    rw [hall] at hprogress
    exact .inr ⟨hprogress, by omega, rfl⟩

end

end

section
variable (env : WriteEnv) (msg : WriteLocalFileMsg) (conn : Option ℕ)

def FirstStop (block : ℕ) (stop : Stop) : Prop :=
  block * exactStaticRecvSize env < msg.count ∧ stopAt env msg conn block = some stop ∧
    ∀ before < block, stopAt env msg conn before = none

def NoStop : Prop :=
  ∀ block, block * exactStaticRecvSize env < msg.count → stopAt env msg conn block = none

end

theorem FirstStop.unique {block' : ℕ} {stop stop' : Stop} (h : FirstStop env msg conn block stop)
    (h' : FirstStop env msg conn block' stop') : block = block' ∧ stop = stop' := by
  obtain ⟨-, hstop, hbefore⟩ := h
  obtain ⟨-, hstop', hbefore'⟩ := h'
  rcases lt_trichotomy block block' with hlt | rfl | hlt
  · cases (hbefore' block hlt).symm.trans hstop
  · exact ⟨rfl, Option.some.inj (hstop.symm.trans hstop')⟩
  · cases (hbefore block' hlt).symm.trans hstop'

theorem NoStop.not_firstStop (h : NoStop env msg conn) : ¬FirstStop env msg conn block stop := by
  rintro ⟨hlt, hstop, -⟩
  cases (h block hlt).symm.trans hstop

theorem not_firstStop_send_none : ¬FirstStop env msg none block .send := by
  rintro ⟨-, hstop, -⟩
  rw [stopAt] at hstop
  split at hstop
  · cases hstop
  · split at hstop
    · rename_i hsend
      obtain ⟨_, hmem, -⟩ := hsend
      cases hmem
    · split at hstop <;> cases hstop

theorem incrementalRecvAndWriteStateful_eq :
    incrementalRecvAndWriteStateful env msg st = loopAt env msg 0 msg.count st := by
  rw [incrementalRecvAndWriteStateful, loopAt, Nat.zero_mul, Nat.sub_zero,
    Int.natCast_zero, Int.add_zero]

theorem AtBlock.loopAt_run (h : AtBlock env msg conn resync block st)
    (hfuel : msg.count - block * exactStaticRecvSize env ≤ fuel)
    (hbefore : ∀ before < block, stopAt env msg conn before = none) :
    (NoStop env msg conn ∧ ∃ st', Progress env msg conn resync msg.count st' ∧
      loopAt env msg block fuel st = (some (msg.count : ℤ), st')) ∨
    ∃ last stop st' fuel', FirstStop env msg conn last stop ∧ AtBlock env msg conn resync last st' ∧
      loopAt env msg block fuel st = loopAt env msg last (fuel' + 1) st' := by
  have hlt := h.lt
  induction fuel generalizing block st with
  | zero => omega
  | succ fuel ih =>
    cases hstop : stopAt env msg conn block with
    | some stop => exact .inr ⟨block, stop, st, fuel, ⟨hlt, hstop, hbefore⟩, h, rfl⟩
    | none =>
      have hbefore' : ∀ before < block + 1, stopAt env msg conn before = none := by
        intro before hlt'
        rcases Nat.lt_succ_iff_lt_or_eq.mp hlt' with hlt' | rfl
        · exact hbefore before hlt'
        · exact hstop
      obtain ⟨st', ⟨hnext, hloop⟩ | ⟨hdone, hle, hloop⟩⟩ := @AtBlock.loopAt_next _ _ _ _ _
        _ fuel h hstop
      · rw [hloop]
        refine ih hnext ?_ hbefore' hnext.lt
        have := exactStaticRecvSize_pos env
        rw [Nat.succ_mul]
        omega
      · refine .inl ⟨fun b hb => hbefore' b ?_, st', hdone, hloop⟩
        by_contra hge
        have := Nat.mul_le_mul_right (exactStaticRecvSize env) (Nat.le_of_not_lt hge)
        omega

end
end Congfs.Storage
