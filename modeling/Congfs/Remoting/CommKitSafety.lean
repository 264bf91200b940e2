import Congfs.Remoting.CommKit

/-!
# What the communication keeps

A target in one of the nine states holds what that state says (`Ok`), and the counters of the
context change with the targets (`Balanced`). Every handler keeps both, with one exception: a reply
that is announced to be larger than the header buffer puts the target into a state that does not
exist.
-/

namespace Congfs.CommKit

open CommKitState

variable {cfg : Config} {env : Env} {context context' : Context} {info info' : TargetInfo}

section

variable (info : TargetInfo)

/-- What a target holds in a state. A target that is cleaned up may have a connection; the pointer
to the socket tells, as it was reset by the preparation. -/
def Resources : CommKitState → Prop
  | .prepare | .retryWait | .done =>
    info.headerBuffer = none ∧ info.node = false ∧ info.connected = false
  | .cleanup => info.socket = info.connected
  | .sendHeader | .sendData | .recvHeader | .recvData | .socketInvalidate =>
    info.socket ∧ info.connected

def Ok : Prop := ∃ state : CommKitState, info.state = state.code ∧ Resources info state

def countDone : ℤ := if info.state = CommKitState.done.code then 1 else 0

def countRetry : ℤ := if info.state = retryWait.code then 1 else 0

def countConn : ℤ := if info.connected then 1 else 0

end

/-- The counters change by what the target contributes to them. -/
structure Balanced (context : Context) (info : TargetInfo) (context' : Context)
    (info' : TargetInfo) : Prop where
  done : context'.numDone - countDone info' = context.numDone - countDone info
  retry : context'.numRetryWaiters - countRetry info' = context.numRetryWaiters - countRetry info
  conn : context'.numAcquiredConns - countConn info' = context.numAcquiredConns - countConn info

section
variable (context : Context) (info : TargetInfo)

/-- A handler leaves a target that is in order and counters that fit. -/
def Good (res : Context × TargetInfo) : Prop :=
  Ok res.2 ∧ Balanced context info res.1 res.2

/-- The states in which there is a connection. -/
def Live : Prop :=
  info.socket ∧ info.connected ∧ info.state ≠ CommKitState.done.code ∧
    info.state ≠ retryWait.code

theorem Balanced.trans (h : Balanced context1 info1 context2 info2)
    (h' : Balanced context2 info2 context3 info3) :
    Balanced context1 info1 context3 info3 :=
  ⟨h'.done.trans h.done, h'.retry.trans h.retry, h'.conn.trans h.conn⟩

/-- A target that is neither finished nor waiting for a retry. -/
def Uncounted : Prop :=
  info.state ≠ CommKitState.done.code ∧ info.state ≠ retryWait.code

def counters : ℤ × ℤ × ℤ :=
  (context.numDone, context.numRetryWaiters, context.numAcquiredConns)

end

/-- If a target is uncounted before and after, only the connections have to fit. -/
theorem Balanced.of_uncounted (h : Uncounted info) (h' : Uncounted info')
    (h1 : context'.numDone = context.numDone)
    (h2 : context'.numRetryWaiters = context.numRetryWaiters)
    (h3 : context'.numAcquiredConns - countConn info' =
      context.numAcquiredConns - countConn info) : Balanced context info context' info' where
  done := by rw [countDone, countDone, if_neg h.1, if_neg h'.1, h1]
  retry := by rw [countRetry, countRetry, if_neg h.2, if_neg h'.2, h2]
  conn := h3

theorem uncounted_setState (hd : state ≠ .done) (hr : state ≠ .retryWait) :
    Uncounted (setState info state) :=
  ⟨fun h => hd (code_injective h), fun h => hr (code_injective h)⟩

/-- The handlers of the states with a connection change no counter of targets. -/
theorem Balanced.of_live (h : Live info) (hconn : info'.connected)
    (hdone : info'.state ≠ CommKitState.done.code)
    (hretry : info'.state ≠ retryWait.code)
    (hcounters : counters context' = counters context) :
    Balanced context info context' info' := by
  simp only [counters, Prod.mk.injEq] at hcounters
  refine .of_uncounted h.2.2 ⟨hdone, hretry⟩ hcounters.1 hcounters.2.1 ?_
  rw [countConn, countConn, h.2.1, hconn, hcounters.2.2]

/-! ## With a connection -/

/-- The states a connected target can go to. -/
def Next (state : CommKitState) : Prop :=
  state ≠ .prepare ∧ state ≠ .retryWait ∧ state ≠ .done

theorem good_setState (h : Live info) (hsocket : info'.socket)
    (hconn : info'.connected) (hstate : Next state)
    (hcounters : counters context' = counters context) :
    Good context info (context', setState info' state) := by
  obtain ⟨hp, hr, hd⟩ := hstate
  refine ⟨⟨state, rfl, ?_⟩, Balanced.of_live h hconn ?_ ?_ hcounters⟩
  · cases state with
    | prepare => exact absurd rfl hp
    | retryWait => exact absurd rfl hr
    | done => exact absurd rfl hd
    | cleanup => exact hsocket.trans hconn.symm
    | sendHeader | sendData | recvHeader | recvData | socketInvalidate => exact ⟨hsocket, hconn⟩
  · exact fun hcode => hd (code_injective hcode)
  · exact fun hcode => hr (code_injective hcode)

theorem good_self (hok : Ok info) (h : Live info)
    (hcounters : counters context' = counters context) : Good context info (context', info) :=
  ⟨hok, Balanced.of_live h h.2.1 h.2.2.1 h.2.2.2 hcounters⟩

theorem next_socketInvalidate : Next .socketInvalidate := ⟨nofun, nofun, nofun⟩

variable (r : Option ℤ)

@[simp] theorem setResult_socket : (setResult info r).socket = info.socket := by
  cases r <;> rfl

@[simp] theorem setResult_connected : (setResult info r).connected = info.connected := by
  cases r <;> rfl

@[simp] theorem setResult_state : (setResult info r).state = info.state := by
  cases r <;> rfl

@[simp] theorem setResult_node : (setResult info r).node = info.node := by
  cases r <;> rfl

theorem prepareIo_good (hok : Ok info) (h : Live info)
    (hres : prepareIo env context info = some res) : Good context info res := by
  unfold prepareIo at hres
  split at hres
  · cases hres
    exact good_setState h h.1 h.2.1 next_socketInvalidate rfl
  split at hres
  · cases hres
    refine good_setState h ?_ ?_ next_socketInvalidate rfl
    exacts [h.1, h.2.1]
  split at hres
  · cases hres
    exact good_self hok h rfl
  · cases hres

theorem sendheaderGeneric_good (h : Live info) :
    Good context info (addSocketPollstate context, sendheaderGeneric env info) := by
  unfold sendheaderGeneric
  split
  · exact good_setState h h.1 h.2.1 next_socketInvalidate rfl
  · refine good_setState h ?_ ?_ ⟨nofun, nofun, nofun⟩ rfl
    exacts [h.1, h.2.1]

theorem senddataGeneric_good (hok : Ok info) (h : Live info) :
    Good context info (senddataGeneric env context info) := by
  unfold senddataGeneric
  cases hio : prepareIo env context info with
  | some res => exact prepareIo_good hok h hio
  | none =>
    dsimp only
    split
    · refine good_setState h ?_ ?_ next_socketInvalidate rfl <;> split <;> simp [h.1, h.2.1]
    split
    · exact good_setState h h.1 h.2.1 ⟨nofun, nofun, nofun⟩ rfl
    · exact good_self hok h rfl

theorem good_of_fields (hok : Ok info) (h : Live info)
    (hsocket : info'.socket = info.socket) (hconn : info'.connected = info.connected)
    (hstate : info'.state = info.state) (hcounters : counters context' = counters context) :
    Good context info (context', info') := by
  obtain ⟨state, hcode, hresources⟩ := hok
  refine ⟨⟨state, hstate.trans hcode, ?_⟩, Balanced.of_live h (hconn.trans h.2.1)
    (by rw [hstate]; exact h.2.2.1) (by rw [hstate]; exact h.2.2.2) hcounters⟩
  cases state with
  | prepare | retryWait | done => exact absurd (hresources.2.2.symm.trans h.2.1) (by decide)
  | cleanup => exact (hsocket.trans h.1).trans (hconn.trans h.2.1).symm
  | sendHeader | sendData | recvHeader | recvData | socketInvalidate =>
    exact ⟨hsocket.trans h.1, hconn.trans h.2.1⟩

theorem recvdataGeneric_good (hok : Ok info) (h : Live info) :
    Good context info (recvdataGeneric env context info) := by
  unfold recvdataGeneric
  cases hio : prepareIo env context info with
  | some res => exact prepareIo_good hok h hio
  | none =>
    dsimp only
    split
    · refine good_setState h ?_ ?_ next_socketInvalidate rfl <;> split <;> simp [h.1, h.2.1]
    split
    · exact good_setState h (by simp [h.1]) (by simp [h.2.1]) ⟨nofun, nofun, nofun⟩ rfl
    · -- more data is to come: only the result may have been set
      refine good_of_fields hok h ?_ ?_ ?_ rfl <;> simp

/-! ## The length of a reply -/

/-- The call gets as far as the length of the message, and the first four bytes of the buffer
announce more than the buffer can hold. -/
def TooLarge (env : Env) (context : Context) (info : TargetInfo) : Prop :=
  prepareIo env context info = none ∧ env.injectRecvTimeout = false ∧
    ¬(info.headerSize < netmsgMinLength ∧ env.recvHead = []) ∧
    extractMsgLengthFromBuf ((recvHead env info).headerBuffer.getD []) > msgbufSize

theorem recvheaderGeneric_tooLarge (h : TooLarge env context info) :
    (recvheaderGeneric env context info).2.state = -socketInvalidate.code := by
  obtain ⟨hio, hinject, hhead, hlarge⟩ := h
  simp only [recvheaderGeneric, hio, hinject, Bool.false_eq_true, if_false, if_neg hhead,
    if_pos hlarge]

theorem recvHead_fields : (recvHead env info).socket = info.socket ∧
    (recvHead env info).connected = info.connected ∧ (recvHead env info).state = info.state := by
  unfold recvHead
  split <;> exact ⟨rfl, rfl, rfl⟩

theorem recvBody_fields {msgLength : ℕ} :
    (if info.headerSize < msgLength then receiveInto info msgLength env.recvBody
      else info).socket = info.socket ∧
    (if info.headerSize < msgLength then receiveInto info msgLength env.recvBody
      else info).connected = info.connected ∧
    (if info.headerSize < msgLength then receiveInto info msgLength env.recvBody
      else info).state = info.state := by
  split <;> exact ⟨rfl, rfl, rfl⟩

theorem recvheaderGeneric_good (hok : Ok info) (h : Live info) (hlen : ¬TooLarge env context info) :
    Good context info (recvheaderGeneric env context info) := by
  unfold recvheaderGeneric
  cases hio : prepareIo env context info with
  | some res => exact prepareIo_good hok h hio
  | none =>
    dsimp only
    obtain ⟨hs, hc, hst⟩ := @recvHead_fields env info
    split
    · exact good_setState h h.1 h.2.1 next_socketInvalidate rfl
    rename_i hinject
    split
    · exact good_setState h h.1 h.2.1 next_socketInvalidate rfl
    rename_i hhead
    split
    · rename_i hlarge
      exact absurd ⟨hio, by simpa using hinject, hhead, hlarge⟩ hlen
    split
    · exact good_setState h (hs.trans h.1) (hc.trans h.2.1) next_socketInvalidate rfl
    obtain ⟨hs', hc', hst'⟩ := @recvBody_fields env (recvHead env info)
      (extractMsgLengthFromBuf ((recvHead env info).headerBuffer.getD []))
    rw [hs] at hs'
    rw [hc] at hc'
    rw [hst] at hst'
    generalize (if (recvHead env info).headerSize <
        extractMsgLengthFromBuf ((recvHead env info).headerBuffer.getD []) then
      receiveInto (recvHead env info)
        (extractMsgLengthFromBuf ((recvHead env info).headerBuffer.getD [])) env.recvBody
      else recvHead env info) = received at hs' hc' hst' ⊢
    split
    · exact good_of_fields hok h hs' hc' hst' rfl
    split
    · exact good_setState h (hs'.trans h.1) (hc'.trans h.2.1) next_socketInvalidate rfl
    · refine good_setState h ?_ ?_ ?_ rfl
      · rw [setResult_socket, hs', h.1]
      · rw [setResult_connected, hc', h.2.1]
      · split <;> exact ⟨nofun, nofun, nofun⟩

/-! ## Giving back -/

/-- What the clean-up starts from: the pointer tells whether there is a connection, and the target
is not counted as finished or waiting. -/
def Cleanable (info : TargetInfo) : Prop :=
  info.socket = info.connected ∧ info.state ≠ CommKitState.done.code ∧
    info.state ≠ retryWait.code

theorem Live.cleanable (h : Live info) : Cleanable info :=
  ⟨h.1.trans h.2.1.symm, h.2.2.1, h.2.2.2⟩

/-- After everything was given back. -/
def Released (info : TargetInfo) : Prop :=
  info.headerBuffer = none ∧ info.node = false ∧ info.connected = false

theorem releaseResources_spec (h : Cleanable info) : Released (releaseResources context info).2 ∧
      (releaseResources context info).2.state = info.state ∧
      (releaseResources context info).1.numDone = context.numDone ∧
      (releaseResources context info).1.numRetryWaiters = context.numRetryWaiters ∧
      (releaseResources context info).1.numAcquiredConns =
        context.numAcquiredConns - countConn info := by
  obtain ⟨hsocket, -, -⟩ := h
  unfold releaseResources
  split_ifs with hs
  · have hc : info.connected := hsocket.symm.trans hs
    simp [Released, countConn, hc]
  · have hc : info.connected = false := by
      rw [← hsocket]
      simpa using hs
    simp [Released, countConn, hc]

theorem finish_good (h : Cleanable info0) (hrel : Released info)
    (h1 : context.numDone = context0.numDone)
    (h2 : context.numRetryWaiters = context0.numRetryWaiters)
    (h3 : context.numAcquiredConns = context0.numAcquiredConns - countConn info0) :
    Good context0 info0 (finish context info) := by
  obtain ⟨-, hd, hr⟩ := h
  have hne : CommKitState.done.code ≠ retryWait.code := by decide
  refine ⟨⟨.done, rfl, hrel⟩, ?_, ?_, ?_⟩
  · simp only [finish, setState, countDone, if_neg hd, if_true]
    omega
  · simp only [finish, setState, countRetry, if_neg hr]
    omega
  · simp only [finish, setState, countConn, hrel.2.2, h3, Bool.false_eq_true, if_false]
    omega

theorem cleanupGeneric_good (h : Cleanable info) :
    Good context info (cleanupGeneric cfg env context info) := by
  obtain ⟨hrel, hstate, h1, h2, h3⟩ := @releaseResources_spec context info h
  unfold cleanupGeneric
  generalize releaseResources context info = res at hrel hstate h1 h2 h3 ⊢
  obtain ⟨ctx, i⟩ := res
  dsimp only at hrel hstate h1 h2 h3 ⊢
  split
  · split
    · exact finish_good h hrel h1 h2 h3
    split
    · have hne : retryWait.code ≠ CommKitState.done.code := by decide
      obtain ⟨-, hd, hr⟩ := h
      refine ⟨⟨.retryWait, rfl, hrel⟩, ?_, ?_, ?_⟩
      · simp only [setState, countDone, if_neg hd]
        omega
      · simp only [setState, countRetry, if_neg hr, if_true]
        omega
      · have hconn : countConn (setState i .retryWait) = 0 := by
          simp [countConn, setState, hrel.2.2]
        rw [hconn, h3]
        omega
    · exact finish_good h hrel h1 h2 h3
  · exact finish_good h hrel h1 h2 h3

theorem socketinvalidateGeneric_spec (h : Live info) :
    Cleanable (socketinvalidateGeneric env context info).2 ∧
      Balanced context info (socketinvalidateGeneric env context info).1
        (socketinvalidateGeneric env context info).2 := by
  have hunc : Uncounted (socketinvalidateGeneric env context info).2 :=
    uncounted_setState nofun nofun
  refine ⟨⟨rfl, hunc⟩, .of_uncounted h.2.2 hunc rfl rfl ?_⟩
  simp only [socketinvalidateGeneric, setState, countConn, h.2.1, Bool.false_eq_true, if_false,
    if_true]
  omega

/-! ## The preparation -/

/-- What the preparation starts from, and leaves if it does not get a connection. -/
def Fresh (info : TargetInfo) : Prop := info.connected = false ∧ Uncounted info

theorem Balanced.of_fresh (h : Fresh info) (h' : Fresh info') :
    Balanced context info context info' := by
  refine .of_uncounted h.2 h'.2 rfl rfl ?_
  rw [countConn, countConn, h.1, h'.1]

theorem good_setState_cleanup (h : Fresh info0) (hsocket : info.socket = false)
    (hconn : info.connected = false) : Good context info0 (context, setState info .cleanup) :=
  ⟨⟨.cleanup, rfl, hsocket.trans hconn.symm⟩,
    Balanced.of_fresh h ⟨hconn, uncounted_setState nofun nofun⟩⟩

/-- What a preparation leaves: a target that is in order, or a connected one that has to send its
header. -/
def Prepared (context : Context) (info : TargetInfo) (res : Bool × Context × TargetInfo) : Prop :=
  (res.1 = false → Good context info res.2) ∧
    (res.1 → Live res.2.2 ∧ Balanced context info res.2.1 res.2.2)

theorem prepared_of_good (h : Good context info res) : Prepared context info (false, res) :=
  ⟨fun _ => h, nofun⟩

/-- The state of a target that is being prepared: that of the preparation, or that of the clean-up
if the target was found unusable. -/
def Preparing (info : TargetInfo) : Prop :=
  info.state = prepare.code ∨ info.state = cleanup.code

theorem Preparing.uncounted (h : Preparing info) : Uncounted info := by
  rcases h with h | h <;> exact ⟨by rw [h]; decide, by rw [h]; decide⟩

theorem good_of_preparing (h : Fresh info0) (hprep : Preparing info) (hrel : Released info)
    (hsocket : info.socket = false) : Good context info0 (context, info) := by
  refine ⟨?_, Balanced.of_fresh h ⟨hrel.2.2, hprep.uncounted⟩⟩
  rcases hprep with hstate | hstate
  · exact ⟨.prepare, hstate, hrel⟩
  · exact ⟨.cleanup, hstate, hsocket.trans hrel.2.2.symm⟩

theorem prepareConnect_prepared (h : Fresh info0) (hsocket : info.socket = false)
    (hconn : info.connected = false) (hprep : Preparing info) :
    Prepared context info0 (prepareConnect env context info) := by
  unfold prepareConnect
  dsimp only
  split
  · refine prepared_of_good (good_setState_cleanup h ?_ ?_)
    exacts [hsocket, hconn]
  split
  · refine prepared_of_good (good_setState_cleanup h ?_ ?_) <;> simp [hsocket, hconn]
  split
  · split
    · -- no connection was waited for: the state is kept
      refine prepared_of_good (good_of_preparing h ?_ ⟨rfl, rfl, ?_⟩ ?_)
      · simpa [Preparing, freeHeaderBuffer] using hprep
      · simpa [freeHeaderBuffer] using hconn
      · simpa [freeHeaderBuffer] using hsocket
    · refine prepared_of_good (good_setState_cleanup h ?_ ?_) <;> simp [hsocket, hconn]
  · have hunc : ∀ i : TargetInfo, Uncounted (setState i .sendHeader) :=
      fun _ => uncounted_setState nofun nofun
    refine ⟨nofun, fun _ => ⟨⟨rfl, rfl, hunc _⟩, .of_uncounted h.2 (hunc _) rfl rfl ?_⟩⟩
    simp only [countConn, setState, h.1, Bool.false_eq_true, if_false, if_true]
    omega

theorem prepareGeneric_prepared (hstate : info.state = prepare.code)
    (hrel : Released info) : Prepared context info (prepareGeneric cfg env context info) := by
  have hfresh : Fresh info := ⟨hrel.2.2, Preparing.uncounted (.inl hstate)⟩
  unfold prepareGeneric
  cases env.allocHeaderBuffer with
  | none =>
    refine prepared_of_good (good_of_preparing hfresh (.inl hstate) ⟨rfl, ?_, ?_⟩ rfl)
    exacts [hrel.2.1, hrel.2.2]
  | some buf =>
    dsimp only
    split
    · refine prepared_of_good (good_setState_cleanup hfresh rfl ?_)
      exact hrel.2.2
    split
    · split
      · refine prepared_of_good (good_of_preparing hfresh (.inr rfl) ⟨rfl, ?_, ?_⟩ rfl)
        exacts [hrel.2.1, hrel.2.2]
      split
      · refine prepared_of_good (good_of_preparing hfresh ?_ ⟨rfl, ?_, ?_⟩ ?_)
        · exact .inr (by simp [freeHeaderBuffer, setState])
        · simpa [freeHeaderBuffer, setState] using hrel.2.1
        · simpa [freeHeaderBuffer, setState] using hrel.2.2
        · simp [freeHeaderBuffer, setState]
      · refine prepareConnect_prepared hfresh ?_ ?_ (.inr ?_)
        · simp [setState]
        · simpa [setState] using hrel.2.2
        · simp [setState]
    · exact prepareConnect_prepared hfresh rfl hrel.2.2 (.inl hstate)

/-! ## One target of a round -/

/-- The target is about to receive a header, and the reply is too large. -/
def Oversized (cfg : Config) (env : Env) (context : Context) (info : TargetInfo) : Prop :=
  cfg.ops.hasRecvHeader ∧ (info.state = recvHeader.code ∨
      info.state = sendData.code ∧ cfg.ops.hasSendData = false) ∧
    TooLarge env context info

theorem Ok.live {state : CommKitState} (hcode : info.state = state.code)
    (hres : info.socket ∧ info.connected) (hd : state ≠ .done)
    (hr : state ≠ .retryWait) : Live info :=
  ⟨hres.1, hres.2, by rw [hcode]; exact fun h => hd (code_injective h),
    by rw [hcode]; exact fun h => hr (code_injective h)⟩

theorem handle_good (hok : Ok info) (hlen : ¬Oversized cfg env context info) :
    ∃ res, handle cfg env context info = some res ∧ Good context info res := by
  have hok' := hok
  obtain ⟨state, hcode, hres⟩ := hok'
  have hof : ofCode info.state = some state := by
    rw [hcode, ofCode_code]
  -- the three stages that can be skipped end in the clean-up
  have hrecvdata (h : Live info) : Good context info (if cfg.ops.hasRecvData then
      recvdataGeneric env context info else cleanupGeneric cfg env context info) := by
    split
    · exact recvdataGeneric_good hok h
    · exact cleanupGeneric_good h.cleanable
  have hrecvheader (h : Live info) (hst : info.state = recvHeader.code ∨
      info.state = sendData.code ∧ cfg.ops.hasSendData = false) :
      Good context info (if cfg.ops.hasRecvHeader then recvheaderGeneric env context info
        else if cfg.ops.hasRecvData then recvdataGeneric env context info
        else cleanupGeneric cfg env context info) := by
    split
    · rename_i hrecv
      exact recvheaderGeneric_good hok h fun hlarge => hlen ⟨hrecv, hst, hlarge⟩
    · exact hrecvdata h
  unfold handle
  rw [hof]
  cases state with
  | prepare =>
    have hprep := @prepareGeneric_prepared cfg env context info hcode hres
    generalize prepareGeneric cfg env context info = res at hprep ⊢
    obtain ⟨connected, ctx, i⟩ := res
    cases connected with
    | false => exact ⟨_, rfl, hprep.1 rfl⟩
    | true =>
      obtain ⟨hlive, hbal⟩ := hprep.2 rfl
      obtain ⟨hok2, hbal2⟩ := @sendheaderGeneric_good env ctx i hlive
      exact ⟨_, rfl, hok2, hbal.trans hbal2⟩
  | sendHeader => exact ⟨_, rfl, sendheaderGeneric_good (Ok.live hcode hres nofun nofun)⟩
  | sendData =>
    have hlive := Ok.live hcode hres nofun nofun
    refine ⟨_, rfl, ?_⟩
    split
    · exact senddataGeneric_good hok hlive
    · rename_i hsend
      exact hrecvheader hlive (.inr ⟨hcode, by simpa using hsend⟩)
  | recvHeader => exact ⟨_, rfl, hrecvheader (Ok.live hcode hres nofun nofun) (.inl hcode)⟩
  | recvData => exact ⟨_, rfl, hrecvdata (Ok.live hcode hres nofun nofun)⟩
  | cleanup =>
    refine ⟨_, rfl, cleanupGeneric_good ⟨hres, ?_, ?_⟩⟩ <;> rw [hcode] <;> decide
  | socketInvalidate =>
    obtain ⟨hclean, hbal⟩ := @socketinvalidateGeneric_spec env context info
      (Ok.live hcode hres nofun nofun)
    obtain ⟨hok2, hbal2⟩ := @cleanupGeneric_good cfg env
      (socketinvalidateGeneric env context info).1 _ hclean
    exact ⟨_, rfl, hok2, hbal.trans hbal2⟩
  | retryWait | done => exact ⟨_, rfl, hok, rfl, rfl, rfl⟩

theorem handle_oversized (h : Oversized cfg env context info) :
    ∃ res, handle cfg env context info = some res ∧ res.2.state = -socketInvalidate.code := by
  obtain ⟨hrecv, hstate, hlarge⟩ := h
  refine ⟨_, ?_, recvheaderGeneric_tooLarge hlarge⟩
  unfold handle
  rcases hstate with hstate | ⟨hstate, hsend⟩
  · rw [hstate, ofCode_code]
    simp only [hrecv, if_true]
  · rw [hstate, ofCode_code]
    simp only [hrecv, hsend, Bool.false_eq_true, if_false, if_true]

end Congfs.CommKit
