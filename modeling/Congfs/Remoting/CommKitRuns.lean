import Congfs.Remoting.CommKitSafety
import Mathlib.Algebra.BigOperators.Group.List.Basic
import Mathlib.Tactic.Ring

/-!
# Runs of the communication

The counters of the context are the sums of what the targets contribute, from the start of
`FhgfsOpsCommkit_communicate` to its end and also over a retry, as long as no reply is announced to
be larger than the header buffer.
-/

namespace Congfs.CommKit

open CommKitState

variable {cfg : Config} {env : Env} {context : Context} {info info' : TargetInfo}
  {infos : List TargetInfo} {s : System}

section

variable (f : TargetInfo → ℤ)

def total (infos : List TargetInfo) : ℤ := (infos.map f).sum

@[simp] theorem total_nil : total f [] = 0 := rfl

@[simp] theorem total_cons : total f (info :: infos) = f info + total f infos := by
  simp [total]

@[simp] theorem total_append (infos' : List TargetInfo) :
    total f (infos ++ infos') = total f infos + total f infos' := by
  simp [total]

end

theorem total_eq_countP [DecidablePred p] (hf : ∀ info, f info = if p info then 1 else 0) :
    total f infos = (infos.countP fun info => p info : ℕ) := by
  induction infos with
  | nil => rfl
  | cons info infos ih =>
    rw [total_cons, hf, ih, List.countP_cons]
    by_cases hp : p info <;> simp [hp]
    ring

theorem total_eq_zero (h : ∀ info ∈ infos, f info = 0) : total f infos = 0 := by
  induction infos with
  | nil => rfl
  | cons info infos ih =>
    rw [total_cons, h info List.mem_cons_self,
      ih fun i hi => h i (List.mem_cons_of_mem _ hi), add_zero]

/-! ## Retries -/

theorem retryDecide_fields (h : retryDecide cfg info hasBuddy target buddy = some (info', reset)) :
    info'.state = prepare.code ∧ info'.headerBuffer = info.headerBuffer ∧
      info'.node = info.node ∧ info'.connected = info.connected := by
  unfold retryDecide at h
  dsimp only at h
  split at h
  · cases h
  split at h
  · cases h
    exact ⟨rfl, rfl, rfl, rfl⟩
  split at h
  · cases h
    exact ⟨rfl, rfl, rfl, rfl⟩
  split at h <;> cases h <;> exact ⟨rfl, rfl, rfl, rfl⟩

theorem retryTarget_fields (h : retryTarget cfg env info = some (info', reset)) :
    info'.state = prepare.code ∧ info'.headerBuffer = info.headerBuffer ∧
      info'.node = info.node ∧ info'.connected = info.connected := by
  unfold retryTarget at h
  dsimp only at h
  split at h <;> exact retryDecide_fields h

theorem Ok.resources (hok : Ok info) (h : info.state = state.code) : Resources info state := by
  obtain ⟨state', hcode, hres⟩ := hok
  obtain rfl : state' = state := code_injective (hcode.symm.trans h)
  exact hres

theorem ok_of_retry (hok : Ok info) (h : info.state = retryWait.code)
    (hretry : retryTarget cfg env info = some (info', reset)) : Ok info' := by
  obtain ⟨hstate, hbuf, hnode, hconn⟩ := retryTarget_fields hretry
  obtain ⟨h1, h2, h3⟩ := hok.resources h
  exact ⟨.prepare, hstate, hbuf.trans h1, hnode.trans h2, hconn.trans h3⟩

/-- What the loop of a retry over the targets keeps; nobody waits any more unless it was left. -/
structure Retried (infos infos' : List TargetInfo) (cancelRetries : Bool) : Prop where
  ok : ∀ info ∈ infos', Ok info
  length : infos'.length = infos.length
  done : total countDone infos' = total countDone infos
  conn : total countConn infos' = total countConn infos
  none_waits : cancelRetries = false → ∀ info ∈ infos', info.state ≠ retryWait.code

theorem Retried.cons {infos' : List TargetInfo} {cancelRetries : Bool}
    (h : Retried infos infos' cancelRetries) (hok : Ok info')
    (hdone : countDone info' = countDone info) (hconn : countConn info' = countConn info)
    (hwait : info'.state ≠ retryWait.code) :
    Retried (info :: infos) (info' :: infos') cancelRetries where
  ok := by
    rintro i (_ | ⟨_, hi⟩)
    exacts [hok, h.ok i hi]
  length := by simp [h.length]
  done := by rw [total_cons, total_cons, hdone, h.done]
  conn := by rw [total_cons, total_cons, hconn, h.conn]
  none_waits hcancel := by
    rintro i (_ | ⟨_, hi⟩)
    exacts [hwait, h.none_waits hcancel i hi]

theorem retryTargets_retried (hok : ∀ info ∈ infos, Ok info) :
    Retried infos (retryTargets cfg env infos).1 (retryTargets cfg env infos).2.2 := by
  induction infos with
  | nil => exact ⟨nofun, rfl, rfl, rfl, fun _ => nofun⟩
  | cons info infos ih =>
    have hok' := hok info List.mem_cons_self
    have ih := ih fun i hi => hok i (List.mem_cons_of_mem _ hi)
    unfold retryTargets
    split_ifs with hwait
    · cases hretry : retryTarget cfg env info with
      | none => exact ⟨hok, rfl, rfl, rfl, nofun⟩
      | some res =>
        obtain ⟨hstate, -, -, hconn⟩ := retryTarget_fields hretry
        refine ih.cons (ok_of_retry hok' hwait hretry) ?_ ?_ ?_
        · simp [countDone, hstate, hwait, code]
        · rw [countConn, countConn, hconn]
        · rw [hstate]
          decide
    · exact ih.cons hok' rfl rfl hwait

/-- What cancelling the retries keeps: the targets it finishes are counted as finished. -/
structure Cancelled (context : Context) (infos : List TargetInfo) (context' : Context)
    (infos' : List TargetInfo) : Prop where
  ok : ∀ info ∈ infos', Ok info
  length : infos'.length = infos.length
  done : context'.numDone - total countDone infos' = context.numDone - total countDone infos
  conn : total countConn infos' = total countConn infos
  numConn : context'.numAcquiredConns = context.numAcquiredConns
  numRetry : context'.numRetryWaiters = context.numRetryWaiters
  none_waits : ∀ info ∈ infos', info.state ≠ retryWait.code

theorem cancelTarget_spec (hok : Ok info) : Ok (cancelTarget context info).2 ∧
      (cancelTarget context info).1.numDone - countDone (cancelTarget context info).2 =
        context.numDone - countDone info ∧
      countConn (cancelTarget context info).2 = countConn info ∧
      (cancelTarget context info).1.numAcquiredConns = context.numAcquiredConns ∧
      (cancelTarget context info).1.numRetryWaiters = context.numRetryWaiters ∧
      (cancelTarget context info).2.state ≠ retryWait.code := by
  unfold cancelTarget
  split_ifs with hstate
  · exact ⟨hok, rfl, rfl, rfl, rfl, hstate.1⟩
  · have hcase : info.state = retryWait.code ∨ info.state = prepare.code := by
      by_contra hne
      push Not at hne
      exact hstate hne
    have hrel : Released info := by
      rcases hcase with h | h
      · exact hok.resources h
      · exact hok.resources h
    have hnot : countDone info = 0 := by
      rcases hcase with h | h <;> simp [countDone, h, code]
    refine ⟨⟨.done, rfl, hrel⟩, ?_, rfl, rfl, rfl, ?_⟩
    · rw [hnot]
      simp [finish, setState, countDone]
    · simp [finish, setState, code]

theorem cancelTargets_cancelled (hok : ∀ info ∈ infos, Ok info) :
    Cancelled context infos (cancelTargets context infos).1 (cancelTargets context infos).2 := by
  induction infos generalizing context with
  | nil => exact ⟨nofun, rfl, rfl, rfl, rfl, rfl, nofun⟩
  | cons info infos ih =>
    obtain ⟨hok1, hdone, hconn, hnum, hretry, hwait⟩ :=
      @cancelTarget_spec context info (hok info List.mem_cons_self)
    have ih := @ih (cancelTarget context info).1 fun i hi => hok i (List.mem_cons_of_mem _ hi)
    constructor
    · rintro i (_ | ⟨_, hi⟩)
      exacts [hok1, ih.ok i hi]
    · simp [cancelTargets, ih.length]
    · have h := ih.done
      simp only [cancelTargets, total_cons]
      omega
    · simp only [cancelTargets, total_cons, hconn, ih.conn]
    · exact ih.numConn.trans hnum
    · exact ih.numRetry.trans hretry
    · rintro i (_ | ⟨_, hi⟩)
      exacts [hwait, ih.none_waits i hi]

/-! ## The loop -/

/-- The targets are in order and the counters are their sums. -/
structure Counted (context : Context) (infos : List TargetInfo) : Prop where
  ok : ∀ info ∈ infos, Ok info
  done : context.numDone = total countDone infos
  retry : context.numRetryWaiters = total countRetry infos
  conn : context.numAcquiredConns = total countConn infos

theorem total_countRetry_eq_zero (h : ∀ info ∈ infos, info.state ≠ retryWait.code) :
    total countRetry infos = 0 :=
  total_eq_zero fun info hinfo => if_neg (h info hinfo)

theorem startRetry_counted (h : Counted context infos) :
    Counted (startRetry cfg env context infos).1 (startRetry cfg env context infos).2 := by
  have hret := @retryTargets_retried cfg env infos h.ok
  unfold startRetry
  generalize retryTargets cfg env infos = res at hret ⊢
  obtain ⟨infos', resetRetries, cancelRetries⟩ := res
  dsimp only at hret ⊢
  cases cancelRetries with
  | false =>
    refine ⟨hret.ok, ?_, ?_, ?_⟩
    · exact h.done.trans hret.done.symm
    · exact (total_countRetry_eq_zero (hret.none_waits rfl)).symm
    · exact h.conn.trans hret.conn.symm
  | true =>
    have hcan := @cancelTargets_cancelled
      { context with numRetryWaiters := 0, pollTimedOut := false } infos' hret.ok
    refine ⟨hcan.ok, ?_, ?_, ?_⟩
    · have hd := hcan.done
      rw [hret.done, ← h.done] at hd
      dsimp only at hd
      rw [if_pos rfl]
      omega
    · rw [if_pos rfl, total_countRetry_eq_zero hcan.none_waits]
      exact hcan.numRetry
    · rw [if_pos rfl, hcan.conn, hret.conn, ← h.conn]
      exact hcan.numConn

theorem endRound_counted (h : Counted context infos) :
    Counted (endRound cfg env context infos).1 (endRound cfg env context infos).2 := by
  unfold endRound
  split
  · exact ⟨h.ok, h.done, h.retry, h.conn⟩
  split
  · exact startRetry_counted h
  · exact h

theorem Counted.replace (h : Counted context (handled ++ info :: todo))
    (hgood : Good context info (context', info')) :
    Counted context' ((handled ++ [info']) ++ todo) := by
  obtain ⟨hok, hbal⟩ := hgood
  have hd := h.done
  have hr := h.retry
  have hc := h.conn
  have hd' := hbal.done
  have hr' := hbal.retry
  have hc' := hbal.conn
  dsimp only at hd' hr' hc'
  simp only [total_append, total_cons] at hd hr hc
  refine ⟨fun i hi => ?_, ?_, ?_, ?_⟩
  · rcases List.mem_append.mp hi with hi | hi
    · rcases List.mem_append.mp hi with hi | hi
      · exact h.ok i (List.mem_append_left _ hi)
      · rw [List.mem_singleton.mp hi]
        exact hok
    · exact h.ok i (List.mem_append_right _ (List.mem_cons_of_mem _ hi))
  · simp only [total_append, total_cons, total_nil]
    omega
  · simp only [total_append, total_cons, total_nil]
    omega
  · simp only [total_append, total_cons, total_nil]
    omega

/-- What the loop keeps: it has not run into `BUG()`, and it ends when all targets are finished. -/
structure Inv (s : System) : Prop where
  counted : Counted s.context s.infos
  no_bug : s.status ≠ .bug
  ended : s.status = .ended → s.context.numDone = s.infos.length

/-- The step makes a target receive the header of a reply that is announced to be too large. -/
def TooLargeReply (cfg : Config) (s : System) (env : Env) : Prop :=
  s.status = .running ∧ ∃ info todo, s.todo = info :: todo ∧ Oversized cfg env s.context info

theorem communicate_inv : Inv (communicate targetIDs) := by
  have hinfo : ∀ info ∈ targetIDs.map initTargetInfo, ∃ targetID, info = initTargetInfo
    targetID := by
    intro info hinfo
    obtain ⟨targetID, -, rfl⟩ := List.mem_map.mp hinfo
    exact ⟨targetID, rfl⟩
  refine ⟨⟨fun info h => ?_, ?_, ?_, ?_⟩, nofun, nofun⟩
  · obtain ⟨targetID, rfl⟩ := hinfo info h
    exact ⟨.prepare, rfl, rfl, rfl, rfl⟩
  all_goals
    refine (total_eq_zero fun info h => ?_).symm
    obtain ⟨targetID, rfl⟩ := hinfo info h
    rfl

theorem step_inv (h : Inv s) (hsize : ¬TooLargeReply cfg s env) : Inv (step cfg s env) := by
  obtain ⟨context, handled, todo, status⟩ := s
  cases status with
  | bug => exact absurd rfl h.no_bug
  | ended => exact h
  | running =>
    cases todo with
    | cons info todo =>
      have hok : Ok info := h.counted.ok info (by simp [System.infos])
      obtain ⟨⟨context', info'⟩, heq, hgood⟩ := @handle_good cfg env context info hok
        fun hlarge => hsize ⟨rfl, info, todo, rfl, hlarge⟩
      simp only [step, heq]
      exact ⟨h.counted.replace hgood, nofun, nofun⟩
    | nil =>
      have hcounted : Counted context handled := by
        simpa [System.infos] using h.counted
      have hend := @endRound_counted cfg env context handled hcounted
      simp only [step]
      split_ifs with hdone
      · exact ⟨by simpa [System.infos] using hend, nofun, fun _ => by simpa
          [System.infos] using hdone⟩
      · exact ⟨⟨hend.ok, hend.done, hend.retry, hend.conn⟩, nofun, nofun⟩

/-! ## Every run -/

/-- What is expected of every state of the loop. A socket counts as long as its connection was
neither released nor invalidated. -/
structure Safe (s : System) : Prop where
  valid : ∀ info ∈ s.infos, ∃ state : CommKitState, info.state = state.code
  no_bug : s.status ≠ .bug
  done : s.context.numDone = (s.infos.countP fun info => info.state = done.code : ℕ)
  retry : s.context.numRetryWaiters = (s.infos.countP fun info => info.state = retryWait.code : ℕ)
  conn : s.context.numAcquiredConns = (s.infos.countP fun info => info.connected = true : ℕ)
  released : s.status = .ended → ∀ info ∈ s.infos,
    info.headerBuffer = none ∧ info.node = false ∧ info.connected = false

theorem Inv.safe (h : Inv s) : Safe s where
  valid info hinfo := by
    obtain ⟨state, hcode, -⟩ := h.counted.ok info hinfo
    exact ⟨state, hcode⟩
  no_bug := h.no_bug
  done := h.counted.done.trans (total_eq_countP (fun _ => rfl))
  retry := h.counted.retry.trans (total_eq_countP (fun _ => rfl))
  conn := h.counted.conn.trans (total_eq_countP (fun _ => rfl))
  released hended info hinfo := by
    -- as many targets are finished as there are
    have hdone := h.counted.done.trans (total_eq_countP (fun _ => rfl))
    rw [h.ended hended] at hdone
    have hall := List.countP_eq_length.mp (Int.ofNat_inj.mp hdone).symm info hinfo
    have hstate : info.state = done.code := by simpa using hall
    exact (h.counted.ok info hinfo).resources hstate

theorem step_not_safe (hlarge : TooLargeReply cfg s env) : ¬Safe (step cfg s env) := by
  obtain ⟨context, handled, todo, status⟩ := s
  obtain ⟨hstatus, info, rest, htodo, hover⟩ := hlarge
  subst hstatus htodo
  obtain ⟨⟨context', info'⟩, heq, hcode⟩ := handle_oversized hover
  intro hsafe
  simp only [step, heq] at hsafe
  obtain ⟨state, hstate⟩ := hsafe.valid info' (by simp [System.infos])
  rw [hcode] at hstate
  cases state <;> exact absurd hstate (by decide)

/-- All states of a communication are as expected, for all targets and whatever the calls give,
exactly if no reply is announced to be larger than the header buffer. -/
theorem communicate_safe_iff (cfg : Config) (targetIDs : List UInt16) (envs : List Env) :
    EveryState (step cfg) Safe (communicate targetIDs) envs ↔
      EveryStep (step cfg) (fun s env => ¬TooLargeReply cfg s env) (communicate targetIDs) envs :=
  everyState_iff_of_inv (fun _ h => h.safe) (fun _ _ h hsize => step_inv h hsize)
    (fun _ _ _ hlarge => step_not_safe (not_not.mp hlarge)) communicate_inv envs

/-- The flags of an `fsync`, and a client that retries. -/
def fsyncConfig : Config := ⟨⟨true, false, true, false, false, true⟩, true, false, true, 0⟩

/-- Everything succeeds, and the reply starts with `head`. -/
def replyEnv (head : List UInt8) : Env where
  fatalSignalPending := false
  nodeIsActive := true
  injectPollTimeout := false
  ready := true
  allocHeaderBuffer := some []
  primaryTargetID := id
  secondaryTargetID := id
  getState _ := (true, ⟨.online, .good⟩)
  selectedTargetBad := (.skipTarget, none)
  referenceNode := 0
  prepareHeader := ([40, 0, 0, 0], none)
  acquireStreamSocket := true
  sendHeaderComplete := true
  sendData := (0, false)
  injectRecvTimeout := false
  recvHead := head
  recvBody := []
  recvHeader := (0, none)
  recvData := (0, false, none)
  pollFails := false

/-- The header of a reply of 4097 bytes. The request is sent, the sockets are polled, the header is
received, and at its next turn the target runs into `BUG()`. -/
def largeReply : List Env := List.replicate 3 (replyEnv ([1, 16, 0, 0] ++ List.replicate 36 0))

theorem communicate_largeReply :
    (run (step fsyncConfig) (communicate [1]) largeReply).infos.map (·.state) = [-5] ∧
      (run (step fsyncConfig) (communicate [1]) (largeReply ++ largeReply.take 2)).status =
      .bug := by
  decide

end Congfs.CommKit
