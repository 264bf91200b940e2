import Congfs.Lib.Run
import Mathlib.Data.List.Perm.Basic

/-!
# The slaves of a resync

The three kinds of slaves have the same loop: `BuddyResyncerGatherSlave::workLoop` and the two
`syncLoop`s. The slaves of a kind work off one queue. A slave looks whether it is told to terminate,
then whether the queue is empty, and then for the second time whether it is told to terminate. Each
of these, and the fetch, is a step of its own, and other threads get their turns in between.

What was ever added to the queue is either still in it, or a slave works on it, or there is a result
(`Crew.Accounted`).
-/

namespace Congfs.Resync

open scoped List
open List

variable {α ω ρ : Type}

inductive Phase (α ω : Type)
  /-- At the head of the loop. -/
  | idle
  | checked
  | sawEmpty (empty : Bool)
  | fetching
  | busy (candidate : α) (work : ω)
  | stopped
  deriving DecidableEq

structure Slave (α ω : Type) where
  selfTerminate : Bool
  onlyTerminateIfIdle : Bool
  errorCount : ℕ
  phase : Phase α ω
  deriving DecidableEq

namespace Slave

def notIdle (slave : Slave α ω) : Bool := slave.selfTerminate && !slave.onlyTerminateIfIdle

def isStopped (slave : Slave α ω) : Bool :=
  match slave.phase with
  | .stopped => true
  | _ => false

def candidate (slave : Slave α ω) : List α :=
  match slave.phase with
  | .busy candidate _ => [candidate]
  | _ => []

/-- A step of the loop, outside of the work on a candidate. The fetch waits for a candidate unless
the slave is told to terminate. -/
def turn (start : ω) (queue : List α) (slave : Slave α ω) : Slave α ω × List α :=
  match slave.phase with
  | .idle => ({ slave with phase := if slave.notIdle then .stopped else .checked }, queue)
  | .checked => ({ slave with phase := .sawEmpty queue.isEmpty }, queue)
  | .sawEmpty empty =>
    ({ slave with phase := if empty && slave.selfTerminate then .stopped else .fetching }, queue)
  | .fetching =>
    match queue with
    | [] => ({ slave with phase := if slave.selfTerminate then .idle else .fetching }, [])
    | candidate :: queue => ({ slave with phase := .busy candidate start }, queue)
  | .busy _ _ | .stopped => (slave, queue)

/-- A slave that is told to terminate stays so. -/
def setFlags (onlyTerminateIfIdle selfTerminate : Bool) (slave : Slave α ω) : Slave α ω :=
  { slave with onlyTerminateIfIdle, selfTerminate := slave.selfTerminate || selfTerminate }

/-- Behind the work on a candidate. -/
def finish (failed : Bool) (slave : Slave α ω) : Slave α ω :=
  { slave with phase := .idle, errorCount := slave.errorCount + failed.toNat }

end Slave

/-- The slaves of a kind, with their queue. `added` and `results` keep what the queue has got and
what has become of it. -/
structure Crew (α ω ρ : Type) where
  slaves : List (Slave α ω)
  queue : List α
  added : List α
  results : List (α × ρ)
  deriving DecidableEq

namespace Crew

/-- No thread runs. `onlyTerminateIfIdle` may be left from a previous run. -/
def start (onlyTerminateIfIdle : List Bool) : Crew α ω ρ where
  slaves := onlyTerminateIfIdle.map fun only => ⟨false, only, 0, .stopped⟩
  queue := []
  added := []
  results := []

variable (crew : Crew α ω ρ)

def add (candidate : α) : Crew α ω ρ :=
  { crew with queue := crew.queue ++ [candidate], added := crew.added ++ [candidate] }

variable (index : ℕ)

def modify (f : Slave α ω → Slave α ω) : Crew α ω ρ :=
  { crew with slaves := crew.slaves.modify index f }

def turn (start : ω) (index : ℕ) : Crew α ω ρ :=
  match crew.slaves[index]? with
  | none => crew
  | some slave =>
    { crew with
      slaves := crew.slaves.set index (slave.turn start crew.queue).1
      queue := (slave.turn start crew.queue).2 }

def proceed (candidate : α) (work : ω) : Crew α ω ρ :=
  crew.modify index fun slave => { slave with phase := .busy candidate work }

def finish (candidate : α) (result : ρ) (failed : Bool) : Crew α ω ρ :=
  { crew.modify index (Slave.finish failed) with results := crew.results ++ [(candidate, result)] }

/-- The threads of the first slaves could be created. -/
def startThreads (threads : ℕ) : Crew α ω ρ :=
  { crew with slaves := crew.slaves.mapIdx fun index slave =>
      { slave with selfTerminate := false, phase := if index < threads then .idle else .stopped } }

def terminateAll : Crew α ω ρ :=
  { crew with slaves := crew.slaves.map fun slave => { slave with selfTerminate := true } }

def allStopped : Bool := crew.slaves.all Slave.isStopped

def hasErrors : Bool := crew.slaves.any fun slave => slave.errorCount != 0

def work? : Option (α × ω) :=
  match crew.slaves[index]? with
  | some ⟨_, _, _, .busy candidate work⟩ => some (candidate, work)
  | _ => none

/-- The slave has read that the queue is empty, and ends now although there are candidates again and
no other slave is left. -/
def abandons : Bool :=
  match crew.slaves[index]? with
  | some ⟨true, _, _, .sawEmpty true⟩ =>
    !crew.queue.isEmpty && (crew.slaves.eraseIdx index).all Slave.isStopped
  | _ => false

end Crew

/-! ## One slave in a list -/

section
variable {β : Type} {l : List β} {index : ℕ} {b b' : β}

theorem perm_eraseIdx (h : l[index]? = some b) : l ~ b :: l.eraseIdx index := by
  obtain ⟨hlt, rfl⟩ := List.getElem?_eq_some_iff.mp h
  exact (getElem_cons_eraseIdx_perm hlt).symm

theorem set_perm (h : l[index]? = some b) : l.set index b' ~ b' :: l.eraseIdx index :=
  set_perm_cons_eraseIdx (List.getElem?_eq_some_iff.mp h).1 b'

theorem count_flatMap_set [BEq α] (h : l[index]? = some b) (f : β → List α) (a : α) :
    ((l.set index b').flatMap f).count a + (f b).count a =
      (l.flatMap f).count a + (f b').count a := by
  have hbefore := ((perm_eraseIdx h).flatMap_right f).count_eq a
  have hbehind := ((@set_perm β l index b b' h).flatMap_right f).count_eq a
  simp only [flatMap_cons, count_append] at hbefore hbehind
  omega

theorem modify_eq_set (h : l[index]? = some b) : l.modify index f = l.set index (f b) := by
  rw [modify_eq_set_getElem?, h]
  rfl

theorem modify_of_none (h : l[index]? = none) (f : β → β) : l.modify index f = l := by
  rw [modify_eq_set_getElem?, h]
  rfl

theorem forall_mem_set {P : β → Prop} (h : ∀ b ∈ l, P b) (hb : P b') :
    ∀ b ∈ l.set index b', P b := by
  intro b hmem
  rcases mem_or_eq_of_mem_set hmem with hmem | rfl
  · exact h b hmem
  · exact hb

theorem forall_mem_modify {P : β → Prop} (h : ∀ b ∈ l, P b) (hf : ∀ b, P b → P (f b)) :
    ∀ b ∈ l.modify index f, P b := by
  cases hb : l[index]? with
  | none =>
    rw [modify_of_none hb]
    exact h
  | some b =>
    rw [modify_eq_set hb]
    exact forall_mem_set h (hf b (h b (mem_of_getElem? hb)))

theorem flatMap_set (h : l[index]? = some b) (hg : g b' = g b) :
    (l.set index b').flatMap g ~ l.flatMap g := by
  refine ((set_perm h).flatMap_right g).trans (.trans ?_ ((perm_eraseIdx h).flatMap_right g).symm)
  rw [flatMap_cons, flatMap_cons, hg]

theorem flatMap_modify {f : β → β} {g : β → List α} (hf : ∀ b, g (f b) = g b) (l : List β)
    (index : ℕ) : (l.modify index f).flatMap g ~ l.flatMap g := by
  cases hb : l[index]? with
  | none => rw [modify_of_none hb]
  | some b =>
    rw [modify_eq_set hb]
    exact flatMap_set hb (hf b)

theorem any_set (h : l[index]? = some b) (hp : p b → p b') (hany : l.any p) :
    (l.set index b').any p := by
  rw [(perm_eraseIdx h).any_eq, any_cons, Bool.or_eq_true] at hany
  rw [(set_perm h).any_eq, any_cons, Bool.or_eq_true]
  exact hany.imp_left hp

end

/-! ## The turn of a slave -/

namespace Slave

variable {start : ω} {queue : List α} {slave : Slave α ω}

theorem turn_flags : (slave.turn start queue).1.notIdle = slave.notIdle ∧
    (slave.turn start queue).1.selfTerminate = slave.selfTerminate ∧
    (slave.turn start queue).1.errorCount = slave.errorCount := by
  unfold turn
  split
  all_goals try exact ⟨rfl, rfl, rfl⟩
  split <;> exact ⟨rfl, rfl, rfl⟩

theorem turn_candidate :
    (slave.turn start queue).2 ++ (slave.turn start queue).1.candidate ~ queue ++
    slave.candidate := by
  obtain ⟨selfTerminate, onlyTerminateIfIdle, errorCount, phase⟩ := slave
  cases phase with
  | idle | sawEmpty =>
    simp only [turn]
    split <;> exact .rfl
  | checked | busy | stopped => exact .rfl
  | fetching =>
    cases queue with
    | nil =>
      simp only [turn]
      split <;> exact .rfl
    | cons head tail => exact (perm_append_singleton head tail).trans (by simp [candidate])

/-- A slave that does not break off stops only behind a look at an empty queue. -/
theorem turn_stops (hidle : slave.notIdle = false) (hrunning : slave.isStopped = false)
    (hstops : (slave.turn start queue).1.isStopped) :
    slave.phase = .sawEmpty true ∧ slave.selfTerminate ∧ (slave.turn start queue).2 = queue := by
  obtain ⟨selfTerminate, onlyTerminateIfIdle, errorCount, phase⟩ := slave
  cases phase with
  | idle =>
    simp only [turn, hidle] at hstops
    cases hstops
  | checked | busy => cases hstops
  | stopped => cases hrunning
  | sawEmpty empty =>
    simp only [turn] at hstops
    split_ifs at hstops with hboth
    · obtain ⟨rfl, hself⟩ := Bool.and_eq_true_iff.mp hboth
      exact ⟨rfl, hself, rfl⟩
    · cases hstops
  | fetching =>
    cases queue with
    | nil =>
      simp only [turn] at hstops
      split at hstops <;> cases hstops
    | cons head tail => cases hstops

theorem phase_of_stopped (h : slave.isStopped) : slave.phase = .stopped := by
  unfold isStopped at h
  split at h
  · assumption
  · cases h

theorem turn_of_stopped (h : slave.isStopped) : slave.turn start queue = (slave, queue) := by
  simp only [turn, phase_of_stopped h]

/-- A slave starts its work from the beginning. -/
theorem turn_busy {candidate : α} (h : (slave.turn start queue).1.phase = .busy candidate work) :
    work = start ∨ slave.phase = .busy candidate work := by
  obtain ⟨selfTerminate, onlyTerminateIfIdle, errorCount, phase⟩ := slave
  cases phase with
  | idle | sawEmpty =>
    simp only [turn] at h
    split at h <;> cases h
  | checked | stopped => cases h
  | busy => exact .inr h
  | fetching =>
    cases queue with
    | nil =>
      simp only [turn] at h
      split at h <;> cases h
    | cons head tail =>
      cases h
      exact .inl rfl

theorem candidate_of_stopped (h : slave.isStopped) : slave.candidate = [] := by
  rw [candidate, phase_of_stopped h]

end Slave

/-! ## Crews that lose nothing -/

namespace Crew

variable {crew crew' : Crew α ω ρ} {index : ℕ} {candidate : α} {work : ω} {told told' : Prop}

theorem work?_eq_some (h : crew.work? index = some (candidate, work)) :
    ∃ slave, crew.slaves[index]? = some slave ∧ slave.phase = .busy candidate work := by
  unfold work? at h
  split at h
  · rename_i heq
    cases h
    exact ⟨_, heq, rfl⟩
  · cases h

theorem modify_eq (hslave : crew.slaves[index]? = some slave) :
    crew.modify index f = { crew with slaves := crew.slaves.set index (f slave) } := by
  rw [modify, modify_eq_set hslave]

theorem turn_eq (crew : Crew α ω ρ) (start : ω) (index : ℕ) :
    crew.turn start index = crew ∨ ∃ slave, crew.slaves[index]? = some slave ∧
      crew.turn start index = { crew with
        slaves := crew.slaves.set index (slave.turn start crew.queue).1
        queue := (slave.turn start crew.queue).2 } := by
  unfold turn
  cases hslave : crew.slaves[index]? with
  | none => exact .inl rfl
  | some slave => exact .inr ⟨slave, rfl, rfl⟩

theorem turn_results (start : ω) (index : ℕ) : (crew.turn start index).results = crew.results := by
  rcases crew.turn_eq start index with heq | ⟨slave, -, heq⟩ <;> rw [heq]

theorem turn_ne_nil (h : crew.slaves ≠ []) (start : ω) (index : ℕ) :
    (crew.turn start index).slaves ≠ [] := by
  rcases crew.turn_eq start index with heq | ⟨slave, -, heq⟩
  · rw [heq]
    exact h
  · rw [heq]
    refine fun hnil => h (eq_nil_of_length_eq_zero ?_)
    have hlength := congrArg List.length hnil
    rwa [length_set] at hlength

theorem turn_of_allStopped (h : crew.allStopped) (start : ω) (index : ℕ) :
    crew.turn start index = crew := by
  unfold turn
  cases hslave : crew.slaves[index]? with
  | none => rfl
  | some slave =>
    have hstopped := all_eq_true.mp h slave (mem_of_getElem? hslave)
    obtain ⟨hlt, rfl⟩ := List.getElem?_eq_some_iff.mp hslave
    dsimp only
    rw [Slave.turn_of_stopped hstopped, set_getElem_self hlt]

theorem work?_of_allStopped (h : crew.allStopped) : crew.work? index = none := by
  cases hwork : crew.work? index with
  | none => rfl
  | some pair =>
    obtain ⟨slave, hslave, hphase⟩ := work?_eq_some hwork
    have hstopped := all_eq_true.mp h slave (mem_of_getElem? hslave)
    rw [Slave.isStopped, hphase] at hstopped
    cases hstopped

theorem start_allStopped : (start flags : Crew α ω ρ).allStopped := by
  refine all_eq_true.mpr fun slave hmem => ?_
  obtain ⟨only, -, rfl⟩ := mem_map.mp hmem
  rfl

theorem mem_startThreads (h : ¬threads < crew.slaves.length)
    (hmem : slave ∈ (crew.startThreads threads).slaves) :
    slave.selfTerminate = false ∧ slave.phase = .idle := by
  obtain ⟨index, hlt, rfl⟩ := mem_mapIdx.mp hmem
  exact ⟨rfl, if_pos (by omega)⟩

/-- What was added is in the queue, or a slave works on it, or there is a result. -/
def Accounted (crew : Crew α ω ρ) : Prop :=
  crew.added ~ crew.queue ++ crew.slaves.flatMap Slave.candidate ++ crew.results.map Prod.fst

/-- No slave breaks off its work or stops before it is told to, and there is a slave for what is
left. -/
structure Sound (crew : Crew α ω ρ) (told : Prop) : Prop where
  accounted : crew.Accounted
  notIdle : ∀ slave ∈ crew.slaves, slave.notIdle = false
  told : ∀ slave ∈ crew.slaves, slave.selfTerminate ∨ slave.isStopped → told
  staffed : crew.queue = [] ∨ ∃ slave ∈ crew.slaves, slave.isStopped = false

section
variable (h : crew.Sound told)
include h

theorem Sound.mono (himp : told → told') : crew.Sound told' :=
  ⟨h.accounted, h.notIdle, fun slave hmem hslave => himp (h.told slave hmem hslave), h.staffed⟩

theorem Sound.running (hne : crew.slaves ≠ []) (hnot : ¬told) :
    ∃ slave ∈ crew.slaves, slave.isStopped = false := by
  obtain ⟨slave, hmem⟩ := exists_mem_of_ne_nil _ hne
  refine ⟨slave, hmem, Bool.eq_false_iff.mpr fun hstopped => ?_⟩
  exact hnot (h.told slave hmem (.inr hstopped))

theorem Sound.staffed_of_stopped (hslave : crew.slaves[index]? = some slave)
    (hstopped : slave.isStopped) :
    crew.queue = [] ∨ ∃ other ∈ crew.slaves.eraseIdx index, other.isStopped = false := by
  refine h.staffed.imp_right ?_
  rintro ⟨other, hmem, hrunning⟩
  rcases mem_cons.mp ((perm_eraseIdx hslave).mem_iff.mp hmem) with rfl | hmem
  · rw [hstopped] at hrunning
    cases hrunning
  · exact ⟨other, hmem, hrunning⟩

/-- When all slaves have stopped, there is a result for everything. -/
theorem Sound.of_allStopped (hstopped : crew.allStopped) :
    crew.added ~ crew.results.map Prod.fst := by
  have hall := all_eq_true.mp hstopped
  have hqueue : crew.queue = [] := by
    refine h.staffed.resolve_right ?_
    rintro ⟨slave, hmem, hrunning⟩
    rw [hall slave hmem] at hrunning
    cases hrunning
  have hwork : crew.slaves.flatMap Slave.candidate = [] :=
    flatMap_eq_nil_iff.mpr fun slave hmem => Slave.candidate_of_stopped (hall slave hmem)
  have haccounted := h.accounted
  rwa [Accounted, hqueue, hwork] at haccounted

end

theorem sound_startThreads (h : ¬threads < (start flags : Crew α ω ρ).slaves.length) :
    ((start flags : Crew α ω ρ).startThreads threads).Sound False where
  accounted := by
    have hnone : ((start flags : Crew α ω ρ).startThreads threads).slaves.flatMap
      Slave.candidate = [] := by
      refine flatMap_eq_nil_iff.mpr fun slave hmem => ?_
      rw [Slave.candidate, (mem_startThreads h hmem).2]
    rw [Accounted, hnone]
    exact .rfl
  notIdle slave hmem := by
    rw [Slave.notIdle, (mem_startThreads h hmem).1, Bool.false_and]
  told slave hmem hslave := by
    obtain ⟨hself, hphase⟩ := mem_startThreads h hmem
    rw [Slave.isStopped, hself, hphase] at hslave
    rcases hslave with hfalse | hfalse <;> cases hfalse
  staffed := .inl rfl

variable [BEq α] [LawfulBEq α]

section
variable (h : crew.Sound told)
include h

/-- A slave moves on, and the others stay as they are. -/
theorem Sound.set (hslave : crew.slaves[index]? = some slave)
    (hslaves : crew'.slaves = crew.slaves.set index slave') (hadded : crew'.added = crew.added)
    (hmove : crew'.queue ++ slave'.candidate ++ crew'.results.map Prod.fst ~
      crew.queue ++ slave.candidate ++ crew.results.map Prod.fst)
    (hnotIdle : slave'.notIdle = false) (htold : slave'.selfTerminate ∨ slave'.isStopped → told)
    (hstaffed : slave'.isStopped → crew'.queue = [] ∨
      ∃ other ∈ crew.slaves.eraseIdx index, other.isStopped = false) : crew'.Sound told where
  accounted := by
    rw [Accounted, hslaves, hadded]
    refine perm_iff_count.mpr fun a => ?_
    have ha := perm_iff_count.mp h.accounted a
    have hset := @count_flatMap_set α _ _ _ slave slave' _ hslave Slave.candidate a
    have hmove := perm_iff_count.mp hmove a
    simp only [count_append] at ha hmove ⊢
    omega
  notIdle := hslaves ▸ forall_mem_set h.notIdle hnotIdle
  told := hslaves ▸ forall_mem_set h.told htold
  staffed := by
    have hperm := @set_perm _ _ _ _ slave' hslave
    rw [hslaves]
    cases hstopped : slave'.isStopped with
    | false => exact .inr ⟨slave', hperm.mem_iff.mpr mem_cons_self, hstopped⟩
    | true =>
      refine (hstaffed hstopped).imp_right ?_
      rintro ⟨other, hother, hrunning⟩
      exact ⟨other, hperm.mem_iff.mpr (mem_cons_of_mem _ hother), hrunning⟩

theorem Sound.add (hrunning : ∃ slave ∈ crew.slaves, slave.isStopped = false)
    (candidate : α) : (crew.add candidate).Sound told where
  accounted := by
    have haccounted := h.accounted
    rw [Accounted, perm_iff_count] at haccounted ⊢
    intro a
    have ha := haccounted a
    simp only [Crew.add, count_append] at ha ⊢
    omega
  notIdle := h.notIdle
  told := h.told
  staffed := .inr hrunning

/-- A slave takes its turn, and is not the last one to leave a queue that is not empty. -/
theorem Sound.turn {start : ω} (hkeeps : crew.abandons index = false) :
    (crew.turn start index).Sound told := by
  unfold Crew.turn
  cases hslave : crew.slaves[index]? with
  | none => exact h
  | some slave =>
    have hmem := mem_of_getElem? hslave
    have hstops := fun hrunning =>
      @Slave.turn_stops _ _ start crew.queue _ (h.notIdle slave hmem) hrunning
    refine h.set hslave rfl rfl (Slave.turn_candidate.append_right _) ?_ ?_ fun hstopped => ?_
    · rw [Slave.turn_flags.1]
      exact h.notIdle slave hmem
    · rw [Slave.turn_flags.2.1]
      rintro (hself | hstopped)
      · exact h.told slave hmem (.inl hself)
      · refine h.told slave hmem ?_
        cases hrunning : slave.isStopped with
        | true => exact .inr rfl
        | false => exact .inl (hstops hrunning hstopped).2.1
    · cases hrunning : slave.isStopped with
      | true =>
        dsimp only
        rw [Slave.turn_of_stopped hrunning]
        exact h.staffed_of_stopped hslave hrunning
      | false =>
        obtain ⟨hphase, hself, hqueue⟩ := hstops hrunning hstopped
        dsimp only
        rw [hqueue]
        refine or_iff_not_imp_left.mpr fun hempty => ?_
        -- otherwise it would be the last one
        obtain ⟨selfTerminate, onlyTerminateIfIdle, errorCount, phase⟩ := slave
        cases hphase
        cases hself
        rw [abandons, hslave] at hkeeps
        simpa [hempty] using hkeeps

theorem Sound.proceed (hwork : crew.work? index = some (candidate, work)) (work' : ω) :
    (crew.proceed index candidate work').Sound told := by
  obtain ⟨slave, hslave, hphase⟩ := work?_eq_some hwork
  have hmem := mem_of_getElem? hslave
  refine h.set hslave (modify_eq_set hslave) rfl ?_ (h.notIdle slave hmem)
    (fun htold => h.told slave hmem ?_) fun hstopped => by cases hstopped
  · rw [show slave.candidate = [candidate] by rw [Slave.candidate, hphase]]
    exact .rfl
  · exact htold.imp_right fun hstopped => by cases hstopped

theorem Sound.finish (hwork : crew.work? index = some (candidate, work)) (result : ρ)
    (failed : Bool) : (crew.finish index candidate result failed).Sound told := by
  obtain ⟨slave, hslave, hphase⟩ := work?_eq_some hwork
  have hmem := mem_of_getElem? hslave
  refine h.set hslave (modify_eq_set hslave) rfl ?_ (h.notIdle slave hmem)
    (fun htold => h.told slave hmem ?_) fun hstopped => by cases hstopped
  · rw [show slave.candidate = [candidate] by rw [Slave.candidate, hphase]]
    simpa [Crew.finish, Crew.modify, Slave.finish, Slave.candidate] using
      (perm_append_singleton candidate _).append_left crew.queue
  · exact htold.imp_right fun hstopped => by cases hstopped

/-- A slave is told to stop when there is nothing to do. -/
theorem Sound.tell (htold : told) : (crew.modify index (Slave.setFlags true true)).Sound told := by
  cases hslave : crew.slaves[index]? with
  | none =>
    rw [modify, modify_of_none hslave]
    exact h
  | some slave =>
    refine h.set hslave (modify_eq_set hslave) rfl .rfl ?_ (fun _ => htold)
      fun hstopped => h.staffed_of_stopped hslave hstopped
    exact Bool.and_false _

end

end Crew

/-! ## Errors are not forgotten -/

namespace Crew

variable {crew : Crew α ω ρ} {index : ℕ} {candidate : α} {work : ω}

theorem hasErrors_modify {f : Slave α ω → Slave α ω}
    (hf : ∀ slave, slave.errorCount ≠ 0 → (f slave).errorCount ≠ 0) (h : crew.hasErrors)
    (index : ℕ) : (crew.modify index f).hasErrors := by
  cases hslave : crew.slaves[index]? with
  | none =>
    rw [modify, modify_of_none hslave]
    exact h
  | some slave =>
    rw [modify_eq hslave]
    refine any_set hslave (fun herrors => ?_) h
    exact bne_iff_ne.mpr (hf slave (bne_iff_ne.mp herrors))

theorem hasErrors_finish_failed (hwork : crew.work? index = some (candidate, work)) :
    (crew.finish index candidate result true).hasErrors := by
  obtain ⟨slave, hslave, -⟩ := work?_eq_some hwork
  rw [finish, modify_eq hslave]
  refine any_eq_true.mpr ⟨slave.finish true, mem_iff_getElem?.mpr ⟨index, ?_⟩, ?_⟩
  · rw [getElem?_set_self', hslave]
    rfl
  · exact bne_iff_ne.mpr (Nat.succ_ne_zero _)

section
variable (h : crew.hasErrors)
include h

theorem hasErrors_turn {start : ω} (index : ℕ) : (crew.turn start index).hasErrors := by
  unfold turn
  cases hslave : crew.slaves[index]? with
  | none => exact h
  | some slave =>
    refine any_set hslave (fun herrors => ?_) h
    rw [Slave.turn_flags.2.2]
    exact herrors

theorem hasErrors_proceed (index : ℕ) (candidate : α) (work : ω) :
    (crew.proceed index candidate work).hasErrors := by
  exact hasErrors_modify (fun _ herrors => by exact herrors) h index

theorem hasErrors_finish (index : ℕ) (candidate : α) (result : ρ) (failed : Bool) :
    (crew.finish index candidate result failed).hasErrors := by
  have hmodify := @hasErrors_modify α ω ρ crew (Slave.finish failed)
  refine hmodify (fun slave herrors => ?_) h index
  have hcount : (slave.finish failed).errorCount = slave.errorCount + failed.toNat := rfl
  omega

theorem hasErrors_startThreads (threads : ℕ) : (crew.startThreads threads).hasErrors := by
  obtain ⟨slave, hmem, herrors⟩ := any_eq_true.mp h
  obtain ⟨index, hlt, rfl⟩ := mem_iff_getElem.mp hmem
  exact any_eq_true.mpr ⟨_, mem_mapIdx.mpr ⟨index, hlt, rfl⟩, herrors⟩

theorem hasErrors_addAll (candidates : List α) : (candidates.foldl add crew).hasErrors := by
  induction candidates generalizing crew with
  | nil => exact h
  | cons candidate candidates ih => exact @ih (crew.add candidate) h

end

end Crew

end Congfs.Resync
