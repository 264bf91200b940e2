import Congfs.Resync.ResyncFailures

/-!
# What a successful resync has done

A job in which no failure gets lost and that ends as successful has scanned everything, has synced
all file candidates, and has deleted on the buddy all that it decided to delete.

As long as the job is not doomed, everything is well so far (`Job.Regular`). There are slaves for
what is in their queues: the gather slaves do not stop before the walk is over, nor the file sync
slaves before the gather slaves have stopped.
-/

namespace Congfs.Resync

open Storage List
open scoped List
open Crew (add start_allStopped work?_eq_some)

/-! ## Jobs without a failure so far -/

def Pc.rank : Pc → ℕ
  | .starting => 0
  | .checkTopLevelDir => 1
  | .walkDirs _ _ => 2
  | .terminate .gather _ | .terminateRead .gather _ _ => 3
  | .joinGatherSlaves => 4
  | .terminate .fileSync _ | .terminateRead .fileSync _ _ => 5
  | .terminate .dirSync _ | .terminateRead .dirSync _ _ => 6
  | .joinSyncSlaves => 7
  | .cleanup => 8
  | .ended => 9

/-- It was read that the job is to abort. -/
def Pc.aborted : Pc → Bool
  | .terminateRead _ _ aborted => aborted
  | _ => false

/-- All scans are complete, those in progress so far. -/
structure ScansComplete (gather : Crew Path Bool Bool) : Prop where
  results : ∀ result ∈ gather.results, result.2
  slaves : ∀ slave ∈ gather.slaves, ∀ path complete, slave.phase = .busy path complete → complete

/-- What a dir sync slave has decided to delete. -/
def Slave.pending (slave : Slave Path DirWork) : List Path :=
  match slave.phase with
  | .busy path work => work.pending path
  | _ => []

/-- A slave that takes a candidate has decided nothing about it. -/
theorem Slave.turn_pending {slave : Slave Path DirWork} :
    (slave.turn .begin queue).1.pending = slave.pending := by
  obtain ⟨selfTerminate, onlyTerminateIfIdle, errorCount, phase⟩ := slave
  cases phase with
  | idle | sawEmpty =>
    simp only [turn]
    split <;> rfl
  | checked | busy | stopped => rfl
  | fetching =>
    cases queue with
    | nil =>
      simp only [turn]
      split <;> rfl
    | cons head tail => rfl

namespace Job

/-- Directories that were left before their end will let the walk fail. -/
def Walks (missed : Bool) (pc : Pc) : Prop :=
  missed → ∃ time frames, pc = .walkDirs time frames ∧ ∃ frame ∈ frames, frame.retVal = false

structure Regular (job : Job) : Prop where
  status : job.status = .running
  shallAbort : job.shallAbort = false
  started : 1 ≤ job.pc.rank
  gatherStaff : job.gather.slaves ≠ []
  fileSyncStaff : job.fileSync.slaves ≠ []
  gather : job.gather.Sound (3 ≤ job.pc.rank)
  fileSync : job.fileSync.Sound (5 ≤ job.pc.rank)
  dirSync : ∀ slave ∈ job.dirSync.slaves, slave.notIdle = false
  joined : 5 ≤ job.pc.rank → job.gather.allStopped
  aborted : job.pc.aborted = false
  walks : Walks job.missed job.pc
  scans : ScansComplete job.gather
  files : ∀ result ∈ job.fileSync.results, result.2.Done
  decided : job.decided ~ job.deleted ++ job.dirSync.slaves.flatMap Slave.pending

section
variable {job : Job}

/-- The job is over and everything is done. -/
structure Succeeded (job : Job) : Prop where
  pc : job.pc = .ended
  complete : job.Complete

/-- What a job is while no failure gets lost. -/
inductive Inv (job : Job) : Prop
  | doomed : job.Doomed → Inv job
  | regular : job.Regular → Inv job
  | succeeded : job.Succeeded → Inv job

theorem Inv.of_or (h : job.Regular ∨ job.Doomed) : job.Inv :=
  h.elim .regular .doomed

theorem mask_terminate {env : FileEnv} : (env.mask false).terminate n = false :=
  Bool.and_false _

theorem foldl_add_slaves (crew : Crew Path DirWork ℕ) (candidates : List Path) :
    (candidates.foldl add crew).slaves = crew.slaves := by
  induction candidates generalizing crew with
  | nil => rfl
  | cons candidate candidates ih => exact ih (crew.add candidate)

section
variable (h : job.Regular)
include h

theorem Regular.setPc {pc : Pc} {missed : Bool} (hrank : job.pc.rank ≤ pc.rank)
    (hjoined : 5 ≤ pc.rank → job.gather.allStopped) (haborted : pc.aborted = false)
    (hwalks : Walks missed pc) : { job with pc, missed }.Regular :=
  { h with
    started := h.started.trans hrank
    gather := h.gather.mono fun htold => htold.trans hrank
    fileSync := h.fileSync.mono fun htold => htold.trans hrank
    joined := hjoined
    aborted := haborted
    walks := hwalks }

theorem Regular.not_missed (hrank : 3 ≤ job.pc.rank) : job.missed = false := by
  refine Bool.eq_false_iff.mpr fun hmissed => ?_
  obtain ⟨time, frames, hpc, -⟩ := h.walks hmissed
  rw [hpc] at hrank
  exact absurd hrank (show ¬3 ≤ 2 by decide)

/-- Nothing changes for the slaves of directories but the queue. -/
theorem Regular.setDirSync {dirSync : Crew Path DirWork ℕ}
    (hslaves : dirSync.slaves = job.dirSync.slaves) : { job with dirSync }.Regular :=
  { h with
    dirSync := by
      rw [hslaves]
      exact h.dirSync
    decided := by
      rw [hslaves]
      exact h.decided }

/-! ## The thread of the job -/

theorem Regular.leaveDir (hpc : job.pc.rank = 2) {missed retVal : Bool}
    (hmissed : missed → retVal = false ∨ ∃ frame ∈ frames, frame.retVal = false) (time : ℤ) :
    ({ job with missed }.leaveDir time retVal frames).Regular ∨
      ({ job with missed }.leaveDir time retVal frames).Doomed := by
  cases frames with
  | nil =>
    cases hret : retVal with
    | false => exact .inr fail_doomed
    | true =>
      refine .inl (h.setPc ?_ (fun hle => ?_) rfl fun hmiss => ?_)
      · rw [hpc]
        exact Nat.le_succ 2
      · exact absurd hle (show ¬5 ≤ 3 by decide)
      · rcases hmissed hmiss with hfalse | ⟨_, hmem, -⟩
        · rw [hret] at hfalse
          cases hfalse
        · cases hmem
  | cons frame frames =>
    refine .inl (h.setPc (le_of_eq hpc) (fun hle => ?_) rfl fun hmiss => ?_)
    · exact absurd hle (show ¬5 ≤ 2 by decide)
    · refine ⟨time, _, rfl, ?_⟩
      rcases hmissed hmiss with hfalse | ⟨other, hmem, hfalse⟩
      · refine ⟨_, mem_cons_self, ?_⟩
        rw [hfalse, Bool.and_false]
      · rcases mem_cons.mp hmem with rfl | hmem
        · refine ⟨_, mem_cons_self, ?_⟩
          rw [hfalse, Bool.false_and]
        · exact ⟨other, mem_cons_of_mem _ hmem, hfalse⟩

theorem Regular.walkDirs (hpc : job.pc = .walkDirs time (frame :: frames)) (env : MainEnv) :
    (job.walkDirs time frame frames env).Regular ∨ (job.walkDirs time frame frames env).Doomed := by
  have hrank : job.pc.rank = 2 := by
    rw [hpc]
    rfl
  have hwalks : job.missed → ∃ other ∈ frame :: frames, other.retVal = false := by
    intro hmissed
    obtain ⟨time', frames', heq, hframe⟩ := h.walks hmissed
    rw [hpc] at heq
    cases heq
    exact hframe
  have hjoined : 5 ≤ 2 → job.gather.allStopped := fun hle => absurd hle (by decide)
  have habort : ¬job.shallAbort := by
    rw [h.shallAbort]
    exact Bool.false_ne_true
  unfold Job.walkDirs
  cases env.readdir with
  | done =>
    refine h.leaveDir hrank (fun hmissed => ?_) time
    obtain ⟨other, hmem, hfalse⟩ := hwalks hmissed
    rcases mem_cons.mp hmem with rfl | hmem
    · exact .inl hfalse
    · exact .inr ⟨other, hmem, hfalse⟩
  | error => exact h.leaveDir hrank (fun _ => .inl rfl) time
  | entry name =>
    dsimp only
    rw [if_neg habort]
    cases env.stat with
    | error => exact h.leaveDir hrank (fun _ => .inl rfl) time
    | file => exact .inl h
    | dir mtime =>
      dsimp only
      obtain ⟨dirSync, heq, hslaves⟩ := @addDir_fields job time mtime (entryPath frame.relPath name)
      rw [heq]
      split
      · have hdir := h.setDirSync hslaves
        split
        · refine .inl (hdir.setPc (le_of_eq hrank) hjoined rfl fun hmissed => ?_)
          obtain ⟨other, hmem, hfalse⟩ := hwalks hmissed
          exact ⟨time, _, rfl, other, mem_cons_of_mem _ hmem, hfalse⟩
        · refine .inl (hdir.setPc (le_of_eq hrank) hjoined rfl fun _ => ?_)
          exact ⟨time, _, rfl, _, mem_cons_self, rfl⟩
      · have hnot : ¬3 ≤ job.pc.rank := by omega
        exact .inl { h with
          gather := h.gather.add (h.gather.running h.gatherStaff hnot) _
          scans := ⟨h.scans.results, h.scans.slaves⟩ }

theorem Regular.checkTopLevelDir (hpc : job.pc = .checkTopLevelDir) (env : MainEnv) :
    (job.checkTopLevelDir env).Regular ∨ (job.checkTopLevelDir env).Doomed := by
  unfold Job.checkTopLevelDir
  dsimp only
  split
  · exact .inr fail_doomed
  · rename_i mtime _
    obtain ⟨dirSync, heq, hslaves⟩ := @addDir_fields job
      (lastBuddyCommTimeSecs job.safetyThresholdSecs env.lastBuddyComm) mtime []
    rw [heq]
    split
    · refine .inl ((h.setDirSync hslaves).setPc ?_ (fun hle => ?_) rfl ?_)
      · rw [hpc]
        exact Nat.le_succ 1
      · exact absurd hle (show ¬5 ≤ 2 by decide)
      · intro hmissed
        obtain ⟨_, _, hpc', -⟩ := h.walks hmissed
        rw [hpc] at hpc'
        cases hpc'
    · exact .inr fail_doomed

/-- A slave is told to terminate when there is nothing to do. -/
theorem Regular.setFlags {aborted : Bool} (hpc : job.pc = .terminateRead kind index aborted) :
    (job.setFlags true true kind index).Regular := by
  cases kind with
  | gather =>
    have hrank : job.pc.rank = 3 := by
      rw [hpc]
      rfl
    refine { h with
      gatherStaff := fun hnil => h.gatherStaff (modify_eq_nil_iff.mp hnil)
      gather := h.gather.tell (le_of_eq hrank.symm)
      joined := fun hle => ?_
      scans := ⟨h.scans.results, forall_mem_modify h.scans.slaves
        (fun _ hslave => by exact hslave)⟩ }
    have hle : 5 ≤ job.pc.rank := hle
    omega
  | fileSync =>
    have hrank : job.pc.rank = 5 := by
      rw [hpc]
      rfl
    exact { h with
      fileSyncStaff := fun hnil => h.fileSyncStaff (modify_eq_nil_iff.mp hnil)
      fileSync := h.fileSync.tell (le_of_eq hrank.symm) }
  | dirSync =>
    have hpending := @flatMap_modify _ _ (Slave.setFlags true true) Slave.pending (fun _ => rfl)
    exact { h with
      dirSync := forall_mem_modify h.dirSync (fun _ _ => by exact Bool.and_false _)
      decided := h.decided.trans ((hpending _ index).symm.append_left _) }

theorem Regular.finish (hrank : 3 ≤ job.pc.rank) (hgather : job.gather.allStopped)
    (hfile : job.fileSync.allStopped) (hdir : job.dirSync.allStopped) :
    job.finish.Doomed ∨ job.finish.Succeeded := by
  have habort : ¬job.shallAbort := by
    rw [h.shallAbort]
    exact Bool.false_ne_true
  unfold Job.finish
  rw [if_pos h.status, if_neg habort]
  split
  · exact .inl (.of_status rfl)
  · have hpending : job.dirSync.slaves.flatMap Slave.pending = [] := by
      refine flatMap_eq_nil_iff.mpr fun slave hmem => ?_
      rw [Slave.pending, Slave.phase_of_stopped (all_eq_true.mp hdir slave hmem)]
    have hdecided := h.decided
    rw [hpending, append_nil] at hdecided
    exact .inr ⟨rfl, {
      walked := h.not_missed hrank
      scanned := h.gather.of_allStopped hgather
      scans := h.scans.results
      synced := h.fileSync.of_allStopped hfile
      files := h.files
      deleted := hdecided }⟩

/-- Behind the walk the thread of the job only waits and tells the slaves to terminate. -/
theorem Regular.setPcLate {pc : Pc} (hn : job.pc.rank = n) (h3 : 3 ≤ n)
    (hle : n ≤ pc.rank) (hjoined : 5 ≤ pc.rank → job.gather.allStopped)
    (haborted : pc.aborted = false) : { job with pc }.Regular := by
  subst hn
  refine h.setPc hle hjoined haborted fun hmissed => ?_
  rw [h.not_missed h3] at hmissed
  cases hmissed

theorem Regular.terminate (hpc : job.pc = .terminate kind index) :
    { job with pc := .terminateRead kind index job.shallAbort }.Regular ∧
      { job with pc := terminated kind }.Regular := by
  have hjoined := h.joined
  have hrank : job.pc.rank = (Pc.terminate kind index).rank := by rw [hpc]
  rw [hrank] at hjoined
  cases kind with
  | gather =>
    refine ⟨h.setPcLate hrank le_rfl le_rfl hjoined h.shallAbort,
      h.setPcLate hrank le_rfl (Nat.le_succ 3) (fun hle => ?_) rfl⟩
    exact absurd hle (show ¬5 ≤ 4 by decide)
  | fileSync =>
    exact ⟨h.setPcLate hrank (show 3 ≤ 5 by decide) le_rfl hjoined h.shallAbort,
      h.setPcLate hrank (show 3 ≤ 5 by decide) (Nat.le_succ 5) (fun _ => hjoined le_rfl) rfl⟩
  | dirSync =>
    exact ⟨h.setPcLate hrank (show 3 ≤ 6 by decide) le_rfl hjoined h.shallAbort,
      h.setPcLate hrank (show 3 ≤ 6 by decide) (Nat.le_succ 6) (fun _ =>
      hjoined (Nat.le_succ 5)) rfl⟩

omit h in
theorem Regular.terminateNext (h : (job.setFlags true true kind index).Regular)
    (hpc : job.pc = .terminateRead kind index false) :
    { job.setFlags true true kind index with pc := .terminate kind (index + 1) }.Regular := by
  have hrank : (job.setFlags true true kind index).pc.rank =
    (Pc.terminate kind (index + 1)).rank := by
    cases kind with
    | gather | fileSync | dirSync =>
      rw [show (job.setFlags true true _ index).pc = job.pc from rfl, hpc]
      rfl
  have hjoined := h.joined
  rw [hrank] at hjoined
  refine h.setPcLate hrank ?_ le_rfl hjoined rfl
  cases kind with
  | gather | fileSync | dirSync => exact Nat.le_add_left 3 _

theorem Regular.main (env : MainEnv) : (job.main env).Inv := by
  have hstarted := h.started
  unfold Job.main
  split
  · rename_i hpc
    rw [hpc] at hstarted
    exact absurd hstarted (show ¬1 ≤ 0 by decide)
  · rename_i hpc
    exact .of_or (h.checkTopLevelDir hpc env)
  · exact .regular h
  · rename_i hpc
    exact .of_or (h.walkDirs hpc env)
  · rename_i hpc
    split
    · exact .regular (h.terminate hpc).1
    · exact .regular (h.terminate hpc).2
  · rename_i kind index aborted hpc
    cases aborted with
    | true =>
      have haborted := h.aborted
      rw [hpc] at haborted
      cases haborted
    | false => exact .regular ((h.setFlags hpc).terminateNext hpc)
  · rename_i hpc
    split_ifs with hstopped
    · exact .regular (h.setPcLate (by rw [hpc]; rfl) (show 3 ≤ 4 by decide) (Nat.le_succ 4)
        (fun _ => hstopped) rfl)
    · exact .regular h
  · rename_i hpc
    split
    · refine .regular (h.setPcLate (by rw [hpc]; rfl) (show 3 ≤ 7 by decide) (Nat.le_succ 7)
        (fun _ => ?_) rfl)
      exact h.joined (by rw [hpc]; decide)
    · exact .regular h
  · rename_i hpc
    split_ifs with hstopped
    · simp only [Bool.and_eq_true] at hstopped
      obtain ⟨⟨hgather, hfile⟩, hdir⟩ := hstopped
      exact (h.finish (by rw [hpc]; decide) hgather hfile hdir).elim .doomed .succeeded
    · exact .regular h
  · exact .regular h

/-! ## The slaves -/

theorem Regular.turn (hreported : job.Reported (.turn kind index)) :
    (job.turn kind index).Regular := by
  cases kind with
  | gather =>
    refine { h with
      gatherStaff := Crew.turn_ne_nil h.gatherStaff _ _
      gather := h.gather.turn hreported
      joined := fun hle => ?_
      scans := ⟨?_, ?_⟩ }
    · have hstopped := h.joined hle
      rw [Job.turn, Crew.turn_of_allStopped hstopped]
      exact hstopped
    · rw [Job.turn, Crew.turn_results]
      exact h.scans.results
    · rw [Job.turn]
      rcases job.gather.turn_eq true index with heq | ⟨slave, hslave, heq⟩
      · rw [heq]
        exact h.scans.slaves
      · rw [heq]
        refine forall_mem_set h.scans.slaves fun path complete hbusy => ?_
        rcases Slave.turn_busy hbusy with hstart | hold
        · exact hstart
        · exact h.scans.slaves slave (mem_of_getElem? hslave) path complete hold
  | fileSync =>
    refine { h with
      fileSyncStaff := Crew.turn_ne_nil h.fileSyncStaff _ _
      fileSync := h.fileSync.turn hreported
      files := ?_ }
    rw [Job.turn, Crew.turn_results]
    exact h.files
  | dirSync =>
    rcases job.dirSync.turn_eq .begin index with heq | ⟨slave, hslave, heq⟩
    · rw [Job.turn, heq]
      exact h
    · rw [Job.turn, heq]
      refine { h with
        dirSync := forall_mem_set h.dirSync ?_
        decided := ?_ }
      · rw [Slave.turn_flags.1]
        exact h.dirSync slave (mem_of_getElem? hslave)
      · exact h.decided.trans ((flatMap_set hslave Slave.turn_pending).symm.append_left _)

/-- A scan is in progress, so the gather slaves are not joined. -/
theorem Regular.not_joined (hwork : job.gather.work? index = some work) : ¬5 ≤ job.pc.rank := by
  intro hle
  rw [Crew.work?_of_allStopped (h.joined hle)] at hwork
  cases hwork

theorem Regular.handleDiscoveredEntry {index : ℕ} {work : Path × Bool}
    (hwork : job.gather.work? index = some work) (entry : FtwEntry) (comm : LastBuddyComm) :
    (job.handleDiscoveredEntry entry comm).Regular ∧
      (job.handleDiscoveredEntry entry comm).gather = job.gather := by
  unfold Job.handleDiscoveredEntry
  cases entry.type with
  | dir =>
    obtain ⟨dirSync, heq, hslaves⟩ := @addDir_fields job
      (lastBuddyCommTimeSecs job.safetyThresholdSecs comm) entry.time entry.relPath
    dsimp only
    rw [heq]
    exact ⟨h.setDirSync hslaves, rfl⟩
  | file =>
    dsimp only
    split
    · have hrunning := h.fileSync.running h.fileSyncStaff (h.not_joined hwork)
      exact ⟨{ h with fileSync := h.fileSync.add hrunning _ }, rfl⟩
    · exact ⟨h, rfl⟩
  | unreadable | other => exact ⟨h, rfl⟩

theorem Regular.scanProceeds (hwork : job.gather.work? index = some (path, complete)) :
    { job with gather := job.gather.proceed index path true }.Regular := by
  obtain ⟨slave, hslave, -⟩ := work?_eq_some hwork
  exact { h with
    gatherStaff := fun hnil => h.gatherStaff (modify_eq_nil_iff.mp hnil)
    gather := h.gather.proceed hwork true
    joined := fun hle => absurd hle (h.not_joined hwork)
    scans := ⟨h.scans.results, by
      rw [Crew.proceed, Crew.modify_eq hslave]
      refine forall_mem_set h.scans.slaves fun _ _ hbusy => ?_
      cases hbusy
      rfl⟩ }

theorem Regular.scanFinishes (hwork : job.gather.work? index = some (path, complete)) :
    { job with gather := job.gather.finish index path true false }.Regular := by
  obtain ⟨slave, hslave, -⟩ := work?_eq_some hwork
  exact { h with
    gatherStaff := fun hnil => h.gatherStaff (modify_eq_nil_iff.mp hnil)
    gather := h.gather.finish hwork true false
    joined := fun hle => absurd hle (h.not_joined hwork)
    scans := ⟨by
      intro result hmem
      rcases mem_append.mp hmem with hmem | hmem
      · exact h.scans.results result hmem
      · cases mem_singleton.mp hmem
        rfl, by
      rw [Crew.finish, Crew.modify_eq hslave]
      exact forall_mem_set h.scans.slaves fun _ _ hbusy => by cases hbusy⟩ }

theorem Regular.scan {index : ℕ} (hreported : job.Reported (.scan index env)) :
    (job.scan index env).Regular := by
  unfold Job.scan
  cases hwork : job.gather.work? index with
  | none => exact h
  | some work =>
    obtain ⟨path, complete⟩ := work
    have hcomplete : complete := by
      obtain ⟨slave, hslave, hphase⟩ := work?_eq_some hwork
      exact h.scans.slaves slave (mem_of_getElem? hslave) path complete hphase
    subst hcomplete
    cases env with
    | entry entry comm =>
      obtain ⟨hregular, hgather⟩ := h.handleDiscoveredEntry hwork entry comm
      have hreadable : (entry.type != .unreadable) := bne_iff_ne.mpr hreported
      dsimp only
      rw [hreadable]
      exact hregular.scanProceeds (by rw [hgather]; exact hwork)
    | done nftwRes =>
      have hres : (nftwRes != -1) := bne_iff_ne.mpr hreported
      dsimp only
      rw [hres]
      exact h.scanFinishes hwork

theorem Regular.doResync (hreported : job.Reported (.doResync index env fuel)) :
    (job.doResync index env fuel).Regular ∨ (job.doResync index env fuel).Doomed := by
  unfold Job.doResync
  split
  · rename_i path _ slave hwork hslave
    have hnotIdle := h.fileSync.notIdle slave (mem_of_getElem? hslave)
    split
    · exact .inl h
    · rename_i out hout
      have hreports : (env.mask slave.notIdle).Reports :=
        ⟨hreported.lseek, hreported.fstat, hreported.resync⟩
      have hdone := doResync_done hreports hout
      cases herror : isError out.retVal with
      | true =>
        refine .inr ⟨?_, fun _ => .inr (.inl (Crew.hasErrors_finish_failed hwork))⟩
        rw [h.status]
        decide
      | false =>
        have hfile : out.Done := by
          rcases hdone with hdone | herror' | ⟨m, hm⟩
          · exact hdone
          · rw [herror] at herror'
            cases herror'
          · rw [hnotIdle, mask_terminate] at hm
            cases hm
        refine .inl { h with
          fileSyncStaff := fun hnil => h.fileSyncStaff (modify_eq_nil_iff.mp hnil)
          fileSync := h.fileSync.finish hwork out false
          files := fun result hmem => ?_ }
        rcases mem_append.mp hmem with hmem | hmem
        · exact h.files result hmem
        · cases mem_singleton.mp hmem
          exact hfile
  · exact .inl h

theorem Regular.pending {decided deleted : List Path}
    (hslave : job.dirSync.slaves[index]? = some slave)
    (hstep : slave.pending ++ decided = deleted ++ slave'.pending) :
    job.decided ++ decided ~
      job.deleted ++ deleted ++ (job.dirSync.slaves.set index slave').flatMap Slave.pending := by
  refine perm_iff_count.mpr fun a => ?_
  have hset := @count_flatMap_set Path _ _ _ slave slave' _ hslave Slave.pending a
  have hdecided := perm_iff_count.mp h.decided a
  have hcount := congrArg (count a) hstep
  simp only [count_append] at hdecided hcount ⊢
  omega

theorem Regular.doSync {env : DirEnv} (hreported : job.Reported (.doSync index env)) :
    (job.doSync index env).Regular ∨ (job.doSync index env).Doomed := by
  unfold Job.doSync
  split
  · rename_i path work slave hwork hslave
    have hphase : slave.phase = .busy path work := by
      obtain ⟨slave', hslave', hphase⟩ := work?_eq_some hwork
      cases hslave.symm.trans hslave'
      exact hphase
    have hpending : slave.pending = work.pending path := by rw [Slave.pending, hphase]
    have hnotIdle := h.dirSync slave (mem_of_getElem? hslave)
    have hspec := doSync_spec (hreported path work hwork) slave.notIdle
    dsimp only [addDirs]
    generalize Resync.doSync env slave.notIdle path work = out at hspec ⊢
    have hslaves := foldl_add_slaves job.dirSync out.candidates
    have hslave' : (out.candidates.foldl add job.dirSync).slaves[index]? = some slave := by
      rw [hslaves]
      exact hslave
    cases hnext : out.next with
    | inl work' =>
      rw [hnext] at hspec
      rcases hspec with ⟨_, heq, -⟩ | hspec
      · cases heq
      · rw [Sum.elim_inl, ← hpending] at hspec
        dsimp only
        rw [Crew.proceed, Crew.modify_eq hslave', hslaves]
        exact .inl { h with
          dirSync := forall_mem_set h.dirSync hnotIdle
          decided := h.pending hslave hspec }
    | inr retVal =>
      rw [hnext] at hspec
      dsimp only
      cases herror : isError retVal with
      | true =>
        have hwork' : (out.candidates.foldl add job.dirSync).work? index = some (path, work) := by
          unfold Crew.work? at hwork ⊢
          rw [hslaves]
          exact hwork
        refine .inr ⟨?_, fun _ => .inr (.inr (Crew.hasErrors_finish_failed hwork'))⟩
        rw [h.status]
        decide
      | false =>
        rcases hspec with ⟨e, heq, hisError⟩ | hspec
        · cases heq
          rw [herror] at hisError
          cases hisError
        · rw [Sum.elim_inr, ← hpending] at hspec
          rw [Crew.finish, Crew.modify_eq hslave', hslaves]
          exact .inl { h with
            dirSync := forall_mem_set h.dirSync hnotIdle
            decided := h.pending hslave hspec }
  · exact .inl h

theorem Regular.step (hreported : job.Reported action) : (job.step action).Inv := by
  unfold Job.step
  split
  · exact .regular h
  · cases action with
    | main env => exact h.main env
    | turn kind index => exact .regular (h.turn hreported)
    | scan index env => exact .regular (h.scan hreported)
    | doResync index env fuel => exact .of_or (h.doResync hreported)
    | doSync index env => exact .of_or (h.doSync hreported)
    | abort =>
      refine .doomed ⟨?_, fun _ => .inl rfl⟩
      rw [h.status]
      decide
    | abortSlave kind index =>
      dsimp only
      rw [h.shallAbort, if_neg Bool.false_ne_true]
      exact .regular h
    | setTargetOffline => exact .regular { h with }

end

/-! ## From the beginning to the end -/

section
variable {cfg : Config} {flags : Kind → ℕ → Bool}

/-- No thread runs yet. -/
def Fresh (cfg : Config) (flags : Kind → ℕ → Bool) (job : Job) : Prop :=
  ∃ targetWasOffline, job = { Job.start cfg flags with targetWasOffline }

theorem startThreads_ne_nil {ω ρ : Type} (h : 0 < n) : ((Crew.start ((List.range n).map only) :
      Crew Path ω ρ).startThreads threads).slaves ≠ [] := by
  refine ne_nil_of_length_pos ?_
  simpa [Crew.startThreads, Crew.start] using h

theorem Fresh.startSlaves (hslaves : 0 < cfg.tuneNumResyncGatherSlaves) (h : job.Fresh cfg flags)
    (threads : Kind → ℕ) : (job.startSlaves threads).Inv := by
  obtain ⟨_, rfl⟩ := h
  unfold Job.startSlaves
  dsimp only [Job.start]
  split
  · exact .doomed (.of_status rfl)
  · rename_i hgatherThreads
    rw [Crew.startThreads, length_mapIdx] at hgatherThreads
    split
    · exact .doomed fail_doomed
    · rename_i hfileThreads
      rw [Crew.startThreads, length_mapIdx] at hfileThreads
      split_ifs with hdirThreads
      · exact .doomed fail_doomed
      · rw [Crew.startThreads, length_mapIdx] at hdirThreads
        refine .regular {
          status := rfl
          shallAbort := rfl
          started := le_rfl
          gatherStaff := startThreads_ne_nil hslaves
          fileSyncStaff := startThreads_ne_nil (Nat.le_max_right _ _)
          gather := (Crew.sound_startThreads hgatherThreads).mono False.elim
          fileSync := (Crew.sound_startThreads hfileThreads).mono False.elim
          dirSync := fun slave hmem => ?_
          joined := fun hle => absurd hle (show ¬5 ≤ 1 by decide)
          aborted := rfl
          walks := fun hmissed => by cases hmissed
          scans := ⟨forall_mem_nil _, fun slave hmem _ _ hbusy => ?_⟩
          files := forall_mem_nil _
          decided := ?_ }
        · rw [Slave.notIdle, (Crew.mem_startThreads hdirThreads hmem).1, Bool.false_and]
        · rw [(Crew.mem_startThreads hgatherThreads hmem).2] at hbusy
          cases hbusy
        · rw [nil_append, flatMap_eq_nil_iff.mpr fun slave hmem => ?_]
          rw [Slave.pending, (Crew.mem_startThreads hdirThreads hmem).2]

theorem Fresh.step (hslaves : 0 < cfg.tuneNumResyncGatherSlaves) (h : job.Fresh cfg flags)
    (action : Action) : (job.step action).Fresh cfg flags ∨ (job.step action).Inv := by
  obtain ⟨offline, rfl⟩ := h
  unfold Job.step
  rw [if_neg (fun heq => by cases heq)]
  cases action with
  | main env =>
    refine .inr ?_
    dsimp only [Job.main, Job.start]
    split
    · exact Fresh.startSlaves hslaves ⟨_, rfl⟩ _
    · exact .doomed (.of_status rfl)
  | turn kind index =>
    refine .inl ⟨offline, ?_⟩
    cases kind <;> simp only [Job.turn, Job.start, Crew.turn_of_allStopped start_allStopped]
  | scan index env =>
    refine .inl ⟨offline, ?_⟩
    simp only [Job.scan, Job.start, Crew.work?_of_allStopped start_allStopped]
  | doResync index env fuel =>
    refine .inl ⟨offline, ?_⟩
    simp only [Job.doResync, Job.start, Crew.work?_of_allStopped start_allStopped]
  | doSync index env =>
    refine .inl ⟨offline, ?_⟩
    simp only [Job.doSync, Job.start, Crew.work?_of_allStopped start_allStopped]
  | abort => exact .inr (.doomed ⟨(fun heq => by cases heq), fun _ => .inl rfl⟩)
  | abortSlave kind index => exact .inl ⟨_, rfl⟩
  | setTargetOffline => exact .inl ⟨true, rfl⟩

end

theorem Inv.step (h : job.Inv) (hreported : job.Reported action) : (job.step action).Inv := by
  cases h with
  | doomed h => exact .doomed (h.step action)
  | regular h => exact h.step hreported
  | succeeded h =>
    unfold Job.step
    rw [if_pos h.pc]
    exact .succeeded h

/-- One slave of each kind. -/
def sampleConfig : Config := ⟨0, 1, 2⟩

def mainEnv (readdir : ReaddirResult) : Action :=
  .main ⟨true, fun _ => 1, ⟨false, 0⟩, some 0, true, readdir, .dir 0⟩

/-- The walk passes the directory `a/a/a` to the gather slaves. -/
def sampleWalk : List Action :=
  [mainEnv (.entry [97]), mainEnv (.entry [97]), mainEnv (.entry [97]), mainEnv .done,
    mainEnv .done, mainEnv .done]

/-- The steps of a slave up to the fetch. -/
def fetchTurns (kind : Kind) : List Action := replicate 4 (.turn kind 0)

/-- The steps of a slave with an empty queue. -/
def stopTurns (kind : Kind) : List Action := replicate 3 (.turn kind 0)

def tellSlaves (kinds : ℕ) : List Action := replicate (3 * kinds) (mainEnv .done)

/-- The whole run, with what the slaves do with their candidates. -/
def sampleRun (gather fileSync dirSync : List Action) : List Action :=
  [mainEnv .done, mainEnv .done] ++ sampleWalk ++ gather ++ tellSlaves 1 ++ stopTurns .gather ++
    [mainEnv .done] ++
    fileSync ++ dirSync ++ tellSlaves 2 ++ stopTurns .fileSync ++ stopTurns .dirSync ++
    [mainEnv .done, mainEnv .done]

def foundFile : Action := .scan 0 (.entry ⟨[98], .file, 1⟩ ⟨false, 0⟩)

def foundDir : Action := .scan 0 (.entry ⟨[98], .dir, 1⟩ ⟨false, 0⟩)

def scanned : Action := .scan 0 (.done 0)

def emptyFile (lseek : Bool) (stat : Option Stat) : FileEnv where
  node := true
  openat _ := .opened
  rm := ⟨fun _ => some .online, fun _ => some [], fun _ => false⟩
  lseek _ := lseek
  read _ _ := some []
  fstat _ := stat
  resync _ := ⟨fun _ => some .online, fun _ => some Err.success, fun _ => false⟩
  terminate _ := false

/-- The buddy has a chunk that does not exist here. -/
def staleChunk (failedPaths : List Path) : DirEnv where
  node := true
  list := ⟨fun _ => some .online, fun _ => some ⟨Err.success, 1, [([99], false)]⟩, fun _ => false⟩
  pathExists := false
  rm := ⟨fun _ => some .online, fun _ => some failedPaths, fun _ => false⟩
  terminate := false
  fuel := 1

def completeActions : List Action :=
  sampleRun (fetchTurns .gather ++ [foundDir, foundFile, scanned])
    (fetchTurns .fileSync ++ [.doResync 0 (emptyFile true (some ⟨0, ⟨0, 0, 0⟩⟩)) 2])
    (fetchTurns .dirSync ++ replicate 5 (.doSync 0 (staleChunk [])))

/-- The failures of a scan, of an `lseek`, of an `fstat` and of a removal get lost, and a slave
stops too early. -/
def lossyRuns : List (List Action) :=
  [sampleRun (fetchTurns .gather ++ [.scan 0 (.done (-1))]) [] [],
    sampleRun (fetchTurns .gather ++ [foundFile, scanned])
      (fetchTurns .fileSync ++ [.doResync 0 (emptyFile false (some ⟨0, ⟨0, 0, 0⟩⟩)) 2]) [],
    sampleRun (fetchTurns .gather ++ [foundFile, scanned])
      (fetchTurns .fileSync ++ [.doResync 0 (emptyFile true none) 2]) [],
    sampleRun (fetchTurns .gather ++ [foundDir, scanned]) []
      (fetchTurns .dirSync ++ replicate 5 (.doSync 0 (staleChunk [[98, 47, 99]]))),
    [mainEnv .done, .turn .gather 0, .turn .gather 0] ++ (sampleRun [] [] []).drop 1]

def sampleJob (actions : List Action) :
    Job := run Job.step (Job.start sampleConfig fun _ _ => false) actions

theorem staleChunk_reported (h : (job.dirSync.work? 0).map Prod.fst = some [98]) :
    job.Reported (.doSync 0 (staleChunk [])) := by
  intro path work hwork
  refine ⟨fun _ _ heq => (Option.some.inj heq).symm, fun _ _ _ _ => .inl ?_⟩
  rw [hwork] at h
  rintro rfl
  cases h

theorem turn_reported (h : job.fileSync.abandons index = false) :
    job.Reported (.turn .fileSync index) :=
  h

theorem emptyFile_reports : (emptyFile true (some ⟨0, ⟨0, 0, 0⟩⟩)).Reports :=
  ⟨fun _ => rfl, fun _ => rfl, fun _ _ heq => by cases heq⟩

theorem completeActions_reported :
    EveryStep Job.step Reported (Job.start sampleConfig fun _ _ => false) completeActions := by
  -- the walk, and the scan
  refine ⟨trivial, trivial, trivial, trivial, trivial, trivial, trivial, trivial, ?_⟩
  refine ⟨rfl, rfl, rfl, rfl, (fun h => by cases h), (fun h => by cases h),
    (fun h => by cases h), ?_⟩
  refine ⟨trivial, trivial, trivial, rfl, rfl, rfl, trivial, ?_⟩
  -- the file, and the directory
  refine ⟨rfl, rfl, rfl, rfl, emptyFile_reports, trivial, trivial, trivial, trivial, ?_⟩
  refine ⟨staleChunk_reported ?_, staleChunk_reported ?_, staleChunk_reported ?_,
    staleChunk_reported ?_, staleChunk_reported ?_, ?_⟩
  iterate 5 decide +kernel
  refine ⟨trivial, trivial, trivial, trivial, trivial, trivial, turn_reported ?_, turn_reported ?_,
    turn_reported ?_, ?_⟩
  iterate 3 decide +kernel
  exact ⟨trivial, trivial, trivial, trivial, trivial, trivial⟩

end

end Job

end Congfs.Resync
