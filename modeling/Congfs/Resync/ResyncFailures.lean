import Congfs.Resync.BuddyResyncJob

/-!
# Failures in a resync

Some failures are neither counted nor reported: those of `nftw`, of `lseek` and `fstat`, and those
of the removals that the buddy reports. A slave may also leave candidates behind if it looks too
early whether its queue is empty. `Job.Reported` is a step without any of that.

The results of the other failures are errors of a sync slave (`doResync_done`, `doSync_spec`), and
with such an error, a failure of the walk or a call of `abort` the job does not become successful
any more (`Job.Doomed`).
-/

namespace Congfs.Resync

open Storage Crew
open scoped List

/-! ## One chunk file -/

/-- A whole block at this offset that the buddy has acknowledged, or that is left out since it is
zeros. -/
def BlockDone.Whole (offset : ℕ) : BlockDone → Prop
  | skipped start data => start = offset ∧ data = List.replicate syncBlockSize 0
  | acked msg => msg.offset = offset ∧ msg.data.length = syncBlockSize

/-- The blocks follow one another from the beginning of the file. -/
def WholeBlocks (blocks : List BlockDone) : Prop :=
  ∀ i (block : BlockDone), blocks[i]? = some block → block.Whole (i * syncBlockSize)

/-- The chunk was removed on the buddy, or whole blocks from its beginning and then a last message
have got there, with the end of the file and with its attributes. -/
def FileSync.Done (out : FileSync) : Prop :=
  out.removed ∨ ∃ blocks msg, out.blocks = blocks ++ [.acked msg] ∧ WholeBlocks blocks ∧
    msg.offset ≤ blocks.length * syncBlockSize ∧ msg.data.length < syncBlockSize ∧
    msg.flags.setAttribs ∧ msg.chunkAttribs.isSome

/-- In front of a block. -/
structure FileSync.Ready (st : FileSync) : Prop where
  blocks : WholeBlocks st.blocks
  offset : st.offset = st.blocks.length * syncBlockSize

theorem FileSync.Ready.append {st st' : FileSync} (h : st.Ready) {block : BlockDone}
    (hblocks : st'.blocks = st.blocks ++ [block]) (hoffset : st'.offset = st.offset + syncBlockSize)
    (hblock : block.Whole st.offset) : st'.Ready := by
  refine ⟨fun i b hb => ?_, ?_⟩
  · rw [hblocks, List.getElem?_append] at hb
    split_ifs at hb with hi
    · exact h.blocks i b hb
    · obtain ⟨hlast, rfl⟩ := List.getElem?_eq_some_iff.mp hb
      obtain rfl : i = st.blocks.length := by
        rw [List.length_singleton] at hlast
        omega
      simpa [← h.offset] using hblock
  · rw [hoffset, hblocks, h.offset, List.length_append, List.length_singleton, Nat.succ_mul]

/-- `lseek` and `fstat`, whose errors are ignored, succeed, and the buddy does not answer with the
result that a slave has when it is told to terminate. -/
structure FileEnv.Reports (env : FileEnv) : Prop where
  lseek : ∀ n, env.lseek n
  fstat : ∀ n, (env.fstat n).isSome
  resync : ∀ n m, (env.resync n).response m ≠ some Err.interrupted

section
variable {α : Type} {tries : Tries α} {fuel : ℕ}

theorem requestLoop_response (h : requestLoop tries fuel n = some (some response, known)) :
    ∃ m, tries.response m = some response := by
  induction fuel generalizing n with
  | zero => cases h
  | succ fuel ih =>
    rw [requestLoop] at h
    split at h
    · cases h
    · cases h
    · split at h
      · rename_i hresponse
        cases h
        exact ⟨n, hresponse⟩
      · split at h
        · cases h
        · exact ih h

theorem request_ok (h : request tries fuel = some (.ok response)) :
    ∃ m, tries.response m = some response := by
  unfold request at h
  split at h
  · cases h
  · cases h
  · cases h
  · rename_i hloop
    cases h
    exact requestLoop_response hloop

theorem request_error (h : request tries fuel = some (.error e)) : Job.isError e := by
  unfold request at h
  split at h
  · cases h
  · cases h
    decide
  · cases h
    decide
  · cases h

end

section
variable {env : FileEnv} {fuel n : ℕ} {st st' : FileSync}

section
variable (h : env.Reports)
include h

theorem prepareMsg_short {data : List UInt8} (hshort : data.length < syncBlockSize) :
    (prepareMsg env n data st).data = data ∧ (prepareMsg env n data st).offset ≤ st.offset ∧
      (prepareMsg env n data st).flags.setAttribs ∧
      (prepareMsg env n data st).chunkAttribs.isSome := by
  obtain ⟨stat, hstat⟩ := Option.isSome_iff_exists.mp (h.fstat n)
  rw [prepareMsg, if_pos hshort, hstat]
  dsimp only
  split
  · rename_i hsize
    exact ⟨rfl, hsize.le, rfl, rfl⟩
  · split <;> exact ⟨rfl, le_rfl, rfl, rfl⟩

theorem sendBlock_spec (hready : st.Ready) (hsize : data.length ≤ syncBlockSize)
    (hsend : sendBlock env fuel n data st = some (st', full)) :
    full ∧ st'.Ready ∨ full = false ∧ (Job.isError st'.retVal ∨ st'.Done) := by
  rw [sendBlock] at hsend
  split at hsend
  · cases hsend
  · rename_i e herror
    cases hsend
    exact .inr ⟨rfl, .inl (request_error herror)⟩
  · rename_i syncRes hok
    split_ifs at hsend with hfailed
    · cases hsend
      refine .inr ⟨rfl, .inl ?_⟩
      obtain ⟨m, hm⟩ := request_ok hok
      have hinterrupted : syncRes ≠ Err.interrupted := by
        rintro rfl
        exact h.resync n m hm
      simpa [Job.isError] using And.intro hfailed hinterrupted
    · cases hsend
      by_cases hfull : data.length = syncBlockSize
      · have hmsg : prepareMsg env n data st = ⟨st.offset, data, st.resyncMsgFlags, none⟩ :=
          if_neg (by omega)
        refine .inl ⟨decide_eq_true hfull, hready.append rfl ?_ ⟨?_, ?_⟩⟩ <;> simp [hmsg, hfull]
      · have hshort : data.length < syncBlockSize := by omega
        obtain ⟨hdata, hoffset, hflag, hattribs⟩ := @prepareMsg_short env n st h data hshort
        refine .inr ⟨decide_eq_false hfull,
          .inr (.inr ⟨_, _, rfl, hready.blocks, ?_, ?_, hflag, hattribs⟩)⟩
        · rw [← hready.offset]
          exact hoffset
        · rw [hdata]
          exact hshort

theorem syncBlock_returns (hsync : syncBlock env fuel n st = some (.inl st')) :
    Job.isError st'.retVal ∨ st'.Done := by
  rw [syncBlock, h.lseek n] at hsync
  split at hsync
  · cases hsync
    exact .inl rfl
  · split at hsync
    · cases hsync
    · cases hsync
      exact .inr (.inl rfl)
    · cases hsync
      exact .inl rfl
  · rw [if_neg (by decide)] at hsync
    split at hsync
    · cases hsync
    · dsimp only at hsync
      split at hsync
      · cases hsync
      · obtain ⟨_, _, heq⟩ := Option.map_eq_some_iff.mp hsync
        cases heq

theorem syncBlock_spec (hready : st.Ready) (hsync : syncBlock env fuel n st =
    some (.inr (st', full))) :
    full ∧ st'.Ready ∨ full = false ∧ (Job.isError st'.retVal ∨ st'.Done) := by
  rw [syncBlock, h.lseek n] at hsync
  split at hsync
  · cases hsync
  · split at hsync <;> cases hsync
  · rw [if_neg (by decide)] at hsync
    split at hsync
    · cases hsync
      exact .inr ⟨rfl, .inl rfl⟩
    · rename_i data _
      dsimp only at hsync
      split_ifs at hsync with hskip
      · cases hsync
        obtain ⟨-, hfull, hzero⟩ := hskip
        have hzeros := all_zero_iff.mp (by simpa [scan_dataFound] using hzero)
        rw [hfull] at hzeros
        exact .inl ⟨rfl, hready.append rfl (by rw [hfull]) ⟨rfl, hzeros⟩⟩
      · obtain ⟨_, hsend, heq⟩ := Option.map_eq_some_iff.mp hsync
        cases heq
        refine sendBlock_spec h ?_ (List.length_take_le syncBlockSize data) hsend
        exact ⟨hready.blocks, hready.offset⟩

theorem resyncLoop_done (hready : st.Ready) (hloop : resyncLoop env fuel rounds n st = some out) :
    out.Done ∨ Job.isError out.retVal ∨ ∃ m, env.terminate m := by
  induction rounds generalizing n st with
  | zero => cases hloop
  | succ rounds ih =>
    rw [resyncLoop] at hloop
    split at hloop
    · cases hloop
    · rename_i hsync
      cases hloop
      exact (syncBlock_returns h hsync).elim (.inr ∘ .inl) .inl
    · rename_i st' full hsync
      split at hloop
      · rename_i hterminate
        exact .inr (.inr ⟨n, hterminate⟩)
      · split_ifs at hloop with hfull
        · rcases syncBlock_spec h hready hsync with ⟨-, hready'⟩ | ⟨hfalse, -⟩
          · exact ih hready' hloop
          · rw [hfalse] at hfull
            cases hfull
        · cases hloop
          rcases syncBlock_spec h hready hsync with ⟨htrue, -⟩ | ⟨-, hend⟩
          · exact absurd htrue hfull
          · exact hend.elim (.inr ∘ .inl) .inl

/-- The result is an error unless the chunk is in order then, or the slave was told to terminate. -/
theorem doResync_done (hout : doResync env fuel = some out) :
    out.Done ∨ Job.isError out.retVal ∨ ∃ m, env.terminate m := by
  rw [doResync] at hout
  split at hout
  · cases hout
    exact .inr (.inl rfl)
  · exact resyncLoop_done h ⟨fun i block hb => (by simp [FileSync.start] at hb), rfl⟩ hout

end

end

/-! ## One directory -/

def DirWork.pending (dirPath : Path) : DirWork → List Path
  | .begin | .listing _ => []
  | .finding _ _ _ names | .removing _ _ names => names.map (entryPath dirPath)

/-- The buddy does not report a path as failed, and the message to it has the paths of the chunks: a
path that begins with a slash is not looked for in the directory of the target. -/
structure DirEnv.Reports (env : DirEnv) (dirPath : Path) (work : DirWork) : Prop where
  rm : ∀ n failedPaths, env.rm.response n = some failedPaths → failedPaths = []
  relative : ∀ offset entriesFetched names, work = .removing offset entriesFetched names → dirPath ≠
    [] ∨ names = []

theorem map_rmPath (h : dirPath ≠ [] ∨ names = []) :
    names.map (rmPath dirPath) = names.map (entryPath dirPath) := by
  rcases h with hne | rfl
  · refine List.map_congr_left fun name _ => ?_
    rw [rmPath, entryPath, if_neg hne]
  · rfl

/-- What is pending or decided is deleted or pending then, or there is an error. -/
theorem doSync_spec (h : env.Reports dirPath work) (notIdle : Bool) :
    (∃ e, (doSync env notIdle dirPath work).next = .inr e ∧ Job.isError e) ∨
      work.pending dirPath ++ (doSync env notIdle dirPath work).decided =
        (doSync env notIdle dirPath work).deleted ++
          (doSync env notIdle dirPath work).next.elim (DirWork.pending dirPath) fun _ => [] := by
  cases work with
  | begin =>
    refine .inr ?_
    rw [doSync]
    split <;> rfl
  | listing offset =>
    rw [doSync, getBuddyDirContents]
    split
    · exact .inr rfl
    · exact .inr rfl
    · split
      · exact .inr rfl
      · split <;> exact .inr rfl
  | finding offset entriesFetched entries names =>
    refine .inr ?_
    cases entries with
    | nil => exact List.append_nil _
    | cons entry entries =>
      rw [doSync, findChunk]
      split
      · exact List.append_nil _
      · split
        · exact List.append_nil _
        · simp [DirWork.pending]
  | removing offset entriesFetched names =>
    rw [doSync, removeBuddyChunkPaths]
    split
    · exact .inr (List.append_nil _)
    · rename_i e herror
      exact .inl ⟨e, rfl, request_error herror⟩
    · rename_i failedPaths hok
      obtain ⟨m, hm⟩ := request_ok hok
      have hnone : failedPaths = [] := h.rm m failedPaths hm
      have hpaths := map_rmPath (h.relative _ _ _ rfl)
      refine .inr ?_
      subst hnone
      rw [hpaths, List.filter_eq_self.mpr (fun _ _ => by simp)]
      split
      · rfl
      · split <;> rfl

/-! ## The job -/

namespace Job

/-- The step has no failure that gets lost: `nftw` succeeds and can read all it meets, no slave
leaves candidates behind, and the calls and messages with unchecked results succeed. -/
def Reported (job : Job) : Action → Prop
  | .turn .gather index => job.gather.abandons index = false
  | .turn .fileSync index => job.fileSync.abandons index = false
  | .scan _ (.entry entry _) => entry.type ≠ .unreadable
  | .scan _ (.done nftwRes) => nftwRes ≠ -1
  | .doResync _ env _ => env.Reports
  | .doSync index env => ∀ path work, job.dirSync.work? index = some (path, work) →
    env.Reports path work
  | _ => True

/-- The walk over the directories has got to its end, every directory that was passed to the gather
slaves is scanned completely, every file candidate is synced, and all chunks are deleted that were
to be. -/
structure Complete (job : Job) : Prop where
  walked : job.missed = false
  scanned : job.gather.added ~ job.gather.results.map Prod.fst
  scans : ∀ result ∈ job.gather.results, result.2
  synced : job.fileSync.added ~ job.fileSync.results.map Prod.fst
  files : ∀ result ∈ job.fileSync.results, result.2.Done
  deleted : job.decided ~ job.deleted

/-- The job does not become successful any more. -/
structure Doomed (job : Job) : Prop where
  status : job.status ≠ .success
  cause : job.status = .running → job.shallAbort ∨ job.fileSync.hasErrors ∨ job.dirSync.hasErrors

section
variable {job : Job}

theorem Doomed.of_status (h : job.status != .success && job.status != .running) : job.Doomed := by
  simp only [Bool.and_eq_true, bne_iff_ne] at h
  exact ⟨h.1, fun hrunning => absurd hrunning h.2⟩

theorem fail_doomed : job.fail.Doomed := .of_status rfl

/-- What the parts of a job have to keep. -/
theorem Doomed.of_le {job' : Job} (h : job.Doomed) (hstatus : job'.status = job.status)
    (habort : job.shallAbort → job'.shallAbort)
    (hfile : job.fileSync.hasErrors → job'.fileSync.hasErrors)
    (hdir : job.dirSync.hasErrors → job'.dirSync.hasErrors) : job'.Doomed := by
  refine ⟨hstatus ▸ h.status, fun hrunning => ?_⟩
  rw [hstatus] at hrunning
  rcases h.cause hrunning with habort' | hfile' | hdir'
  · exact .inl (habort habort')
  · exact .inr (.inl (hfile hfile'))
  · exact .inr (.inr (hdir hdir'))

theorem Doomed.finish (h : job.Doomed) : job.finish.Doomed := by
  unfold Job.finish
  split
  · rename_i hrunning
    split
    · exact .of_status rfl
    · rename_i habort
      split_ifs with herrors
      · exact .of_status rfl
      · refine absurd ?_ herrors
        rcases h.cause hrunning with habort' | hfile | hdir
        · exact absurd habort' habort
        · rw [hfile]
          rfl
        · rw [hdir, Bool.or_true, Bool.true_or]
  · exact h.of_le rfl id id id

theorem addDir_fields {time mtime : ℤ} {path : Path} :
    ∃ dirSync, job.addDir time path mtime = { job with dirSync } ∧ dirSync.slaves =
    job.dirSync.slaves := by
  unfold addDir
  split
  · exact ⟨job.dirSync.add path, rfl, rfl⟩
  · exact ⟨job.dirSync, rfl, rfl⟩

section
variable (h : job.Doomed)
include h

variable (index : ℕ) (env : MainEnv) (time : ℤ)

theorem Doomed.addDir (path : Path) (mtime : ℤ) : (job.addDir time path mtime).Doomed := by
  obtain ⟨dirSync, heq, hslaves⟩ := @addDir_fields job time mtime path
  rw [heq]
  refine h.of_le rfl id id fun herrors => ?_
  rw [hasErrors, hslaves]
  exact herrors

theorem Doomed.leaveDir (retVal : Bool) (frames : List Frame) :
    (job.leaveDir time retVal frames).Doomed := by
  unfold Job.leaveDir
  split
  · split
    · exact h.of_le rfl id id id
    · exact fail_doomed
  · exact h.of_le rfl id id id

theorem Doomed.setFlags (only self : Bool) (kind : Kind) (index : ℕ) :
    (job.setFlags only self kind index).Doomed := by
  cases kind with
  | gather => exact h.of_le rfl id id id
  | fileSync =>
    exact h.of_le rfl id (fun herrors => hasErrors_modify (fun _ hne => by exact hne)
      herrors index) id
  | dirSync =>
    exact h.of_le rfl id id fun herrors => hasErrors_modify (fun _ hne => by exact hne)
      herrors index

theorem Doomed.startSlaves (threads : Kind → ℕ) : (job.startSlaves threads).Doomed := by
  unfold Job.startSlaves
  dsimp only
  split
  · exact .of_status rfl
  · split
    · exact fail_doomed
    · split
      · exact fail_doomed
      · exact h.of_le rfl id (fun herrors => hasErrors_startThreads herrors _)
          fun herrors => hasErrors_startThreads herrors _

theorem Doomed.checkTopLevelDir : (job.checkTopLevelDir env).Doomed := by
  unfold Job.checkTopLevelDir
  split
  · exact fail_doomed
  · split
    · exact (h.addDir _ _ _).of_le rfl id id id
    · exact fail_doomed

theorem Doomed.walkDirs (frame : Frame) (frames : List Frame) (env : MainEnv) :
    (job.walkDirs time frame frames env).Doomed := by
  have hmissed : { job with missed := true }.Doomed := h.of_le rfl id id id
  unfold Job.walkDirs
  split
  · exact h.leaveDir _ _ _
  · exact hmissed.leaveDir _ _ _
  · split
    · exact hmissed.leaveDir _ _ _
    · split
      · exact hmissed.leaveDir _ _ _
      · exact h
      · split
        · split <;> exact (h.addDir _ _ _).of_le rfl id id id
        · exact h.of_le rfl id id id

theorem Doomed.main : (job.main env).Doomed := by
  unfold Job.main
  split
  · split
    · exact h.startSlaves _
    · exact .of_status rfl
  · exact h.checkTopLevelDir env
  · exact h
  · exact h.walkDirs _ _ _ _
  · split <;> exact h.of_le rfl id id id
  · exact (h.setFlags _ _ _ _).of_le rfl id id id
  · split
    · exact h.of_le rfl id id id
    · exact h
  · split
    · exact h.of_le rfl id id id
    · exact h
  · split
    · exact h.finish
    · exact h
  · exact h

theorem Doomed.scan (env : ScanEnv) : (job.scan index env).Doomed := by
  have hentry : ∀ entry comm, (job.handleDiscoveredEntry entry comm).Doomed := by
    intro entry comm
    unfold handleDiscoveredEntry
    dsimp only
    split
    · exact h.addDir _ _ _
    · split
      · exact h.of_le rfl id id id
      · exact h
    · exact h
    · exact h
  unfold Job.scan
  split
  · exact h
  · split
    · exact (hentry _ _).of_le rfl id id id
    · exact h.of_le rfl id id id

theorem Doomed.doResync (env : FileEnv) (fuel : ℕ) : (job.doResync index env fuel).Doomed := by
  unfold Job.doResync
  split
  · split
    · exact h
    · exact h.of_le rfl id (fun herrors => hasErrors_finish herrors _ _ _ _) id
  · exact h

theorem Doomed.doSync (env : DirEnv) : (job.doSync index env).Doomed := by
  unfold Job.doSync
  split
  · dsimp only
    split
    · exact h.of_le rfl id id fun herrors =>
        hasErrors_proceed (hasErrors_addAll herrors _) _ _ _
    · exact h.of_le rfl id id fun herrors =>
        hasErrors_finish (hasErrors_addAll herrors _) _ _ _ _
  · exact h

theorem Doomed.step (action : Action) : (job.step action).Doomed := by
  unfold Job.step
  split
  · exact h
  · cases action with
    | main env => exact h.main env
    | turn kind index =>
      cases kind with
      | gather => exact h.of_le rfl id id id
      | fileSync => exact h.of_le rfl id (fun herrors => hasErrors_turn herrors index) id
      | dirSync => exact h.of_le rfl id id fun herrors => hasErrors_turn herrors index
    | scan index env => exact h.scan index env
    | doResync index env fuel => exact h.doResync index env fuel
    | doSync index env => exact h.doSync index env
    | abort => exact h.of_le rfl (fun _ => rfl) id id
    | abortSlave kind index =>
      dsimp only
      split
      · exact h.setFlags _ _ _ _
      · exact h
    | setTargetOffline => exact h.of_le rfl id id id

end

end

end Job

end Congfs.Resync
