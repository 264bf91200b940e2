import Congfs.Resync.Crew
import Congfs.Resync.DirSyncSlave

/-!
# The resync of a storage target

`BuddyResyncJob::run` walks over the upper directories of the target, passes the others to the
gather slaves, and waits until the gather slaves have scanned them and the sync slaves have worked
off the candidates. At the end it derives its state from the errors that the sync slaves have
counted.

The job and its slaves are threads. An action is a step of one of them, with what the operating
system and the buddy answer, or a call of `abort` or `setTargetOffline`.
-/

namespace Congfs.Resync

open Storage

inductive BuddyResyncJobState
  | running
  | success
  | interrupted
  | failure
  | errors
  deriving DecidableEq

structure LastBuddyComm where
  isOverride : Bool
  secs : ℤ

/-- The time since when changes have to be synced. -/
def lastBuddyCommTimeSecs (safetyThresholdSecs : ℤ) (lastBuddyComm : LastBuddyComm) : ℤ :=
  if safetyThresholdSecs = 0 ∧ ¬lastBuddyComm.isOverride then 0
  else if lastBuddyComm.secs > safetyThresholdSecs then lastBuddyComm.secs - safetyThresholdSecs
  else lastBuddyComm.secs

/-- A directory in which `walkDirs` is. -/
structure Frame where
  relPath : Path
  level : ℕ
  retVal : Bool
  deriving DecidableEq

def maxDirWalkDepth : ℕ := 2

inductive Kind
  | gather
  | fileSync
  | dirSync
  deriving DecidableEq

/-- Where the thread of the job is. -/
inductive Pc
  | starting
  | checkTopLevelDir
  /-- The innermost directory is the first one. -/
  | walkDirs (lastBuddyCommTimeSecs : ℤ) (frames : List Frame)
  /-- The slaves of a kind are told to terminate, one after the other. -/
  | terminate (kind : Kind) (index : ℕ)
  /-- The same with what was read of `shallAbort`. -/
  | terminateRead (kind : Kind) (index : ℕ) (aborted : Bool)
  | joinGatherSlaves
  | joinSyncSlaves
  | cleanup
  | ended
  deriving DecidableEq

structure Job where
  status : BuddyResyncJobState
  shallAbort : Bool
  targetWasOffline : Bool
  pc : Pc
  safetyThresholdSecs : ℤ
  /-- The work of a gather slave is a scan; it is known whether there were only entries that could
  be read. -/
  gather : Crew Path Bool Bool
  fileSync : Crew Path Unit FileSync
  dirSync : Crew Path DirWork ℕ
  /-- The walk has left a directory before its end. -/
  missed : Bool
  /-- The chunks that dir sync slaves decided to delete on the buddy, and those that were
  deleted. -/
  decided : List Path
  deleted : List Path
  deriving DecidableEq

structure Config where
  safetyThresholdSecs : ℤ
  tuneNumResyncGatherSlaves : ℕ
  tuneNumResyncSlaves : ℕ

/-- Half of the sync slaves, for each of the two kinds. -/
def Config.numSyncSlaves (cfg : Config) : ℕ := max (cfg.tuneNumResyncSlaves / 2) 1

/-- At the beginning of `run`, with the flags of the slaves left from before. -/
def Job.start (cfg : Config) (onlyTerminateIfIdle : Kind → ℕ → Bool) : Job where
  status := .running
  shallAbort := false
  targetWasOffline := false
  pc := .starting
  safetyThresholdSecs := cfg.safetyThresholdSecs
  gather := .start ((List.range cfg.tuneNumResyncGatherSlaves).map (onlyTerminateIfIdle .gather))
  fileSync := .start ((List.range cfg.numSyncSlaves).map (onlyTerminateIfIdle .fileSync))
  dirSync := .start ((List.range cfg.numSyncSlaves).map (onlyTerminateIfIdle .dirSync))
  missed := false
  decided := []
  deleted := []

/-! ## What the threads read -/

inductive ReaddirResult
  | done
  | error
  | entry (name : Path)

inductive StatResult
  | error
  | file
  | dir (mtime : ℤ)

structure MainEnv where
  /-- The buddy has answered that it knows of the resync. -/
  resyncStarted : Bool
  /-- How many threads can be created. -/
  threads : Kind → ℕ
  lastBuddyComm : LastBuddyComm
  /-- The modification time of the topmost directory. -/
  topStat : Option ℤ
  opendir : Bool
  readdir : ReaddirResult
  stat : StatResult

/-- What `nftw` does with an entry that it finds. -/
inductive FtwEntryType
  | dir
  | file
  /-- `FTW_DNR` and `FTW_NS`. -/
  | unreadable
  | other
  deriving DecidableEq

structure FtwEntry where
  relPath : Path
  type : FtwEntryType
  /-- Of the modification of a directory, or of the change of a file. -/
  time : ℤ

inductive ScanEnv
  | entry (entry : FtwEntry) (lastBuddyComm : LastBuddyComm)
  | done (nftwRes : ℤ)

/-- The reads of `getSelfTerminateNotIdle` in `doResync`, as in `Tries.mask`. -/
def FileEnv.mask (notIdle : Bool) (env : FileEnv) : FileEnv :=
  { env with
    rm := env.rm.mask notIdle
    resync := fun n => (env.resync n).mask notIdle
    terminate := fun n => env.terminate n && notIdle }

inductive Action
  | main (env : MainEnv)
  | turn (kind : Kind) (index : ℕ)
  | scan (index : ℕ) (env : ScanEnv)
  | doResync (index : ℕ) (env : FileEnv) (fuel : ℕ)
  | doSync (index : ℕ) (env : DirEnv)
  | abort
  | abortSlave (kind : Kind) (index : ℕ)
  | setTargetOffline

/-! ## The thread of the job -/

namespace Job

variable (job : Job)

/-- The slaves are told to terminate whether or not there is work. -/
def fail : Job :=
  { job with
    status := .failure
    gather := job.gather.terminateAll
    fileSync := job.fileSync.terminateAll
    dirSync := job.dirSync.terminateAll
    pc := .cleanup }

def startSlaves (threads : Kind → ℕ) : Job :=
  let job := { job with gather := job.gather.startThreads (threads .gather) }
  -- the gather slaves that run are not terminated
  if threads .gather < job.gather.slaves.length then { job with status := .failure, pc := .cleanup }
  else
    let job := { job with fileSync := job.fileSync.startThreads (threads .fileSync) }
    if threads .fileSync < job.fileSync.slaves.length then job.fail
    else
      let job := { job with dirSync := job.dirSync.startThreads (threads .dirSync) }
      if threads .dirSync < job.dirSync.slaves.length then job.fail
      else { job with pc := .checkTopLevelDir }

/-- A directory of the upper levels is a candidate if it was modified. -/
def addDir (lastBuddyCommTimeSecs : ℤ) (relPath : Path) (mtime : ℤ) : Job :=
  if mtime > lastBuddyCommTimeSecs then { job with dirSync := job.dirSync.add relPath } else job

variable (index : ℕ) (time : ℤ) (env : MainEnv)

/-- `checkTopLevelDir`, and the begin of `walkDirs`. -/
def checkTopLevelDir : Job :=
  let time := lastBuddyCommTimeSecs job.safetyThresholdSecs env.lastBuddyComm
  match env.topStat with
  | none => { job with missed := true }.fail
  | some mtime =>
    let job := job.addDir time [] mtime
    if env.opendir then { job with pc := .walkDirs time [⟨[], 0, true⟩] }
    else { job with missed := true }.fail

/-- `walkDirs` returns from a directory. -/
def leaveDir (retVal : Bool) : List Frame → Job
  | [] => if retVal then { job with pc := .terminate .gather 0 } else job.fail
  | frame :: frames =>
    { job with pc := .walkDirs time ({ frame with retVal := frame.retVal && retVal } :: frames) }

/-- An entry of a directory in `walkDirs`. -/
def walkDirs (frame : Frame) (frames : List Frame) (env : MainEnv) : Job :=
  match env.readdir with
  | .done => job.leaveDir time frame.retVal frames
  | .error => { job with missed := true }.leaveDir time false frames
  | .entry name =>
    if job.shallAbort then { job with missed := true }.leaveDir time frame.retVal frames
    else
      match env.stat with
      | .error => { job with missed := true }.leaveDir time false frames
      | .file => job
      | .dir mtime =>
        let currentRelPath := entryPath frame.relPath name
        if frame.level < maxDirWalkDepth then
          let job := job.addDir time currentRelPath mtime
          if env.opendir then
            { job with
              pc := .walkDirs time (⟨currentRelPath, frame.level + 1, true⟩ :: frame :: frames) }
          else
            { job with
              pc := .walkDirs time ({ frame with retVal := false } :: frames), missed := true }
        else { job with gather := job.gather.add currentRelPath }

def numSlaves : Kind → ℕ
  | .gather => job.gather.slaves.length
  | .fileSync => job.fileSync.slaves.length
  | .dirSync => job.dirSync.slaves.length

def setFlags (onlyTerminateIfIdle selfTerminate : Bool) (kind : Kind) (index : ℕ) : Job :=
  match kind with
  | .gather =>
    { job with gather := job.gather.modify index (.setFlags onlyTerminateIfIdle selfTerminate) }
  | .fileSync =>
    { job with fileSync := job.fileSync.modify index (.setFlags onlyTerminateIfIdle selfTerminate) }
  | .dirSync =>
    { job with dirSync := job.dirSync.modify index (.setFlags onlyTerminateIfIdle selfTerminate) }

/-- What follows when all slaves of a kind are told to terminate. -/
def terminated : Kind → Pc
  | .gather => .joinGatherSlaves
  | .fileSync => .terminate .dirSync 0
  | .dirSync => .joinSyncSlaves

/-- The end of `run`. A job that has failed keeps its state. -/
def finish : Job :=
  if job.status = .running then
    if job.shallAbort then { job with status := .interrupted, pc := .ended }
    else if job.fileSync.hasErrors || job.dirSync.hasErrors || job.targetWasOffline then
      { job with status := .errors, pc := .ended }
    else { job with status := .success, pc := .ended }
  else { job with pc := .ended }

def main : Job :=
  match job.pc with
  | .starting =>
    if env.resyncStarted then job.startSlaves env.threads
    else { job with status := .failure, pc := .cleanup }
  | .checkTopLevelDir => job.checkTopLevelDir env
  | .walkDirs _ [] => job
  | .walkDirs time (frame :: frames) => job.walkDirs time frame frames env
  | .terminate kind index =>
    if index < job.numSlaves kind then { job with pc := .terminateRead kind index job.shallAbort }
    else { job with pc := terminated kind }
  | .terminateRead kind index aborted =>
    { job.setFlags (!aborted) true kind index with pc := .terminate kind (index + 1) }
  | .joinGatherSlaves => if job.gather.allStopped then
    { job with pc := .terminate .fileSync 0 } else job
  | .joinSyncSlaves =>
    if job.fileSync.allStopped && job.dirSync.allStopped then { job with pc := .cleanup } else job
  | .cleanup =>
    if job.gather.allStopped && job.fileSync.allStopped && job.dirSync.allStopped then
      job.finish else job
  | .ended => job

/-! ## The slaves -/

def turn (kind : Kind) (index : ℕ) : Job :=
  match kind with
  | .gather => { job with gather := job.gather.turn true index }
  | .fileSync => { job with fileSync := job.fileSync.turn () index }
  | .dirSync => { job with dirSync := job.dirSync.turn .begin index }

def handleDiscoveredEntry (entry : FtwEntry) (lastBuddyComm : LastBuddyComm) : Job :=
  let time := lastBuddyCommTimeSecs job.safetyThresholdSecs lastBuddyComm
  match entry.type with
  | .dir => job.addDir time entry.relPath entry.time
  | .file =>
    if entry.time > time then { job with fileSync := job.fileSync.add entry.relPath } else job
  | .unreadable | .other => job

/-- The scan of a directory. An error of `nftw` is only logged. -/
def scan (env : ScanEnv) : Job :=
  match job.gather.work? index with
  | none => job
  | some (path, complete) =>
    match env with
    | .entry entry lastBuddyComm =>
      let job := job.handleDiscoveredEntry entry lastBuddyComm
      { job with gather := job.gather.proceed index path (complete && entry.type != .unreadable) }
    | .done nftwRes =>
      { job with gather := job.gather.finish index path (complete && nftwRes != -1) false }

/-- Whether the result of a slave counts as an error. -/
def isError (retVal : ℕ) : Bool := retVal != Err.success && retVal != Err.interrupted

/-- The whole `doResync`, at its end. -/
def doResync (env : FileEnv) (fuel : ℕ) : Job :=
  match job.fileSync.work? index, job.fileSync.slaves[index]? with
  | some (path, _), some slave =>
    match Resync.doResync (env.mask slave.notIdle) fuel with
    | none => job
    | some out => { job with fileSync := job.fileSync.finish index path out (isError out.retVal) }
  | _, _ => job

def addDirs (paths : List Path) : Job :=
  { job with dirSync := paths.foldl Crew.add job.dirSync }

def doSync (env : DirEnv) : Job :=
  match job.dirSync.work? index, job.dirSync.slaves[index]? with
  | some (path, work), some slave =>
    let out := Resync.doSync env slave.notIdle path work
    let job := job.addDirs out.candidates
    let job :=
      { job with decided := job.decided ++ out.decided, deleted := job.deleted ++ out.deleted }
    match out.next with
    | .inl work => { job with dirSync := job.dirSync.proceed index path work }
    | .inr retVal => { job with dirSync := job.dirSync.finish index path retVal (isError retVal) }
  | _, _ => job

/-- A step of one of the threads. At the end of `run` there are no slaves any more. -/
def step (action : Action) : Job :=
  if job.pc = .ended then job
  else
    match action with
    | .main env => job.main env
    | .turn kind index => job.turn kind index
    | .scan index env => job.scan index env
    | .doResync index env fuel => job.doResync index env fuel
    | .doSync index env => job.doSync index env
    | .abort => { job with shallAbort := true }
    -- `abort` sets the flag of the job first
    | .abortSlave kind index => if job.shallAbort then job.setFlags false false kind index else job
    | .setTargetOffline => { job with targetWasOffline := true }

end Job

end Congfs.Resync
