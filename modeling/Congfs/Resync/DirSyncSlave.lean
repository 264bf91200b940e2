import Congfs.Resync.FileSyncSlave

/-!
# Syncing a directory with the buddy

`BuddyResyncerDirSyncSlave::doSync` lists the directory of the buddy in parts, looks for each entry
on the local target, and removes the chunks on the buddy that do not exist here. A directory that
does not exist here becomes a candidate itself. These candidates are visible to other threads at
once, so `doSync` is given by its steps.
-/

namespace Congfs.Resync

open Storage

/-- The loop for a request stops on `getSelfTerminateNotIdle`. It stays true once it is true, so a
read of it within a step has given true only if it is true at the end of the step. -/
def Tries.mask {α : Type} (notIdle : Bool) (tries : Tries α) : Tries α :=
  { tries with terminate := fun n => tries.terminate n && notIdle }

def checkAtOnce : ℕ := 50

structure ListChunkDirResp where
  result : ℕ
  newOffset : ℤ
  /-- The names, and which of them are directories. -/
  entries : List (Path × Bool)

structure DirEnv where
  node : Bool
  list : Tries ListChunkDirResp
  pathExists : Bool
  /-- The paths that could not be removed. -/
  rm : Tries (List Path)
  terminate : Bool
  fuel : ℕ

inductive DirWork
  | begin
  | listing (offset : ℤ)
  /-- The entries that are left of a part, and the names that are not found so far. -/
  | finding (offset : ℤ) (entriesFetched : ℕ) (entries : List (Path × Bool)) (names : List Path)
  | removing (offset : ℤ) (entriesFetched : ℕ) (names : List Path)
  deriving DecidableEq

/-- What a step does: the work that is left or the result, the new candidates, the chunks that it
decides to delete, and those that the buddy was told to delete and did not report as failed. -/
structure DirStep where
  next : DirWork ⊕ ℕ
  candidates : List Path
  decided : List Path
  deleted : List Path

/-- The path below the target's directory for mirrored chunks. -/
def entryPath (dirPath name : Path) : Path :=
  if dirPath = [] then name else dirPath ++ [47] ++ name

def rmPath (dirPath name : Path) : Path := dirPath ++ [47] ++ name

variable (env : DirEnv) (notIdle : Bool) (dirPath : Path)

variable (offset : ℤ) (entriesFetched : ℕ)

def getBuddyDirContents : DirStep :=
  match request (env.list.mask notIdle) env.fuel with
  | none => ⟨.inl (.listing offset), [], [], []⟩
  | some (.error e) => ⟨.inr e, [], [], []⟩
  | some (.ok resp) =>
    if resp.result = Err.success then
      ⟨.inl (.finding resp.newOffset resp.entries.length resp.entries []), [], [], []⟩
    else if resp.result ≠ Err.pathNotExists then ⟨.inr resp.result, [], [], []⟩
    -- the directory may have been deleted
    else ⟨.inl (.finding resp.newOffset 0 [] []), [], [], []⟩

/-- Directories are not deleted. -/
def findChunk (entry : Path × Bool) (entries : List (Path × Bool)) (names : List Path) : DirStep :=
  if entry.2 then
    ⟨.inl (.finding offset entriesFetched entries names),
      if env.pathExists then [] else [entryPath dirPath entry.1], [], []⟩
  else if env.pathExists then ⟨.inl (.finding offset entriesFetched entries names), [], [], []⟩
  else
    ⟨.inl (.finding offset entriesFetched entries (names ++ [entry.1])), [],
      [entryPath dirPath entry.1], []⟩

/-- The paths that the buddy reports as failed are only logged. -/
def removeBuddyChunkPaths (names : List Path) : DirStep :=
  match request (env.rm.mask notIdle) env.fuel with
  | none => ⟨.inl (.removing offset entriesFetched names), [], [], []⟩
  | some (.error e) => ⟨.inr e, [], [], []⟩
  | some (.ok failedPaths) =>
    let next : DirWork ⊕ ℕ :=
      if env.terminate && notIdle then .inr Err.interrupted
      else if entriesFetched = checkAtOnce then .inl (.listing offset)
      else .inr Err.success
    ⟨next, [], [], (names.map (rmPath dirPath)).filter (· ∉ failedPaths)⟩

def doSync : DirWork → DirStep
  | .begin => ⟨if env.node then .inl (.listing 0) else .inr Err.unknownNode, [], [], []⟩
  | .listing offset => getBuddyDirContents env notIdle offset
  | .finding offset entriesFetched [] names =>
    ⟨.inl (.removing offset entriesFetched names), [], [], []⟩
  | .finding offset entriesFetched (entry :: entries) names =>
    findChunk env dirPath offset entriesFetched entry entries names
  | .removing offset entriesFetched names =>
    removeBuddyChunkPaths env notIdle dirPath offset entriesFetched names

end Congfs.Resync
