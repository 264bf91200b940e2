import Congfs.Lib.StdMap

/-!
# Inodes in memory

The metadata server keeps the inodes that are in use, with a count of the references to each. The
inode of a file is in the file store of the directory it was opened in, or in the global store if it
was unlinked while it was open. A reference to an inode of a directory comes with a reference to the
directory, and `numParentRefs` counts those. Unused directories stay in memory as long as they are
in a cache, which holds a reference to each of them.

The calls are atomic. The disk decides whether an inode can be loaded, which is an input of the
call. Sessions, exclusive locks (of inodes that are moved to another server) and what is stored on
disk are left out, and memory is not exhausted.
-/

namespace Congfs.Metadata

variable {ID : Type} [LinearOrder ID]

instance lawfulBEqID : LawfulBEq ID := inferInstance

abbrev IDMap (ID β : Type) [LinearOrder ID] := StdMap β ((· < ·) : ID → ID → Prop)

abbrev IDSet (ID : Type) [LinearOrder ID] := StdSet ((· < ·) : ID → ID → Prop)

/-! ## File stores -/

/-- The count of an inode, and what the inode itself counts. -/
structure FileInodeReferencer where
  refCount : ℤ
  numParentRefs : ℤ
  deriving DecidableEq, Repr

abbrev InodeFileStore (ID : Type) [LinearOrder ID] := IDMap ID FileInodeReferencer

namespace InodeFileStore

variable (store : InodeFileStore ID) (entryID : ID)

def isInStore : Bool := (store.find entryID).isSome

/-- The store without the inode. -/
def getReferencerAndDeleteFromMap : Option (FileInodeReferencer × InodeFileStore ID) :=
  (store.find entryID).map fun inodeRefer => (inodeRefer, store.erase entryID)

def referenceLoadedFile : Option (InodeFileStore ID) :=
  (store.find entryID).map fun inodeRefer =>
    store.assign entryID { inodeRefer with refCount := inodeRefer.refCount + 1 }

/-- `createFromEntryInfo` gives an inode if `loads`. -/
def referenceFileInode (loadFromDisk loads : Bool) : Option (InodeFileStore ID) :=
  match store.find entryID with
  | some _ => store.referenceLoadedFile entryID
  | none => if loadFromDisk ∧ loads then some (store.assign entryID ⟨1, 0⟩) else none

/-- The count that is left; the inode is unloaded if that is 0. -/
def decreaseInodeRefCountUnlocked : Option (ℤ × InodeFileStore ID) :=
  (store.find entryID).map fun inodeRefer =>
    let refCount := inodeRefer.refCount - 1
    (refCount, if refCount = 0 then store.erase entryID
      else store.assign entryID { inodeRefer with refCount := refCount })

/-- The number of references that are left, if the inode is in the store. -/
def closeFile : Option (ℤ × InodeFileStore ID) := store.decreaseInodeRefCountUnlocked entryID

def releaseFileInode : Option (InodeFileStore ID) :=
  (store.decreaseInodeRefCountUnlocked entryID).map Prod.snd

def insertReferencer (inodeRefer : FileInodeReferencer) : Option (InodeFileStore ID) :=
  if store.isInStore entryID then none else some (store.assign entryID inodeRefer)

/-- `incParentRef`, `decParentRef` and `release` of an inode that is in the store. -/
def modify (f : FileInodeReferencer → FileInodeReferencer) : InodeFileStore ID :=
  match store.find entryID with
  | some inodeRefer => store.assign entryID (f inodeRefer)
  | none => store

def incParentRef : InodeFileStore ID :=
  store.modify entryID fun inodeRefer =>
    { inodeRefer with numParentRefs := inodeRefer.numParentRefs + 1 }

def decParentRef : InodeFileStore ID :=
  store.modify entryID fun inodeRefer =>
    { inodeRefer with numParentRefs := inodeRefer.numParentRefs - 1 }

end InodeFileStore

/-! ## The store of directories -/

structure DirectoryReferencer (ID : Type) [LinearOrder ID] where
  refCount : ℤ
  fileStore : InodeFileStore ID

structure InodeDirStore (ID : Type) [LinearOrder ID] where
  dirs : IDMap ID (DirectoryReferencer ID)
  refCache : IDSet ID

structure MetaConfig where
  tuneDirMetadataCacheLimit : ℕ
  selfTerminate : Bool

namespace InodeDirStore

variable (cfg : MetaConfig) (store : InodeDirStore ID) (dirID : ID)

/-- A directory is not unloaded as long as there are inodes in its store. -/
def releaseDirUnlocked : InodeDirStore ID :=
  match store.dirs.find dirID with
  | none => store
  | some dirRefer =>
    if dirRefer.refCount = 0 then { store with dirs := store.dirs.erase dirID }
    else if dirRefer.refCount - 1 = 0 then
      if dirRefer.fileStore.toList ≠ [] ∧ cfg.selfTerminate = false then store
      else { store with dirs := store.dirs.erase dirID }
    else
      { store with dirs :=
        store.dirs.assign dirID { dirRefer with refCount := dirRefer.refCount - 1 } }

def everyNth {α : Type} (skipNum : ℕ) : ℕ → List α → List α
  | _, [] => []
  | i, a :: l =>
    if (i + 1) % skipNum = 0 then a :: everyNth skipNum (i + 1) l else everyNth skipNum (i + 1) l

def cacheEvict : InodeDirStore ID :=
  let store := store.releaseDirUnlocked cfg dirID
  { store with refCache := store.refCache.erase dirID }

variable (randStart : ℕ)

/-- A synchronous sweep, from a random element on. -/
def cacheSweepUnlocked : InodeDirStore ID :=
  if store.refCache.toList.length ≤ cfg.tuneDirMetadataCacheLimit then store
  else
    (everyNth 4 0 (store.refCache.toList.drop randStart)).foldl (fun store id =>
      store.cacheEvict cfg id)
      store

/-- The count of a directory that is there. -/
def reference : InodeDirStore ID :=
  match store.dirs.find dirID with
  | none => store
  | some dirRefer =>
    { store with dirs :=
      store.dirs.assign dirID { dirRefer with refCount := dirRefer.refCount + 1 } }

def cacheAddUnlocked : InodeDirStore ID :=
  if cfg.tuneDirMetadataCacheLimit = 0 then store
  else
    let store := store.cacheSweepUnlocked cfg randStart
    if dirID ∈ store.refCache.toList then store
    else { store.reference dirID with refCache := store.refCache.insert dirID }

/-- Directories are not loaded from disk for a reference. -/
def referenceDirInode : InodeDirStore ID :=
  match store.dirs.find dirID with
  | some _ => store.reference dirID
  | none =>
    { store with dirs := store.dirs.assign dirID ⟨1, ∅⟩ }.cacheAddUnlocked cfg dirID randStart

/-- The file store of a directory that is there. -/
def fileStoreOf : InodeFileStore ID := ((store.dirs.find dirID).map (·.fileStore)).getD ∅

def setFileStore (fileStore : InodeFileStore ID) : InodeDirStore ID :=
  match store.dirs.find dirID with
  | none => store
  | some dirRefer =>
    { store with dirs := store.dirs.assign dirID { dirRefer with fileStore := fileStore } }

end InodeDirStore

/-! ## The metadata store -/

/-- The inode, and the directory if the inode is in its store. -/
structure MetaFileHandle (ID : Type) where
  entryID : ID
  parent : Option ID
  deriving DecidableEq, Repr

structure MetaStore (ID : Type) [LinearOrder ID] where
  fileStore : InodeFileStore ID
  dirStore : InodeDirStore ID

namespace MetaStore

variable (cfg : MetaConfig) (store : MetaStore ID) (parentEntryID entryID : ID)

variable (randStart : ℕ)

/-- The second half of the calls that reference a file: its inode is not in the global store, and
`get` references it in that of its directory. The reference to the directory is kept with the
inode. -/
def referenceInDir
    (get : InodeFileStore ID → Option (InodeFileStore ID)) :
    Option (MetaFileHandle ID) × MetaStore ID :=
  let dirStore := store.dirStore.referenceDirInode cfg parentEntryID randStart
  match get (dirStore.fileStoreOf parentEntryID) with
  | none => (none, { store with dirStore := dirStore.releaseDirUnlocked cfg parentEntryID })
  | some fileStore =>
    (some ⟨entryID, some parentEntryID⟩,
      { store with
        dirStore := dirStore.setFileStore parentEntryID (fileStore.incParentRef entryID) })

def referenceFile (loads : Bool) (randStart : ℕ) : Option (MetaFileHandle ID) × MetaStore ID :=
  match store.fileStore.referenceFileInode entryID false loads with
  | some fileStore => (some ⟨entryID, none⟩, { store with fileStore := fileStore })
  | none => store.referenceInDir cfg parentEntryID entryID randStart
    (·.referenceFileInode entryID true loads)

def referenceLoadedFile : Option (MetaFileHandle ID) × MetaStore ID :=
  match store.fileStore.referenceLoadedFile entryID with
  | some fileStore => (some ⟨entryID, none⟩, { store with fileStore := fileStore })
  | none => store.referenceInDir cfg parentEntryID entryID randStart (·.referenceLoadedFile entryID)

/-- If `checkDisposalFirst`, the inode is looked for among the unlinked files first, and loaded into
the global store from there. -/
def openFile (checkDisposalFirst loadsDisposed loads : Bool) (randStart : ℕ) :
    Option (MetaFileHandle ID) × MetaStore ID :=
  match if checkDisposalFirst then store.fileStore.referenceFileInode entryID true loadsDisposed
    else none with
  | some fileStore => (some ⟨entryID, none⟩, { store with fileStore := fileStore })
  | none =>
    if store.fileStore.isInStore entryID then
      match store.fileStore.referenceFileInode entryID false loads with
      | some fileStore => (some ⟨entryID, none⟩, { store with fileStore := fileStore })
      | none => (none, store)
    else
      store.referenceInDir cfg parentEntryID entryID randStart
        (·.referenceFileInode entryID true loads)

/-- The second half of the calls that return a handle. The last release is for the reference that
came with the handle; in the source the directory is a pointer of the handle. -/
def releaseInDir (parentEntryID : ID) (handle : MetaFileHandle ID) (randStart : ℕ)
    (put : InodeFileStore ID → Option (InodeFileStore ID)) : MetaStore ID :=
  let dirStore := store.dirStore.referenceDirInode cfg parentEntryID randStart
  let fileStore := (dirStore.fileStoreOf parentEntryID).decParentRef handle.entryID
  let dirStore := dirStore.setFileStore parentEntryID ((put fileStore).getD fileStore)
  let dirStore := dirStore.releaseDirUnlocked cfg parentEntryID
  { store with
    dirStore := handle.parent.elim dirStore (dirStore.releaseDirUnlocked cfg) }

def releaseFile (parentEntryID : ID) (handle : MetaFileHandle ID) (randStart : ℕ) : MetaStore ID :=
  match store.fileStore.releaseFileInode handle.entryID with
  | some fileStore => { store with fileStore := fileStore }
  | none => store.releaseInDir cfg parentEntryID handle randStart
    (·.releaseFileInode handle.entryID)

/-- What it returns about the inode is left out. -/
def closeFile (parentEntryID : ID) (handle : MetaFileHandle ID) (randStart : ℕ) : MetaStore ID :=
  match store.fileStore.closeFile handle.entryID with
  | some (_, fileStore) => { store with fileStore := fileStore }
  | none => store.releaseInDir cfg parentEntryID handle randStart fun fileStore =>
      (fileStore.closeFile handle.entryID).map Prod.snd

/-- The loop over the references to the directory, each of which is released. -/
def releaseParentRefs (parentEntryID entryID : ID) : ℕ → MetaStore ID → MetaStore ID
  | 0, store => store
  | numParentRefs + 1, store =>
    releaseParentRefs parentEntryID entryID numParentRefs
      { fileStore := store.fileStore.decParentRef entryID
        dirStore := store.dirStore.releaseDirUnlocked cfg parentEntryID }

/-- The file was unlinked. While its referencer is between the stores, it has a reference of its
own. -/
def moveReferenceToMetaFileStoreUnlocked : Bool × MetaStore ID :=
  let dirStore := store.dirStore.referenceDirInode cfg parentEntryID randStart
  match (dirStore.fileStoreOf parentEntryID).getReferencerAndDeleteFromMap entryID with
  | none => (true, { store with dirStore := dirStore.releaseDirUnlocked cfg parentEntryID })
  | some (inodeRefer, dirFiles) =>
    let dirStore := dirStore.setFileStore parentEntryID dirFiles
    match store.fileStore.insertReferencer entryID
        { inodeRefer with refCount := inodeRefer.refCount + 1 } with
    | none => (false, { store with dirStore := dirStore.releaseDirUnlocked cfg parentEntryID })
    | some fileStore =>
      let store := releaseParentRefs cfg parentEntryID entryID inodeRefer.numParentRefs.toNat
        ⟨fileStore, dirStore⟩
      let fileStore := store.fileStore.modify entryID fun inodeRefer =>
        { inodeRefer with refCount := inodeRefer.refCount - 1 }
      (true, ⟨fileStore, store.dirStore.releaseDirUnlocked cfg parentEntryID⟩)

end MetaStore

/-! ## Runs -/

/-- A store, and the references that are held by its callers: the handles, each with the id of the
directory it was asked for with, and the references to directories. -/
structure MetaStoreUse (ID : Type) [LinearOrder ID] where
  store : MetaStore ID
  handles : List (MetaFileHandle ID × ID)
  dirRefs : List ID

namespace MetaStoreUse

/-- Handles and references to directories are given back by their position in the lists. -/
inductive Action (ID : Type)
  | openFile (parentEntryID entryID : ID) (checkDisposalFirst loadsDisposed loads : Bool)
    (randStart : ℕ)
  | referenceFile (parentEntryID entryID : ID) (loads : Bool) (randStart : ℕ)
  | referenceLoadedFile (parentEntryID entryID : ID) (randStart : ℕ)
  | releaseFile (i randStart : ℕ)
  | closeFile (i randStart : ℕ)
  | moveReferenceToMetaFileStore (parentEntryID entryID : ID) (randStart : ℕ)
  | referenceDir (dirID : ID) (randStart : ℕ)
  | releaseDir (i : ℕ)

variable (cfg : MetaConfig) (use : MetaStoreUse ID)

/-- A handle may have been obtained. -/
def receive (parentEntryID : ID) (result : Option (MetaFileHandle ID) × MetaStore ID) :
    MetaStoreUse ID where
  store := result.2
  handles := (result.1.map (·, parentEntryID)).toList ++ use.handles
  dirRefs := use.dirRefs

/-- A handle is given back, if there is one at this position. -/
def giveBack (i : ℕ) (release : ID → MetaFileHandle ID → MetaStore ID) : MetaStoreUse ID :=
  match use.handles[i]? with
  | none => use
  | some (handle, parentEntryID) =>
    { use with store := release parentEntryID handle, handles := use.handles.eraseIdx i }

def step : Action ID → MetaStoreUse ID
  | .openFile parentEntryID entryID checkDisposalFirst loadsDisposed loads randStart =>
    use.receive parentEntryID
      (use.store.openFile cfg parentEntryID entryID checkDisposalFirst loadsDisposed
      loads randStart)
  | .referenceFile parentEntryID entryID loads randStart =>
    use.receive parentEntryID (use.store.referenceFile cfg parentEntryID entryID loads randStart)
  | .referenceLoadedFile parentEntryID entryID randStart =>
    use.receive parentEntryID (use.store.referenceLoadedFile cfg parentEntryID entryID randStart)
  | .releaseFile i randStart =>
    use.giveBack i fun parentEntryID handle => use.store.releaseFile cfg parentEntryID
      handle randStart
  | .closeFile i randStart =>
    use.giveBack i fun parentEntryID handle => use.store.closeFile cfg parentEntryID
      handle randStart
  | .moveReferenceToMetaFileStore parentEntryID entryID randStart =>
    { use with
      store := (use.store.moveReferenceToMetaFileStoreUnlocked cfg parentEntryID
        entryID randStart).2 }
  | .referenceDir dirID randStart =>
    { use with
      store.dirStore := use.store.dirStore.referenceDirInode cfg dirID randStart
      dirRefs := dirID :: use.dirRefs }
  | .releaseDir i =>
    match use.dirRefs[i]? with
    | none => use
    | some dirID =>
      { use with
        store.dirStore := use.store.dirStore.releaseDirUnlocked cfg dirID
        dirRefs := use.dirRefs.eraseIdx i }

end MetaStoreUse
end Congfs.Metadata
