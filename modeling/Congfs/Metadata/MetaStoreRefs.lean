import Mathlib.Data.List.Perm.Basic
import Congfs.Lib.Run
import Congfs.Metadata.MetaStoreHandles

/-!
# References to inodes and directories are accounted for

Two steps break this, and no other: an inode is loaded into the global store as that of an unlinked
file while a directory has it, and the inode of one directory is moved to the global store while
another one has an inode of the same entry. Afterwards a handle is given back to the wrong store.
-/

namespace Congfs.Metadata

open StdMap InodeDirStore List
open InodeFileStore
open DirsCounted

variable {ID : Type} [LinearOrder ID]

/-! ## The calls -/

namespace MetaStore

variable {cfg : MetaConfig} {store : MetaStore ID} {handle : MetaFileHandle ID}
    {parentID entryID : ID}
  {refer : FileInodeReferencer} {disposal loadsDisposed loads : Bool} {rand : ℕ}

/-- The inode is referenced in the global store, where it may be loaded into. -/
def referenceGlobal (store : MetaStore ID) (entryID : ID) :
    Option (MetaFileHandle ID) × MetaStore ID :=
  (some ⟨entryID, none⟩,
    { store with fileStore := store.fileStore.assign entryID (store.fileStore.referenced entryID) })

theorem openFile_of_none (h : store.fileStore.find entryID = none) :
    store.openFile cfg parentID entryID disposal loadsDisposed loads rand =
      if disposal ∧ loadsDisposed then store.referenceGlobal entryID
      else store.referenceInDir cfg parentID entryID rand
        (·.referenceFileInode entryID true loads) := by
  rw [openFile, isInStore, h, referenceFileInode_of_none h]
  cases disposal <;> cases loadsDisposed <;> rfl

theorem referenceFile_of_none (h : store.fileStore.find entryID = none) :
    store.referenceFile cfg parentID entryID loads rand =
      store.referenceInDir cfg parentID entryID rand
        (·.referenceFileInode entryID true loads) := by
  rw [referenceFile, referenceFileInode_of_none h]
  rfl

section
variable (h : store.fileStore.find entryID = some refer)
include h

theorem openFile_of_find :
    store.openFile cfg parentID entryID disposal loadsDisposed loads rand =
      store.referenceGlobal entryID := by
  rw [openFile, isInStore, h, referenceFileInode_of_find h, referenceFileInode_of_find h]
  cases disposal <;> rfl

theorem referenceFile_of_find :
    store.referenceFile cfg parentID entryID loads rand = store.referenceGlobal entryID := by
  rw [referenceFile, referenceFileInode_of_find h]
  rfl

theorem referenceLoadedFile_of_find :
    store.referenceLoadedFile cfg parentID entryID rand = store.referenceGlobal entryID := by
  rw [referenceLoadedFile, InodeFileStore.referenceLoadedFile, referenceGlobal, referenced, h]
  rfl

end

theorem referenceLoadedFile_of_none (h : store.fileStore.find entryID = none) :
    store.referenceLoadedFile cfg parentID entryID rand =
      store.referenceInDir cfg parentID entryID rand (·.referenceLoadedFile entryID) := by
  rw [referenceLoadedFile, InodeFileStore.referenceLoadedFile, h]
  rfl

theorem closeFile_eq_releaseFile :
    store.closeFile cfg parentID handle rand = store.releaseFile cfg parentID handle rand := by
  rw [closeFile, releaseFile, InodeFileStore.closeFile, releaseFileInode]
  cases store.fileStore.decreaseInodeRefCountUnlocked handle.entryID <;> rfl

end MetaStore

/-! ## The invariant -/

namespace MetaStoreUse

open InodeDirStore

def entryHandles (handles : List (MetaFileHandle ID × ID)) (entryID : ID) :
    List (MetaFileHandle ID × ID) :=
  handles.filter fun handle => decide (handle.1.entryID = entryID)

theorem entryHandles_cons_self {handles : List (MetaFileHandle ID × ID)}
    {handle : MetaFileHandle ID × ID} :
    entryHandles (handle :: handles) handle.1.entryID = handle :: entryHandles handles
    handle.1.entryID := by
  rw [entryHandles, filter_cons, if_pos (decide_eq_true rfl)]
  rfl

theorem entryHandles_cons_of_ne {handles : List (MetaFileHandle ID × ID)}
    {handle : MetaFileHandle ID × ID} {entryID : ID} (h : entryID ≠ handle.1.entryID) :
    entryHandles (handle :: handles) entryID = entryHandles handles entryID := by
  rw [entryHandles, filter_cons, if_neg fun heq => h (of_decide_eq_true heq).symm]
  rfl

structure Consistent (store : MetaStore ID) (handles : List (MetaFileHandle ID × ID))
    (dirRefs : List ID) :
    Prop where
  entries : ∀ entryID, EntryCounted (store.fileStore.find entryID)
    (fun dirID => (store.dirStore.fileStoreOf dirID).find entryID) (entryHandles handles entryID)
  dirs : DirsCounted dirRefs store.dirStore

variable {cfg : MetaConfig} {store : MetaStore ID} {handles : List (MetaFileHandle ID × ID)}
  {dirRefs : List ID} {handle : MetaFileHandle ID × ID} {parentID entryID : ID} {rand : ℕ}

namespace Consistent

section
variable (h : Consistent store handles dirRefs)
include h

theorem perm (hperm : handles.Perm handles') (hdirs : dirRefs.Perm dirRefs') :
    Consistent store handles' dirRefs' :=
  ⟨fun entryID => (h.entries entryID).perm (hperm.filter _), h.dirs.perm hdirs⟩

theorem setDirStore (hdirs : DirsCounted dirRefs' dirStore)
    (hfiles : dirStore.fileStoreOf = store.dirStore.fileStoreOf) :
    Consistent { store with dirStore := dirStore } handles dirRefs' := by
  refine ⟨fun entryID => ?_, hdirs⟩
  rw [hfiles]
  exact h.entries entryID

theorem setGlobal (hother : ∀ id, id ≠ entryID → fileStore.find id = store.fileStore.find id ∧
      entryHandles handles' id = entryHandles handles id)
    (hentry : EntryCounted (fileStore.find entryID)
      (fun dirID => (store.dirStore.fileStoreOf dirID).find entryID)
      (entryHandles handles' entryID)) :
    Consistent { store with fileStore := fileStore } handles' dirRefs := by
  refine ⟨fun id => ?_, h.dirs⟩
  by_cases hid : id = entryID
  · rw [hid]
    exact hentry
  · obtain ⟨hsame, hhandles⟩ := hother id hid
    rw [hsame, hhandles]
    exact h.entries id

theorem entries_setFileStore {dirStore : InodeDirStore ID}
    (hfiles : dirStore.fileStoreOf = store.dirStore.fileStoreOf)
    (hfind : dirStore.dirs.find parentID = some dir)
    (hother : ∀ id, id ≠ entryID → fileStore.find id =
    (store.dirStore.fileStoreOf parentID).find id ∧
      entryHandles handles' id = entryHandles handles id)
    (hentry : EntryCounted (store.fileStore.find entryID) (fun dirID => if dirID = parentID
      then fileStore.find entryID else (store.dirStore.fileStoreOf dirID).find entryID)
      (entryHandles handles' entryID))
    (id : ID) :
    EntryCounted (store.fileStore.find id)
      (fun dirID => ((dirStore.setFileStore parentID fileStore).fileStoreOf dirID).find id)
      (entryHandles handles' id) := by
  have hdir :
    (fun dirID => ((dirStore.setFileStore parentID fileStore).fileStoreOf dirID).find id) =
      fun dirID => if dirID = parentID then fileStore.find id
        else (store.dirStore.fileStoreOf dirID).find id := by
    funext dirID
    rw [fileStoreOf_setFileStore hfind, hfiles]
    split <;> rfl
  rw [hdir]
  by_cases hid : id = entryID
  · rw [hid]
    exact hentry
  · obtain ⟨hsame, hhandles⟩ := hother id hid
    have hframe : (fun dirID => if dirID = parentID then fileStore.find id
        else (store.dirStore.fileStoreOf dirID).find id) =
        fun dirID => (store.dirStore.fileStoreOf dirID).find id := by
      funext dirID
      split_ifs with heq
      · rw [heq, hsame]
      · rfl
    rw [hframe, hhandles]
    exact h.entries id

end

/-! ## Obtaining handles -/

section
variable (h : Consistent store handles dirRefs)
include h

theorem assign_global (hentry : EntryCounted (some refer)
      (fun dirID => (store.dirStore.fileStoreOf dirID).find handle.1.entryID)
      (handle :: entryHandles handles handle.1.entryID)) :
    Consistent { store with fileStore := store.fileStore.assign handle.1.entryID refer }
      (handle :: handles) dirRefs := by
  refine h.setGlobal (fun id hne => ⟨find_assign_of_ne hne, entryHandles_cons_of_ne hne⟩) ?_
  rw [find_assign_self, entryHandles_cons_self]
  exact hentry

theorem referenced_global (hdir : store.fileStore.find handle.1.entryID = none →
      ∀ dirID, (store.dirStore.fileStoreOf dirID).find handle.1.entryID = none) :
    Consistent { store with
      fileStore := store.fileStore.assign handle.1.entryID
        (store.fileStore.referenced handle.1.entryID) } (handle :: handles) dirRefs := by
  have hentry := h.entries handle.1.entryID
  refine h.assign_global ?_
  rw [referenced]
  cases hfind : store.fileStore.find handle.1.entryID with
  | some refer => exact (hfind ▸ hentry).reference_global
  | none => exact (hfind ▸ hentry).load_global (hdir hfind)

/-- What an inode of a directory has for its handles, it has as references to the directory. -/
theorem parentRefs_of_find
    (hfind : (store.dirStore.fileStoreOf parentID).find entryID = some refer) :
    store.fileStore.find entryID = none ∧ 0 < refer.refCount ∧
      refer.numParentRefs = refer.refCount := by
  cases h.entries entryID with
  | global _ hdir => cases (hdir parentID).symm.trans hfind
  | inDirs hglobal hdir =>
    obtain ⟨hpos, rfl⟩ := localRefer_eq_some ((hdir parentID).symm.trans hfind)
    exact ⟨hglobal, Int.natCast_pos.mpr hpos, rfl⟩

/-- The reference to the directory belongs to the inode from now on. -/
theorem referenceInDir (hglobal : store.fileStore.find entryID = none)
    {get : InodeFileStore ID → Option (InodeFileStore ID)}
    (hget : ∀ fileStore fileStore', get fileStore = some fileStore' →
      fileStore' = fileStore.assign entryID (fileStore.referenced entryID)) :
    Consistent (store.referenceInDir cfg parentID entryID rand get).2
      (((store.referenceInDir cfg parentID entryID rand get).1.map (·, parentID)).toList ++
        handles) dirRefs := by
  obtain ⟨hdirs, hfiles⟩ := @referenceDir _ _ cfg _ _ h.dirs parentID rand
  rw [MetaStore.referenceInDir]
  cases hgot : get ((store.dirStore.referenceDirInode cfg parentID rand).fileStoreOf
    parentID) with
  | none =>
    obtain ⟨hdirs', hfiles'⟩ := @releaseDir _ _ cfg _ _ _ hdirs
    exact h.setDirStore hdirs' (hfiles'.trans hfiles)
  | some fileStore =>
    obtain ⟨dir, hfind⟩ := hdirs.exists_of_mem mem_cons_self
    have hstore : dir.fileStore = store.dirStore.fileStoreOf parentID := by
      rw [← fileStoreOf_of_find hfind, hfiles]
    obtain rfl := hget _ _ hgot
    dsimp only
    rw [incParentRef_referenced, hfiles]
    constructor
    · have hentry := h.entries entryID
      rw [hglobal] at hentry
      refine h.entries_setFileStore hfiles hfind (fun id hne => ⟨find_assign_of_ne hne,
        @entryHandles_cons_of_ne _ _ handles (⟨entryID, some parentID⟩, parentID) _ hne⟩) ?_
      rw [hglobal]
      have hcons := @entryHandles_cons_self _ _ handles (⟨entryID, some parentID⟩, parentID)
      refine hcons ▸ hentry.reference_dir rfl (fun dirID hne => if_neg hne) ?_
      rw [if_pos rfl, find_assign_self]
    · refine hdirs.setFileStore hfind ?_ (fun id hne => ?_) fun id refer hid => ?_
      · rw [parentRefs_referenced, hstore, count_cons_self]
        omega
      · rw [count_cons_of_ne fun heq => hne heq.symm]
      · rw [find_assign] at hid
        split at hid
        · cases hid
          cases hold : (store.dirStore.fileStoreOf parentID).find entryID with
          | none => exact Int.zero_lt_one
          | some old =>
            have hpos := h.parentRefs_of_find hold
            change 0 < old.numParentRefs + 1
            omega
        · rw [← hstore] at hid
          exact hdirs.parentRefs_pos hfind hid

end

/-! ## Giving handles back -/

section
variable (h : Consistent store (handle :: handles) dirRefs)
include h

theorem release_global (hfind : store.fileStore.find handle.1.entryID = some refer)
    (hrelease : store.fileStore.releaseFileInode handle.1.entryID = some fileStore) :
    Consistent { store with fileStore := fileStore } handles dirRefs := by
  have hentry := h.entries handle.1.entryID
  rw [hfind, entryHandles_cons_self] at hentry
  rw [releaseFileInode_of_find hfind] at hrelease
  obtain rfl := Option.some.inj hrelease
  refine h.setGlobal (fun id hne => ⟨?_, (entryHandles_cons_of_ne hne).symm⟩) ?_
  · split
    · rw [find_erase, if_neg hne]
    · exact find_assign_of_ne hne
  · have hfind' : (if refer.refCount - 1 = 0 then store.fileStore.erase handle.1.entryID
        else store.fileStore.assign handle.1.entryID
          { refer with refCount := refer.refCount - 1 }).find handle.1.entryID =
        if refer.refCount - 1 = 0 then none
        else some { refer with refCount := refer.refCount - 1 } := by
      split
      · rw [find_erase, if_pos rfl]
      · exact find_assign_self
    rw [hfind']
    exact hentry.release_global

/-- The reference of the handle to the directory is released, and the one for the call. -/
theorem releaseInDir (hglobal : store.fileStore.find handle.1.entryID = none) :
    Consistent (store.releaseInDir cfg handle.2 handle.1 rand
      (·.releaseFileInode handle.1.entryID)) handles dirRefs := by
  obtain ⟨hdirs, hfiles⟩ := @referenceDir _ _ cfg _ _ h.dirs handle.2 rand
  obtain ⟨dir, hfind⟩ := hdirs.exists_of_mem mem_cons_self
  have hstore : dir.fileStore = store.dirStore.fileStoreOf handle.2 := by
    rw [← fileStoreOf_of_find hfind, hfiles]
  have hentry := h.entries handle.1.entryID
  rw [hglobal, entryHandles_cons_self] at hentry
  obtain ⟨refer, hinode, hparent⟩ := hentry.exists_in_dir
  obtain ⟨-, -, hrefs⟩ := h.parentRefs_of_find hinode
  have hset : DirsCounted (handle.2 :: handle.2 :: dirRefs)
      ((store.dirStore.referenceDirInode cfg handle.2 rand).setFileStore handle.2
        (released (store.dirStore.fileStoreOf handle.2) handle.1.entryID)) := by
    refine hdirs.setFileStore hfind ?_ (fun id hne => ?_) fun id inodeRefer' hid => ?_
    · rw [parentRefs_released hinode hrefs, hstore, count_cons_self]
      omega
    · rw [count_cons_of_ne fun heq => hne heq.symm]
    · rw [find_released hinode] at hid
      split at hid
      · split at hid
        · cases hid
        · cases hid
          have hpos := h.parentRefs_of_find hinode
          dsimp only
          omega
      · rw [← hstore] at hid
        exact hdirs.parentRefs_pos hfind hid
  obtain ⟨hone, hfiles1⟩ := @releaseDir _ _ cfg _ _ _ hset
  obtain ⟨hzero, hfiles2⟩ := @releaseDir _ _ cfg _ _ _ hone
  rw [MetaStore.releaseInDir, hparent, hfiles]
  refine ⟨fun id => ?_, hzero⟩
  refine (hfiles2.trans hfiles1).symm ▸ ?_
  refine h.entries_setFileStore hfiles hfind (fun id hne =>
    ⟨?_, (entryHandles_cons_of_ne hne).symm⟩) ?_ id
  · rw [find_released hinode, if_neg hne]
  · rw [hglobal]
    refine hentry.release_dir (fun dirID hne => if_neg hne) fun inodeRefer' hinode' => ?_
    cases hinode.symm.trans hinode'
    rw [if_pos rfl, find_released hinode, if_pos rfl]

theorem releaseFile :
    Consistent (store.releaseFile cfg handle.2 handle.1 rand) handles dirRefs := by
  rw [MetaStore.releaseFile]
  cases hfind : store.fileStore.find handle.1.entryID with
  | none =>
    rw [releaseFileInode_of_none hfind]
    exact h.releaseInDir hfind
  | some refer =>
    have hrelease := releaseFileInode_of_find hfind
    rw [hrelease]
    exact h.release_global hfind hrelease

end

/-! ## Moving an inode to the global store -/

/-- The references of the inode to the directory are released one by one. -/
theorem releaseParentRefs (n : ℕ) (store : MetaStore ID) {refCount : ℤ}
    (hfind : store.fileStore.find entryID = some ⟨refCount, n⟩)
    (hdirs : DirsCounted (List.replicate n parentID ++ dirRefs) store.dirStore) :
    (∀ id, (MetaStore.releaseParentRefs cfg parentID entryID n store).fileStore.find id =
        if id = entryID then some ⟨refCount, 0⟩ else store.fileStore.find id) ∧
      DirsCounted dirRefs (MetaStore.releaseParentRefs cfg parentID entryID n store).dirStore ∧
      (MetaStore.releaseParentRefs cfg parentID entryID n store).dirStore.fileStoreOf =
        store.dirStore.fileStoreOf := by
  induction n generalizing store with
  | zero =>
    refine ⟨fun id => ?_, hdirs, rfl⟩
    rw [MetaStore.releaseParentRefs]
    split_ifs with heq
    · rw [heq, hfind]
      rfl
    · rfl
  | succ n ih =>
    have hdec : store.fileStore.decParentRef entryID = store.fileStore.assign entryID
      ⟨refCount, n⟩ := by
      rw [decParentRef, modify_of_find hfind]
      simp
    obtain ⟨hdirs', hfiles⟩ := @releaseDir _ _ cfg _ _ _ hdirs
    obtain ⟨hids, hcounted, hsame⟩ := ih
      ⟨store.fileStore.decParentRef entryID, store.dirStore.releaseDirUnlocked cfg parentID⟩
      (by rw [hdec, find_assign_self]) hdirs'
    refine ⟨fun id => ?_, hcounted, hsame.trans hfiles⟩
    rw [MetaStore.releaseParentRefs, hids, hdec, find_assign]
    split <;> rfl

theorem of_move {refer : FileInodeReferencer} (h : Consistent store handles dirRefs)
    (hinode : (store.dirStore.fileStoreOf parentID).find entryID = some refer) :
    (∀ id, (store.moveReferenceToMetaFileStoreUnlocked cfg parentID entryID
        rand).2.fileStore.find id =
        if id = entryID then some { refer with numParentRefs := 0 } else store.fileStore.find id) ∧
      DirsCounted dirRefs (store.moveReferenceToMetaFileStoreUnlocked cfg parentID entryID
        rand).2.dirStore ∧
      ∀ dirID, (store.moveReferenceToMetaFileStoreUnlocked cfg parentID entryID
        rand).2.dirStore.fileStoreOf dirID =
        if dirID = parentID then (store.dirStore.fileStoreOf parentID).erase entryID
        else store.dirStore.fileStoreOf dirID := by
  obtain ⟨hglobal, hpos, hrefs⟩ := h.parentRefs_of_find hinode
  obtain ⟨n, hn⟩ := Int.eq_ofNat_of_zero_le (Int.le_of_lt hpos)
  obtain ⟨hdirs, hfiles⟩ := @referenceDir _ _ cfg _ _ h.dirs parentID rand
  obtain ⟨dir, hfind⟩ := hdirs.exists_of_mem mem_cons_self
  have hstore : dir.fileStore = store.dirStore.fileStoreOf parentID := by
    rw [← fileStoreOf_of_find hfind, hfiles]
  have hset : DirsCounted (List.replicate n parentID ++ parentID :: dirRefs)
      ((store.dirStore.referenceDirInode cfg parentID rand).setFileStore parentID
        ((store.dirStore.fileStoreOf parentID).erase entryID)) := by
    refine hdirs.setFileStore hfind ?_ (fun id hne => ?_) fun id inodeRefer' hid => ?_
    · rw [parentRefs, total_erase, hinode, hstore, count_append,
        count_replicate_self, Option.map_some, Option.getD_some, parentRefs]
      omega
    · rw [count_append, count_replicate, if_neg (by simpa using fun heq => hne heq.symm),
        Nat.zero_add]
    · rw [find_erase] at hid
      split at hid
      · cases hid
      · rw [← hstore] at hid
        exact hdirs.parentRefs_pos hfind hid
  have hinsert : store.fileStore.insertReferencer entryID
      { refer with refCount := refer.refCount + 1 } =
      some (store.fileStore.assign entryID { refer with refCount := refer.refCount + 1 }) := by
    rw [insertReferencer, isInStore, hglobal]
    rfl
  obtain ⟨hids, hcounted, hsame⟩ := @releaseParentRefs _ _ cfg _ _ entryID n
    ⟨store.fileStore.assign entryID { refer with refCount := refer.refCount + 1 },
      (store.dirStore.referenceDirInode cfg parentID rand).setFileStore parentID
        ((store.dirStore.fileStoreOf parentID).erase entryID)⟩
    (refer.refCount + 1) (by rw [find_assign_self, hrefs, hn]) hset
  obtain ⟨hdirs', hfiles'⟩ := @releaseDir _ _ cfg _ _ _ hcounted
  have hself := hids entryID
  rw [if_pos rfl] at hself
  have hnat : refer.numParentRefs.toNat = n := by omega
  rw [MetaStore.moveReferenceToMetaFileStoreUnlocked, hfiles,
    getReferencerAndDeleteFromMap, hinode]
  dsimp only [Option.map]
  rw [hinsert]
  dsimp only
  rw [hnat]
  refine ⟨fun id => ?_, hdirs', fun dirID => ?_⟩
  · rw [modify_of_find hself, find_assign, hids, find_assign]
    split
    · simp
    · rfl
  · rw [hfiles', hsame, fileStoreOf_setFileStore hfind, hfiles]

theorem move (h : Consistent store handles dirRefs)
    (hother : ((store.dirStore.fileStoreOf parentID).find entryID).isSome →
      ∀ dirID, dirID ≠ parentID → (store.dirStore.fileStoreOf dirID).find entryID = none) :
    Consistent (store.moveReferenceToMetaFileStoreUnlocked cfg parentID entryID rand).2
      handles dirRefs := by
  cases hinode : (store.dirStore.fileStoreOf parentID).find entryID with
  | none =>
    obtain ⟨hdirs, hfiles⟩ := @referenceDir _ _ cfg _ _ h.dirs parentID rand
    obtain ⟨hdirs', hfiles'⟩ := @releaseDir _ _ cfg _ _ _ hdirs
    rw [MetaStore.moveReferenceToMetaFileStoreUnlocked, hfiles,
      getReferencerAndDeleteFromMap, hinode]
    exact h.setDirStore hdirs' (hfiles'.trans hfiles)
  | some refer =>
    obtain ⟨hids, hdirs, hfiles⟩ := @of_move _ _ cfg _ _ _ _ _ rand _ h hinode
    rw [hinode] at hother
    refine ⟨fun id => ?_, hdirs⟩
    rw [hids]
    by_cases hid : id = entryID
    · subst hid
      rw [if_pos rfl]
      have hentry := h.entries id
      rw [(h.parentRefs_of_find hinode).1] at hentry
      refine hentry.move hinode (hother rfl) fun dirID => ?_
      rw [hfiles]
      split_ifs with hne
      · rw [find_erase, if_pos rfl]
      · exact hother rfl dirID hne
    · rw [if_neg hid]
      have hframe : (fun dirID => ((store.moveReferenceToMetaFileStoreUnlocked cfg parentID entryID
          rand).2.dirStore.fileStoreOf dirID).find id) =
          fun dirID => (store.dirStore.fileStoreOf dirID).find id := by
        funext dirID
        rw [hfiles]
        split_ifs with heq
        · rw [find_erase, if_neg hid, heq]
        · rfl
      rw [hframe]
      exact h.entries id

end Consistent

/-! ## Runs -/

theorem isInStore_eq_false {store : InodeFileStore ID} :
    store.isInStore entryID = false ↔ store.find entryID = none := by
  rw [isInStore, Option.isSome_eq_false_iff, Option.isNone_iff_eq_none]

section
variable {use : MetaStoreUse ID} (action : Action ID)
    (h : Consistent use.store use.handles use.dirRefs)
include h

theorem receive_global (hdir : use.store.fileStore.find entryID = none →
      ∀ dirID, (use.store.dirStore.fileStoreOf dirID).find entryID = none) :
    Consistent (use.receive parentID (use.store.referenceGlobal entryID)).store
      (use.receive parentID (use.store.referenceGlobal entryID)).handles use.dirRefs :=
  @Consistent.referenced_global _ _ _ _ _ (⟨entryID, none⟩, parentID) h hdir

theorem giveBack_consistent {release : ID → MetaFileHandle ID → MetaStore ID}
    (hrelease : ∀ handle handles, Consistent use.store (handle :: handles) use.dirRefs →
      Consistent (release handle.2 handle.1) handles use.dirRefs) :
    Consistent (use.giveBack i release).store (use.giveBack i release).handles
      (use.giveBack i release).dirRefs := by
  rw [giveBack]
  cases hget : use.handles[i]? with
  | none => exact h
  | some handle =>
    obtain ⟨hi, rfl⟩ := List.getElem?_eq_some_iff.mp hget
    exact hrelease _ _ (h.perm (getElem_cons_eraseIdx_perm hi).symm (.refl _))

/-- The inode of an entry is not loaded as that of an unlinked file while a directory has it, and is
not moved from one directory while another one has it. -/
def Exclusive (use : MetaStoreUse ID) : Action ID → Prop
  | .openFile _ entryID checkDisposalFirst loadsDisposed _ _ =>
    checkDisposalFirst → loadsDisposed → use.store.fileStore.isInStore entryID = false →
      ∀ dirID, (use.store.dirStore.fileStoreOf dirID).isInStore entryID = false
  | .moveReferenceToMetaFileStore parentEntryID entryID _ =>
    (use.store.dirStore.fileStoreOf parentEntryID).isInStore entryID →
      ∀ dirID, dirID ≠ parentEntryID → (use.store.dirStore.fileStoreOf dirID).isInStore
      entryID = false
  | _ => True

theorem step_consistent (hexcl : use.Exclusive action) :
    Consistent (use.step cfg action).store (use.step cfg action).handles
    (use.step cfg action).dirRefs := by
  cases action with
  | openFile parentID entryID disposal loadsDisposed loads rand =>
    rw [step]
    cases hfind : use.store.fileStore.find entryID with
    | some refer =>
      rw [MetaStore.openFile_of_find hfind]
      exact receive_global h fun hnone => by cases hnone.symm.trans hfind
    | none =>
      rw [MetaStore.openFile_of_none hfind]
      split_ifs with hdisposed
      · exact receive_global h fun _ dirID =>
          isInStore_eq_false.mp (hexcl hdisposed.1 hdisposed.2 (isInStore_eq_false.mpr hfind) dirID)
      · exact h.referenceInDir hfind fun _ _ => of_referenceFileInode
  | referenceFile parentID entryID loads rand =>
    rw [step]
    cases hfind : use.store.fileStore.find entryID with
    | some refer =>
      rw [MetaStore.referenceFile_of_find hfind]
      exact receive_global h fun hnone => by cases hnone.symm.trans hfind
    | none =>
      rw [MetaStore.referenceFile_of_none hfind]
      exact h.referenceInDir hfind fun _ _ => of_referenceFileInode
  | referenceLoadedFile parentID entryID rand =>
    rw [step]
    cases hfind : use.store.fileStore.find entryID with
    | some refer =>
      rw [MetaStore.referenceLoadedFile_of_find hfind]
      exact receive_global h fun hnone => by cases hnone.symm.trans hfind
    | none =>
      rw [MetaStore.referenceLoadedFile_of_none hfind]
      exact h.referenceInDir hfind fun _ _ => of_referenceLoadedFile
  | releaseFile i rand => exact giveBack_consistent h fun _ _ h => h.releaseFile
  | closeFile i rand =>
    refine giveBack_consistent h fun _ _ h => ?_
    rw [MetaStore.closeFile_eq_releaseFile]
    exact h.releaseFile
  | moveReferenceToMetaFileStore parentID entryID rand =>
    exact h.move fun hmem dirID hne => isInStore_eq_false.mp (hexcl hmem dirID hne)
  | referenceDir dirID rand =>
    obtain ⟨hdirs, hfiles⟩ := @referenceDir _ _ cfg _ _ h.dirs dirID rand
    exact h.setDirStore hdirs hfiles
  | releaseDir i =>
    rw [step]
    cases hget : use.dirRefs[i]? with
    | none => exact h
    | some dirID =>
      obtain ⟨hi, rfl⟩ := List.getElem?_eq_some_iff.mp hget
      have hdirs := h.dirs.perm (getElem_cons_eraseIdx_perm hi).symm
      obtain ⟨hdirs', hfiles⟩ := @releaseDir _ _ cfg _ _ _ hdirs
      exact h.setDirStore hdirs' hfiles

/-- Every inode and every directory is counted, and an inode is loaded exactly if there are handles
of it. -/
structure Accounted (use : MetaStoreUse ID) : Prop where
  once : ∀ entryID dirID, use.store.fileStore.isInStore entryID →
    (use.store.dirStore.fileStoreOf dirID).isInStore entryID = false
  global : ∀ entryID inodeRefer, use.store.fileStore.find entryID = some inodeRefer →
    inodeRefer.refCount = (entryHandles use.handles entryID).length
  inDir : ∀ dirID entryID inodeRefer,
    (use.store.dirStore.fileStoreOf dirID).find entryID = some inodeRefer →
      inodeRefer.refCount = countIn (entryHandles use.handles entryID) dirID
  dirs : ∀ dirID dirRefer, use.store.dirStore.dirs.find dirID = some dirRefer → dirRefer.refCount =
      dirRefer.fileStore.parentRefs + (use.dirRefs.count dirID + use.store.dirStore.cacheRef dirID)
  loaded : ∀ entryID, entryHandles use.handles entryID = [] ↔
    use.store.fileStore.isInStore entryID = false ∧
      ∀ dirID, (use.store.dirStore.fileStoreOf dirID).isInStore entryID = false

theorem Consistent.accounted : use.Accounted where
  once entryID dirID hmem := by
    obtain ⟨refer, hfind⟩ := Option.isSome_iff_exists.mp hmem
    obtain ⟨-, hdir⟩ := (h.entries entryID).of_global hfind
    exact isInStore_eq_false.mpr (hdir dirID)
  global entryID refer hfind := by
    obtain ⟨rfl, -⟩ := (h.entries entryID).of_global hfind
    rfl
  inDir dirID entryID refer hfind := by
    obtain ⟨hglobal, -⟩ := h.parentRefs_of_find hfind
    obtain ⟨hdir, -⟩ := (h.entries entryID).of_not_global hglobal
    obtain ⟨-, rfl⟩ := localRefer_eq_some ((hdir dirID).symm.trans hfind)
    rfl
  dirs dirID dir hfind := h.dirs.refCount hfind
  loaded entryID := by
    have hentry := h.entries entryID
    constructor
    · intro hnil
      rw [hnil] at hentry
      cases hentry with
      | global _ _ hne => exact absurd rfl hne
      | inDirs hglobal hdir =>
        exact ⟨isInStore_eq_false.mpr hglobal, fun dirID => isInStore_eq_false.mpr (hdir dirID)⟩
    · rintro ⟨hglobal, hdir⟩
      rw [isInStore_eq_false.mp hglobal] at hentry
      exact hentry.handles_eq_nil fun dirID => isInStore_eq_false.mp (hdir dirID)

/-- A step that is not exclusive leaves an inode in the global store and in a directory. -/
theorem not_accounted_step (hexcl : ¬use.Exclusive action) : ¬(use.step cfg action).Accounted := by
  cases action with
  | openFile parentID entryID disposal loadsDisposed loads rand =>
    simp only [Exclusive, not_forall, Bool.not_eq_false] at hexcl
    obtain ⟨hcheck, hloads, hglobal, dirID, hdir⟩ := hexcl
    intro haccounted
    have honce := haccounted.once entryID dirID
    rw [step, MetaStore.openFile_of_none (isInStore_eq_false.mp hglobal),
      if_pos ⟨hcheck, hloads⟩] at honce
    refine absurd (honce ?_) (Bool.not_eq_false _ ▸ hdir)
    exact congrArg Option.isSome find_assign_self
  | moveReferenceToMetaFileStore parentID entryID rand =>
    simp only [Exclusive, not_forall, Bool.not_eq_false] at hexcl
    obtain ⟨hmem, dirID, hne, hdir⟩ := hexcl
    obtain ⟨refer, hinode⟩ := Option.isSome_iff_exists.mp hmem
    obtain ⟨hids, -, hfiles⟩ := @Consistent.of_move _ _ cfg _ _ _ _ _ rand _ h hinode
    intro haccounted
    have honce := haccounted.once entryID dirID
    rw [step, isInStore, hids, if_pos rfl, hfiles, if_neg hne, hdir] at honce
    cases honce rfl
  | _ => exact absurd trivial hexcl

end

/-- In a run, all references are accounted for as long as the steps are exclusive, and not after one
that is not. -/
theorem accounted_iff_exclusive (cfg : MetaConfig) (use : MetaStoreUse ID)
    (h : Consistent use.store use.handles use.dirRefs) (actions : List (Action ID)) :
    EveryState (step cfg) Accounted use actions ↔ EveryStep (step cfg) Exclusive use actions :=
  everyState_iff_of_inv (I := fun use => Consistent use.store use.handles use.dirRefs)
    (fun _ h => h.accounted) (fun _ action h => step_consistent action h)
    (fun _ action h => not_accounted_step action h) h actions

def empty : MetaStoreUse ID := ⟨⟨∅, ⟨∅, ∅⟩⟩, [], []⟩

theorem empty_consistent : Consistent (empty : MetaStoreUse ID).store empty.handles
    empty.dirRefs where
  entries _ := .inDirs rfl (fun _ => rfl) fun _ hmem => by cases hmem
  dirs :=
    { refCount := fun hfind => by cases hfind
      refCount_pos := fun hfind => by cases hfind
      unloaded := fun _ => ⟨not_mem_nil, not_mem_nil⟩
      parentRefs_pos := fun hfind => by cases hfind }

/-- A file is opened twice, unlinked and closed. -/
theorem accounted_unlinked_open_file :
    (EveryState (step ⟨1, false⟩) Accounted (empty : MetaStoreUse ℕ)
      [.openFile 1 2 false false true 0, .referenceFile 1 2 true 0,
        .moveReferenceToMetaFileStore 1 2 0, .closeFile 0 0, .releaseFile 0 0]) ∧
      (run (step ⟨1, false⟩) (empty : MetaStoreUse ℕ)
        [.openFile 1 2 false false true 0, .referenceFile 1 2 true 0,
          .moveReferenceToMetaFileStore 1 2 0]).store.fileStore.toList = [(2, ⟨2, 0⟩)] := by
  refine ⟨(accounted_iff_exclusive _ _ empty_consistent _).mpr ⟨?_, trivial, ?_, trivial, trivial,
    trivial⟩, by decide +kernel⟩
  · intro hcheck
    cases hcheck
  · intro _ dirID hne
    -- The handles of the file were asked for with directory 1.
    have hopened := @step_consistent ℕ _ ⟨1, false⟩ empty (.openFile 1 2 false false true 0)
      empty_consistent fun hcheck => by cases hcheck
    have htwice := @step_consistent ℕ _ ⟨1, false⟩ _ (.referenceFile 1 2 true 0) hopened trivial
    obtain ⟨hdir, -⟩ := (htwice.entries 2).of_not_global (by decide +kernel)
    refine isInStore_eq_false.mpr ((hdir dirID).trans (localRefer_eq_none.mpr ?_))
    refine countP_eq_zero.mpr fun handle hmem => ?_
    have hhandles : handle ∈ [((⟨2, some 1⟩ : MetaFileHandle ℕ), 1), (⟨2, some 1⟩, 1)] := hmem
    simp only [mem_cons, not_mem_nil, or_false, or_self] at hhandles
    rw [hhandles, decide_eq_true_eq]
    exact fun heq => hne heq.symm

/-- A file is opened, and then opened as one that may have been unlinked: its inode is not inlined,
so it is loaded again by its id. It is now in both stores, and a handle of the directory is given
back to the global store. -/
theorem opened_twice_in_both_stores :
    ¬EveryState (step ⟨1, false⟩) Accounted (empty : MetaStoreUse ℕ)
      [.openFile 1 2 false false true 0, .openFile 1 2 true true true 0] := by
  rintro ⟨-, -, h⟩
  have honce := h.once 2 1
  exact absurd (honce (by decide +kernel)) (by decide +kernel)

end MetaStoreUse
end Congfs.Metadata
