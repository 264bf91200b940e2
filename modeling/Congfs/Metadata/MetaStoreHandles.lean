import Congfs.Metadata.MetaStoreDirs

/-!
# Handles of open files

An entry is either in the global store, which then counts all its handles, or in the stores of
directories, each of which counts the handles that were asked for with that directory. The first is
not left before all handles are given back. So the invariant `EntryCounted` is one of single
entries: a call changes what it says about one of them.
-/

namespace Congfs.Metadata

open StdMap

variable {ID : Type} [LinearOrder ID]

namespace MetaStoreUse

/-- The inode of a directory with `n` handles. -/
def localRefer (n : ℕ) : Option FileInodeReferencer := if n = 0 then none else some ⟨n, n⟩

/-- The handles that were asked for with a directory. -/
def countIn (handles : List (MetaFileHandle ID × ID)) (dirID : ID) : ℕ :=
  handles.countP fun handle => decide (handle.2 = dirID)

/-- What the global store and the directories have for an entry, and its handles. -/
inductive EntryCounted (inGlobal : Option FileInodeReferencer) (inDir : ID →
    Option FileInodeReferencer)
    (handles : List (MetaFileHandle ID × ID)) : Prop where
  | global (hglobal : inGlobal = some ⟨handles.length, 0⟩) (hdir : ∀ dirID, inDir dirID = none)
      (hne : handles ≠ [])
  | inDirs (hglobal : inGlobal = none) (hdir : ∀ dirID, inDir dirID =
    localRefer (countIn handles dirID))
      (hparent : ∀ handle ∈ handles, handle.1.parent = some handle.2)

section
variable {inGlobal : Option FileInodeReferencer} {inDir : ID → Option FileInodeReferencer}
  {handles : List (MetaFileHandle ID × ID)} {handle : MetaFileHandle ID × ID}
  {refer : FileInodeReferencer} {dirID : ID}

theorem localRefer_eq_some (h : localRefer n = some refer) : 0 < n ∧ refer = ⟨n, n⟩ := by
  rw [localRefer] at h
  split at h
  · cases h
  · cases h
    exact ⟨by omega, rfl⟩

theorem localRefer_eq_none : localRefer n = none ↔ n = 0 := by
  rw [localRefer]
  split <;> simp_all

namespace EntryCounted

section
variable (h : EntryCounted inGlobal inDir handles)
include h

theorem of_global (hglobal : inGlobal = some refer) :
    refer = ⟨handles.length, 0⟩ ∧ ∀ dirID, inDir dirID = none := by
  cases h with
  | global h hdir =>
    cases h.symm.trans hglobal
    exact ⟨rfl, hdir⟩
  | inDirs h => cases h.symm.trans hglobal

theorem of_not_global (hglobal : inGlobal = none) :
    (∀ dirID, inDir dirID = localRefer (countIn handles dirID)) ∧
      ∀ handle ∈ handles, handle.1.parent = some handle.2 := by
  cases h with
  | global h => cases h.symm.trans hglobal
  | inDirs _ hdir hparent => exact ⟨hdir, hparent⟩

theorem perm (hperm : handles.Perm handles') : EntryCounted inGlobal inDir handles' := by
  cases h with
  | global hglobal hdir hne =>
    refine .global (hperm.length_eq ▸ hglobal) hdir fun hnil => hne ?_
    exact (hnil ▸ hperm).eq_nil
  | inDirs hglobal hdir hparent =>
    refine .inDirs hglobal (fun dirID => ?_) fun handle hmem =>
      hparent handle (hperm.mem_iff.mpr hmem)
    rw [hdir, countIn, countIn, hperm.countP_eq]

end

theorem reference_global (h : EntryCounted (some refer) inDir handles) :
    EntryCounted (some { refer with refCount := refer.refCount + 1 }) inDir
    (handle :: handles) := by
  obtain ⟨rfl, hdir⟩ := h.of_global rfl
  exact .global (by simp) hdir (by simp)

theorem release_global (h : EntryCounted (some refer) inDir (handle :: handles)) :
    EntryCounted (if refer.refCount - 1 = 0 then none
      else some { refer with refCount := refer.refCount - 1 }) inDir handles := by
  obtain ⟨rfl, hdir⟩ := h.of_global rfl
  cases handles with
  | nil =>
    refine .inDirs (if_pos rfl) (fun dirID => ?_) fun handle hmem => by cases hmem
    rw [hdir]
    rfl
  | cons handle' handles =>
    refine .global ?_ hdir (by simp)
    rw [if_neg (by simp; omega)]
    simp

theorem countIn_cons : countIn (handle :: handles) dirID =
    countIn handles dirID + if handle.2 = dirID then 1 else 0 := by
  rw [countIn, List.countP_cons]
  simp [countIn]

theorem release_dir (h : EntryCounted none inDir (handle :: handles))
    (hother : ∀ dirID, dirID ≠ handle.2 → inDir' dirID = inDir dirID)
    (hself : ∀ refer, inDir handle.2 = some refer →
      inDir' handle.2 = if refer.refCount - 1 = 0 then none
        else some ⟨refer.refCount - 1, refer.numParentRefs - 1⟩) :
    EntryCounted none inDir' handles := by
  obtain ⟨hdir, hparents⟩ := h.of_not_global rfl
  refine .inDirs rfl (fun dirID => ?_) fun handle' hmem =>
    hparents handle' (List.mem_cons_of_mem _ hmem)
  have hcount := hdir dirID
  rw [countIn_cons] at hcount
  by_cases heq : dirID = handle.2
  · subst heq
    rw [if_pos rfl, localRefer, if_neg (by omega)] at hcount
    rw [hself _ hcount, localRefer]
    by_cases hzero : countIn handles handle.2 = 0
    · simp [hzero]
    · simp [hzero]
  · rw [if_neg fun h => heq h.symm, Nat.add_zero] at hcount
    rw [hother dirID heq, hcount]

theorem exists_in_dir (h : EntryCounted none inDir (handle :: handles)) :
    ∃ refer, inDir handle.2 = some refer ∧ handle.1.parent = some handle.2 := by
  obtain ⟨hdir, hparents⟩ := h.of_not_global rfl
  refine ⟨_, (hdir handle.2).trans (if_neg ?_), hparents handle List.mem_cons_self⟩
  rw [countIn_cons, if_pos rfl]
  omega

section
variable (h : EntryCounted none inDir handles)
include h

theorem handles_eq_nil (hdir : ∀ dirID, inDir dirID = none) : handles = [] := by
  obtain ⟨hcount, -⟩ := h.of_not_global rfl
  cases handles with
  | nil => rfl
  | cons handle handles =>
    have hzero := localRefer_eq_none.mp ((hcount handle.2).symm.trans (hdir handle.2))
    simp [countIn] at hzero

theorem load_global (hdir : ∀ dirID, inDir dirID = none) :
    EntryCounted (some ⟨1, 0⟩) inDir (handle :: handles) := by
  rw [h.handles_eq_nil hdir]
  exact .global rfl hdir (by simp)

/-- The references of an inode in a directory and those of its handles to the directory go
together. -/
theorem reference_dir (hparent : handle.1.parent = some handle.2)
    (hother : ∀ dirID, dirID ≠ handle.2 → inDir' dirID = inDir dirID)
    (hself : inDir' handle.2 = some ((inDir handle.2).elim ⟨1, 1⟩ fun refer =>
      ⟨refer.refCount + 1, refer.numParentRefs + 1⟩)) :
    EntryCounted none inDir' (handle :: handles) := by
  obtain ⟨hdir, hparents⟩ := h.of_not_global rfl
  refine .inDirs rfl (fun dirID => ?_) fun handle' hmem => ?_
  · rw [countIn_cons]
    by_cases heq : dirID = handle.2
    · subst heq
      rw [hself, hdir, if_pos rfl]
      by_cases hzero : countIn handles handle.2 = 0
      · simp [localRefer, hzero]
      · simp [localRefer, hzero]
    · rw [hother dirID heq, hdir, if_neg fun h => heq h.symm, Nat.add_zero]
  · rcases List.mem_cons.mp hmem with rfl | hmem
    · exact hparent
    · exact hparents handle' hmem

/-- All handles were asked for with the one directory that has the entry. -/
theorem move (hdir : inDir dirID = some refer)
    (hother : ∀ id, id ≠ dirID → inDir id = none) (hempty : ∀ id, inDir' id = none) :
    EntryCounted (some { refer with numParentRefs := 0 }) inDir' handles := by
  obtain ⟨hcount, -⟩ := h.of_not_global rfl
  obtain ⟨hpos, rfl⟩ := localRefer_eq_some ((hcount dirID).symm.trans hdir)
  have hall : countIn handles dirID = handles.length := by
    rw [countIn, List.countP_eq_length]
    intro handle hmem
    rw [decide_eq_true_eq]
    by_contra hne
    have hzero := localRefer_eq_none.mp ((hcount handle.2).symm.trans (hother handle.2 hne))
    exact absurd (List.countP_eq_zero.mp hzero handle hmem) (by simp)
  refine .global (by rw [hall]) hempty fun hnil => ?_
  rw [hnil] at hpos
  cases hpos

end

end EntryCounted
end

end MetaStoreUse

/-! ## File stores -/

namespace InodeFileStore

variable {store : InodeFileStore ID} {entryID : ID} {refer : FileInodeReferencer}

theorem modify_of_find (h : store.find entryID = some refer) :
    store.modify entryID f = store.assign entryID (f refer) := by
  rw [modify, h]

theorem assign_assign :
    (store.assign entryID refer).assign entryID inodeRefer' = store.assign entryID inodeRefer' := by
  refine ext_find fun id => ?_
  rw [find_assign, find_assign, find_assign]
  split <;> rfl

theorem modify_assign : InodeFileStore.modify (store.assign entryID refer) entryID f =
      store.assign entryID (f refer) := by
  rw [modify_of_find find_assign_self, assign_assign]

/-- An inode with one more reference, or a new one. -/
def referenced (store : InodeFileStore ID) (entryID : ID) : FileInodeReferencer :=
  (store.find entryID).elim ⟨1, 0⟩ fun inodeRefer =>
    { inodeRefer with refCount := inodeRefer.refCount + 1 }

theorem of_referenceLoadedFile (h : store.referenceLoadedFile entryID = some store') :
    store' = store.assign entryID (store.referenced entryID) := by
  obtain ⟨refer, hfind, rfl⟩ := Option.map_eq_some_iff.mp h
  rw [referenced, hfind]
  rfl

theorem of_referenceFileInode (h : store.referenceFileInode entryID loadFromDisk loads =
    some store') : store' = store.assign entryID (store.referenced entryID) := by
  rw [referenceFileInode] at h
  cases hfind : store.find entryID with
  | some refer =>
    rw [hfind] at h
    exact of_referenceLoadedFile h
  | none =>
    rw [hfind] at h
    dsimp only at h
    split at h
    · cases h
      rw [referenced, hfind]
      rfl
    · cases h

theorem referenceFileInode_of_none (h : store.find entryID = none) :
    store.referenceFileInode entryID loadFromDisk loads =
      if loadFromDisk ∧ loads then some (store.assign entryID (store.referenced entryID))
      else none := by
  rw [referenceFileInode, h, referenced, h]
  rfl

theorem incParentRef_referenced : InodeFileStore.incParentRef
      (store.assign entryID (store.referenced entryID)) entryID =
    store.assign entryID ((store.find entryID).elim ⟨1, 1⟩ fun refer =>
      ⟨refer.refCount + 1, refer.numParentRefs + 1⟩) := by
  rw [incParentRef, modify_assign, referenced]
  cases store.find entryID <;> rfl

theorem parentRefs_referenced : InodeFileStore.parentRefs
      (store.assign entryID ((store.find entryID).elim ⟨1, 1⟩ fun refer =>
        ⟨refer.refCount + 1, refer.numParentRefs + 1⟩)) = store.parentRefs + 1 := by
  rw [parentRefs, parentRefs, total_assign]
  cases store.find entryID with
  | none => simp
  | some refer => simp; omega

theorem releaseFileInode_of_none (h : store.find entryID = none) :
    store.releaseFileInode entryID = none := by
  rw [releaseFileInode, decreaseInodeRefCountUnlocked, h]
  rfl

/-- `releaseFileInode` behind `decParentRef`. -/
def released (store : InodeFileStore ID) (entryID : ID) : InodeFileStore ID :=
  ((store.decParentRef entryID).releaseFileInode entryID).getD (store.decParentRef entryID)

section
variable (h : store.find entryID = some refer)
include h

theorem referenceFileInode_of_find : store.referenceFileInode entryID loadFromDisk loads =
      some (store.assign entryID (store.referenced entryID)) := by
  rw [referenceFileInode, h]
  rw [referenceLoadedFile, referenced, h]
  rfl

theorem releaseFileInode_of_find :
    store.releaseFileInode entryID = some (if refer.refCount - 1 = 0 then store.erase entryID
      else store.assign entryID { refer with refCount := refer.refCount - 1 }) := by
  rw [releaseFileInode, decreaseInodeRefCountUnlocked, h]
  rfl

theorem released_of_find :
    store.released entryID = if refer.refCount - 1 = 0 then store.erase entryID
      else store.assign entryID ⟨refer.refCount - 1, refer.numParentRefs - 1⟩ := by
  have hdec : store.decParentRef entryID = store.assign entryID
      { refer with numParentRefs := refer.numParentRefs - 1 } := modify_of_find h
  have herase : (store.assign entryID { refer with numParentRefs := refer.numParentRefs - 1 }).erase
      entryID = store.erase entryID := by
    refine ext_find fun id => ?_
    rw [find_erase, find_erase, find_assign]
    split <;> rfl
  rw [released, hdec, releaseFileInode_of_find find_assign_self, Option.getD_some, assign_assign,
    herase]

theorem find_released (id : ID) : (store.released entryID).find id = if id = entryID then
        (if refer.refCount - 1 = 0 then none
          else some ⟨refer.refCount - 1, refer.numParentRefs - 1⟩)
      else store.find id := by
  rw [released_of_find h]
  split
  · rw [find_erase]
  · rw [find_assign]

theorem parentRefs_released (heq : refer.numParentRefs = refer.refCount) :
    (store.released entryID).parentRefs = store.parentRefs - 1 := by
  rw [released_of_find h, parentRefs, parentRefs]
  split
  · rw [total_erase, h, Option.map_some, Option.getD_some]
    omega
  · rw [total_assign, h, Option.map_some, Option.getD_some]
    dsimp only
    omega

end

end InodeFileStore
end Congfs.Metadata
