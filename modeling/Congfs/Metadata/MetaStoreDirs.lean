import Congfs.Metadata.MetaStore

/-!
# References to directories

`DirsCounted refs store` says that every directory in memory is referenced once for each parent
reference of the inodes in its file store, once for each time it is in the list `refs`, and once if
it is in the cache. A call that references a directory puts it into `refs`, and one that releases it
takes it out; neither changes what is in the file stores.
-/

namespace Congfs.Metadata

open List InodeDirStore
open StdMap

variable {ID : Type} [LinearOrder ID]

def InodeFileStore.parentRefs (store : InodeFileStore ID) : ℤ :=
  store.total FileInodeReferencer.numParentRefs

namespace InodeDirStore

variable {cfg : MetaConfig} {store : InodeDirStore ID} {dirID dirID' : ID} {refs : List ID}
  {dirRefer : DirectoryReferencer ID}

theorem fileStoreOf_of_find (h : store.dirs.find dirID = some dirRefer) :
    store.fileStoreOf dirID = dirRefer.fileStore := by
  rw [fileStoreOf, h]
  rfl

def cacheRef (store : InodeDirStore ID) (dirID : ID) : ℤ :=
  if dirID ∈ store.refCache.toList then 1 else 0

structure DirsCounted (refs : List ID) (store : InodeDirStore ID) : Prop where
  refCount : ∀ {dirID dirRefer}, store.dirs.find dirID = some dirRefer →
    dirRefer.refCount = dirRefer.fileStore.parentRefs + (refs.count dirID + store.cacheRef dirID)
  refCount_pos : ∀ {dirID dirRefer}, store.dirs.find dirID = some dirRefer → 0 < dirRefer.refCount
  unloaded : ∀ {dirID}, store.dirs.find dirID = none → dirID ∉ refs ∧ dirID ∉ store.refCache.toList
  parentRefs_pos : ∀ {dirID dirRefer entryID inodeRefer}, store.dirs.find dirID = some dirRefer →
    dirRefer.fileStore.find entryID = some inodeRefer → 0 < inodeRefer.numParentRefs

theorem cacheRef_nonneg : 0 ≤ store.cacheRef dirID := by
  rw [cacheRef]
  split <;> decide

namespace DirsCounted

section
variable (h : DirsCounted refs store)
include h

theorem perm (hperm : refs.Perm refs') : DirsCounted refs' store where
  refCount hfind := by
    rw [h.refCount hfind, hperm.count_eq]
  refCount_pos := h.refCount_pos
  unloaded hfind := ⟨fun hmem => (h.unloaded hfind).1 (hperm.mem_iff.mpr hmem),
    (h.unloaded hfind).2⟩
  parentRefs_pos := h.parentRefs_pos

theorem exists_of_mem (hmem : dirID ∈ refs) :
    ∃ dirRefer, store.dirs.find dirID = some dirRefer := by
  cases hfind : store.dirs.find dirID with
  | none => exact ((h.unloaded hfind).1 hmem).elim
  | some dirRefer => exact ⟨dirRefer, rfl⟩

theorem assign
    (hcount : dirRefer.refCount = dirRefer.fileStore.parentRefs + (refs'.count
    dirID + store.cacheRef dirID)) (hpos : 0 < dirRefer.refCount)
    (hinodes : ∀ entryID inodeRefer, dirRefer.fileStore.find entryID = some inodeRefer → 0 <
    inodeRefer.numParentRefs) (hother : ∀ id, id ≠ dirID → refs'.count id = refs.count id) :
    DirsCounted refs' { store with dirs := store.dirs.assign dirID dirRefer } := by
  constructor
  · intro id refer hid
    rw [find_assign] at hid
    split_ifs at hid with hc
    · subst hc
      cases hid
      exact hcount
    · rw [hother id hc]
      exact h.refCount hid
  · intro id refer hid
    rw [find_assign] at hid
    split at hid
    · cases hid
      exact hpos
    · exact h.refCount_pos hid
  · intro id hid
    rw [find_assign] at hid
    split at hid
    · cases hid
    · rename_i hne
      obtain ⟨hrefs, hcache⟩ := h.unloaded hid
      refine ⟨fun hmem => ?_, hcache⟩
      have hcount := count_pos_iff.mpr hmem
      rw [hother id hne] at hcount
      exact hrefs (count_pos_iff.mp hcount)
  · intro id refer entryID inodeRefer hid hinode
    rw [find_assign] at hid
    split at hid
    · cases hid
      exact hinodes entryID inodeRefer hinode
    · exact h.parentRefs_pos hid hinode

section
variable (hfind : store.dirs.find dirID = some dirRefer)
include hfind

theorem parentRefs_nonneg : ∀ e ∈ dirRefer.fileStore.toList, 0 ≤ e.2.numParentRefs := by
  intro e he
  exact (h.parentRefs_pos hfind (find_eq_some_iff.mpr he)).le

theorem fileStore_empty
    (hzero : dirRefer.fileStore.parentRefs ≤ 0) : dirRefer.fileStore.toList = [] := by
  rw [eq_empty_iff]
  intro entryID
  cases hinode : dirRefer.fileStore.find entryID with
  | none => rfl
  | some inodeRefer =>
    have hpos := h.parentRefs_pos hfind hinode
    have hle : inodeRefer.numParentRefs ≤ dirRefer.fileStore.parentRefs :=
      le_total_of_find (h.parentRefs_nonneg hfind) hinode
    omega

theorem assign_refCount
    (hpos : 0 < dirRefer.refCount + n) (hself : (refs'.count dirID : ℤ) = refs.count dirID + n)
    (hother : ∀ id, id ≠ dirID → refs'.count id = refs.count id) :
    DirsCounted refs' { store with
      dirs := store.dirs.assign dirID { dirRefer with refCount := dirRefer.refCount + n } } := by
  have hinodes : ∀ entryID inodeRefer, dirRefer.fileStore.find entryID = some inodeRefer →
      0 < inodeRefer.numParentRefs := fun _ _ => h.parentRefs_pos hfind
  refine h.assign ?_ hpos hinodes hother
  have hcount := h.refCount hfind
  dsimp only
  omega

end

end

end DirsCounted

theorem fileStoreOf_assign (hfind : store.dirs.find dirID = some dirRefer) :
    fileStoreOf { store with
      dirs := store.dirs.assign dirID { dirRefer with refCount := n } } dirID' =
      store.fileStoreOf dirID' := by
  rw [fileStoreOf, fileStoreOf, find_assign]
  split_ifs with heq
  · rw [heq, hfind]
    rfl
  · rfl

/-! ## Releasing -/

theorem DirsCounted.unload (h : DirsCounted (dirID :: refs) store) (hunref : dirID ∉ refs)
    (huncached : dirID ∉ store.refCache.toList) :
    DirsCounted refs { store with dirs := store.dirs.erase dirID } := by
  constructor
  · intro id refer hid
    rw [find_erase] at hid
    split at hid
    · cases hid
    · rename_i hne
      have hother := h.refCount hid
      rw [count_cons_of_ne fun heq => hne heq.symm] at hother
      exact hother
  · intro id refer hid
    rw [find_erase] at hid
    split at hid
    · cases hid
    · exact h.refCount_pos hid
  · intro id hid
    rw [find_erase] at hid
    split_ifs at hid with heq
    · rw [heq]
      exact ⟨hunref, huncached⟩
    · obtain ⟨hrefs, hcached⟩ := h.unloaded hid
      exact ⟨fun hmem => hrefs (mem_cons_of_mem _ hmem), hcached⟩
  · intro id refer entryID inodeRefer hid hinode
    rw [find_erase] at hid
    split at hid
    · cases hid
    · exact h.parentRefs_pos hid hinode

theorem fileStoreOf_erase (hempty : (store.fileStoreOf dirID).toList = []) :
    fileStoreOf { store with dirs := store.dirs.erase dirID } = store.fileStoreOf := by
  funext id
  rw [fileStoreOf, find_erase]
  split_ifs with heq
  · rw [heq]
    exact (StdMap.ext hempty).symm
  · rfl

theorem DirsCounted.releaseDir (h : DirsCounted (dirID :: refs) store) :
    DirsCounted refs (store.releaseDirUnlocked cfg dirID) ∧
      (store.releaseDirUnlocked cfg dirID).fileStoreOf = store.fileStoreOf := by
  obtain ⟨dirRefer, hfind⟩ := h.exists_of_mem mem_cons_self
  have hcount := h.refCount hfind
  have hsum : 0 ≤ dirRefer.fileStore.parentRefs := total_nonneg (h.parentRefs_nonneg hfind)
  have hcache := @cacheRef_nonneg _ _ store dirID
  rw [count_cons_self] at hcount
  rw [releaseDirUnlocked, hfind]
  dsimp only
  rw [if_neg (by omega)]
  by_cases hlast : dirRefer.refCount - 1 = 0
  · -- nobody else has a reference, so there are no inodes, and the directory is not cached
    have hempty := h.fileStore_empty hfind (by omega)
    have huncached : dirID ∉ store.refCache.toList := by
      intro hmem
      rw [cacheRef, if_pos hmem] at hcount
      omega
    have hunref : dirID ∉ refs := by
      intro hmem
      have hcount' := count_pos_iff.mpr hmem
      omega
    rw [if_pos hlast, if_neg fun hnot => hnot.1 hempty]
    exact ⟨h.unload hunref huncached, fileStoreOf_erase ((fileStoreOf_of_find hfind).symm ▸ hempty)⟩
  · rw [if_neg hlast]
    refine ⟨h.assign_refCount hfind (by omega) ?_ fun id hne => ?_, funext fun id =>
      fileStoreOf_assign hfind⟩
    · rw [count_cons_self]
      omega
    · rw [count_cons_of_ne fun heq => hne heq.symm]

/-! ## The cache -/

@[simp] theorem refCache_releaseDir :
    (store.releaseDirUnlocked cfg dirID).refCache = store.refCache := by
  rw [releaseDirUnlocked]
  split
  · rfl
  · split
    · rfl
    split
    · split <;> rfl
    · rfl

theorem releaseDir_setCache (cache : IDSet ID) :
    releaseDirUnlocked cfg { store with refCache := cache } dirID =
      { store.releaseDirUnlocked cfg dirID with refCache := cache } := by
  rw [releaseDirUnlocked, releaseDirUnlocked]
  dsimp only
  split
  · rfl
  · split
    · rfl
    split
    · split <;> rfl
    · rfl

theorem cacheRef_erase (h : dirID ∈ store.refCache.toList) (id : ID) :
    (refs.count id : ℤ) + store.cacheRef id = ((dirID :: refs).count id : ℤ) +
      cacheRef { store with refCache := store.refCache.erase dirID } id := by
  have hmem : id ∈ (store.refCache.erase dirID).toList ↔ id ∈ store.refCache.toList ∧ id ≠ dirID :=
    StdSet.mem_erase_iff
  rw [cacheRef, cacheRef, count_cons]
  by_cases heq : id = dirID
  · subst heq
    simp [hmem, h]
  · have hne : ¬dirID = id := fun h => heq h.symm
    simp [hmem, heq, hne]

theorem everyNth_sublist {α : Type} (skipNum : ℕ) (i : ℕ) (l : List α) :
    (everyNth skipNum i l).Sublist l := by
  induction l generalizing i with
  | nil => exact .refl _
  | cons a l ih =>
    rw [everyNth]
    split
    · exact (ih (i + 1)).cons_cons a
    · exact (ih (i + 1)).cons a

theorem refCache_reference : (store.reference dirID).refCache = store.refCache := by
  rw [InodeDirStore.reference]
  split <;> rfl

theorem fileStoreOf_setFileStore (hfind : store.dirs.find dirID = some dirRefer) :
    (store.setFileStore dirID fileStore).fileStoreOf dirID' =
      if dirID' = dirID then fileStore else store.fileStoreOf dirID' := by
  rw [setFileStore, hfind, fileStoreOf, find_assign]
  split <;> rfl

section
variable (h : DirsCounted refs store)
include h

/-- The reference of the cache becomes one of the list, and the other way round. -/
theorem DirsCounted.setCache (hcount : ∀ id, (refs.count id : ℤ) + store.cacheRef id =
      refs'.count id + cacheRef { store with refCache := cache } id) :
    DirsCounted refs' { store with refCache := cache } where
  refCount {id refer} hid := by
    rw [h.refCount hid, hcount]
  refCount_pos := h.refCount_pos
  unloaded {id} hid := by
    obtain ⟨hrefs, hcached⟩ := h.unloaded hid
    have hzero := hcount id
    rw [count_eq_zero.mpr hrefs, cacheRef, if_neg hcached, cacheRef] at hzero
    split_ifs at hzero with huncached
    · omega
    · refine ⟨fun hmem => ?_, huncached⟩
      have hpos := count_pos_iff.mpr hmem
      omega
  parentRefs_pos := h.parentRefs_pos

theorem DirsCounted.cacheEvict (hmem : dirID ∈ store.refCache.toList) :
    DirsCounted refs (store.cacheEvict cfg dirID) ∧
      (store.cacheEvict cfg dirID).fileStoreOf = store.fileStoreOf := by
  have huncached :
    DirsCounted (dirID :: refs) { store with refCache := store.refCache.erase dirID } :=
    h.setCache (cacheRef_erase hmem)
  obtain ⟨hcounted, hfiles⟩ := @DirsCounted.releaseDir _ _ cfg _ _ _ huncached
  rw [releaseDir_setCache] at hcounted hfiles
  have heq : store.cacheEvict cfg dirID =
      { store.releaseDirUnlocked cfg dirID with refCache := store.refCache.erase dirID } := by
    rw [InodeDirStore.cacheEvict, refCache_releaseDir]
  rw [heq]
  exact ⟨hcounted, hfiles⟩

/-- The elements are different, so that each is still in the cache when it is its turn. -/
theorem DirsCounted.foldl_cacheEvict {ids : List ID} (hnodup : ids.Nodup)
    (hmem : ∀ id ∈ ids, id ∈ store.refCache.toList) :
    DirsCounted refs (ids.foldl (fun store id => store.cacheEvict cfg id) store) ∧
      (ids.foldl (fun store id => store.cacheEvict cfg id) store).fileStoreOf =
      store.fileStoreOf := by
  induction ids generalizing store with
  | nil => exact ⟨h, rfl⟩
  | cons id ids ih =>
    obtain ⟨hid, hnodup⟩ := nodup_cons.mp hnodup
    obtain ⟨hcounted, hfiles⟩ := @DirsCounted.cacheEvict _ _ cfg _ _ _ h (hmem id mem_cons_self)
    have hstay : ∀ id' ∈ ids, id' ∈ (store.cacheEvict cfg id).refCache.toList := by
      intro id' hid'
      have hne : id ≠ id' := fun heq => hid (heq ▸ hid')
      rw [InodeDirStore.cacheEvict, refCache_releaseDir]
      exact StdSet.mem_erase_iff.mpr ⟨hmem id' (mem_cons_of_mem _ hid'), hne.symm⟩
    obtain ⟨hcounted', hfiles'⟩ := ih hcounted hnodup hstay
    exact ⟨hcounted', hfiles'.trans hfiles⟩

theorem DirsCounted.cacheSweep (randStart : ℕ) :
    DirsCounted refs (store.cacheSweepUnlocked cfg randStart) ∧
      (store.cacheSweepUnlocked cfg randStart).fileStoreOf = store.fileStoreOf := by
  rw [cacheSweepUnlocked]
  split
  · exact ⟨h, rfl⟩
  · have hsub : (everyNth 4 0 (store.refCache.toList.drop randStart)).Sublist
      store.refCache.toList :=
      (everyNth_sublist ..).trans (drop_sublist ..)
    have hnodup : store.refCache.toList.Nodup := store.refCache.sorted.imp fun hlt => hlt.ne
    exact h.foldl_cacheEvict (hsub.nodup hnodup) fun id hid => hsub.subset hid

/-! ## Referencing -/

theorem DirsCounted.reference (hfind : store.dirs.find dirID = some dirRefer) :
    DirsCounted (dirID :: refs) (store.reference dirID) ∧
      (store.reference dirID).fileStoreOf = store.fileStoreOf := by
  have hpos := h.refCount_pos hfind
  rw [InodeDirStore.reference, hfind]
  refine ⟨h.assign_refCount hfind (by omega) ?_ fun id hne => ?_, funext fun id =>
    fileStoreOf_assign hfind⟩
  · rw [count_cons_self]
    omega
  · rw [count_cons_of_ne fun heq => hne heq.symm]

theorem DirsCounted.cacheAdd (hmem : dirID ∈ refs) (randStart : ℕ) :
    DirsCounted refs (store.cacheAddUnlocked cfg dirID randStart) ∧
      (store.cacheAddUnlocked cfg dirID randStart).fileStoreOf = store.fileStoreOf := by
  rw [cacheAddUnlocked]
  split
  · exact ⟨h, rfl⟩
  · obtain ⟨hswept, hfiles⟩ := @DirsCounted.cacheSweep _ _ cfg _ _ h randStart
    dsimp only
    split_ifs with huncached
    · exact ⟨hswept, hfiles⟩
    · obtain ⟨dirRefer, hfind⟩ := hswept.exists_of_mem hmem
      obtain ⟨hcounted, hfiles'⟩ := hswept.reference hfind
      refine ⟨hcounted.setCache fun id => ?_, hfiles'.trans hfiles⟩
      have hmem' : id ∈ ((store.cacheSweepUnlocked cfg randStart).refCache.insert dirID).toList ↔
          id = dirID ∨ id ∈ (store.cacheSweepUnlocked cfg randStart).refCache.toList :=
        StdSet.mem_insert_iff
      rw [cacheRef, cacheRef, refCache_reference, count_cons]
      by_cases heq : id = dirID
      · subst heq
        simp [hmem', huncached]
      · have hne : ¬dirID = id := fun h => heq h.symm
        simp [hmem', heq, hne]

theorem DirsCounted.insert (hfind : store.dirs.find dirID = none) :
    DirsCounted (dirID :: refs) { store with dirs := store.dirs.assign dirID ⟨1, ∅⟩ } := by
  obtain ⟨hrefs, hcached⟩ := h.unloaded hfind
  have hcache : store.cacheRef dirID = 0 := if_neg hcached
  refine h.assign ?_ Int.zero_lt_one (fun entryID inodeRefer hinode => by cases hinode)
    fun id hne => ?_
  · rw [count_cons_self, count_eq_zero.mpr hrefs, hcache]
    rfl
  · rw [count_cons_of_ne fun heq => hne heq.symm]

theorem DirsCounted.referenceDir (dirID : ID) (randStart : ℕ) :
    DirsCounted (dirID :: refs) (store.referenceDirInode cfg dirID randStart) ∧
      (store.referenceDirInode cfg dirID randStart).fileStoreOf = store.fileStoreOf := by
  rw [referenceDirInode]
  cases hfind : store.dirs.find dirID with
  | some dirRefer => exact h.reference hfind
  | none =>
    obtain ⟨hcounted, hfiles⟩ :=
      @DirsCounted.cacheAdd _ _ cfg _ _ _ (h.insert hfind) mem_cons_self randStart
    refine ⟨hcounted, hfiles.trans (funext fun id => ?_)⟩
    rw [fileStoreOf, fileStoreOf, find_assign]
    split_ifs with heq
    · rw [heq, hfind]
      rfl
    · rfl

/-! ## Changing a file store -/

/-- The references to the directory that an inode has are taken from the list, or go there. -/
theorem DirsCounted.setFileStore (hfind : store.dirs.find dirID = some dirRefer)
    (hself : fileStore.parentRefs + refs'.count dirID =
    dirRefer.fileStore.parentRefs + refs.count dirID)
    (hother : ∀ id, id ≠ dirID → refs'.count id = refs.count id)
    (hpos : ∀ entryID inodeRefer, fileStore.find entryID = some inodeRefer → 0 <
    inodeRefer.numParentRefs) : DirsCounted refs' (store.setFileStore dirID fileStore) := by
  rw [InodeDirStore.setFileStore, hfind]
  refine h.assign ?_ (h.refCount_pos hfind :) hpos hother
  have hcount := h.refCount hfind
  dsimp only
  omega

end

end InodeDirStore
end Congfs.Metadata
