import Congfs.Striping.StatData

/-!
# Reports of the storage targets

`FileInode::setDynAttribs` takes what the storage targets report about the chunk files into the
inode. The lock of the inode and the log message are left out.
-/

namespace Congfs.ChunkFileInfo

open Word (int64)

variable (info : ChunkFileInfo) (fileInfoVec : List ChunkFileInfo)
  (calls : List (List DynamicFileAttribs))

/-- Only a report with a higher version is taken. Also says whether it was. -/
def updateDynAttribs (newAttribs : DynamicFileAttribs) : Bool × ChunkFileInfo :=
  if newAttribs.storageVersion > info.dynAttribs.storageVersion then
    (true, { info with
      dynAttribs := newAttribs
      numCompleteChunks := newAttribs.fileSize >>> int64 info.chunkSizeLog2
      numCompleteChunks_eq := rfl })
  else (false, info)

/-- Vectors of different sizes are an error. -/
def setDynAttribs (newAttribsVec : List DynamicFileAttribs) : Bool × List ChunkFileInfo :=
  if newAttribsVec.length ≠ fileInfoVec.length then (false, fileInfoVec)
  else (true, fileInfoVec.zipWith (fun info attribs => (info.updateDynAttribs attribs).2)
    newAttribsVec)

/-- Calls one after the other. -/
def setAllDynAttribs : List ChunkFileInfo :=
  calls.foldl (fun fileInfoVec newAttribsVec => (setDynAttribs fileInfoVec newAttribsVec).2)
    fileInfoVec

/-- What is stored and reported for a target. -/
def known (i : ℕ) : List DynamicFileAttribs :=
  (fileInfoVec[i]?.map dynAttribs).toList ++ calls.filterMap (·[i]?)

def IsNewest (attribs : DynamicFileAttribs) (reports : List DynamicFileAttribs) : Prop :=
  attribs ∈ reports ∧ ∀ a ∈ reports, a.storageVersion ≤ attribs.storageVersion

theorem eq_ofDynAttribs : info = ofDynAttribs info.chunkSize info.chunkSizeLog2
    info.dynAttribs := by
  obtain ⟨attribs, chunkSize, chunkSizeLog2, _, rfl⟩ := info
  rfl

theorem updateDynAttribs_newest (report : DynamicFileAttribs) :
    ∃ attribs, IsNewest attribs [info.dynAttribs, report] ∧
      (info.updateDynAttribs report).2 = ofDynAttribs info.chunkSize info.chunkSizeLog2
      attribs := by
  unfold updateDynAttribs
  split_ifs with h
  · exact ⟨report, by simpa [IsNewest] using UInt64.le_of_lt h, rfl⟩
  · exact ⟨info.dynAttribs, by simpa [IsNewest] using UInt64.not_lt.mp h, info.eq_ofDynAttribs⟩

/-- The reports for one target leave a newest one, whatever their order. -/
theorem foldl_newest (reports : List DynamicFileAttribs) :
    ∃ attribs, IsNewest attribs (info.dynAttribs :: reports) ∧
      reports.foldl (fun info attribs => (info.updateDynAttribs attribs).2) info =
        ofDynAttribs info.chunkSize info.chunkSizeLog2 attribs := by
  induction reports generalizing info with
  | nil => exact ⟨info.dynAttribs, by simp [IsNewest], info.eq_ofDynAttribs⟩
  | cons report reports ih =>
    obtain ⟨first, ⟨first_mem, first_newest⟩, first_eq⟩ := info.updateDynAttribs_newest report
    obtain ⟨attribs, ⟨mem, newest⟩, eq⟩ := ih (info.updateDynAttribs report).2
    rw [first_eq] at mem newest eq
    refine ⟨attribs, ⟨?_, ?_⟩, by rw [List.foldl_cons, first_eq, eq]; rfl⟩
    · obtain rfl | mem := List.mem_cons.mp mem
      · exact List.mem_append_left reports first_mem
      · exact List.mem_append_right [_, _] mem
    · intro a a_mem
      obtain a_mem | a_mem := List.mem_append.mp (show a ∈ [_, _] ++ reports from a_mem)
      · exact UInt64.le_trans (first_newest a a_mem) (newest _ List.mem_cons_self)
      · exact newest a (List.mem_cons_of_mem _ a_mem)

section

variable {calls fileInfoVec} (length_eq : ∀ call ∈ calls, call.length = fileInfoVec.length)
include length_eq

theorem getElem?_setAllDynAttribs (i : ℕ) :
    (setAllDynAttribs fileInfoVec calls)[i]? = fileInfoVec[i]?.map fun info =>
      (calls.filterMap (·[i]?)).foldl (fun info attribs =>
        (info.updateDynAttribs attribs).2) info := by
  induction calls generalizing fileInfoVec with
  | nil => simp [setAllDynAttribs]
  | cons call calls ih =>
    have call_length := length_eq call List.mem_cons_self
    rw [setAllDynAttribs, List.foldl_cons, ← setAllDynAttribs, setDynAttribs,
      if_neg (not_not.mpr call_length), ih, List.getElem?_zipWith, List.filterMap_cons]
    · rcases lt_or_ge i fileInfoVec.length with lt | ge
      · simp [List.getElem?_eq_getElem lt, List.getElem?_eq_getElem (call_length ▸ lt)]
      · simp [List.getElem?_eq_none ge]
    · intro v mem
      simp [call_length, length_eq v (List.mem_cons_of_mem _ mem)]

theorem setAllDynAttribs_newest (stored : fileInfoVec[i]? = some info) :
    ∃ attribs, IsNewest attribs (known fileInfoVec calls i) ∧
      (setAllDynAttribs fileInfoVec calls)[i]? =
        some (ofDynAttribs info.chunkSize info.chunkSizeLog2 attribs) := by
  obtain ⟨attribs, newest, eq⟩ := info.foldl_newest (calls.filterMap (·[i]?))
  refine ⟨attribs, by simpa [known, stored] using newest, ?_⟩
  rw [getElem?_setAllDynAttribs length_eq, stored, Option.map_some, eq]

end

/-- Neither the order nor the repetition of the calls counts: each target has its newest report and
the number of complete chunks that belongs to it. -/
theorem setAllDynAttribs_order_independent
    (length_eq : ∀ call ∈ calls, call.length = fileInfoVec.length)
    (agree : ∀ i, ∀ a ∈ known fileInfoVec calls i, ∀ b ∈ known fileInfoVec calls i,
      a.storageVersion = b.storageVersion → a = b) :
    (∀ calls', (∀ call, call ∈ calls' ↔ call ∈ calls) →
      setAllDynAttribs fileInfoVec calls' = setAllDynAttribs fileInfoVec calls) ∧
    ∀ i info, fileInfoVec[i]? = some info →
      ∃ attribs, IsNewest attribs (known fileInfoVec calls i) ∧
        (setAllDynAttribs fileInfoVec calls)[i]? =
          some (ofDynAttribs info.chunkSize info.chunkSizeLog2 attribs) := by
  refine ⟨fun calls' same => ?_, fun i info stored => setAllDynAttribs_newest info length_eq stored⟩
  have length_eq' : ∀ call ∈ calls', call.length = fileInfoVec.length :=
    fun call mem => length_eq call ((same call).mp mem)
  apply List.ext_getElem?
  intro i
  cases stored : fileInfoVec[i]? with
  | none => simp [getElem?_setAllDynAttribs length_eq, getElem?_setAllDynAttribs length_eq', stored]
  | some info =>
    have known_iff (a : DynamicFileAttribs) :
        a ∈ known fileInfoVec calls' i ↔ a ∈ known fileInfoVec calls i := by
      simp [known, same]
    obtain ⟨attribs', ⟨mem', newest'⟩, eq'⟩ := setAllDynAttribs_newest info length_eq' stored
    obtain ⟨attribs, ⟨mem, newest⟩, eq⟩ := setAllDynAttribs_newest info length_eq stored
    rw [known_iff] at mem'
    have le := newest attribs' mem'
    have ge := newest' attribs ((known_iff attribs).mpr mem)
    rw [eq', eq, agree i attribs' mem' attribs mem (UInt64.le_antisymm le ge)]

/-- A stored report of version 1, and reports of the versions 2 and 3. -/
theorem setAllDynAttribs_three_versions :
    let stored := ofDynAttribs 8 3 ⟨1, 7, 1, 0, 0⟩
    let second := [⟨2, 20, 1, 0, 0⟩]
    let third := [⟨3, 16, 1, 0, 0⟩]
    setAllDynAttribs [stored] [third, second, third] = setAllDynAttribs [stored]
    [second, third] := by
  intro stored second third
  refine (setAllDynAttribs_order_independent _ _ (by decide) ?_).1 _ (by grind)
  rintro (_ | i)
  · decide
  · simp [known, second, third]

end Congfs.ChunkFileInfo
