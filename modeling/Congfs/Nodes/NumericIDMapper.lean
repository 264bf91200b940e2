import Mathlib.Data.List.Perm.Subperm
import Congfs.Lib.Run
import Congfs.Nodes.Basic

/-!
# Numeric ids of targets

The management daemon gives every target, which is known by a string, a number. A target may ask for
a number of its own, or for any. The numbers are unique in every history of requests and removals.
The test for numbers that are left is one too strict: the last of them is not given to a target that
asks for any (`LeavesOne`).
-/

namespace Congfs

open StdMap List

variable {StringID : Type} [LinearOrder StringID]

abbrev NumericIDMap (StringID : Type) [LinearOrder StringID] :=
  StdMap UInt16 ((· < ·) : StringID → StringID → Prop)

namespace NumericIDMapper

/-- `NUMIDMAPPER_MAX_NUMIDS` -/
def maxNumIDs : ℕ := 65535 - 1

/-- The values of the loop variable, which ends at the overflow. -/
def numIDs : List UInt16 := (range' 1 65535).map UInt16.ofNat

variable (idMap : NumericIDMap StringID) (stringID : StringID)

def retrieveNumIDFromStringID : UInt16 := (idMap.find stringID).getD 0

def checkIDPairConflict (numID : UInt16) : Bool :=
  match idMap.find stringID with
  | some current => current != numID
  | none => idMap.toList.any fun pair => pair.2 == numID

/-- 0 if none is left. -/
def generateNumID : UInt16 :=
  let previousNumID := retrieveNumIDFromStringID idMap stringID
  if previousNumID ≠ 0 then previousNumID
  else if idMap.toList.length ≥ maxNumIDs then 0
  else (numIDs.find? fun newNumID => !checkIDPairConflict idMap stringID newNumID).getD 0

structure MapResult (StringID : Type) [LinearOrder StringID] where
  retVal : Bool
  /-- If it is written. -/
  outNewNumID : Option UInt16
  idMap : NumericIDMap StringID

def mapStringID (currentNumID : UInt16) : MapResult StringID :=
  if currentNumID ≠ 0 then
    if checkIDPairConflict idMap stringID currentNumID then ⟨false, none, idMap⟩
    else ⟨true, some currentNumID, idMap.assign stringID currentNumID⟩
  else
    match idMap.find stringID with
    | none =>
      let newNumID := generateNumID idMap stringID
      if newNumID = 0 then ⟨false, some 0, idMap⟩
      else ⟨true, some newNumID, idMap.assign stringID newNumID⟩
    | some numID => ⟨true, some numID, idMap⟩

def unmapStringID : Bool × NumericIDMap StringID :=
  ((idMap.find stringID).isSome, idMap.erase stringID)

/-! ## Runs -/

inductive Call (StringID : Type)
  | mapStringID (stringID : StringID) (currentNumID : UInt16)
  | unmapStringID (stringID : StringID)

def step (idMap : NumericIDMap StringID) : Call StringID → NumericIDMap StringID
  | .mapStringID stringID currentNumID => (mapStringID idMap stringID currentNumID).idMap
  | .unmapStringID stringID => (unmapStringID idMap stringID).2

variable {idMap} {stringID} {numID : UInt16}

/-- No number is used twice, and 0 is not used. -/
structure Unique (idMap : NumericIDMap StringID) : Prop where
  injective : ∀ {stringID stringID' numID}, idMap.find stringID = some numID →
    idMap.find stringID' = some numID → stringID = stringID'
  ne_zero : ∀ {stringID numID}, idMap.find stringID = some numID → numID ≠ 0

theorem checkIDPairConflict_eq_false (h : idMap.find stringID = none) :
    checkIDPairConflict idMap stringID numID = false ↔ ∀ other, idMap.find other ≠ some numID := by
  rw [checkIDPairConflict, h]
  simp only [any_eq_false, beq_iff_eq, Prod.forall, ne_eq, find_eq_some_iff]
  exact ⟨fun h other hmem => h other numID hmem rfl, fun h other id hmem heq =>
    h other (heq ▸ hmem)⟩

theorem Unique.assign (h : Unique idMap) (hne : numID ≠ 0)
    (hnew : checkIDPairConflict idMap stringID numID = false) :
    Unique (idMap.assign stringID numID) ∧
      ∀ {other id}, idMap.find other = some id → (idMap.assign stringID numID).find other =
      some id := by
  cases hfind : idMap.find stringID with
  | some current =>
    have hsame : current = numID := by
      rw [checkIDPairConflict, hfind] at hnew
      simpa using hnew
    subst hsame
    have heq : idMap.assign stringID current = idMap := by
      refine ext_find fun other => ?_
      rw [find_assign]
      split_ifs with hother
      · rw [hother, hfind]
      · rfl
    rw [heq]
    exact ⟨h, id⟩
  | none =>
    have hfree := (checkIDPairConflict_eq_false hfind).mp hnew
    have hkept : ∀ {other id}, idMap.find other = some id →
        (idMap.assign stringID numID).find other = some id := by
      intro other id hother
      rw [find_assign_of_ne fun heq => ?_, hother]
      cases hfind.symm.trans (heq ▸ hother)
    refine ⟨⟨?_, ?_⟩, hkept⟩
    · intro a b id ha hb
      rw [find_assign] at ha hb
      split at ha <;> split at hb
      · rename_i hax hbx
        rw [hax, hbx]
      · cases ha
        exact absurd hb (hfree b)
      · cases hb
        exact absurd ha (hfree a)
      · exact h.injective ha hb
    · intro a id ha
      rw [find_assign] at ha
      split at ha
      · cases ha
        exact hne
      · exact h.ne_zero ha

theorem Unique.erase (h : Unique idMap) : Unique (idMap.erase stringID) := by
  have hold : ∀ {other id}, (idMap.erase stringID).find other = some id → idMap.find other =
    some id := by
    intro other id hother
    rw [find_erase] at hother
    split at hother
    · cases hother
    · exact hother
  exact ⟨fun ha hb => h.injective (hold ha) (hold hb), fun ha => h.ne_zero (hold ha)⟩

/-! ## Numbers that are left -/

theorem toNat_ofNat_of_mem_range' (h : n ∈ range' 1 65535) :
    (UInt16.ofNat n).toNat = n ∧ n ≠ 0 := by
  rw [mem_range'_1] at h
  exact ⟨UInt16.toNat_ofNat_of_lt' h.2, Nat.one_le_iff_ne_zero.mp h.1⟩

theorem mem_numIDs : numID ∈ numIDs ↔ numID ≠ 0 := by
  rw [numIDs, mem_map]
  constructor
  · rintro ⟨n, hn, rfl⟩ hzero
    obtain ⟨hnat, hne⟩ := toNat_ofNat_of_mem_range' hn
    exact hne (hnat.symm.trans (congrArg UInt16.toNat hzero))
  · intro hne
    have hlt := numID.toNat_lt
    refine ⟨numID.toNat, mem_range'_1.mpr ⟨?_, by omega⟩, UInt16.ofNat_toNat⟩
    rw [Nat.one_le_iff_ne_zero]
    exact fun hzero => hne (UInt16.toNat_inj.mp hzero)

theorem length_numIDs : numIDs.length = 65535 := by
  rw [numIDs, length_map, length_range']

theorem nodup_numIDs : numIDs.Nodup := by
  refine List.Nodup.map_on (fun a ha b hb heq => ?_) (nodup_range' ..)
  rw [← (toNat_ofNat_of_mem_range' ha).1, ← (toNat_ofNat_of_mem_range' hb).1, heq]

theorem Unique.nodup (h : Unique idMap) : (idMap.toList.map Prod.snd).Nodup := by
  refine List.Nodup.map_on (fun a ha b hb heq => ?_) ?_
  · refine eq_of_key_eq ha hb (h.injective (find_eq_some_iff.mpr ha) ?_)
    rw [heq]
    exact find_eq_some_iff.mpr hb
  · refine idMap.sorted.imp ?_
    rintro a _ hlt rfl
    exact lt_irrefl _ hlt

theorem exists_find_iff : (∃ other, idMap.find other = some numID) ↔ numID ∈ idMap.toList.map
    Prod.snd := by
  simp only [find_eq_some_iff, mem_map, Prod.exists, exists_eq_right]

theorem Unique.subset (h : Unique idMap) : idMap.toList.map Prod.snd ⊆ numIDs := by
  intro id hmem
  obtain ⟨other, hfind⟩ := exists_find_iff.mpr hmem
  exact mem_numIDs.mpr (h.ne_zero hfind)

theorem Unique.all_used (h : Unique idMap) (hsize : 65535 ≤ idMap.toList.length) (hne : numID ≠ 0) :
    ∃ other, idMap.find other = some numID := by
  have hperm : (idMap.toList.map Prod.snd).Perm numIDs := by
    refine (subperm_of_subset h.nodup h.subset).perm_of_length_le ?_
    rw [length_numIDs, length_map]
    exact hsize
  exact exists_find_iff.mpr (hperm.mem_iff.mpr (mem_numIDs.mpr hne))

theorem exists_unused (hsize : idMap.toList.length < 65535) :
    ∃ numID ∈ numIDs, ∀ other, idMap.find other ≠ some numID := by
  by_contra hall
  push Not at hall
  have hsub : numIDs ⊆ idMap.toList.map Prod.snd := fun id hmem => exists_find_iff.mp (hall id hmem)
  have hle := (subperm_of_subset nodup_numIDs hsub).length_le
  rw [length_numIDs, length_map] at hle
  omega

/-! ## Single calls -/

section
variable (h : idMap.find stringID = none)
include h

theorem generateNumID_of_lt (hsize : idMap.toList.length < maxNumIDs) :
    generateNumID idMap stringID ≠ 0 ∧
      checkIDPairConflict idMap stringID (generateNumID idMap stringID) = false := by
  have hlt : idMap.toList.length < 65535 := Nat.lt_of_lt_of_le hsize (by decide)
  obtain ⟨numID, hmem, hfree⟩ := exists_unused hlt
  rw [generateNumID, retrieveNumIDFromStringID, h, Option.getD_none, if_neg (not_not_intro rfl),
    if_neg (Nat.not_le_of_lt hsize)]
  cases hfind : numIDs.find? fun newNumID => !checkIDPairConflict idMap stringID newNumID with
  | none =>
    have hconflict := find?_eq_none.mp hfind numID hmem
    rw [(checkIDPairConflict_eq_false h).mpr hfree] at hconflict
    exact absurd rfl hconflict
  | some newNumID =>
    refine ⟨mem_numIDs.mp (mem_of_find?_eq_some hfind), ?_⟩
    have hnew := find?_some hfind
    exact (Bool.not_eq_true' _).mp hnew

theorem generateNumID_of_le (hsize : maxNumIDs ≤ idMap.toList.length) :
    generateNumID idMap stringID = 0 := by
  rw [generateNumID, retrieveNumIDFromStringID, h, Option.getD_none, if_neg (not_not_intro rfl),
    if_pos hsize]

theorem mapStringID_of_none :
    mapStringID idMap stringID 0 = if generateNumID idMap stringID = 0 then ⟨false, some 0, idMap⟩
      else ⟨true, some (generateNumID idMap stringID), idMap.assign stringID
      (generateNumID idMap stringID)⟩ := by
  rw [mapStringID, if_neg (not_not_intro rfl), h]

end

theorem mapStringID_of_some (h : idMap.find stringID = some numID) :
    mapStringID idMap stringID 0 = ⟨true, some numID, idMap⟩ := by
  rw [mapStringID, if_neg (not_not_intro rfl), h]

/-- All calls keep the numbers unique. They keep those of other strings, and of the string itself
unless it is unmapped. -/
theorem Unique.step (h : Unique idMap) (call : Call StringID) :
    Unique (step idMap call) ∧ ∀ {other id}, call ≠ .unmapStringID other →
      idMap.find other = some id → (step idMap call).find other = some id := by
  cases call with
  | unmapStringID stringID =>
    refine ⟨h.erase, fun hne hfind => ?_⟩
    refine (find_erase ..).trans ((if_neg fun heq => hne ?_).trans hfind)
    rw [heq]
  | mapStringID stringID currentNumID =>
    rw [NumericIDMapper.step]
    by_cases hzero : currentNumID = 0
    · subst hzero
      cases hfind : idMap.find stringID with
      | some numID =>
        rw [mapStringID_of_some hfind]
        exact ⟨h, fun _ => id⟩
      | none =>
        rw [mapStringID_of_none hfind]
        rcases lt_or_ge idMap.toList.length maxNumIDs with hsize | hsize
        · obtain ⟨hne, hnew⟩ := generateNumID_of_lt hfind hsize
          rw [if_neg hne]
          obtain ⟨hunique, hkept⟩ := h.assign hne hnew
          exact ⟨hunique, fun _ => hkept⟩
        · rw [if_pos (generateNumID_of_le hfind hsize)]
          exact ⟨h, fun _ => id⟩
    · rw [mapStringID, if_pos hzero]
      split_ifs with hconflict
      · exact ⟨h, fun _ => id⟩
      · obtain ⟨hunique, hkept⟩ := h.assign hzero (Bool.not_eq_true _ ▸ hconflict)
        exact ⟨hunique, fun _ => hkept⟩

/-- What a call should do. -/
structure Mapped (idMap : NumericIDMap StringID) (call : Call StringID) : Prop where
  unique : Unique (step idMap call)
  kept : ∀ {stringID numID}, call ≠ .unmapStringID stringID → idMap.find stringID = some numID →
    (step idMap call).find stringID = some numID
  exhausted : ∀ {stringID}, call = .mapStringID stringID 0 →
    (mapStringID idMap stringID 0).retVal = false → ∀ {numID}, numID ≠ 0 →
      ∃ other, idMap.find other = some numID

/-- A new string that asks for any number does not meet a map with one number left. -/
def LeavesOne (idMap : NumericIDMap StringID) : Call StringID → Prop
  | .mapStringID stringID currentNumID =>
    currentNumID = 0 → idMap.find stringID = none → idMap.toList.length ≠ maxNumIDs
  | .unmapStringID _ => True

theorem Unique.mapped (h : Unique idMap) (hleaves : LeavesOne idMap call) : Mapped idMap call where
  unique := (h.step call).1
  kept := (h.step call).2
  exhausted := by
    rintro stringID rfl hfail numID hne
    cases hfind : idMap.find stringID with
    | some current =>
      rw [mapStringID_of_some hfind] at hfail
      cases hfail
    | none =>
      rw [mapStringID_of_none hfind] at hfail
      rcases lt_or_ge idMap.toList.length maxNumIDs with hsize | hsize
      · rw [if_neg (generateNumID_of_lt hfind hsize).1] at hfail
        cases hfail
      · have hmax := hleaves rfl hfind
        rw [maxNumIDs] at hsize hmax
        exact h.all_used (by omega) hne

theorem not_mapped (hleaves : ¬LeavesOne idMap call) : ¬Mapped idMap call := by
  cases call with
  | unmapStringID => exact absurd trivial hleaves
  | mapStringID stringID currentNumID =>
    simp only [LeavesOne, not_forall, ne_eq, not_not] at hleaves
    obtain ⟨rfl, hfind, hsize⟩ := hleaves
    intro h
    have hlt : idMap.toList.length < 65535 := by
      rw [hsize]
      decide
    obtain ⟨numID, hmem, hfree⟩ := exists_unused hlt
    have hfail : (mapStringID idMap stringID 0).retVal = false := by
      rw [mapStringID_of_none hfind, if_pos (generateNumID_of_le hfind hsize.ge)]
    obtain ⟨other, hother⟩ := h.exhausted rfl hfail (mem_numIDs.mp hmem)
    exact hfree other hother

theorem empty_unique : Unique (∅ : NumericIDMap StringID) :=
  ⟨fun h => (by cases h), fun h => by cases h⟩

/-- In a run, the calls do what they should exactly if none asks for the last number that is
left. -/
theorem mapped_iff_leavesOne (calls : List (Call StringID)) :
    EveryStep step Mapped (∅ : NumericIDMap StringID) calls ↔ EveryStep step LeavesOne ∅ calls :=
  everyStep_iff_of_inv (fun _ call h hleaves => ⟨(h.step call).1, h.mapped hleaves⟩)
    (fun _ _ _ hleaves => not_mapped hleaves) empty_unique

/-- Targets that ask for the numbers 1, 2 and so on. -/
def requests (n : ℕ) : List (Call ℕ) :=
  (range' 1 n).map fun i => .mapStringID i (UInt16.ofNat i)

theorem toList_run_requests (n : ℕ) (hn : n ≤ 65535) :
    (run step (∅ : NumericIDMap ℕ) (requests n)).toList =
      (range' 1 n).map fun i => (i, UInt16.ofNat i) := by
  induction n with
  | zero => rfl
  | succ n ih =>
    have hlast : range' 1 (n + 1) = range' 1 n ++ [n + 1] := by
      rw [range'_1_concat, Nat.add_comm]
    have ih := ih (by omega)
    have hmem : n + 1 ∈ range' 1 65535 := mem_range'_1.mpr ⟨Nat.succ_pos n, by omega⟩
    have hpos := (toNat_ofNat_of_mem_range' hmem).1
    have hnone : (run step (∅ : NumericIDMap ℕ) (requests n)).find (n + 1) = none := by
      refine find_eq_none_iff.mpr fun v hmem => ?_
      rw [ih] at hmem
      simp only [mem_map, mem_range'_1, Prod.mk.injEq] at hmem
      omega
    have hfree : checkIDPairConflict (run step (∅ : NumericIDMap ℕ) (requests n)) (n + 1)
        (UInt16.ofNat (n + 1)) = false := by
      refine (checkIDPairConflict_eq_false hnone).mpr fun other hother => ?_
      rw [find_eq_some_iff, ih, mem_map] at hother
      obtain ⟨i, hi, heq⟩ := hother
      have hval := congrArg (fun pair => pair.2.toNat) heq
      rw [mem_range'_1] at hi
      have hnat := (toNat_ofNat_of_mem_range' (mem_range'_1.mpr ⟨hi.1, by omega⟩)).1
      dsimp only at hval
      omega
    have hne : UInt16.ofNat (n + 1) ≠ 0 := by
      intro hzero
      rw [hzero] at hpos
      cases hpos
    rw [requests, hlast, map_append, ← requests, run_append, map_append, ← ih]
    change (mapStringID _ (n + 1) (UInt16.ofNat (n + 1))).idMap.toList = _
    rw [mapStringID, if_pos hne, if_neg (Bool.eq_false_iff.mp hfree)]
    refine assignList_of_forall_lt fun e hmem => ?_
    rw [ih, mem_map] at hmem
    obtain ⟨i, hi, rfl⟩ := hmem
    rw [mem_range'_1] at hi
    omega

/-- The number 65535 is left, and not given to a target that asks for any. -/
theorem not_mapped_last_number :
    ¬EveryStep step Mapped (∅ : NumericIDMap ℕ) (requests 65534 ++ [.mapStringID 0 0]) := by
  intro h
  have hlist := toList_run_requests 65534 (by decide)
  have hleaves : ¬LeavesOne (run step (∅ : NumericIDMap ℕ) (requests 65534))
    (.mapStringID 0 0) := by
    refine fun hleaves => hleaves rfl ?_ ?_
    · refine find_eq_none_iff.mpr fun v hmem => ?_
      rw [hlist] at hmem
      simp only [mem_map, mem_range'_1, Prod.mk.injEq] at hmem
      omega
    · rw [hlist, length_map, length_range']
      rfl
  exact not_mapped hleaves h.run_left

end NumericIDMapper
end Congfs
