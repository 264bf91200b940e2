import Mathlib.Data.List.Basic
import Mathlib.Data.Nat.Find

/-!
# Walks along a chunk path

A relative path is the list of its elements. `res` gives the results of the system calls one after
the other, and `tried` collects the paths of the calls. The loops take a bound for the number of
rounds.
-/

namespace Congfs.ChunkStore

open List

inductive Errno | enoent | enotempty | other
deriving DecidableEq

def dirname (path : List String) : List String :=
  if path.length > 1 then path.dropLast else ["."]

variable (res : ℕ → Option Errno) (path : List String) (entryID : String)

/-- The position of the uid in the path is 0, so the last element is at or after it if there is
one. -/
def rmdirLoop : ℕ → List String → List (List String) → Option (List (List String) × Bool)
  | 0, _, _ => none
  | fuel + 1, chunkDirPath, tried =>
    if chunkDirPath.length > 0 then
      match res tried.length with
      | some errno => some (tried ++ [chunkDirPath], errno = .enoent || errno = .enotempty)
      | none => rmdirLoop fuel (dirname chunkDirPath) (tried ++ [chunkDirPath])
    else some (tried, true)

def rmdirChunkDirPath (fuel : ℕ) : Option (List (List String) × Bool) := rmdirLoop res fuel path []

def chmodLoop : ℕ → ℕ → Bool → List String → List (List String) → Option (List (List String) × Bool)
  | 0, _, _, _, _ => none
  | fuel + 1, pathElemIndex, didEntryID, chmodPath, tried =>
    if pathElemIndex ≠ path.length || didEntryID then
      let didEntryID := didEntryID || path[pathElemIndex]?.isNone
      let chmodPath := chmodPath ++ [path[pathElemIndex]?.getD entryID]
      if (res tried.length).any (· ≠ .enoent) then some (tried ++ [chmodPath], false)
      else chmodLoop fuel (if pathElemIndex < path.length then pathElemIndex + 1 else pathElemIndex)
        didEntryID chmodPath (tried ++ [chmodPath])
    else some (tried, true)

def chmodV2ChunkDirPath (fuel : ℕ) : Option (List (List String) × Bool) :=
  chmodLoop res path entryID fuel 0 false [] []

/-- The path and its parents, as many as given. -/
def parents (n : ℕ) : List (List String) := (List.range n).map fun i => path.take (path.length - i)

/-- The first elements of the path, then one more, as many times as given. -/
def starts (n : ℕ) : List (List String) := (List.range n).map fun i => path.take (i + 1)

variable {res path}

theorem rmdirLoop_eq (hk : k < path.length) (hbefore : ∀ i < k, res i = none)
    (hres : res k = some errno) (hi : i ≤ k) (hfuel : k - i < fuel) :
    rmdirLoop res fuel (path.take (path.length - i)) (parents path i) =
      some (parents path (k + 1), errno = .enoent || errno = .enotempty) := by
  induction fuel generalizing i with
  | zero => omega
  | succ fuel ih =>
    have hlen : (parents path i).length = i := by simp [parents]
    have hsucc : parents path i ++ [path.take (path.length - i)] = parents path (i + 1) := by
      simp [parents, range_succ]
    rw [rmdirLoop, if_pos (by simp; omega), hlen, hsucc]
    obtain rfl | hlt := Nat.eq_or_lt_of_le hi
    · rw [hres]
    · have hdir : dirname (path.take (path.length - i)) = path.take (path.length - (i + 1)) := by
        rw [dirname, if_pos (by simp; omega), dropLast_eq_take, take_take, length_take]
        congr 1
        omega
      rw [hbefore i hlt, ← ih hlt (by omega), hdir]

/-- A call of the walk that ends it, with any error but `ENOENT`. -/
def Ends (res : ℕ → Option Errno) (i : ℕ) : Prop := ∃ errno ∈ res i, errno ≠ .enoent

theorem chmodLoop_eq (hi : i ≤ path.length) (hfuel : path.length - i < fuel) :
    ∃ n ok, chmodLoop res path entryID fuel i false (path.take i) (starts path i) =
        some (starts path n, ok) ∧
      (ok → n = path.length) ∧ (ok = false ↔ ∃ j < path.length, i ≤ j ∧ Ends res j) := by
  induction fuel generalizing i with
  | zero => omega
  | succ fuel ih =>
    have hlen : (starts path i).length = i := by simp [starts]
    rw [chmodLoop, hlen]
    obtain rfl | hlt := Nat.eq_or_lt_of_le hi
    · refine ⟨_, true, if_neg (by simp), fun _ => rfl, iff_of_false nofun ?_⟩
      rintro ⟨j, hj, hle, -⟩
      omega
    · have hnext : path.take i ++ [path[i]] = path.take (i + 1) := take_append_getElem hlt
      have hsucc : starts path i ++ [path.take (i + 1)] = starts path (i + 1) := by
        simp [starts, range_succ]
      simp only [getElem?_eq_getElem hlt, Option.getD_some, hnext, hsucc, hlt, if_true,
        Option.isNone_some, Bool.or_false, show i ≠ path.length by omega, ne_eq,
        not_false_eq_true, decide_true]
      have hends : (res i).any (· ≠ .enoent) ↔ Ends res i := by
        simp [Ends, Option.any_eq_true]
      split
      · exact ⟨i + 1, false, rfl, nofun, iff_of_true rfl ⟨i, hlt, le_rfl, hends.mp ‹_›⟩⟩
      · rename_i hgoes
        obtain ⟨n, ok, hrun, hok, hiff⟩ := ih hlt (by omega)
        refine ⟨n, ok, hrun, hok, hiff.trans (exists_congr fun j => and_congr_right fun _ => ?_)⟩
        refine and_congr_left fun hj => ⟨Nat.le_of_lt, fun hle => Nat.lt_of_le_of_ne hle ?_⟩
        rintro rfl
        exact hgoes (hends.mpr hj)

/-- The parent of the first element is `.`, so that only a failing call ends the loop. -/
theorem res_of_rmdirLoop (hdir : dir ≠ []) (hrun : rmdirLoop res fuel dir tried =
    some (tried', ok)) : ∃ i, tried'.length = i + 1 ∧ res i ≠ none := by
  induction fuel generalizing dir tried with
  | zero => cases hrun
  | succ fuel ih =>
    rw [rmdirLoop, if_pos (length_pos_of_ne_nil hdir)] at hrun
    cases hres : res tried.length with
    | some errno =>
      rw [hres] at hrun
      cases hrun
      exact ⟨_, length_append, by simp [hres]⟩
    | none =>
      rw [hres] at hrun
      refine ih (fun hnil => ?_) hrun
      have hlen := congrArg List.length hnil
      unfold dirname at hlen
      split at hlen <;> simp at hlen
      omega

/-- The directories are removed from the last one on until one of them stays, if one does. All of
them get their permissions and the file does not, so that the walk must not return true: some call
has to end it. -/
theorem walks_iff :
    ((∃ k < path.length, ∃ ok,
      (∀ fuel ≥ path.length, rmdirChunkDirPath res path fuel = some (parents path (k + 1), ok)) ∧
      (ok = false → ∃ errno, res k = some errno ∧ errno ≠ .enoent ∧ errno ≠ .enotempty)) ↔
        ∃ i < path.length, res i ≠ none) ∧
    ∀ fuel > path.length, ∃ n ok, chmodV2ChunkDirPath res path entryID fuel =
    some (starts path n, ok) ∧
      (ok → n = path.length) ∧ ((ok → path ++ [entryID] ∈ starts path n) ↔
        ∃ i < path.length, Ends res i) := by
  refine ⟨⟨?_, ?_⟩, ?_⟩
  · rintro ⟨k, hk, ok, hrun, -⟩
    obtain ⟨i, hi, hne⟩ := res_of_rmdirLoop (ne_nil_of_length_pos (by omega))
      (hrun _ (le_refl _))
    rw [parents, length_map, length_range] at hi
    exact ⟨i, by omega, hne⟩
  · rintro ⟨i, hi, hne⟩
    have hex : ∃ i, res i ≠ none := ⟨i, hne⟩
    have hk : Nat.find hex < path.length := Nat.lt_of_le_of_lt (Nat.find_min' hex hne) hi
    obtain ⟨errno, herrno⟩ := Option.ne_none_iff_exists'.mp (Nat.find_spec hex)
    refine ⟨_, hk, errno = .enoent || errno = .enotempty, fun fuel hfuel => ?_,
      fun hok => ⟨errno, herrno, by simpa using hok⟩⟩
    have hrun := rmdirLoop_eq hk (fun i hi => not_not.mp (Nat.find_min hex hi)) herrno
      (Nat.zero_le _) (by omega : _ < fuel)
    rwa [Nat.sub_zero, take_length] at hrun
  · intro fuel hfuel
    obtain ⟨n, ok, hrun, hok, hiff⟩ := @chmodLoop_eq res path entryID 0 fuel (Nat.zero_le _) hfuel
    have hfile : path ++ [entryID] ∉ starts path n := by
      intro hmem
      obtain ⟨i, -, hi⟩ := mem_map.mp hmem
      have hlen := congrArg List.length hi
      simp at hlen
      omega
    refine ⟨n, ok, hrun, hok, ?_⟩
    simpa [hfile] using hiff

theorem walks_fail :
    (∀ fuel, rmdirChunkDirPath (fun _ => none) ["u0"] fuel = none) ∧
    rmdirChunkDirPath (fun i => if i = 0 then none else some .other) ["u0"] 2 =
    some ([["u0"], ["."]], false) ∧
    chmodV2ChunkDirPath (fun _ => none) ["u0"] "0-0-1" 2 = some ([["u0"]], true) := by
  refine ⟨fun fuel => ?_, by decide, by decide⟩
  cases hrun : rmdirChunkDirPath _ _ fuel with
  | none => rfl
  | some => exact absurd rfl (res_of_rmdirLoop (cons_ne_nil _ _) hrun).choose_spec.2

end Congfs.ChunkStore
