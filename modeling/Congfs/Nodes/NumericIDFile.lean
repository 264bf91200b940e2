import Mathlib.Data.Char
import Mathlib.Data.List.DropRight
import Mathlib.Data.List.Lex
import Congfs.Fsck.EntryID
import Congfs.Nodes.NumericIDMapper

/-!
# The file of the numeric ids

It has a line `id=number` for every id. When it is read, a line is trimmed, left out if it is a
comment, and cut at its first `=`. An id that this does not change keeps its number.
-/

namespace Congfs.NumericIDMapper

open List Fsck.EntryID

abbrev StrMap (β : Type) := StdMap β ((· < ·) : List Char → List Char → Prop)

abbrev StringMap := StrMap (List Char)

def isSpace (c : Char) : Bool := c ∈ [' ', '\n', '\r', '\t']

def trim (s : List Char) : List Char := (s.dropWhile isSpace).rdropWhile isSpace

def addLineToStringMap (line : List Char) (outMap : StringMap) : StringMap :=
  if '=' ∈ line then
    outMap.assign (trim (line.takeWhile (· ≠ '='))) (trim ((line.dropWhile (· ≠ '=')).drop 1))
  else outMap.assign (trim line) []

/-- `getline` also gives what is behind the last line break. -/
def loadStringMapFromFile (file : List Char) (outMap : StringMap) : StringMap :=
  (file.splitOn '\n').foldl (fun outMap line =>
    let trimmedLine := trim line
    if trimmedLine ≠ [] ∧ trimmedLine.head? ≠ some '#' then addLineToStringMap trimmedLine outMap
    else outMap) outMap

def saveStringMapToFile (map : List (List Char × List Char)) : List Char :=
  map.flatMap fun e =>
    (if e.1 ≠ [] ∧ e.1.head? ≠ some '#' then e.1 ++ '=' :: e.2 else e.1) ++ ['\n']

/-- `sscanf` with `%X`, of which only the result for a number is used. -/
structure HexScan where
  strHexToUInt : List Char → UInt32
  strHexToUInt_hexStr : strHexToUInt (hexStr n) = n

/-- The loop of both functions. -/
def recode (f : β → γ) (m : StrMap β) : StrMap γ :=
  m.toList.foldl (fun m e => m.assign e.1 (f e.2)) ∅

variable (idMap : NumericIDMap (List Char)) (sscanf : HexScan)

def exportToStringMap : StringMap := recode (fun n => hexStr n.toUInt32) idMap

def importFromStringMap : StringMap → NumericIDMap (List Char) :=
  recode fun s => (sscanf.strHexToUInt s).toUInt16

/-- What is written if the call succeeds. -/
def saveToFile : List Char := saveStringMapToFile (exportToStringMap idMap).toList

def loadFromFile (file : List Char) : NumericIDMap (List Char) :=
  importFromStringMap sscanf (loadStringMapFromFile file ∅)

def Trimmed (s : List Char) : Prop :=
  (∀ c ∈ s.head?, isSpace c = false) ∧ ∀ c ∈ s.getLast?, isSpace c = false

/-- An id that reading does not change. -/
structure Plain (stringID : List Char) : Prop where
  ne_nil : stringID ≠ []
  trimmed : Trimmed stringID
  ne_break : ∀ c ∈ stringID, c ≠ '\n'
  ne_divider : ∀ c ∈ stringID, c ≠ '='
  no_comment : stringID.head? ≠ some '#'

theorem recode_eq {m : StrMap β} :
    recode f m = ⟨m.toList.map fun e => (e.1, f e.2), pairwise_map.mpr m.sorted⟩ := by
  refine .trans ?_ (@StdMap.foldl_assign _ _ _ _ _ (m.toList.map _) ∅ _ rfl)
  rw [foldl_map, recode]

theorem Trimmed.trim_eq (h : Trimmed s) : trim s = s := by
  cases s with
  | nil => rfl
  | cons c s =>
    rw [trim, dropWhile_cons_of_neg (by simp [h.1 c rfl]), rdropWhile_eq_self_iff]
    intro hne
    simp [h.2 _ (getLast?_eq_some_getLast hne)]

theorem not_isSpace_hexStr (h : c ∈ hexStr n) : isSpace c = false := by
  have hspace : ∀ c ∈ [' ', '\n', '\r', '\t'], ¬isxdigit c := by simp [isxdigit]
  exact decide_eq_false fun hc => hspace c hc ((hex_roundtrip n.toNat).1 c h)

theorem trimmed_hexStr : Trimmed (hexStr n) :=
  ⟨fun _ hc => not_isSpace_hexStr (mem_of_mem_head? hc),
    fun _ hc => not_isSpace_hexStr (mem_of_mem_getLast? hc)⟩

namespace Plain
variable {id : List Char} (hid : Plain id)
include hid

theorem trimmed_line : Trimmed (id ++ '=' :: hexStr n) := by
  rw [Trimmed, head?_append_of_ne_nil _ hid.ne_nil, getLast?_append_of_ne_nil _ (by simp)]
  refine ⟨hid.trimmed.1, fun c hc => ?_⟩
  rcases mem_cons.mp (mem_of_mem_getLast? hc) with rfl | hc
  · rfl
  · exact not_isSpace_hexStr hc

theorem not_break : ∀ c ∈ id ++ '=' :: hexStr n, (c == '\n') = false := by
  have hhex : '\n' ∉ hexStr n := fun hc => by cases not_isSpace_hexStr hc
  have := hid.ne_break
  grind

theorem addLine_eq : addLineToStringMap (id ++ '=' :: hexStr n) m = m.assign id (hexStr n) := by
  have hkey : ∀ c ∈ id, decide (c ≠ '=') = true := by simpa using hid.ne_divider
  rw [addLineToStringMap, if_pos (by simp), takeWhile_append_of_pos hkey,
    dropWhile_append_of_pos hkey]
  simp [hid.trimmed.trim_eq, trimmed_hexStr.trim_eq]

end Plain

theorem load_save {l : List (List Char × UInt16)} (h : ∀ e ∈ l, Plain e.1) :
    loadStringMapFromFile (saveStringMapToFile (l.map fun e => (e.1, hexStr e.2.toUInt32))) m =
      l.foldl (fun m e => m.assign e.1 (hexStr e.2.toUInt32)) m := by
  induction l generalizing m with
  | nil => rfl
  | cons e l ih =>
    obtain ⟨hid, h⟩ := forall_mem_cons.mp h
    have hhead : (e.1 ++ '=' :: hexStr e.2.toUInt32).head? ≠ some '#' :=
      head?_append_of_ne_nil _ hid.ne_nil ▸ hid.no_comment
    rw [map_cons, saveStringMapToFile, flatMap_cons, if_pos ⟨hid.ne_nil, hid.no_comment⟩,
      append_assoc, singleton_append, loadStringMapFromFile, splitOn,
      splitOnP_append_cons_of_forall_mem hid.not_break _ rfl, foldl_cons,
      hid.trimmed_line.trim_eq, if_pos ⟨by simp, hhead⟩, hid.addLine_eq]
    exact ih h

variable {idMap}

end Congfs.NumericIDMapper
