import Mathlib.Data.List.Basic

/-!
# Entry ids of the file system check

A string is the list of its characters, and a result is missing where the code throws.
-/

namespace Congfs.Fsck

open List

/-- The triples that the constructor accepts. -/
structure EntryID where
  (sequence timestamp nodeID : UInt32)
  accepted : ¬(nodeID = 0 ∧ (timestamp ≠ 0 ∨ 3 < sequence))
deriving DecidableEq

namespace EntryID

/-- The constructor. -/
def new (sequence timestamp nodeID : UInt32) : Option EntryID :=
  if h : nodeID = 0 ∧ (timestamp ≠ 0 ∨ 3 < sequence) then none
  else some ⟨sequence, timestamp, nodeID, h⟩

def anchor : EntryID := ⟨0, 0, 0, by decide⟩
def root : EntryID := ⟨1, 0, 0, by decide⟩
def disposal : EntryID := ⟨2, 0, 0, by decide⟩
def mdisposal : EntryID := ⟨3, 0, 0, by decide⟩

/-- The special ids and their strings. -/
def specials : List (List Char × EntryID) :=
  [([], anchor), (['r', 'o', 'o', 't'], root), (['d', 'i', 's', 'p', 'o', 's', 'a', 'l'], disposal),
    (['m', 'd', 'i', 's', 'p', 'o', 's', 'a', 'l'], mdisposal)]

/-- `sprintf` with `%X`. -/
def hexStr (n : UInt32) : List Char := (Nat.toDigits 16 n.toNat).map Char.toUpper

def str (id : EntryID) : Option (List Char) :=
  if id.nodeID = 0 then (specials.find? (·.2 = id)).map Prod.fst
  else some (hexStr id.sequence ++ '-' :: (hexStr id.timestamp ++ '-' :: hexStr id.nodeID))

def isxdigit (c : Char) : Bool := c.isDigit || 'a' ≤ c && c ≤ 'f' || 'A' ≤ c && c ≤ 'F'

def xdigit (c : Char) : ℕ :=
  if c.isDigit then c.toNat - 48 else if 'a' ≤ c then c.toNat - 87 else c.toNat - 55

/-- `sscanf` with `%x`, of hexadecimal digits. -/
def scan (s : List Char) : UInt32 := .ofNat (s.foldl (fun n c => 16 * n + xdigit c) 0)

/-- What is before and after the first dash. -/
def cut : List Char → Option (List Char × List Char)
  | [] => none
  | c :: s => if c = '-' then some ([], s) else (cut s).map fun p => (c :: p.1, p.2)

def isGroup (s : List Char) : Bool := !s.isEmpty && s.length ≤ 8 && s.all isxdigit

/-- The three numbers of a string that passes the checks. -/
def groups (s : List Char) : Option (List Char × List Char × List Char) := do
  let (seqStr, rest) ← cut s
  let (tsStr, nodeStr) ← cut rest
  if isGroup seqStr && isGroup tsStr && isGroup nodeStr then some (seqStr, tsStr, nodeStr) else none

def tryFromStr (s : List Char) : Option (Bool × EntryID) :=
  match specials.find? (·.1 = s) with
  | some p => some (true, p.2)
  | none =>
    match groups s with
    | none => some (false, anchor)
    | some (seqStr, tsStr, nodeStr) =>
      (new (scan seqStr) (scan tsStr) (scan nodeStr)).map (true, ·)

theorem cut_eq_some_iff : cut s = some (a, b) ↔ s = a ++ '-' :: b ∧ '-' ∉ a := by
  induction s generalizing a with
  | nil => simp [cut]
  | cons c s ih =>
    rw [cut]
    split
    · cases a <;> aesop
    · cases a <;> aesop

/-- The string consists of the three groups of digits. -/
def Grouped (s a b c : List Char) : Prop :=
  s = a ++ '-' :: (b ++ '-' :: c) ∧ isGroup a ∧ isGroup b ∧ isGroup c

theorem groups_eq_some_iff : groups s = some (a, b, c) ↔ Grouped s a b c := by
  have hdash : ∀ {s}, isGroup s → '-' ∉ s := by
    intro s hs hmem
    simp only [isGroup, Bool.and_eq_true, all_eq_true] at hs
    exact absurd (hs.2 _ hmem) (by decide)
  constructor
  · intro h
    simp only [groups, Option.bind_eq_bind, Option.bind_eq_some_iff, Prod.exists,
      cut_eq_some_iff] at h
    obtain ⟨a', rest, ⟨rfl, -⟩, b', c', ⟨rfl, -⟩, h⟩ := h
    simp only [Option.ite_none_right_eq_some, Bool.and_eq_true] at h
    obtain ⟨h, heq⟩ := h
    cases heq
    exact ⟨rfl, h.1.1, h.1.2, h.2⟩
  · rintro ⟨rfl, ha, hb, hc⟩
    simp [groups, cut_eq_some_iff.mpr ⟨rfl, hdash ha⟩, cut_eq_some_iff.mpr
      ⟨rfl, hdash hb⟩, ha, hb, hc]

theorem hex_roundtrip (n : ℕ) : (∀ c ∈ (Nat.toDigits 16 n).map Char.toUpper, isxdigit c) ∧
    ((Nat.toDigits 16 n).map Char.toUpper).foldl (fun n c => 16 * n + xdigit c) 0 = n := by
  have hdigit : ∀ d < 16, isxdigit d.digitChar.toUpper ∧ xdigit d.digitChar.toUpper = d := by decide
  induction n using Nat.strongRecOn with
  | ind n ih =>
    rw [Nat.toDigits_eq_if (by decide)]
    split
    · next hn => simpa using hdigit n hn
    · next hn =>
      have hlast := hdigit (n % 16) (Nat.mod_lt n (by decide))
      have hrest := ih (n / 16) (by omega)
      rw [map_append, forall_mem_append, foldl_append, hrest.2]
      refine ⟨⟨hrest.1, by simpa using hlast.1⟩, ?_⟩
      rw [map_singleton, foldl_cons, foldl_nil, hlast.2]
      omega

theorem isGroup_hexStr (n : UInt32) : isGroup (hexStr n) := by
  have hlen := (Nat.length_toDigits_le_iff (b := 16) (by decide) (by decide : 0 < 8)).mpr n.toNat_lt
  simpa [isGroup, hexStr, hlen] using (hex_roundtrip n.toNat).1

theorem scan_hexStr (n : UInt32) : scan (hexStr n) = n := by
  rw [scan, hexStr, (hex_roundtrip n.toNat).2, UInt32.ofNat_toNat]

theorem tryFromStr_special : ∀ p ∈ specials, groups p.1 = none ∧
    p.2.str = some p.1 ∧ tryFromStr p.1 = some (true, p.2) := by
  decide

theorem tryFromStr_of_grouped (h : Grouped s a b c) :
    tryFromStr s = (new (scan a) (scan b) (scan c)).map (true, ·) := by
  have hg := groups_eq_some_iff.mpr h
  have hnone : specials.find? (·.1 = s) = none := by
    refine find?_eq_none.mpr fun p hp heq => ?_
    rw [← of_decide_eq_true heq, (tryFromStr_special p hp).1] at hg
    cases hg
  rw [tryFromStr, hnone, hg]

theorem special_of_nodeID {id : EntryID} (h : id.nodeID = 0) : ∃ p ∈ specials, p.2 = id := by
  obtain ⟨sequence, timestamp, nodeID, accepted⟩ := id
  obtain rfl : nodeID = 0 := h
  obtain rfl : timestamp = 0 := by
    by_contra hne
    exact accepted ⟨rfl, .inl hne⟩
  have hle : sequence = 0 ∨ sequence = 1 ∨ sequence = 2 ∨ sequence = 3 := by grind
  rcases hle with rfl | rfl | rfl | rfl <;> simp [specials, anchor, root, disposal, mdisposal]

theorem tryFromStr_str (id : EntryID) : ∃ s, id.str = some s ∧ tryFromStr s = some (true, id) := by
  by_cases hid : id.nodeID = 0
  · obtain ⟨p, hp, rfl⟩ := special_of_nodeID hid
    exact ⟨p.1, (tryFromStr_special p hp).2⟩
  · refine ⟨_, if_neg hid, ?_⟩
    rw [tryFromStr_of_grouped ⟨rfl, isGroup_hexStr _, isGroup_hexStr _, isGroup_hexStr _⟩,
      scan_hexStr, scan_hexStr, scan_hexStr, new, dif_neg id.accepted]
    rfl

/-- Whether the numbers of a string with three groups of digits are accepted decides whether the
string is read or the code throws. -/
theorem tryFromStr_iff (id : EntryID) (s : List Char) :
    (∃ s, id.str = some s ∧ tryFromStr s = some (true, id)) ∧
    ((∃ id, tryFromStr s = some (true, id)) ↔ (∃ p ∈ specials, p.1 = s) ∨
      ∃ a b c, Grouped s a b c ∧ (new (scan a) (scan b) (scan c)).isSome) ∧
    (tryFromStr s = none ↔ ∃ a b c, Grouped s a b c ∧ new (scan a) (scan b) (scan c) = none) := by
  refine ⟨tryFromStr_str id, ?_⟩
  simp only [← groups_eq_some_iff]
  by_cases hs : ∃ p ∈ specials, p.1 = s
  · obtain ⟨p, hp, rfl⟩ := hs
    obtain ⟨hg, -, ht⟩ := tryFromStr_special p hp
    simp [hg, ht, show ∃ q ∈ specials, q.1 = p.1 from ⟨p, hp, rfl⟩]
  · have hnone : specials.find? (·.1 = s) = none := by
      refine find?_eq_none.mpr fun p hp heq => hs ⟨p, hp, of_decide_eq_true heq⟩
    rw [or_iff_right hs, tryFromStr, hnone]
    cases groups s with
    | none => simp
    | some p =>
      obtain ⟨a, b, c⟩ := p
      cases h : new (scan a) (scan b) (scan c) <;> simp [h]

theorem tryFromStr_throws : tryFromStr ['4', '-', '0', '-', '0'] = none := by
  decide

end EntryID

end Congfs.Fsck
