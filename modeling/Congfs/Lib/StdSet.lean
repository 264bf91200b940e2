import Mathlib.Data.List.Pairwise
import Mathlib.Order.Lattice

/-!
# Ordered sets with a comparator

`StdSet lt` is a set that is kept in the order of a comparator `lt` and that holds at most one
element of each class of incomparable elements, as C++'s `std::set` does: it is the list of its
elements in iteration order. Only the order decides whether an insertion takes place, so an
element can be kept out by one it merely ties with (`mem_insert`).

An iterator splits the elements into those it has passed and those still to come (`Cursor`).
Erasing at the iterator and inserting anywhere leave the other elements in place, so a loop that
edits the set while it walks is a function on cursors.
-/

namespace Congfs

open List

variable {α : Type*}

/-- The elements of an ordered set, in iteration order. -/
@[ext] structure StdSet (lt : α → α → Prop) where
  toList : List α
  sorted : toList.Pairwise lt

namespace StdSet

theorem mem_takeWhile_of_pairwise {R : α → α → Prop} {l : List α} (h : l.Pairwise R)
    (hp : ∀ a b, R a b → p b → p a) (hx : x ∈ l) (hpx : p x) :
    x ∈ l.takeWhile p := by
  induction l with
  | nil => cases hx
  | cons y l ih =>
    obtain ⟨hy, hl⟩ := pairwise_cons.mp h
    rcases mem_cons.mp hx with rfl | hx
    · rw [takeWhile_cons_of_pos hpx]
      exact mem_cons_self
    · rw [takeWhile_cons_of_pos (hp y x (hy x hx) hpx)]
      exact mem_cons_of_mem _ (ih hl hx)

/-- Insertion at the place of `x`; an element that ties with `x` keeps it out. -/
def insertList (lt : α → α → Prop) [DecidableRel lt] (x : α) : List α → List α
  | [] => [x]
  | y :: l => if lt x y then x :: y :: l else if lt y x then y :: insertList lt x l else y :: l

section
variable {lt : α → α → Prop} [DecidableRel lt] {x y : α} {l l1 l2 : List α}

/-- An insertion either does nothing or puts `x` between a prefix and a suffix. -/
theorem insertList_eq_or (lt : α → α → Prop) [DecidableRel lt] (x : α) (l : List α) :
    insertList lt x l = l ∨ ∃ l1 l2, l = l1 ++ l2 ∧ insertList lt x l = l1 ++ x :: l2 := by
  induction l with
  | nil => exact .inr ⟨[], [], rfl, rfl⟩
  | cons y l ih =>
    simp only [insertList]
    split
    · exact .inr ⟨[], y :: l, rfl, rfl⟩
    split
    · rcases ih with h | ⟨l1, l2, rfl, h⟩
      · exact .inl (by rw [h])
      · exact .inr ⟨y :: l1, l2, rfl, by rw [h]; rfl⟩
    · exact .inl rfl

theorem mem_of_mem_insertList (h : y ∈ insertList lt x l) : y = x ∨ y ∈ l := by
  rcases insertList_eq_or lt x l with he | ⟨l1, l2, rfl, he⟩ <;> rw [he] at h
  · exact .inr h
  · rw [mem_append, mem_cons] at h
    rw [mem_append]
    exact or_left_comm.mp h

theorem mem_insertList_of_mem (h : y ∈ l) : y ∈ insertList lt x l := by
  rcases insertList_eq_or lt x l with he | ⟨l1, l2, rfl, he⟩ <;> rw [he]
  · exact h
  · rw [mem_append, mem_cons]
    exact (mem_append.mp h).imp_right .inr

theorem length_insertList_le : (insertList lt x l).length ≤ l.length + 1 := by
  rcases insertList_eq_or lt x l with he | ⟨l1, l2, rfl, he⟩ <;> rw [he]
  · exact Nat.le_succ _
  · simp; omega

theorem countP_insertList (hx : p x = false) : (insertList lt x l).countP p = l.countP p := by
  rcases insertList_eq_or lt x l with he | ⟨l1, l2, rfl, he⟩ <;> rw [he]
  simp [hx]

theorem pairwise_insertList_iff (hl : ∀ y, R x y) (hr : ∀ y, R y x) :
    (insertList lt x l).Pairwise R ↔ l.Pairwise R := by
  rcases insertList_eq_or lt x l with he | ⟨l1, l2, rfl, he⟩ <;> rw [he]
  simp [pairwise_append, hl, hr]

variable [IsStrictOrder α lt]

theorem sorted_insertList (h : l.Pairwise lt) : (insertList lt x l).Pairwise lt := by
  induction l with
  | nil => exact pairwise_singleton ..
  | cons y l ih =>
    obtain ⟨hy, hl⟩ := pairwise_cons.mp h
    simp only [insertList]
    split
    · rename_i hxy
      exact pairwise_cons_cons_iff_of_trans.mpr ⟨hxy, h⟩
    split_ifs with hyx
    · refine pairwise_cons.mpr ⟨fun z hz => ?_, ih hl⟩
      rcases mem_of_mem_insertList hz with rfl | hz
      · exact hyx
      · exact hy z hz
    · exact h

omit [IsStrictOrder α lt] in
theorem self_mem_insertList (hx : ∀ y ∈ l, lt x y ∨ lt y x) : x ∈ insertList lt x l := by
  induction l with
  | nil => exact mem_cons_self
  | cons y l ih =>
    simp only [insertList]
    split
    · exact mem_cons_self
    rename_i hxy
    have hyx := (hx y mem_cons_self).resolve_left hxy
    rw [if_pos hyx]
    exact mem_cons_of_mem _ (ih fun z hz => hx z (mem_cons_of_mem _ hz))

theorem insertList_eq_self (h : l.Pairwise lt) (hy : y ∈ l) (hxy : ¬lt x y) (hyx : ¬lt y x) :
    insertList lt x l = l := by
  induction l with
  | nil => cases hy
  | cons z l ih =>
    obtain ⟨hz, hl⟩ := pairwise_cons.mp h
    simp only [insertList]
    rcases mem_cons.mp hy with rfl | hy
    · rw [if_neg hxy, if_neg hyx]
    · have hxz : ¬lt x z := fun hxz => hxy (trans_of lt hxz (hz y hy))
      rw [if_neg hxz, ih hl hy, ite_self]

theorem insertList_of_forall_lt (h : ∀ y ∈ l, lt y x) : insertList lt x l = l ++ [x] := by
  induction l with
  | nil => rfl
  | cons y l ih =>
    have hy := h y mem_cons_self
    rw [insertList, if_neg (asymm_of lt hy), if_pos hy, ih fun z hz => h z (mem_cons_of_mem _ hz)]
    rfl

end

variable {lt : α → α → Prop}

instance : Membership α (StdSet lt) := ⟨fun s x => x ∈ s.toList⟩

theorem mem_def {s : StdSet lt} : x ∈ s ↔ x ∈ s.toList := .rfl

instance : EmptyCollection (StdSet lt) := ⟨⟨[], .nil⟩⟩

/-- The elements that a test keeps. A loop that erases the others as it walks computes this. -/
def filter (p : α → Bool) (s : StdSet lt) : StdSet lt :=
  ⟨s.toList.filter p, s.sorted.sublist filter_sublist⟩

@[simp] theorem mem_filter {p : α → Bool} {s : StdSet lt} {x : α} :
    x ∈ s.filter p ↔ x ∈ s ∧ p x := List.mem_filter

theorem nodup [IsStrictOrder α lt] (s : StdSet lt) : s.toList.Nodup := by
  refine s.sorted.imp ?_
  rintro a _ h rfl
  exact irrefl_of lt a h

section
variable [DecidableRel lt] [IsStrictOrder α lt] {s : StdSet lt} {x y : α}

def insert (x : α) (s : StdSet lt) : StdSet lt :=
  ⟨insertList lt x s.toList, sorted_insertList s.sorted⟩

theorem mem_insert : y ∈ s.insert x ↔ y ∈ s ∨ y = x ∧ ∀ z ∈ s, lt x z ∨ lt z x := by
  constructor
  · intro h
    by_cases hs : y ∈ s
    · exact .inl hs
    obtain rfl := (mem_of_mem_insertList h).resolve_right hs
    refine .inr ⟨rfl, fun z hz => ?_⟩
    by_contra hn
    obtain ⟨hyz, hzy⟩ := not_or.mp hn
    have h' : y ∈ insertList lt y s.toList := h
    rw [insertList_eq_self s.sorted hz hyz hzy] at h'
    exact hs h'
  · rintro (h | ⟨rfl, h⟩)
    · exact mem_insertList_of_mem h
    · exact self_mem_insertList h

theorem mem_insert_of_mem (h : y ∈ s) : y ∈ s.insert x := mem_insertList_of_mem h

theorem eq_or_mem_of_mem_insert (h : y ∈ s.insert x) : y = x ∨ y ∈ s := mem_of_mem_insertList h

theorem foldl_insert {l : List α} {s' : StdSet lt} (h : s'.toList = s.toList ++ l) :
    l.foldl (fun s x => s.insert x) s = s' := by
  induction l generalizing s with
  | nil =>
    ext1
    rw [h, append_nil]
    rfl
  | cons x l ih =>
    refine ih ?_
    have hs := s'.sorted
    rw [h, pairwise_append] at hs
    have hinsert : (s.insert x).toList = s.toList ++ [x] :=
      insertList_of_forall_lt fun y hy => hs.2.2 y hy x mem_cons_self
    rw [h, hinsert, append_assoc]
    rfl

/-- Insert a list of elements, the last one first. -/
def insertAll (xs : List α) (s : StdSet lt) : StdSet lt := xs.foldr insert s

theorem mem_or_mem_of_mem_insertAll (h : y ∈ insertAll xs s) : y ∈ xs ∨ y ∈ s := by
  induction xs with
  | nil => exact .inr h
  | cons x xs ih =>
    rcases eq_or_mem_of_mem_insert h with rfl | h
    · exact .inl mem_cons_self
    · exact (ih h).imp_left (mem_cons_of_mem _)

theorem mem_insertAll_of_mem (h : y ∈ s) : y ∈ insertAll xs s := by
  induction xs with
  | nil => exact h
  | cons x xs ih => exact mem_insert_of_mem ih

theorem mem_insertAll_self (hxs : xs.Pairwise fun x y => lt x y ∨ lt y x)
    (hs : ∀ x ∈ xs, ∀ y ∈ s, lt x y ∨ lt y x) (h : x ∈ xs) : x ∈ insertAll xs s := by
  induction xs with
  | nil => cases h
  | cons z xs ih =>
    obtain ⟨hz, hxs⟩ := pairwise_cons.mp hxs
    rcases mem_cons.mp h with rfl | h
    · refine self_mem_insertList fun y hy => ?_
      rcases mem_or_mem_of_mem_insertAll hy with hy | hy
      · exact hz y hy
      · exact hs x mem_cons_self y hy
    · exact mem_insert_of_mem (ih hxs (fun y hy => hs y (mem_cons_of_mem _ hy)) h)

/-- The element that ties with `x`, if there is one. -/
def find (x : α) (s : StdSet lt) : Option α :=
  s.toList.find? fun y => !decide (lt x y) && !decide (lt y x)

omit [IsStrictOrder α lt] in
theorem find_eq_none : s.find x = none ↔ ∀ y ∈ s, lt x y ∨ lt y x := by
  simp [find, mem_def, or_iff_not_imp_left]

omit [IsStrictOrder α lt] in
theorem mem_of_find (h : s.find x = some y) : y ∈ s ∧ ¬lt x y ∧ ¬lt y x := by
  have hp := find?_some h
  simp only [Bool.and_eq_true, Bool.not_eq_true', decide_eq_false_iff_not] at hp
  exact ⟨mem_of_find?_eq_some h, hp⟩

end

/-- Erase the element that ties with `x`. -/
def erase [DecidableRel lt] (x : α) (s : StdSet lt) : StdSet lt :=
  s.filter fun y => decide (lt x y ∨ lt y x)

theorem mem_erase [DecidableRel lt] {s : StdSet lt} :
    y ∈ s.erase x ↔ y ∈ s ∧ (lt x y ∨ lt y x) := by
  simp [erase]

/-! ## Walking a set while editing it -/

/-- A set with an iterator: the elements passed so far, and those from the iterator on. -/
structure Cursor (lt : α → α → Prop) where
  before : List α
  after : List α
  sorted : (before ++ after).Pairwise lt

def begin (s : StdSet lt) : Cursor lt := ⟨[], s.toList, s.sorted⟩

namespace Cursor

section

variable (c : Cursor lt)

def toSet : StdSet lt := ⟨c.before ++ c.after, c.sorted⟩

def next : Cursor lt :=
  ⟨c.before ++ c.after.take 1, c.after.tail, by
    have h := c.sorted
    rwa [← take_append_drop 1 c.after, drop_one, ← append_assoc] at h⟩

/-- Erase the current element; the iterator then stands at the following one. -/
def erase : Cursor lt :=
  ⟨c.before, c.after.tail, c.sorted.sublist ((List.Sublist.refl _).append (tail_sublist _))⟩

@[simp] theorem next_after : c.next.after = c.after.tail := rfl

@[simp] theorem erase_after : c.erase.after = c.after.tail := rfl

end

theorem mem_toSet_erase {c : Cursor lt} (hc : c.after = e :: l) (h : x ∈ c.toSet) :
    x = e ∨ x ∈ c.erase.toSet := by
  rcases mem_append.mp h with h | h
  · exact .inr (mem_append_left _ h)
  · rw [hc] at h
    refine (mem_cons.mp h).imp_right fun h => mem_append_right _ ?_
    rw [erase_after, hc]
    exact h

theorem mem_toSet_of_mem_erase {c : Cursor lt} (h : x ∈ c.erase.toSet) : x ∈ c.toSet := by
  rcases mem_append.mp h with h | h
  · exact mem_append_left _ h
  · exact mem_append_right _ (mem_of_mem_tail h)

theorem ne_of_mem_erase [IsStrictOrder α lt] {c : Cursor lt} (hc : c.after = e :: l)
    (h : x ∈ c.erase.toSet) : x ≠ e := by
  have hn : (c.before ++ c.after).Nodup := c.toSet.nodup
  have hx : x ∈ c.before ++ c.after.tail := h
  rw [hc, perm_middle.nodup_iff, nodup_cons] at hn
  rw [hc] at hx
  exact fun hxe => hn.1 (hxe ▸ hx)

@[simp] theorem toSet_next (c : Cursor lt) : c.next.toSet = c.toSet := by
  ext1
  simp [toSet, next, ← drop_one]

section
variable [DecidableRel lt] [IsStrictOrder α lt]

section
variable (x : α) (c : Cursor lt)

/-- Insert an element. It is still to come if it falls behind the current element, and the end
iterator is behind everything. -/
def insert : Cursor lt :=
  if h : (c.after.head?.all fun a => decide (lt x a)) then
    ⟨insertList lt x c.before, c.after, by
      have hs := c.sorted
      rw [pairwise_append] at hs ⊢
      refine ⟨sorted_insertList hs.1, hs.2.1, fun a ha b hb => ?_⟩
      rcases mem_of_mem_insertList ha with rfl | ha
      · cases hc : c.after with
        | nil => rw [hc] at hb; cases hb
        | cons d l =>
          simp only [hc, head?_cons, Option.all_some, decide_eq_true_eq] at h
          rw [hc] at hb hs
          rcases mem_cons.mp hb with rfl | hb
          · exact h
          · exact trans_of lt h (rel_of_pairwise_cons hs.2.1 hb)
      · exact hs.2.2 a ha b hb⟩
  else
    ⟨c.before, insertList lt x c.after, by
      have hs := c.sorted
      rw [pairwise_append] at hs ⊢
      refine ⟨hs.1, sorted_insertList hs.2.1, fun a ha b hb => ?_⟩
      cases hc : c.after with
      | nil => simp [hc] at h
      | cons d l =>
        simp only [hc, head?_cons, Option.all_some, decide_eq_true_eq] at h
        rw [hc] at hb hs
        have had := hs.2.2 a ha d mem_cons_self
        simp only [insertList, if_neg h] at hb
        split_ifs at hb with hdx
        · rcases mem_cons.mp hb with rfl | hb
          · exact had
          rcases mem_of_mem_insertList hb with rfl | hb
          · exact trans_of lt had hdx
          · exact hs.2.2 a ha b (mem_cons_of_mem _ hb)
        · exact hs.2.2 a ha b hb⟩

theorem insert_cases :
    (c.insert x).before = insertList lt x c.before ∧ (c.insert x).after = c.after ∨
      (c.insert x).before = c.before ∧ (c.insert x).after = insertList lt x c.after := by
  unfold insert
  split
  · exact .inl ⟨rfl, rfl⟩
  · exact .inr ⟨rfl, rfl⟩

end

theorem eq_or_mem_before_of_insert {c : Cursor lt} (h : y ∈ (c.insert x).before) :
    y = x ∨ y ∈ c.before := by
  rcases insert_cases x c with ⟨he, -⟩ | ⟨he, -⟩ <;> rw [he] at h
  · exact mem_of_mem_insertList h
  · exact .inr h

theorem eq_or_mem_of_mem_toSet_insert {c : Cursor lt} (h : y ∈ (c.insert x).toSet) :
    y = x ∨ y ∈ c.toSet := by
  rcases mem_append.mp h with h | h
  · exact (eq_or_mem_before_of_insert h).imp_right (mem_append_left _)
  · rcases insert_cases x c with ⟨-, he⟩ | ⟨-, he⟩ <;> rw [he] at h
    · exact .inr (mem_append_right _ h)
    · exact (mem_of_mem_insertList h).imp_right (mem_append_right _)

theorem mem_toSet_insert_of_mem {c : Cursor lt} (h : y ∈ c.toSet) : y ∈ (c.insert x).toSet := by
  change y ∈ (c.insert x).before ++ (c.insert x).after
  rcases insert_cases x c with ⟨hb, ha⟩ | ⟨hb, ha⟩ <;> rw [hb, ha, mem_append]
  · exact (mem_append.mp h).imp_left mem_insertList_of_mem
  · exact (mem_append.mp h).imp_right mem_insertList_of_mem

/-- Insert a list of elements, the last one first. -/
def insertAll (xs : List α) (c : Cursor lt) : Cursor lt := xs.foldr insert c

section
variable {xs : List α} {c : Cursor lt} {y : α}

theorem mem_or_mem_of_mem_insertAll_before (h : y ∈ (insertAll xs c).before) :
    y ∈ xs ∨ y ∈ c.before := by
  induction xs with
  | nil => exact .inr h
  | cons x xs ih =>
    rcases eq_or_mem_before_of_insert h with rfl | h
    · exact .inl mem_cons_self
    · exact (ih h).imp_left (mem_cons_of_mem _)

theorem mem_or_mem_of_mem_toSet_insertAll (h : y ∈ (insertAll xs c).toSet) :
    y ∈ xs ∨ y ∈ c.toSet := by
  induction xs with
  | nil => exact .inr h
  | cons x xs ih =>
    rcases eq_or_mem_of_mem_toSet_insert h with rfl | h
    · exact .inl mem_cons_self
    · exact (ih h).imp_left (mem_cons_of_mem _)

theorem mem_toSet_insertAll_of_mem (h : y ∈ c.toSet) : y ∈ (insertAll xs c).toSet := by
  induction xs with
  | nil => exact h
  | cons x xs ih => exact mem_toSet_insert_of_mem ih

theorem mem_toSet_insertAll_self (hxs : xs.Pairwise fun x y => lt x y ∨ lt y x)
    (hc : ∀ x ∈ xs, ∀ y ∈ c.toSet, lt x y ∨ lt y x) (h : y ∈ xs) : y ∈ (insertAll xs c).toSet := by
  induction xs with
  | nil => cases h
  | cons x xs ih =>
    obtain ⟨hx, hxs⟩ := pairwise_cons.mp hxs
    rcases mem_cons.mp h with rfl | h
    · have hy : ∀ z ∈ (insertAll xs c).toSet, lt y z ∨ lt z y := by
        intro z hz
        rcases mem_or_mem_of_mem_toSet_insertAll hz with hz | hz
        · exact hx z hz
        · exact hc y mem_cons_self z hz
      rcases insert_cases y (insertAll xs c) with ⟨he, -⟩ | ⟨-, he⟩
      · refine mem_append_left _ (he ▸ self_mem_insertList fun z hz => ?_)
        exact hy z (mem_append_left _ hz)
      · refine mem_append_right _ (he ▸ self_mem_insertList fun z hz => ?_)
        exact hy z (mem_append_right _ hz)
    · exact mem_toSet_insert_of_mem (ih hxs (fun z hz => hc z (mem_cons_of_mem _ hz)) h)

theorem mem_insertAll_after_iff {p : α → Prop} (hp : ∀ x ∈ xs, ¬p x) :
    (∃ y ∈ (insertAll xs c).after, p y) ↔ ∃ y ∈ c.after, p y := by
  induction xs with
  | nil => exact .rfl
  | cons x xs ih =>
    rw [← ih fun z hz => hp z (mem_cons_of_mem _ hz)]
    change (∃ y ∈ ((insertAll xs c).insert x).after, p y) ↔ _
    rcases insert_cases x (insertAll xs c) with ⟨-, he⟩ | ⟨-, he⟩ <;> rw [he]
    constructor
    · intro ⟨y, hy, hpy⟩
      rcases mem_of_mem_insertList hy with rfl | hy
      · exact absurd hpy (hp y mem_cons_self)
      · exact ⟨y, hy, hpy⟩
    · intro ⟨y, hy, hpy⟩
      exact ⟨y, mem_insertList_of_mem hy, hpy⟩

theorem pairwise_insertAll_after_iff (hR : ∀ x ∈ xs, ∀ y, R x y ∧ R y x) :
    (insertAll xs c).after.Pairwise R ↔ c.after.Pairwise R := by
  induction xs with
  | nil => exact .rfl
  | cons x xs ih =>
    rw [← ih fun z hz => hR z (mem_cons_of_mem _ hz)]
    change ((insertAll xs c).insert x).after.Pairwise R ↔ _
    have hx := hR x mem_cons_self
    rcases insert_cases x (insertAll xs c) with ⟨-, he⟩ | ⟨-, he⟩ <;> rw [he]
    exact pairwise_insertList_iff (fun y => (hx y).1) (fun y => (hx y).2)

end

end

end Cursor

/-! ## Sets over a total order

Elements tie only if they are equal, so that insertion and erasure are those of sets. -/

instance [DecidableEq α] (s : StdSet lt) (x : α) : Decidable (x ∈ s) :=
  inferInstanceAs (Decidable (x ∈ s.toList))

@[simp] theorem not_mem_empty : x ∉ (∅ : StdSet lt) := not_mem_nil

theorem eq_empty_iff {s : StdSet lt} : s = ∅ ↔ ∀ x, x ∉ s := by
  constructor
  · rintro rfl x
    exact not_mem_empty
  · intro h
    exact StdSet.ext (eq_nil_iff_forall_not_mem.mpr h)

section
variable [DecidableRel lt] [IsStrictTotalOrder α lt] {s : StdSet lt} {x y : α}

omit [DecidableRel lt] in
theorem lt_or_gt_iff_ne : lt x y ∨ lt y x ↔ x ≠ y := by
  constructor
  · rintro (h | h) rfl <;> exact irrefl_of lt x h
  · intro hne
    by_contra hn
    obtain ⟨h, h'⟩ := not_or.mp hn
    exact hne (Std.Trichotomous.trichotomous x y h h')

@[simp] theorem mem_insert_iff : y ∈ s.insert x ↔ y = x ∨ y ∈ s := by
  rw [mem_insert]
  constructor
  · rintro (h | ⟨rfl, -⟩)
    · exact .inr h
    · exact .inl rfl
  · rintro (rfl | h)
    · by_cases hy : y ∈ s
      · exact .inl hy
      · exact .inr ⟨rfl, fun z hz => lt_or_gt_iff_ne.mpr fun heq => hy (heq ▸ hz)⟩
    · exact .inl h

@[simp] theorem mem_erase_iff : y ∈ s.erase x ↔ y ∈ s ∧ y ≠ x := by
  rw [mem_erase, lt_or_gt_iff_ne, ne_comm]

def ofList (l : List α) : StdSet lt := l.foldl (fun s x => s.insert x) ∅

theorem mem_foldl_insert {l : List α} :
    y ∈ l.foldl (fun s x => StdSet.insert x s) s ↔ y ∈ l ∨ y ∈ s := by
  induction l generalizing s with
  | nil => simp
  | cons x l ih =>
    rw [foldl_cons, ih, mem_insert_iff, mem_cons, or_left_comm, or_assoc]

@[simp] theorem mem_ofList {l : List α} : y ∈ (ofList l : StdSet lt) ↔ y ∈ l := by
  simp [ofList, mem_foldl_insert]

end

end StdSet

instance isStrictTotalOrderUInt16 : IsStrictTotalOrder UInt16 (· < ·) where
  irrefl := UInt16.lt_irrefl
  trans _ _ _ := UInt16.lt_trans
  trichotomous _ _ h h' := UInt16.le_antisymm (UInt16.not_lt.mp h') (UInt16.not_lt.mp h)

instance isStrictOrderUInt16 : IsStrictOrder UInt16 (· < ·) :=
  isStrictTotalOrderUInt16.toIsStrictOrder

instance isStrictTotalOrderUInt32 : IsStrictTotalOrder UInt32 (· < ·) where
  irrefl := UInt32.lt_irrefl
  trans _ _ _ := UInt32.lt_trans
  trichotomous _ _ h h' := UInt32.le_antisymm (UInt32.not_lt.mp h') (UInt32.not_lt.mp h)

instance isStrictOrderUInt32 : IsStrictOrder UInt32 (· < ·) :=
  isStrictTotalOrderUInt32.toIsStrictOrder

instance isStrictTotalOrderUInt64 : IsStrictTotalOrder UInt64 (· < ·) where
  irrefl := UInt64.lt_irrefl
  trans _ _ _ := UInt64.lt_trans
  trichotomous _ _ h h' := UInt64.le_antisymm (UInt64.not_lt.mp h') (UInt64.not_lt.mp h)

instance isStrictOrderUInt64 : IsStrictOrder UInt64 (· < ·) :=
  isStrictTotalOrderUInt64.toIsStrictOrder

instance isStrictOrderLinear {α : Type*} [LinearOrder α] : IsStrictOrder α (· < ·) := inferInstance

end Congfs
