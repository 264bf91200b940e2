import Congfs.Lib.StdSet
import Mathlib.Algebra.Ring.Int.Defs
import Mathlib.Data.List.Sort

/-!
# Ordered maps with a comparator

`StdMap β lt` is to a map what `StdSet lt` is to a set: the entries in iteration order, sorted by
their keys. Over a total order `find` gives its partial function, and each operation is known by
what it does to `find`.
-/

namespace Congfs

open List

variable {α β : Type*}

/-- The entries of an ordered map, in iteration order. -/
@[ext] structure StdMap (β : Type*) (lt : α → α → Prop) where
  toList : List (α × β)
  sorted : toList.Pairwise fun a b => lt a.1 b.1

namespace StdMap

/-- Gives a key a value. A key that ties with `k` stays as it is. -/
def assignList (lt : α → α → Prop) [DecidableRel lt] (k : α) (v : β) : List (α × β) → List (α × β)
  | [] => [(k, v)]
  | e :: l =>
    if lt k e.1 then (k, v) :: e :: l
    else if lt e.1 k then e :: assignList lt k v l else (e.1, v) :: l

section
variable {lt : α → α → Prop} [DecidableRel lt] {k : α} {v : β} {l : List (α × β)}

theorem mem_assignList (h : e ∈ assignList lt k v l) : e = (k, v) ∨ ∃ e' ∈ l, e'.1 = e.1 := by
  induction l with
  | nil => exact .inl (mem_singleton.mp h)
  | cons e0 l ih =>
    simp only [assignList] at h
    split at h
    · rcases mem_cons.mp h with h | h
      · exact .inl h
      · exact .inr ⟨e, h, rfl⟩
    split at h
    · rcases mem_cons.mp h with rfl | h
      · exact .inr ⟨e, mem_cons_self, rfl⟩
      · exact (ih h).imp_right fun ⟨e', he', heq⟩ => ⟨e', mem_cons_of_mem _ he', heq⟩
    · rcases mem_cons.mp h with rfl | h
      · exact .inr ⟨e0, mem_cons_self, rfl⟩
      · exact .inr ⟨e, mem_cons_of_mem _ h, rfl⟩

variable [IsStrictOrder α lt]

theorem sorted_assignList (h : l.Pairwise fun a b => lt a.1 b.1) :
    (assignList lt k v l).Pairwise fun a b => lt a.1 b.1 := by
  induction l with
  | nil => exact pairwise_singleton ..
  | cons e l ih =>
    obtain ⟨he, hl⟩ := pairwise_cons.mp h
    simp only [assignList]
    split
    · rename_i hk
      refine pairwise_cons.mpr ⟨fun e' he' => ?_, h⟩
      rcases mem_cons.mp he' with rfl | he'
      · exact hk
      · exact trans_of lt hk (he e' he')
    split_ifs with hk
    · refine pairwise_cons.mpr ⟨fun e' he' => ?_, ih hl⟩
      rcases mem_assignList he' with rfl | ⟨e1, he1, heq⟩
      · exact hk
      · exact heq ▸ he e1 he1
    · exact pairwise_cons.mpr ⟨he, hl⟩

theorem assignList_of_forall_lt (h : ∀ e ∈ l, lt e.1 k) : assignList lt k v l = l ++ [(k, v)] := by
  induction l with
  | nil => rfl
  | cons e l ih =>
    have he := h e mem_cons_self
    rw [assignList, if_neg (asymm_of lt he), if_pos he,
      ih fun e' he' => h e' (mem_cons_of_mem _ he')]
    rfl

end

variable {lt : α → α → Prop}

instance : EmptyCollection (StdMap β lt) := ⟨⟨[], .nil⟩⟩

variable [DecidableRel lt] [IsStrictOrder α lt]

def assign (m : StdMap β lt) (k : α) (v : β) : StdMap β lt :=
  ⟨assignList lt k v m.toList, sorted_assignList m.sorted⟩

theorem foldl_assign {l : List (α × β)} {m m' : StdMap β lt} (h : m'.toList = m.toList ++ l) :
    l.foldl (fun m e => m.assign e.1 e.2) m = m' := by
  induction l generalizing m with
  | nil =>
    ext1
    rw [h, append_nil]
    rfl
  | cons e l ih =>
    refine ih ?_
    have hs := m'.sorted
    rw [h, pairwise_append] at hs
    have hassign : (m.assign e.1 e.2).toList = m.toList ++ [e] :=
      assignList_of_forall_lt fun e' he' => hs.2.2 e' he' e mem_cons_self
    rw [h, hassign, append_assoc]
    rfl

end StdMap

namespace StdMap

/-! ## Lookup

Over a total order keys tie only if they are equal, and a map is the partial function of its
lookups. -/

section
variable {lt : α → α → Prop} [DecidableRel lt]

section
variable (m : StdMap β lt) (k : α)

def find : Option β :=
  (m.toList.find? fun e => !decide (lt k e.1) && !decide (lt e.1 k)).map Prod.snd

def erase : StdMap β lt :=
  ⟨m.toList.filter fun e => decide (lt k e.1 ∨ lt e.1 k), m.sorted.sublist filter_sublist⟩

/-- The entries before the first one whose key is not less than `k` are erased. -/
def eraseBelow : StdMap β lt :=
  ⟨m.toList.filter fun e => !decide (lt e.1 k), m.sorted.sublist filter_sublist⟩

end

@[simp] theorem find_empty : (∅ : StdMap β lt).find k = none := rfl

instance [DecidableEq α] [DecidableEq β] : DecidableEq (StdMap β lt) := fun m m' =>
  decidable_of_iff (m.toList = m'.toList) ⟨StdMap.ext, congrArg toList⟩

end

section
variable {lt : α → α → Prop} [DecidableRel lt] [IsStrictTotalOrder α lt] {m m' : StdMap β lt}
  {k k' : α} {v : β} {e e' : α × β}

omit [DecidableRel lt] in
theorem eq_of_key_eq (he : e ∈ m.toList) (he' : e' ∈ m.toList) (h : e.1 = e'.1) : e = e' := by
  have hnodup : (m.toList.map Prod.fst).Nodup :=
    pairwise_map.mpr (m.sorted.imp fun {a b} hlt (heq : a.1 = b.1) =>
      irrefl_of lt b.1 (heq ▸ hlt))
  exact inj_on_of_nodup_map hnodup he he' h

theorem tie_iff : (!decide (lt k k') && !decide (lt k' k)) ↔ k = k' := by
  rw [Bool.and_eq_true, Bool.not_eq_true', Bool.not_eq_true', decide_eq_false_iff_not,
    decide_eq_false_iff_not]
  constructor
  · rintro ⟨h, h'⟩
    exact Std.Trichotomous.trichotomous k k' h h'
  · rintro rfl
    exact ⟨irrefl_of lt k, irrefl_of lt k⟩

theorem find_eq_some_iff : m.find k = some v ↔ (k, v) ∈ m.toList := by
  rw [find, Option.map_eq_some_iff]
  constructor
  · rintro ⟨e, he, rfl⟩
    have htie := find?_some he
    obtain rfl : k = e.1 := tie_iff.mp htie
    exact mem_of_find?_eq_some he
  · intro hmem
    cases he : m.toList.find? fun e => !decide (lt k e.1) && !decide (lt e.1 k) with
    | none => exact absurd (tie_iff.mpr rfl) (find?_eq_none.mp he _ hmem)
    | some e =>
      have htie := find?_some he
      exact ⟨e, rfl, (eq_of_key_eq hmem (mem_of_find?_eq_some he) (tie_iff.mp htie)) ▸ rfl⟩

theorem find_eq_none_iff : m.find k = none ↔ ∀ v, (k, v) ∉ m.toList := by
  rw [Option.eq_none_iff_forall_ne_some]
  exact forall_congr' fun v => not_congr find_eq_some_iff

theorem ext_find (h : ∀ k, m.find k = m'.find k) : m = m' := by
  have hmem : ∀ e, e ∈ m.toList ↔ e ∈ m'.toList := fun e => by
    rw [← find_eq_some_iff, ← find_eq_some_iff, h]
  exact StdMap.ext (m.sorted.eq_of_mem_iff m'.sorted hmem)

theorem mem_assignList_iff (hl : l.Pairwise fun a b => lt a.1 b.1) :
    e ∈ assignList lt k v l ↔ e = (k, v) ∨ e ∈ l ∧ e.1 ≠ k := by
  induction l with
  | nil => simp [assignList]
  | cons e0 l ih =>
    obtain ⟨he0, hl⟩ := pairwise_cons.mp hl
    have hne : ∀ e ∈ l, lt k e0.1 ∨ k = e0.1 → e.1 ≠ k := by
      rintro e he (hlt | rfl) heq
      · exact irrefl_of lt _ (trans_of lt hlt (heq ▸ he0 e he))
      · exact irrefl_of lt _ (heq ▸ he0 e he)
    simp only [assignList]
    split
    · rename_i hlt
      have : e0.1 ≠ k := fun h => irrefl_of lt k (h ▸ hlt)
      grind
    split
    · rename_i hlt
      grind
    · rename_i hlt hlt'
      obtain rfl : k = e0.1 := Std.Trichotomous.trichotomous k e0.1 hlt hlt'
      grind

theorem find_assign [DecidableEq α] :
    (m.assign k v).find k' = if k' = k then some v else m.find k' := by
  ext w
  rw [find_eq_some_iff]
  refine (mem_assignList_iff m.sorted).trans ?_
  split
  · simp_all [eq_comm]
  · simp_all [find_eq_some_iff]

@[simp] theorem find_assign_self : (m.assign k v).find k = some v := by
  classical
  rw [find_assign, if_pos rfl]

theorem find_assign_of_ne (h : k' ≠ k) : (m.assign k v).find k' = m.find k' := by
  classical
  rw [find_assign, if_neg h]

theorem find_erase [DecidableEq α] : (m.erase k).find k' = if k' = k then none else m.find k' := by
  ext w
  rw [find_eq_some_iff, erase, mem_filter, decide_eq_true_eq, StdSet.lt_or_gt_iff_ne, ne_comm]
  split
  · simp_all
  · simp_all [find_eq_some_iff]

theorem find_eraseBelow : (m.eraseBelow k).find k' = if lt k' k then none else m.find k' := by
  ext w
  rw [find_eq_some_iff, eraseBelow, mem_filter, Bool.not_eq_true', decide_eq_false_iff_not]
  split
  · simp_all
  · simp_all [find_eq_some_iff]

theorem find_foldl_assign {l : List (α × β)} (hl : (l.map Prod.fst).Nodup) :
    (l.foldl (fun m e => m.assign e.1 e.2) m).find k = some v ↔
      (k, v) ∈ l ∨ k ∉ l.map Prod.fst ∧ m.find k = some v := by
  induction l generalizing m with
  | nil => simp
  | cons e l ih =>
    obtain ⟨he, hl⟩ := nodup_cons.mp (map_cons ▸ hl)
    rw [foldl_cons, ih hl]
    by_cases hk : k = e.1
    · subst hk
      have hnot : (e.1, v) ∉ l := fun hmem => he (mem_map.mpr ⟨_, hmem, rfl⟩)
      simp [he, hnot, Prod.ext_iff, eq_comm]
    · rw [find_assign_of_ne hk]
      have hne : (k, v) ≠ e := fun h => hk (congrArg Prod.fst h)
      simp [hk, hne]

theorem eq_empty_iff : m.toList = [] ↔ ∀ k, m.find k = none := by
  constructor
  · intro h k
    rw [find, h]
    rfl
  · intro h
    cases hm : m.toList with
    | nil => rfl
    | cons e l =>
      have hmem : (e.1, e.2) ∈ m.toList := hm ▸ mem_cons_self
      cases (h e.1).symm.trans (find_eq_some_iff.mpr hmem)

end

/-! ## Sums over the values -/

section
variable {lt : α → α → Prop} {f : β → ℤ}

def total (f : β → ℤ) (m : StdMap β lt) : ℤ := (m.toList.map fun e => f e.2).sum

@[simp] theorem total_empty : total f (∅ : StdMap β lt) = 0 := rfl

theorem sum_nonneg {l : List (α × β)} (h : ∀ e ∈ l, 0 ≤ f e.2) :
    0 ≤ (l.map fun e => f e.2).sum := by
  induction l with
  | nil => exact Int.le_refl 0
  | cons e l ih =>
    exact Int.add_nonneg (h e mem_cons_self) (ih fun e' he' => h e' (mem_cons_of_mem _ he'))

theorem total_nonneg {m : StdMap β lt} (h : ∀ e ∈ m.toList, 0 ≤ f e.2) :
    0 ≤ total f m := sum_nonneg h

variable [DecidableRel lt] [IsStrictTotalOrder α lt] {m : StdMap β lt} {k : α} {v : β}

theorem sum_filter_ne {l : List (α × β)} (h : l.Pairwise fun a b => lt a.1 b.1) :
    ((l.filter fun e => decide (lt k e.1 ∨ lt e.1 k)).map fun e => f e.2).sum +
      ((l.find? fun e => !decide (lt k e.1) && !decide (lt e.1 k)).map fun e => f e.2).getD 0 =
    (l.map fun e => f e.2).sum := by
  induction l with
  | nil => rfl
  | cons e l ih =>
    obtain ⟨he, hl⟩ := pairwise_cons.mp h
    by_cases hk : k = e.1
    · have hrest : l.filter (fun e => decide (lt k e.1 ∨ lt e.1 k)) = l := by
        refine filter_eq_self.mpr fun e' he' => decide_eq_true (.inl ?_)
        exact hk ▸ he e' he'
      have hdrop : ¬decide (lt k e.1 ∨ lt e.1 k) := by
        rw [decide_eq_true_eq, StdSet.lt_or_gt_iff_ne]
        exact not_not.mpr hk
      have htie : (!decide (lt k e.1) && !decide (lt e.1 k)) := tie_iff.mpr hk
      rw [filter_cons, if_neg hdrop, hrest, find?_cons, htie, map_cons, sum_cons, Int.add_comm]
      rfl
    · have hkeep : decide (lt k e.1 ∨ lt e.1 k) := by
        rw [decide_eq_true_eq, StdSet.lt_or_gt_iff_ne]
        exact hk
      have htie : (!decide (lt k e.1) && !decide (lt e.1 k)) = false :=
        Bool.eq_false_iff.mpr fun htie => hk (tie_iff.mp htie)
      rw [filter_cons, if_pos hkeep, find?_cons, htie, map_cons, sum_cons,
        map_cons, sum_cons, ← ih hl, Int.add_assoc]

theorem total_erase : total f (m.erase k) = total f m - ((m.find k).map f).getD 0 := by
  have hsum : total f (m.erase k) + ((m.find k).map f).getD 0 = total f m := by
    rw [find, Option.map_map]
    exact sum_filter_ne m.sorted
  omega

theorem total_assign : total f (m.assign k v) = total f m - ((m.find k).map f).getD 0 + f v := by
  classical
  have herase : (m.assign k v).erase k = m.erase k := by
    refine ext_find fun k' => ?_
    rw [find_erase, find_erase, find_assign]
    split <;> rfl
  have hsum := @total_erase _ _ lt f _ _ (m.assign k v) k
  rw [herase, total_erase, find_assign_self, Option.map_some, Option.getD_some] at hsum
  omega

theorem le_total_of_find (h : ∀ e ∈ m.toList, 0 ≤ f e.2) (hfind : m.find k = some v) :
    f v ≤ total f m := by
  have hrest : 0 ≤ total f (m.erase k) :=
    total_nonneg fun e he => h e (mem_filter.mp he).1
  rw [total_erase, hfind] at hrest
  exact Int.sub_nonneg.mp hrest

end

end StdMap
end Congfs
