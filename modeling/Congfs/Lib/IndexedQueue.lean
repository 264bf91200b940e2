import Mathlib.Data.Finset.Basic

/-!
# Queues with an index of their keys

A queue whose elements carry keys is often kept together with the set of the keys in it, so that a
request that is queued already can be told from a new one without a walk. `Indexed key l ids` says
that the two agree and that no key is queued twice. It survives the ways a queue changes: a new
element under a key that is not in the index, and the removal of an element with its key.

The order of two elements is a sublist `[x, y]` of the queue. Where nothing is queued twice it does
not change while both stay (`sublist_pair_of_sublist`).
-/

namespace Congfs

open List

variable {α κ : Type*} {key : α → κ}

/-- `ids` is the set of the keys of `l`, and no key occurs twice. -/
structure Indexed (key : α → κ) (l : List α) (ids : Finset κ) : Prop where
  nodup : (l.map key).Nodup
  mem_iff : ∀ k, k ∈ ids ↔ k ∈ l.map key

namespace Indexed

variable {l l1 l2 : List α} {ids : Finset κ} {x y : α}

theorem nil : Indexed key [] (∅ : Finset κ) := ⟨nodup_nil, by simp⟩

theorem perm (h : Indexed key l1 ids) (hp : l1.Perm l2) : Indexed key l2 ids where
  nodup := (hp.map key).nodup_iff.mp h.nodup
  mem_iff k := (h.mem_iff k).trans (hp.map key).mem_iff

theorem eq_of_key_eq (h : Indexed key l ids) (hx : x ∈ l) (hy : y ∈ l) (he : key x = key y) :
    x = y := inj_on_of_nodup_map h.nodup hx hy he

variable [DecidableEq κ]

theorem cons (h : Indexed key l ids) (hx : key x ∉ ids) :
    Indexed key (x :: l) (insert (key x) ids) where
  nodup := nodup_cons.mpr ⟨fun hm => hx ((h.mem_iff _).mpr hm), h.nodup⟩
  mem_iff k := by
    rw [Finset.mem_insert, map_cons, mem_cons, h.mem_iff]

theorem tail (h : Indexed key (x :: l) ids) : Indexed key l (ids.erase (key x)) where
  nodup := (nodup_cons.mp h.nodup).2
  mem_iff k := by
    have hx := (nodup_cons.mp h.nodup).1
    rw [Finset.mem_erase, h.mem_iff, map_cons, mem_cons]
    constructor
    · rintro ⟨hk, rfl | hm⟩
      · exact (hk rfl).elim
      · exact hm
    · intro hm
      exact ⟨fun hk => hx (hk ▸ hm), .inr hm⟩

theorem push_left (h : Indexed key (l1 ++ l2) ids) (hx : key x ∉ ids) :
    Indexed key ((l1 ++ [x]) ++ l2) (insert (key x) ids) :=
  (h.cons hx).perm (by simpa using perm_middle.symm)

theorem push_right (h : Indexed key (l1 ++ l2) ids) (hx : key x ∉ ids) :
    Indexed key (l1 ++ (l2 ++ [x])) (insert (key x) ids) :=
  (h.cons hx).perm (by
    rw [← append_assoc]
    exact (perm_append_singleton x _).symm)

theorem eraseMiddle (h : Indexed key (l1 ++ x :: l2) ids) :
    Indexed key (l1 ++ l2) (ids.erase (key x)) :=
  (h.perm perm_middle).tail

end Indexed

/-! ## The order of two elements -/

section
variable {l l' l1 l2 : List α} {x y : α}

theorem sublist_pair_of_sublist (hl : l'.Sublist l) (hn : l.Nodup) (h : [x, y].Sublist l)
    (hx : x ∈ l') (hy : y ∈ l') : [x, y].Sublist l' := by
  induction hl with
  | slnil => exact h
  | cons a hl ih =>
    obtain ⟨ha, hn⟩ := nodup_cons.mp hn
    rcases sublist_cons_iff.mp h with h | ⟨r, hr, -⟩
    · exact ih hn h hx hy
    · obtain ⟨rfl, -⟩ := cons.inj hr
      exact absurd (hl.subset hx) ha
  | cons_cons a hl ih =>
    obtain ⟨ha, hn⟩ := nodup_cons.mp hn
    rcases sublist_cons_iff.mp h with h | ⟨r, hr, h⟩
    · have hne : ∀ z ∈ [x, y], z ≠ a := fun z hz hza => ha (hza ▸ h.subset hz)
      have hx' := (mem_cons.mp hx).resolve_left (hne x (by simp))
      have hy' := (mem_cons.mp hy).resolve_left (hne y (by simp))
      exact (ih hn h hx' hy').cons a
    · obtain ⟨rfl, rfl⟩ := cons.inj hr
      have hya : y ≠ x := fun hyx => ha (hyx ▸ h.subset mem_cons_self)
      exact List.Sublist.cons_cons x (singleton_sublist.mpr ((mem_cons.mp hy).resolve_left hya))

theorem mem_of_sublist_pair (hn : (l1 ++ y :: l2).Nodup) (h : [x, y].Sublist (l1 ++ y :: l2)) :
    x ∈ l1 := by
  induction l1 with
  | nil =>
    obtain ⟨hy, -⟩ := nodup_cons.mp hn
    rcases sublist_cons_iff.mp h with h | ⟨r, hr, h⟩
    · exact absurd (h.subset (by simp)) hy
    · obtain ⟨rfl, rfl⟩ := cons.inj hr
      exact absurd (h.subset mem_cons_self) hy
  | cons a l1 ih =>
    obtain ⟨ha, hn⟩ := nodup_cons.mp hn
    rcases sublist_cons_iff.mp h with h | ⟨r, hr, -⟩
    · exact mem_cons_of_mem _ (ih hn h)
    · obtain ⟨rfl, -⟩ := cons.inj hr
      exact mem_cons_self

end

variable [DecidableEq κ]

/-- Take the elements that match out of a queue and their keys out of the index, and tell whether
there were any. -/
def cancelMatching (key : α → κ) (gone : α → Bool) : List α → Finset κ → Bool × List α × Finset κ
  | [], ids => (false, [], ids)
  | w :: ws, ids =>
    if gone w then
      let r := cancelMatching key gone ws (ids.erase (key w))
      (true, r.2.1, r.2.2)
    else
      let r := cancelMatching key gone ws ids
      (r.1, w :: r.2.1, r.2.2)

section
variable {gone : α → Bool} {l l1 l2 : List α} {ids : Finset κ}

@[simp] theorem cancelMatching_any : (cancelMatching key gone l ids).1 = l.any gone := by
  induction l generalizing ids with
  | nil => rfl
  | cons w ws ih =>
    simp only [cancelMatching, any_cons]
    split_ifs with hw
    · rw [hw, Bool.true_or]
    · rw [Bool.eq_false_iff.mpr hw, Bool.false_or, ih]

@[simp] theorem cancelMatching_queue :
    (cancelMatching key gone l ids).2.1 = l.filter fun w => !gone w := by
  induction l generalizing ids with
  | nil => rfl
  | cons w ws ih =>
    simp only [cancelMatching]
    split_ifs with hw
    · rw [filter_cons_of_neg (by simp [hw]), ih]
    · rw [filter_cons_of_pos (by simpa using hw), ih]

theorem Indexed.cancelMatching (gone : α → Bool) (h : Indexed key (l1 ++ l ++ l2) ids) :
    Indexed key (l1 ++ (cancelMatching key gone l ids).2.1 ++ l2)
      (cancelMatching key gone l ids).2.2 := by
  induction l generalizing l1 ids with
  | nil => exact h
  | cons w ws ih =>
    simp only [Congfs.cancelMatching]
    split
    · apply ih
      rw [append_assoc] at h ⊢
      exact h.eraseMiddle
    · have h' : Indexed key ((l1 ++ [w]) ++ ws ++ l2) ids := by simpa using h
      simpa using ih h'

theorem cancelMatching_ids_of_not_any (h : l.any gone = false) :
    (Congfs.cancelMatching key gone l ids).2.2 = ids := by
  induction l generalizing ids with
  | nil => rfl
  | cons w ws ih =>
    simp only [any_cons, Bool.or_eq_false_iff] at h
    simp only [Congfs.cancelMatching, h.1]
    exact ih h.2

end

end Congfs
