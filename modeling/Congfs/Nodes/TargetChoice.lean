import Mathlib.Data.List.Rotate
import Congfs.Nodes.TargetChooser

/-!
# What the walks choose

Which targets a walk finds depends on the numbers that are drawn, but how many it finds does not. So
the choice is followed by its size and by the number of targets that are taken from each pool, and
the whole sequence of walks is settled by arithmetic.

A walk over a pool that allows all its targets wants as many new ones as the pool has, if not fewer:
it does not end once one of them is taken and the others are all wanted.
-/

namespace Congfs

open List

open Filter (atTop)

variable {α : Type}

/-! ## Rings -/

section
variable {l : List α} {iter : Fin l.length}

theorem val_moveIterToNextRingElem : (moveIterToNextRingElem iter).val = (iter.val + 1) %
    l.length := by
  rw [moveIterToNextRingElem]
  split_ifs with h
  · exact (Nat.mod_eq_of_lt h).symm
  · have hlast : iter.val + 1 = l.length := by omega
    rw [hlast, Nat.mod_self]

theorem val_iterate_moveIterToNextRingElem :
    (moveIterToNextRingElem^[k] iter).val = (iter.val + k) % l.length := by
  induction k generalizing iter with
  | zero => exact (Nat.mod_eq_of_lt iter.isLt).symm
  | succ k ih =>
    rw [Function.iterate_succ_apply, ih, val_moveIterToNextRingElem, Nat.mod_add_mod, Nat.add_assoc,
      Nat.add_comm 1]

theorem get_iterate_moveIterToNextRingElem (hk : k < (l.rotate iter.val).length) :
    l.get (moveIterToNextRingElem^[k] iter) = (l.rotate iter.val).get ⟨k, hk⟩ := by
  rw [get_eq_getElem, get_eq_getElem, getElem_rotate]
  congr 1
  rw [val_iterate_moveIterToNextRingElem, Nat.add_comm]

theorem exists_iterate_moveIterToNextRingElem (iter iter' : Fin l.length) :
    ∃ k, k < l.length ∧ moveIterToNextRingElem^[k] iter = iter' := by
  refine ⟨(iter'.val + (l.length - iter.val)) % l.length,
    Nat.mod_lt _ (Nat.zero_lt_of_lt iter.isLt), Fin.ext ?_⟩
  have hsum : iter.val + (iter'.val + (l.length - iter.val)) = iter'.val + l.length := by omega
  rw [val_iterate_moveIterToNextRingElem, Nat.add_mod_mod, hsum, Nat.add_mod_right,
    Nat.mod_eq_of_lt iter'.isLt]

end

/-! ## Random numbers -/

theorem Random.getNextInRange_gives {min max : ℕ} (h : min ≤ max) :
    Gives (fun _ => Random.getNextInRange min max) random fun next => min ≤ next ∧ next ≤ max := by
  have hpos : 0 < max + 1 - min := by omega
  refine ⟨min + random 0 % (max + 1 - min), fun i => random (i + 1), .of_forall fun _ => ?_,
    Nat.le_add_right .., ?_⟩
  · have hdraw : getNextInt random = .ok (random 0, fun i => random (i + 1)) := rfl
    change (getNextInRange min max) random = _
    rw [getNextInRange, bind_of_ok hdraw, if_neg (by omega)]
    rfl
  · have := Nat.mod_lt (random 0) hpos
    omega

theorem moveIterToRandomElem_gives {l : List α} (h : l ≠ []) (random : Random) :
    Gives (fun _ => moveIterToRandomElem l h) random fun _ => True := by
  by_cases hsize : l.length < 2
  · simp only [moveIterToRandomElem, if_pos hsize, gives_pure]
  · simp only [moveIterToRandomElem, if_neg hsize]
    exact (Random.getNextInRange_gives (Nat.zero_le _)).bind fun next random _ =>
      gives_pure.mpr trivial

namespace TargetChooser

/-! ## Without preferred targets -/

theorem chooseFromParts_gives (start : Fin l.length) (hpart : 0 < partSize)
    (hparts : num * partSize ≤ l.length) (k i : ℕ) (hk : k + i = num)
    (iter : Fin l.length) (hiter : 0 < k → iter.val = (start.val + i * partSize) % l.length)
    (out : List UInt16) (random : Random) :
    Gives (fun _ => chooseFromParts l num partSize k i iter out) random fun out' =>
      ∃ new, out' = out ++ new ∧ new.length = k ∧
        new.Sublist ((l.rotate start.val).drop (i * partSize)) := by
  induction k generalizing i iter out random with
  | zero =>
    simp only [chooseFromParts, gives_pure]
    exact ⟨[], (append_nil _).symm, rfl, nil_sublist _⟩
  | succ k ih =>
    have hi : i * partSize + partSize ≤ l.length := by
      calc i * partSize + partSize = (i + 1) * partSize := (Nat.succ_mul _ _).symm
        _ ≤ num * partSize := Nat.mul_le_mul_right _ (by omega)
        _ ≤ l.length := hparts
    obtain ⟨rangeMax, hrange⟩ : ∃ rangeMax, rangeMax =
        if i = num - 1 then l.length - 1 else i * partSize + partSize - 1 := ⟨_, rfl⟩
    have hmax : i * partSize ≤ rangeMax ∧ rangeMax < l.length := by
      rw [hrange]
      split <;> omega
    simp only [chooseFromParts, ← hrange]
    refine (Random.getNextInRange_gives hmax.1).bind fun next random hnext => ?_
    have hlen : next < (l.rotate start.val).length := by
      rw [length_rotate]
      omega
    have hchosen : l.get (moveIterToNextRingElem^[next - i * partSize] iter) =
        (l.rotate start.val).get ⟨next, hlen⟩ := by
      rw [← get_iterate_moveIterToNextRingElem]
      congr 1
      refine Fin.ext ?_
      rw [val_iterate_moveIterToNextRingElem, val_iterate_moveIterToNextRingElem,
        hiter (Nat.succ_pos k), Nat.mod_add_mod]
      congr 1
      omega
    refine (ih (i + 1) (by omega) _ (fun hpos => ?_) _ random).mono ?_
    · -- Not the last part, so that the next one starts behind this one.
      have hnot : ¬i = num - 1 := by omega
      rw [if_neg hnot] at hrange
      rw [val_iterate_moveIterToNextRingElem, val_iterate_moveIterToNextRingElem,
        hiter (Nat.succ_pos k), Nat.mod_add_mod, Nat.add_assoc, Nat.mod_add_mod, Nat.succ_mul]
      congr 1
      omega
    · rintro out' ⟨new, rfl, hnew, hsub⟩
      refine ⟨_ :: new, (append_assoc ..).trans rfl, congrArg Nat.succ hnew, ?_⟩
      rw [hchosen]
      have hdrop : ((l.rotate start.val).get ⟨next, hlen⟩ :: (l.rotate start.val).drop
          (next + 1)).Sublist ((l.rotate start.val).drop (i * partSize)) := by
        rw [get_eq_getElem, getElem_cons_drop]
        exact drop_sublist_drop_left _ hnext.1
      refine List.Sublist.trans (List.Sublist.cons_cons _ ?_) hdrop
      cases k with
      | zero =>
        rw [length_eq_zero_iff.mp hnew]
        exact nil_sublist _
      | succ k =>
        have hnot : ¬i = num - 1 := by omega
        rw [if_neg hnot] at hrange
        refine hsub.trans (drop_sublist_drop_left _ ?_)
        rw [Nat.succ_mul]
        omega

theorem chooseStorageNodesNoPref_gives (hnum : 0 < num) :
    Gives (fun _ => chooseStorageNodesNoPref actives num out) random fun out' =>
      ∃ new, out' = out ++ new ∧ new.length = min num actives.toList.length ∧
        new.Nodup ∧ ∀ targetID ∈ new, targetID ∈ actives := by
  by_cases hempty : actives.toList = []
  · simp only [chooseStorageNodesNoPref, dif_pos hempty, gives_pure]
    refine ⟨[], (append_nil _).symm, ?_, nodup_nil, fun _ h => by cases h⟩
    rw [hempty]
    exact (Nat.min_zero _).symm
  · have hsize := length_pos_iff.mpr hempty
    have hmin : (if num > actives.toList.length then actives.toList.length
        else num) = min num actives.toList.length := by
      rw [min_def]
      split <;> split <;> omega
    have hpos : ¬min num actives.toList.length = 0 := by omega
    simp only [chooseStorageNodesNoPref, dif_neg hempty, hmin, if_neg hpos]
    refine (moveIterToRandomElem_gives hempty random).bind fun iter random _ => ?_
    refine (chooseFromParts_gives iter (Nat.div_pos (Nat.min_le_right _ _) (by omega))
      (Nat.mul_div_le _ _) _ 0 rfl iter (fun _ => ?_) out random).mono ?_
    · rw [Nat.zero_mul, Nat.add_zero, Nat.mod_eq_of_lt iter.isLt]
    · rintro out' ⟨new, rfl, hnew, hsub⟩
      rw [Nat.zero_mul, drop_zero] at hsub
      refine ⟨new, rfl, hnew, hsub.nodup (nodup_rotate.mpr actives.nodup), fun targetID hmem => ?_⟩
      exact mem_rotate.mp (hsub.subset hmem)

/-! ## With preferred targets -/

/-- A set of the targets that were chosen. -/
def Selection.Matches (selection : Selection) : Prop :=
  ∀ targetID, targetID ∈ selection.chosenTargets ↔ targetID ∈ selection.outTargets

/-- Different targets of a pool that were not chosen yet. -/
structure Adds (activeTargets : UInt16Set) (outTargets new : List UInt16) : Prop where
  nodup : new.Nodup
  active : ∀ targetID ∈ new, targetID ∈ activeTargets
  fresh : ∀ targetID ∈ new, targetID ∉ outTargets

/-- They were added. -/
structure Picks (activeTargets : UInt16Set) (selection : Selection) (new : List UInt16)
    (selection' : Selection) : Prop extends Adds activeTargets selection.outTargets new where
  outTargets : selection'.outTargets = selection.outTargets ++ new
  matching : selection'.Matches

namespace Picks

variable {actives : UInt16Set} {sel sel' sel'' : Selection} {new new' : List UInt16}
  {targetID : UInt16}

theorem nil (h : sel.Matches) : Picks actives sel [] sel where
  outTargets := (append_nil _).symm
  matching := h
  nodup := nodup_nil
  active _ hmem := by cases hmem
  fresh _ hmem := by cases hmem

theorem push (h : sel.Matches) (hactive : targetID ∈ actives)
    (hfresh : targetID ∉ sel.chosenTargets) :
    Picks actives sel [targetID] (sel.push targetID) where
  outTargets := rfl
  matching t := by
    change t ∈ sel.chosenTargets.insert targetID ↔ t ∈ sel.outTargets ++ [targetID]
    rw [StdSet.mem_insert_iff, mem_append, mem_singleton, h t, or_comm]
  nodup := nodup_singleton _
  active t hmem := mem_singleton.mp hmem ▸ hactive
  fresh t hmem hout := hfresh ((h targetID).mpr (mem_singleton.mp hmem ▸ hout))

theorem trans (h : Picks actives sel new sel')
    (h' : Picks actives sel' new' sel'') :
    Picks actives sel (new ++ new') sel'' where
  outTargets := by rw [h'.outTargets, h.outTargets, append_assoc]
  matching := h'.matching
  nodup := by
    refine nodup_append.mpr ⟨h.nodup, h'.nodup, fun t hmem t' hmem' heq => ?_⟩
    refine h'.fresh t' hmem' ?_
    rw [h.outTargets, ← heq]
    exact mem_append_right _ hmem
  active t hmem := (mem_append.mp hmem).elim (h.active t) (h'.active t)
  fresh t hmem hout := by
    rcases mem_append.mp hmem with hmem | hmem
    · exact h.fresh t hmem hout
    · refine h'.fresh t hmem ?_
      rw [h.outTargets]
      exact mem_append_left _ hout

end Picks

variable {actives : UInt16Set} {sel : Selection}

/-- The targets of a pool that were not chosen yet. -/
def freshTargets (activeTargets : UInt16Set) (outTargets : List UInt16) : List UInt16 :=
  activeTargets.toList.filter fun targetID => decide (targetID ∉ outTargets)

theorem mem_freshTargets : targetID ∈ freshTargets actives out ↔
      targetID ∈ actives ∧ targetID ∉ out := by
  rw [freshTargets, mem_filter, decide_eq_true_eq, StdSet.mem_def]

theorem nodup_freshTargets : (freshTargets actives out).Nodup :=
  actives.nodup.sublist filter_sublist

theorem Adds.length_freshTargets (h : Adds actives out new) :
    (freshTargets actives (out ++ new)).length + new.length =
      (freshTargets actives out).length := by
  rw [← length_append]
  refine List.Perm.length_eq ((perm_ext_iff_of_nodup ?_ nodup_freshTargets).mpr fun t => ?_)
  · refine nodup_append.mpr ⟨nodup_freshTargets, h.nodup, fun t hmem t' hmem' heq => ?_⟩
    exact (mem_freshTargets.mp hmem).2 (heq ▸ mem_append_right _ hmem')
  · rw [mem_append, mem_freshTargets, mem_freshTargets, mem_append, not_or]
    constructor
    · rintro (⟨hactive, hout, -⟩ | hnew)
      · exact ⟨hactive, hout⟩
      · exact ⟨h.active t hnew, h.fresh t hnew⟩
    · rintro ⟨hactive, hout⟩
      by_cases hnew : t ∈ new
      · exact .inr hnew
      · exact .inl ⟨hactive, hout, hnew⟩

theorem Picks.length_freshTargets (h : Picks actives sel new sel') :
    (freshTargets actives sel'.outTargets).length + new.length =
      (freshTargets actives sel.outTargets).length := by
  rw [h.outTargets]
  exact h.toAdds.length_freshTargets

section
variable (actives : UInt16Set) {pref : List UInt16}

/-- The walk over the preferred targets stops early only if no more targets are wanted. -/
theorem addPreferred_picks (k : ℕ)
    (iter : Fin pref.length) (num : ℕ) (h : sel.Matches) :
    ∃ new, Picks actives sel new (addPreferred actives k iter num sel).2 ∧
      (addPreferred actives k iter num sel).1 + new.length = num ∧
      (∀ targetID ∈ new, targetID ∈ pref) ∧
      ((addPreferred actives k iter num sel).1 = 0 ∨
        ∀ j, j < k → pref.get (moveIterToNextRingElem^[j] iter) ∈ actives →
          pref.get (moveIterToNextRingElem^[j] iter) ∈
            (addPreferred actives k iter num sel).2.outTargets) := by
  induction k generalizing iter num sel with
  | zero =>
    exact ⟨[], .nil h, rfl, fun _ hmem => (by cases hmem), .inr fun j hj => by cases hj⟩
  | succ k ih =>
    rw [addPreferred]
    split
    · rename_i hzero
      exact ⟨[], .nil h, rfl, fun _ hmem => (by cases hmem), .inl hzero⟩
    · split_ifs with hc
      · have hpush := Picks.push h hc.1 hc.2
        obtain ⟨new, hpicks, hcount, hpref, hall⟩ :=
          ih (moveIterToNextRingElem iter) (num - 1) hpush.matching
        refine ⟨_ :: new, hpush.trans hpicks, ?_, ?_, hall.imp_right fun hall j hj hactive => ?_⟩
        · rw [length_cons]
          omega
        · intro t hmem
          rcases mem_cons.mp hmem with rfl | hmem
          · exact get_mem _ _
          · exact hpref t hmem
        · cases j with
          | zero =>
            rw [hpicks.outTargets]
            exact mem_append_left _ (mem_append_right _ mem_cons_self)
          | succ j => exact hall j (Nat.lt_of_succ_lt_succ hj) hactive
      · obtain ⟨new, hpicks, hcount, hpref, hall⟩ := ih (moveIterToNextRingElem iter) num h
        refine ⟨new, hpicks, hcount, hpref, hall.imp_right fun hall j hj hactive => ?_⟩
        cases j with
        | zero =>
          have hchosen : pref.get iter ∈ sel.chosenTargets := by
            by_contra hnot
            exact hc ⟨hactive, hnot⟩
          rw [hpicks.outTargets]
          exact mem_append_left _ ((h _).mp hchosen)
        | succ j => exact hall j (Nat.lt_of_succ_lt_succ hj) hactive

theorem addPreferred_length
    (iter : Fin pref.length) (num : ℕ) (h : sel.Matches) :
    ∃ new, Picks actives sel new
        (addPreferred actives pref.length iter num sel).2 ∧
      (addPreferred actives pref.length iter num sel).1 + new.length =
        num ∧
      new.length = min num ((freshTargets actives sel.outTargets).filter
        fun targetID => decide (targetID ∈ pref)).length := by
  obtain ⟨new, hpicks, hcount, hpref, hall⟩ :=
    addPreferred_picks actives pref.length iter num h
  refine ⟨new, hpicks, hcount, ?_⟩
  have hle : new.length ≤ ((freshTargets actives sel.outTargets).filter
      fun targetID => decide (targetID ∈ pref)).length := by
    refine (subperm_of_subset hpicks.nodup fun t hmem => ?_).length_le
    rw [mem_filter, mem_freshTargets, decide_eq_true_eq]
    exact ⟨⟨hpicks.active t hmem, hpicks.fresh t hmem⟩, hpref t hmem⟩
  rcases hall with hzero | hall
  · omega
  · have hge : ((freshTargets actives sel.outTargets).filter
        fun targetID => decide (targetID ∈ pref)).length ≤ new.length := by
      refine (subperm_of_subset (nodup_freshTargets.sublist filter_sublist)
        fun t hmem => ?_).length_le
      rw [mem_filter, mem_freshTargets, decide_eq_true_eq] at hmem
      obtain ⟨⟨hactive, hfresh⟩, hmem⟩ := hmem
      obtain ⟨iter', rfl⟩ := get_of_mem hmem
      obtain ⟨j, hj, rfl⟩ := exists_iterate_moveIterToNextRingElem iter iter'
      have hout := hall j hj hactive
      rw [hpicks.outTargets, mem_append] at hout
      exact hout.resolve_left hfresh
    omega

end

/-- The walk ends if the pool has enough fresh targets. -/
theorem addActive_picks (num : ℕ) (iter : Fin actives.toList.length) (h : sel.Matches)
    (hnum : num ≤ (freshTargets actives sel.outTargets).length) :
    ∃ sel' new, (∀ᶠ fuel in atTop, addActive fuel iter num sel = .ok sel') ∧
      Picks actives sel new sel' ∧ new.length = num := by
  induction num generalizing iter sel with
  | zero => exact ⟨sel, [], eventually_of_succ (.of_forall fun _ => rfl) fun _ => rfl, .nil h, rfl⟩
  | succ num ih =>
    have htake : ∀ iter : Fin actives.toList.length,
        actives.toList.get iter ∉ sel.chosenTargets → ∃ sel' new,
          (∀ᶠ fuel in atTop, addActive fuel iter (num + 1) sel = .ok sel') ∧
          Picks actives sel new sel' ∧ new.length = num + 1 := by
      intro iter hfresh
      have hpush := @Picks.push actives _ _ h (get_mem _ iter) hfresh
      have hcount := hpush.length_freshTargets
      rw [length_singleton] at hcount
      obtain ⟨sel', new, hgives, hpicks, hnew⟩ :=
        ih (moveIterToNextRingElem iter) hpush.matching (by omega)
      refine ⟨sel', _ :: new, eventually_of_succ hgives fun fuel => ?_, hpush.trans hpicks,
        congrArg Nat.succ hnew⟩
      rw [addActive, if_neg (Nat.succ_ne_zero _), if_pos hfresh]
      rfl
    -- Every step that takes nothing comes closer to a fresh target.
    have hwalk : ∀ d (iter : Fin actives.toList.length),
        actives.toList.get (moveIterToNextRingElem^[d] iter) ∉ sel.outTargets →
        ∃ sel' new,
          (∀ᶠ fuel in atTop, addActive fuel iter (num + 1) sel = .ok sel') ∧
          Picks actives sel new sel' ∧ new.length = num + 1 := by
      intro d
      induction d with
      | zero => exact fun iter hfresh => htake iter fun hmem => hfresh ((h _).mp hmem)
      | succ d ihd =>
        intro iter hfresh
        by_cases hcur : actives.toList.get iter ∈ sel.chosenTargets
        · obtain ⟨sel', new, hgives, hpicks⟩ := ihd (moveIterToNextRingElem iter) hfresh
          refine ⟨sel', new, eventually_of_succ hgives fun fuel => ?_, hpicks⟩
          rw [addActive, if_neg (Nat.succ_ne_zero _), if_neg (not_not_intro hcur)]
        · exact htake iter hcur
    obtain ⟨t, hmem⟩ := exists_mem_of_length_pos (Nat.lt_of_lt_of_le (Nat.succ_pos _) hnum)
    rw [mem_freshTargets] at hmem
    obtain ⟨iter', rfl⟩ := get_of_mem hmem.1
    obtain ⟨d, -, rfl⟩ := exists_iterate_moveIterToNextRingElem iter iter'
    exact hwalk d iter hmem.2

/-- If there are not enough fresh targets, some are wanted after every step. -/
theorem addActive_running (fuel : ℕ) (iter : Fin actives.toList.length) (num : ℕ)
    (h : sel.Matches)
    (hnum : (freshTargets actives sel.outTargets).length < num) :
    addActive fuel iter num sel = .error .running := by
  induction fuel generalizing iter num sel with
  | zero => rfl
  | succ fuel ih =>
    rw [addActive, if_neg (by omega)]
    split
    · rename_i hfresh
      have hpush := @Picks.push actives _ _ h (get_mem _ iter) hfresh
      have hcount := hpush.length_freshTargets
      rw [length_singleton] at hcount
      exact ih _ _ hpush.matching (by omega)
    · exact ih _ _ h hnum

section
variable {num : ℕ} {pref : List UInt16} (hpref : pref ≠ [])

theorem length_freshTargets_le (actives : UInt16Set) (out : List UInt16) :
    (freshTargets actives out).length ≤ actives.toList.length :=
  length_filter_le ..

theorem chooseStorageNodesWithPref_preferred (h : sel.Matches) (random : Random) :
    Gives (fun fuel => chooseStorageNodesWithPref fuel actives num pref hpref false
      sel) random fun sel' => ∃ new, Picks actives sel new sel' ∧
        new.length = min num ((freshTargets actives sel.outTargets).filter
          fun targetID => decide (targetID ∈ pref)).length := by
  by_cases hempty : actives.toList = []
  · simp only [chooseStorageNodesWithPref, dif_pos hempty, gives_pure]
    refine ⟨[], .nil h, ?_⟩
    rw [freshTargets, hempty]
    exact (Nat.min_zero _).symm
  · simp only [chooseStorageNodesWithPref, dif_neg hempty, gt_iff_lt, ← min_def_lt']
    refine (moveIterToRandomElem_gives hpref random).bind fun iter random _ => ?_
    have hnot : ¬((false) ∧ (addPreferred actives pref.length iter
      (min num actives.toList.length) sel).1 ≠ 0) := fun h => by cases h.1
    simp only [if_neg hnot, gives_pure]
    obtain ⟨new, hpicks, -, hnew⟩ := addPreferred_length actives iter
      (min num actives.toList.length) h
    refine ⟨new, hpicks, hnew.trans ?_⟩
    have hle := length_filter_le (fun targetID => decide (targetID ∈ pref))
      (freshTargets actives sel.outTargets)
    have hle' := length_freshTargets_le actives sel.outTargets
    omega

theorem chooseStorageNodesWithPref_any (h : sel.Matches) (random : Random)
    (hnum : min num actives.toList.length ≤
      (freshTargets actives sel.outTargets).length) :
    Gives (fun fuel => chooseStorageNodesWithPref fuel actives num pref hpref true
      sel) random fun sel' => ∃ new, Picks actives sel new sel' ∧
        new.length = min num actives.toList.length := by
  by_cases hempty : actives.toList = []
  · simp only [chooseStorageNodesWithPref, dif_pos hempty, gives_pure]
    refine ⟨[], .nil h, ?_⟩
    rw [hempty]
    exact (Nat.min_zero _).symm
  · simp only [chooseStorageNodesWithPref, dif_neg hempty, gt_iff_lt, ← min_def_lt']
    refine (moveIterToRandomElem_gives hpref random).bind fun iter random _ => ?_
    obtain ⟨new, hpicks, hcount, -⟩ := addPreferred_length actives iter
      (min num actives.toList.length) h
    have hfresh := hpicks.length_freshTargets
    by_cases hzero : (addPreferred actives pref.length iter
        (min num actives.toList.length) sel).1 = 0
    · simp only [hzero, ne_eq, not_true_eq_false, and_false, if_false, gives_pure]
      exact ⟨new, hpicks, by omega⟩
    · simp only [hzero, ne_eq, not_false_eq_true, and_true, if_true]
      refine (moveIterToRandomElem_gives hempty random).bind fun iter' random _ => ?_
      obtain ⟨sel', new', hgives, hpicks', hnew'⟩ := addActive_picks _ iter' hpicks.matching
        (Nat.le_of_add_le_add_right (hcount.le.trans (hnum.trans hfresh.ge)))
      refine (gives_liftM hgives).mpr ⟨new ++ new', hpicks.trans hpicks', ?_⟩
      rw [length_append, hnew']
      omega

/-- The pass does not end if it wants more targets than there are fresh ones. -/
theorem chooseStorageNodesWithPref_hangs (h : sel.Matches) (random : Random)
    (hnum : (freshTargets actives sel.outTargets).length <
      min num actives.toList.length) :
    Hangs (fun fuel => chooseStorageNodesWithPref fuel actives num pref hpref true
      sel) random := by
  have hempty : actives.toList ≠ [] := by
    intro hempty
    rw [hempty] at hnum
    exact Nat.not_lt_zero _ (Nat.lt_of_lt_of_le hnum (Nat.min_le_right _ _))
  simp only [chooseStorageNodesWithPref, dif_neg hempty, gt_iff_lt, ← min_def_lt']
  refine (moveIterToRandomElem_gives hpref random).bind_hangs fun iter random _ => ?_
  obtain ⟨new, hpicks, hcount, -⟩ := addPreferred_length actives iter
    (min num actives.toList.length) h
  have hfresh := hpicks.length_freshTargets
  have hpos : ¬(addPreferred actives pref.length iter
      (min num actives.toList.length) sel).1 = 0 := by omega
  simp only [hpos, ne_eq, not_false_eq_true, and_true, if_true]
  refine (moveIterToRandomElem_gives hempty random).bind_hangs fun iter' random _ => ?_
  exact hangs_liftM fun fuel => addActive_running fuel iter' _ hpicks.matching (by omega)

end

end TargetChooser

/-! ## Counting -/

section
variable (pools : CapacityPoolType → UInt16Set)

def poolSize (poolType : CapacityPoolType) : ℕ := (pools poolType).toList.length

/-- The number of preferred targets in a pool, without repetitions. -/
def numPreferred (preferredTargets : List UInt16) (poolType : CapacityPoolType) : ℕ :=
  ((pools poolType).toList.filter fun targetID => decide (targetID ∈ preferredTargets)).length

/-- The number of targets that were chosen from a pool. -/
def numTaken (outTargets : List UInt16) (poolType : CapacityPoolType) : ℕ :=
  ((pools poolType).toList.filter fun targetID => decide (targetID ∈ outTargets)).length

def PoolsDisjoint : Prop :=
  ∀ targetID poolType poolType', targetID ∈ pools poolType → targetID ∈ pools poolType' →
    poolType = poolType'

structure FromPools (outTargets : List UInt16) : Prop where
  nodup : outTargets.Nodup
  mem : ∀ targetID ∈ outTargets, ∃ poolType, targetID ∈ pools poolType

end

namespace TargetChooser

variable {pools : CapacityPoolType → UInt16Set} {type : CapacityPoolType} {out new : List UInt16}

theorem length_freshTargets_add_numTaken (pools : CapacityPoolType → UInt16Set)
    (type : CapacityPoolType) (out : List UInt16) :
    (freshTargets (pools type) out).length + numTaken pools out type =
      poolSize pools type := by
  rw [freshTargets, numTaken, poolSize, Nat.add_comm]
  simp only [decide_not]
  exact (length_eq_length_filter_add _).symm

theorem freshTargets_of_numTaken (h : numTaken pools out type = 0) :
    freshTargets (pools type) out = (pools type).toList := by
  refine filter_eq_self.mpr fun t hmem => decide_eq_true fun hout => ?_
  have hfilter := filter_eq_nil_iff.mp (length_eq_zero_iff.mp h) t hmem
  exact hfilter (decide_eq_true hout)

theorem Adds.fromPools (h : Adds (pools type) out new) (hfrom : FromPools pools out) :
    FromPools pools (out ++ new) := by
  refine ⟨nodup_append.mpr ⟨hfrom.nodup, h.nodup, fun t hmem t' hmem' heq => ?_⟩, fun t hmem => ?_⟩
  · exact h.fresh t' hmem' (heq ▸ hmem)
  · rcases mem_append.mp hmem with hmem | hmem
    · exact hfrom.mem t hmem
    · exact ⟨type, h.active t hmem⟩

theorem Adds.numTaken (h : Adds (pools type) out new) (hdisj : PoolsDisjoint pools)
    (type' : CapacityPoolType) :
    numTaken pools (out ++ new) type' =
      numTaken pools out type' + if type' = type then new.length else 0 := by
  split_ifs with hc
  · subst hc
    have hold := length_freshTargets_add_numTaken pools type' out
    have hnew := length_freshTargets_add_numTaken pools type' (out ++ new)
    have hfresh := h.length_freshTargets
    omega
  · rw [Congfs.numTaken, Congfs.numTaken, Nat.add_zero]
    congr 1
    refine filter_congr fun t hmem => decide_eq_decide.mpr ?_
    rw [mem_append]
    refine ⟨fun hout => hout.resolve_right fun hnew => ?_, .inl⟩
    exact hc (hdisj t _ _ hmem (h.active t hnew))

end TargetChooser
end Congfs
