import Mathlib.Data.Int.CardIntervalMod
import Congfs.Nodes.TargetChoice

/-!
# Targets in turn

`chooseStorageTargetsRoundRobin` remembers the target that it chose last by its id, and the next
call starts behind it. The calls on one pool are one walk around the ring of its targets, in which
no target comes twice more often than another.
-/

namespace Congfs.TargetCapacityPools

open List

/-- The pool that is used: the first one that contains any targets. -/
def activePool (s : TargetCapacityPools) : UInt16Set :=
  if !(s.pools .normal).toList.isEmpty then s.pools .normal
  else if !(s.pools .low).toList.isEmpty then s.pools .low
  else s.pools .emergency

/-- `lower_bound`, or the begin if that is the end. -/
def lowerBoundElem (targets : UInt16Set) (targetID : UInt16) (h : targets.toList ≠ []) :
    Fin targets.toList.length :=
  if hpos : targets.toList.findIdx (targetID ≤ ·) < targets.toList.length then ⟨_, hpos⟩
  else ⟨0, length_pos_iff.mpr h⟩

/-- The loop of `chooseStorageNodesNoPrefRoundRobin`. -/
def addNextTargets {l : List UInt16} : ℕ → Fin l.length → List UInt16 → List UInt16 × Fin l.length
  | 0, iter, outTargets => (outTargets, iter)
  | numTargets + 1, iter, outTargets =>
    let iter := moveIterToNextRingElem iter
    addNextTargets numTargets iter (outTargets ++ [l.get iter])

/-- The chosen targets, and the new `lastRoundRobinTarget`. -/
def chooseStorageNodesNoPrefRoundRobin (activeTargets : UInt16Set) (numTargets : ℕ)
    (lastRoundRobinTarget : UInt16) : List UInt16 × UInt16 :=
  if h : activeTargets.toList = [] then ([], lastRoundRobinTarget)
  else
    let activeTargetsSize := activeTargets.toList.length
    let numTargets := if activeTargetsSize < numTargets then activeTargetsSize else numTargets
    let (outTargets, iter) :=
      addNextTargets numTargets (lowerBoundElem activeTargets lastRoundRobinTarget h) []
    (outTargets, activeTargets.toList.get iter)

def chooseStorageTargetsRoundRobin (s : TargetCapacityPools) (numTargets : ℕ)
    (lastRoundRobinTarget : UInt16) : List UInt16 × UInt16 :=
  chooseStorageNodesNoPrefRoundRobin s.activePool numTargets lastRoundRobinTarget

/-- What calls choose, each with the pools that it finds and the number of targets that it asks
for. -/
def chooseInTurn : List (TargetCapacityPools × ℕ) → UInt16 → List (List UInt16)
  | [], _ => []
  | (s, numTargets) :: calls, lastRoundRobinTarget =>
    let (outTargets, last) := s.chooseStorageTargetsRoundRobin numTargets lastRoundRobinTarget
    outTargets :: chooseInTurn calls last

/-! ## The walk -/

/-- The elements behind `iter`. -/
def ringWalk {l : List UInt16} (iter : Fin l.length) (n : ℕ) : List UInt16 :=
  (range n).map fun i => l.get (moveIterToNextRingElem^[i + 1] iter)

section
variable {l : List UInt16} {iter : Fin l.length}

theorem ringWalk_add :
    ringWalk iter (m + n) = ringWalk iter m ++ ringWalk (moveIterToNextRingElem^[m] iter) n := by
  unfold ringWalk
  rw [range_add, map_append, map_map]
  congr 2
  funext i
  rw [Function.comp_apply, ← Function.iterate_add_apply, add_assoc, add_comm m]

theorem addNextTargets_eq :
    addNextTargets n iter out = (out ++ ringWalk iter n, moveIterToNextRingElem^[n] iter) := by
  induction n generalizing iter out with
  | zero => rw [ringWalk, range_zero, map_nil, append_nil]; rfl
  | succ n ih =>
    rw [addNextTargets, ih, append_assoc, Function.iterate_succ_apply, add_comm n, ringWalk_add]
    rfl

theorem nodup_ringWalk (hl : l.Nodup) (hn : n ≤ l.length) : (ringWalk iter n).Nodup := by
  refine nodup_range.map_on fun i hi j hj h => ?_
  have hval := congrArg Fin.val (nodup_iff_injective_get.mp hl h)
  rw [val_iterate_moveIterToNextRingElem, val_iterate_moveIterToNextRingElem] at hval
  have hmod : i ≡ j [MOD l.length] :=
    Nat.ModEq.add_right_cancel' 1 (Nat.ModEq.add_left_cancel' iter.val hval)
  exact hmod.eq_of_lt_of_lt ((mem_range.mp hi).trans_le hn) ((mem_range.mp hj).trans_le hn)

/-- Every element has come once in each round, and at most once in the round that is not over. -/
theorem count_ringWalk (hl : l.Nodup) : n / l.length ≤ (ringWalk iter n).count (l.get j) ∧
      (ringWalk iter n).count (l.get j) ≤ n / l.length + 1 := by
  have hiff (i : ℕ) : l.get (moveIterToNextRingElem^[i + 1] iter) = l.get j ↔
      i ≡ j + (l.length - (iter + 1)) [MOD l.length] := by
    have hsum : j.val + (l.length - (iter + 1)) + (iter + 1) = j.val + l.length := by omega
    rw [(nodup_iff_injective_get.mp hl).eq_iff, Fin.ext_iff, val_iterate_moveIterToNextRingElem,
      ← Nat.ModEq.add_iff_right (Nat.ModEq.refl (iter.val + 1)), hsum, Nat.ModEq, Nat.add_mod_right,
      Nat.mod_eq_of_lt j.isLt, Nat.add_left_comm]
  have hcount : (ringWalk iter n).count (l.get j) =
      n.count (· ≡ j + (l.length - (iter + 1)) [MOD l.length]) := by
    rw [ringWalk, count, countP_map, Nat.count]
    refine countP_congr fun i _ => ?_
    simpa using hiff i
  rw [hcount, Nat.count_modEq_card _ (Nat.zero_lt_of_lt j.isLt)]
  split <;> omega

end

variable {targets : UInt16Set}

theorem lowerBoundElem_get (h : targets.toList ≠ []) (iter : Fin targets.toList.length) :
    lowerBoundElem targets (targets.toList.get iter) h = iter := by
  have hidx : targets.toList.findIdx (targets.toList.get iter ≤ ·) = iter := by
    rw [findIdx_eq iter.isLt]
    refine ⟨decide_eq_true (UInt16.le_refl _), fun j hj => decide_eq_false ?_⟩
    exact UInt16.not_le.mpr (pairwise_iff_getElem.mp targets.sorted j iter _ iter.isLt hj)
  unfold lowerBoundElem
  rw [dif_pos (hidx ▸ iter.isLt)]
  exact Fin.ext hidx

theorem chooseStorageNodesNoPrefRoundRobin_eq (h : targets.toList ≠ []) (n : ℕ) (last : UInt16) :
    chooseStorageNodesNoPrefRoundRobin targets n last =
      (ringWalk (lowerBoundElem targets last h) (min n targets.toList.length), targets.toList.get
          (moveIterToNextRingElem^[min n targets.toList.length]
          (lowerBoundElem targets last h))) := by
  have hmin : (if targets.toList.length < n then targets.toList.length else n) =
      min n targets.toList.length := by
    split <;> omega
  rw [chooseStorageNodesNoPrefRoundRobin, dif_neg h]
  simp only [hmin, addNextTargets_eq, nil_append]

theorem chooseInTurn_eq (h : targets.toList ≠ [])
    (hcalls : ∀ c ∈ calls, c.1.activePool = targets) (last : UInt16) :
    Forall₂ (fun c out => ∃ iter : Fin targets.toList.length,
        out = ringWalk iter (min c.2 targets.toList.length)) calls (chooseInTurn calls last) ∧
      ∀ k, ∃ n, ((chooseInTurn calls last).take k).flatten =
        ringWalk (lowerBoundElem targets last h) n := by
  induction calls generalizing last with
  | nil => exact ⟨.nil, fun k => ⟨0, by rw [chooseInTurn, take_nil]; rfl⟩⟩
  | cons c calls ih =>
    obtain ⟨rfl, hcalls⟩ := forall_mem_cons.mp hcalls
    have hcall := chooseStorageNodesNoPrefRoundRobin_eq h c.2 last
    obtain ⟨hall, hprefix⟩ := ih hcalls (c.1.chooseStorageTargetsRoundRobin c.2 last).2
    refine ⟨.cons ⟨_, congrArg Prod.fst hcall⟩ hall, fun k => ?_⟩
    cases k with
    | zero => exact ⟨0, rfl⟩
    | succ k =>
      obtain ⟨n, hn⟩ := hprefix k
      -- the next call finds the place where this one ended
      rw [chooseStorageTargetsRoundRobin, hcall, lowerBoundElem_get] at hn
      refine ⟨min c.2 c.1.activePool.toList.length + n, ?_⟩
      rw [ringWalk_add, ← hn, ← hcall]
      exact congrArg (· ++ _) (congrArg Prod.fst hcall)

theorem chooseStorageTargetsRoundRobin_fair (targets : UInt16Set) (h : targets.toList ≠ [])
    (calls : List (TargetCapacityPools × ℕ)) (hcalls : ∀ c ∈ calls, c.1.activePool = targets)
    (lastRoundRobinTarget : UInt16) :
    Forall₂ (fun c out => out.length = min c.2 targets.toList.length ∧ out.Nodup ∧
        ∀ t ∈ out, t ∈ targets) calls (chooseInTurn calls lastRoundRobinTarget) ∧
      ∀ k, ∀ t ∈ targets, ∀ t' ∈ targets,
        ((chooseInTurn calls lastRoundRobinTarget).take k).flatten.count t ≤
          ((chooseInTurn calls lastRoundRobinTarget).take k).flatten.count t' + 1 := by
  obtain ⟨hall, hprefix⟩ := chooseInTurn_eq h hcalls lastRoundRobinTarget
  refine ⟨hall.imp ?_, fun k t ht t' ht' => ?_⟩
  · rintro c out ⟨iter, rfl⟩
    refine ⟨by rw [ringWalk, length_map, length_range],
      nodup_ringWalk targets.nodup (min_le_right ..), fun t ht => ?_⟩
    obtain ⟨i, -, rfl⟩ := mem_map.mp ht
    exact get_mem ..
  · obtain ⟨n, hn⟩ := hprefix k
    obtain ⟨j, rfl⟩ := get_of_mem ht
    obtain ⟨j', rfl⟩ := get_of_mem ht'
    rw [hn]
    exact (count_ringWalk targets.nodup).2.trans
      (Nat.add_le_add_right (count_ringWalk targets.nodup).1 1)

theorem chooseStorageTargetsRoundRobin_fair_low :
    ∃ s : TargetCapacityPools, chooseInTurn ([2, 0, 5].map (s, ·)) 4 = [[9, 2], [], [6, 9, 2]] ∧
      ∀ t ∈ s.activePool, ∀ t' ∈ s.activePool,
        ((chooseInTurn ([2, 0, 5].map (s, ·)) 4).take 3).flatten.count t ≤
          ((chooseInTurn ([2, 0, 5].map (s, ·)) 4).take 3).flatten.count t' + 1 := by
  let s : TargetCapacityPools :=
    { init with pools := Function.update (fun _ => ∅) .low ⟨[2, 6, 9], by decide⟩ }
  refine ⟨s, by decide, (chooseStorageTargetsRoundRobin_fair _ (by decide) _
    (fun c hc => ?_) 4).2 3⟩
  obtain ⟨_, -, rfl⟩ := mem_map.mp hc
  rfl

end Congfs.TargetCapacityPools
