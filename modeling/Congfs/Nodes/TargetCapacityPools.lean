import Congfs.Lib.Run
import Congfs.Nodes.Basic

/-!
# Capacity pools of storage targets

Targets are kept in one of three pools by their free space. The choosers that spread a file over
failure domains use the same targets grouped by node, and a map from targets to nodes says which
group an entry is in. The three are updated together; `Consistent` is what a chooser relies on.

An update that leaves a target in its pool but gives it another node does not take it out of the
group of the old node (`Rehomes`).
-/

namespace Congfs

open StdMap StdSet
open Function

abbrev GroupedTargets := StdMap UInt16Set ((· < ·) : NumNodeID → NumNodeID → Prop)

abbrev TargetMap := UInt16Map NumNodeID

inductive CapacityPoolType
  | normal
  | low
  | emergency
  deriving DecidableEq, Repr

/-- The pools in the order of the loops. -/
def CapacityPoolType.all : List CapacityPoolType := [.normal, .low, .emergency]

theorem CapacityPoolType.mem_all (poolType : CapacityPoolType) : poolType ∈ all := by
  cases poolType <;> decide

namespace GroupedTargets

section

variable (groups : GroupedTargets) (nodeID : NumNodeID)

def group : UInt16Set :=
  (groups.find nodeID).getD ∅

variable (targetID : UInt16)

/-- `groups[nodeID].insert(targetID)` -/
def insertTarget : GroupedTargets :=
  groups.assign nodeID ((groups.group nodeID).insert targetID)

/-- Erasure as in `removeFromOthersUnlocked`, through the inserting operator. -/
def eraseTarget : GroupedTargets :=
  let erased := (groups.group nodeID).erase targetID
  let groups := groups.assign nodeID erased
  if erased.toList.isEmpty then groups.erase nodeID else groups

/-- Erasure as in `remove`, which looks the node and the target up first. -/
def eraseFound : GroupedTargets :=
  match groups.find nodeID with
  | none => groups
  | some targets =>
    if targetID ∈ targets then
      let erased := targets.erase targetID
      if erased.toList.isEmpty then groups.erase nodeID else groups.assign nodeID erased
    else groups

def NoneEmpty : Prop :=
  ∀ nodeID targets, groups.find nodeID = some targets → targets ≠ ∅

end

section
variable {groups : GroupedTargets} {n n' : NumNodeID} {t t' : UInt16} {targets : UInt16Set}

theorem group_assign :
    group (groups.assign n targets) n' = if n' = n then targets else groups.group n' := by
  unfold group
  rw [find_assign]
  split <;> rfl

theorem group_erase : group (groups.erase n) n' = if n' = n then ∅ else groups.group n' := by
  unfold group
  rw [find_erase]
  split <;> rfl

theorem NoneEmpty.assign (h : groups.NoneEmpty) (hne : targets ≠ ∅) :
    NoneEmpty (groups.assign n targets) := by
  intro n' targets' hfind
  rw [find_assign] at hfind
  split at hfind
  · cases hfind
    exact hne
  · exact h n' targets' hfind

theorem NoneEmpty.erase (h : groups.NoneEmpty) : NoneEmpty (erase groups n) := by
  intro n' targets' hfind
  rw [find_erase] at hfind
  split at hfind
  · cases hfind
  · exact h n' targets' hfind

theorem mem_group_insertTarget :
    t' ∈ (groups.insertTarget n t).group n' ↔ n' = n ∧ t' = t ∨ t' ∈ groups.group n' := by
  rw [insertTarget, group_assign]
  split_ifs with h
  · simp [h]
  · simp [h]

theorem NoneEmpty.insertTarget (h : groups.NoneEmpty) : (groups.insertTarget n t).NoneEmpty := by
  refine h.assign fun hempty => ?_
  exact eq_empty_iff.mp hempty t (mem_insert_iff.mpr (.inl rfl))

/-- Both erasures leave the node with the remaining targets, or without a group. -/
theorem group_of_erased (hn : targets = (groups.group n).erase t) :
    t' ∈ group (if targets.toList.isEmpty then groups.erase n else groups.assign n targets) n' ↔
      t' ∈ groups.group n' ∧ ¬(n' = n ∧ t' = t) := by
  subst hn
  split_ifs with hempty
  · have hnone : ∀ x, x ∉ (groups.group n).erase t :=
      eq_empty_iff.mp (StdSet.ext (List.isEmpty_iff.mp hempty))
    rw [group_erase]
    split_ifs with h
    · subst h
      simpa using hnone t'
    · simp [h]
  · rw [group_assign]
    split_ifs with h
    · simp [h]
    · simp [h]

theorem NoneEmpty.erased (h : groups.NoneEmpty) :
    NoneEmpty (if targets.toList.isEmpty then groups.erase n else groups.assign n targets) := by
  split_ifs with hne
  · exact h.erase
  · refine h.assign ?_
    rintro rfl
    exact hne rfl

theorem eraseTarget_eq : groups.eraseTarget n t =
    let erased := (groups.group n).erase t
    if erased.toList.isEmpty then groups.erase n else groups.assign n erased := by
  unfold eraseTarget
  dsimp only
  split
  · refine ext_find fun k => ?_
    rw [find_erase, find_erase]
    split_ifs with hk
    · rfl
    · exact find_assign_of_ne hk
  · rfl

theorem eraseFound_eq (h : t ∈ groups.group n) :
    groups.eraseFound n t = groups.eraseTarget n t := by
  rw [eraseTarget_eq]
  unfold eraseFound group at *
  cases hfind : groups.find n with
  | none => simp [hfind] at h
  | some targets =>
    simp only [hfind, Option.getD_some] at h ⊢
    rw [if_pos h]

theorem mem_group_eraseTarget :
    t' ∈ (groups.eraseTarget n t).group n' ↔ t' ∈ groups.group n' ∧ ¬(n' = n ∧ t' = t) := by
  rw [eraseTarget_eq]
  exact group_of_erased rfl

theorem NoneEmpty.eraseTarget (h : groups.NoneEmpty) : (groups.eraseTarget n t).NoneEmpty := by
  rw [eraseTarget_eq]
  exact h.erased

end

end GroupedTargets

structure TargetCapacityPools where
  pools : CapacityPoolType → UInt16Set
  groupedTargetPools : CapacityPoolType → GroupedTargets
  targetMap : TargetMap

namespace TargetCapacityPools

def init : TargetCapacityPools := ⟨fun _ => ∅, fun _ => ∅, ∅⟩

def getNodeIDFromTargetID (targetID : UInt16) (targetMap : TargetMap) : NumNodeID :=
  (targetMap.find targetID).getD 0

open CapacityPoolType

section

variable (s : TargetCapacityPools)

section

variable (targetID : UInt16)

/-- The first pool other than `keepPool` that has the target. -/
def otherPool (keepPool : CapacityPoolType) : Option CapacityPoolType :=
  all.find? fun poolType => poolType ≠ keepPool && targetID ∈ s.pools poolType

def removeFromOthersUnlocked
    (previousNodeID : NumNodeID) (keepPool : CapacityPoolType) : TargetCapacityPools :=
  match s.otherPool targetID keepPool with
  | none => s
  | some poolType =>
    { s with
      pools := update s.pools poolType ((s.pools poolType).erase targetID)
      groupedTargetPools :=
        if previousNodeID ≠ 0 then
          update s.groupedTargetPools poolType
            ((s.groupedTargetPools poolType).eraseTarget previousNodeID targetID)
        else s.groupedTargetPools }

variable (nodeID : NumNodeID) (poolType : CapacityPoolType)

/-- The two insertions of `addOrUpdateUnlocked`. -/
def inserted : TargetCapacityPools :=
  { s with
    pools := update s.pools poolType ((s.pools poolType).insert targetID)
    groupedTargetPools := update s.groupedTargetPools poolType
      ((s.groupedTargetPools poolType).insertTarget nodeID targetID) }

def addOrUpdateUnlocked : Bool × TargetCapacityPools :=
  let isNewInsertion := targetID ∉ s.pools poolType ||
    targetID ∉ (s.groupedTargetPools poolType).group nodeID
  let s := s.inserted targetID nodeID poolType
  let s :=
    if isNewInsertion then
      s.removeFromOthersUnlocked targetID (getNodeIDFromTargetID targetID s.targetMap) poolType
    else s
  (isNewInsertion, { s with targetMap := s.targetMap.assign targetID nodeID })

def addOrUpdate : Bool × TargetCapacityPools :=
  s.addOrUpdateUnlocked targetID nodeID poolType

def poolOf : Option CapacityPoolType :=
  all.find? fun poolType => targetID ∈ s.pools poolType

/-- The check that `addIfNotExists` makes under each of its two locks. -/
def needUpdate : Bool :=
  match s.poolOf targetID with
  | none => true
  | some _ => nodeID != getNodeIDFromTargetID targetID s.targetMap

/-- No other call runs between the quick check and the second one here. -/
def addIfNotExists : Bool × TargetCapacityPools :=
  if !s.needUpdate targetID nodeID then (false, s)
  else
    -- a target that is in a pool already stays there
    let poolType := (s.poolOf targetID).getD poolType
    if s.needUpdate targetID nodeID then
      (true, (s.addOrUpdateUnlocked targetID nodeID poolType).2)
    else (false, s)

def remove : TargetCapacityPools :=
  match s.poolOf targetID with
  | none => s
  | some poolType =>
    let nodeID := getNodeIDFromTargetID targetID s.targetMap
    { s with
      pools := update s.pools poolType ((s.pools poolType).erase targetID)
      groupedTargetPools :=
        if nodeID = 0 then s.groupedTargetPools
        else
          update s.groupedTargetPools poolType
            ((s.groupedTargetPools poolType).eraseFound nodeID targetID) }

end

/-- The groups of one pool. A target without a node is skipped. -/
def groupTargetsByNode (targets : List UInt16) (targetMap : TargetMap) : GroupedTargets :=
  targets.foldl (fun groups targetID =>
      let nodeID := getNodeIDFromTargetID targetID targetMap
      if nodeID = 0 then groups else groups.insertTarget nodeID targetID) ∅

def syncPoolsFromLists (lists : CapacityPoolType → List UInt16) (newTargetMap : TargetMap) :
    TargetCapacityPools :=
  let newPools : CapacityPoolType → UInt16Set := fun poolType => ofList (lists poolType)
  { pools := newPools
    groupedTargetPools := fun poolType =>
      groupTargetsByNode (newPools poolType).toList newTargetMap
    targetMap := newTargetMap }

/-! ## Calls -/

/-- A call with the arguments it is specified for: a node is known, and the lists of a
synchronisation are disjoint. -/
inductive Call
  | addOrUpdate (targetID : UInt16) (nodeID : NumNodeID) (poolType : CapacityPoolType)
    (known : nodeID ≠ 0)
  | addIfNotExists (targetID : UInt16) (nodeID : NumNodeID) (poolType : CapacityPoolType)
    (known : nodeID ≠ 0)
  | remove (targetID : UInt16)
  | syncPoolsFromLists (lists : CapacityPoolType → List UInt16) (newTargetMap : TargetMap)
    (disjoint : ∀ t p q, t ∈ lists p → t ∈ lists q → p = q)

def step : Call → TargetCapacityPools
  | .addOrUpdate targetID nodeID poolType _ => (s.addOrUpdate targetID nodeID poolType).2
  | .addIfNotExists targetID nodeID poolType _ => (s.addIfNotExists targetID nodeID poolType).2
  | .remove targetID => s.remove targetID
  | .syncPoolsFromLists lists newTargetMap _ => syncPoolsFromLists lists newTargetMap

end

/-! ## Consistency -/

structure Consistent (s : TargetCapacityPools) : Prop where
  pool_unique : ∀ t p q, t ∈ s.pools p → t ∈ s.pools q → p = q
  /-- It is in the groups of exactly its pool, under exactly the node recorded for it. -/
  mem_group_iff : ∀ t p n, t ∈ (s.groupedTargetPools p).group n ↔
    t ∈ s.pools p ∧ n ≠ 0 ∧ s.targetMap.find t = some n
  noneEmpty : ∀ p, (s.groupedTargetPools p).NoneEmpty

open GroupedTargets

theorem init_consistent : init.Consistent where
  pool_unique _ _ _ h := absurd h not_mem_empty
  mem_group_iff t _ _ := by
    simp [init, group]
  noneEmpty _ _ _ h := by
    simp [init] at h

/-- A node is recorded for the target, and it is not `nodeID`. -/
def OtherNode (s : TargetCapacityPools) (targetID : UInt16) (nodeID : NumNodeID) : Prop :=
  getNodeIDFromTargetID targetID s.targetMap ≠ 0 ∧
    getNodeIDFromTargetID targetID s.targetMap ≠ nodeID

/-- The call puts a target that stays in its pool under another node than the one recorded. -/
def Rehomes (s : TargetCapacityPools) : Call → Prop
  | .addOrUpdate targetID nodeID poolType _ =>
    targetID ∈ s.pools poolType ∧ s.OtherNode targetID nodeID
  | .addIfNotExists targetID nodeID _ _ =>
    (∃ poolType, targetID ∈ s.pools poolType) ∧ s.OtherNode targetID nodeID
  | .remove _ | .syncPoolsFromLists .. => False

section
variable {s s' : TargetCapacityPools} {t t' : UInt16} {n m : NumNodeID} {p q : CapacityPoolType}

theorem poolOf_eq_some_iff (hs : s.Consistent) : s.poolOf t = some p ↔ t ∈ s.pools p := by
  constructor
  · intro h
    have hmem := List.find?_some h
    exact of_decide_eq_true hmem
  · intro h
    cases hq : s.poolOf t with
    | none => exact absurd (decide_eq_true h) (List.find?_eq_none.mp hq p p.mem_all)
    | some q =>
      have hmem := List.find?_some hq
      rw [hs.pool_unique t p q h (of_decide_eq_true hmem)]

theorem poolOf_eq_none_iff : s.poolOf t = none ↔ ∀ p, t ∉ s.pools p := by
  simp [poolOf, List.find?_eq_none, mem_all]

theorem otherPool_some (h : s.otherPool t p = some q) : q ≠ p ∧ t ∈ s.pools q := by
  have hfound := List.find?_some h
  simpa using hfound

theorem otherPool_none (h : s.otherPool t p = none) (hq : q ≠ p) : t ∉ s.pools q := by
  have hnone := List.find?_eq_none.mp h q q.mem_all
  simpa [hq] using hnone

/-- `s'` is `s` with the target in pool `p` under node `n` and nowhere else. -/
structure Placed (s : TargetCapacityPools) (t : UInt16) (n : NumNodeID) (p : CapacityPoolType)
    (s' : TargetCapacityPools) : Prop where
  mem_pool : ∀ t' q, t' ∈ s'.pools q ↔ if t' = t then q = p else t' ∈ s.pools q
  mem_group : ∀ t' q m, t' ∈ (s'.groupedTargetPools q).group m ↔
    if t' = t then q = p ∧ m = n else t' ∈ (s.groupedTargetPools q).group m
  noneEmpty : ∀ q, (s'.groupedTargetPools q).NoneEmpty
  targetMap : s'.targetMap = s.targetMap.assign t n

theorem Placed.consistent (h : Placed s t n p s') (hs : s.Consistent) (hn : n ≠ 0) :
    s'.Consistent where
  pool_unique t' q q' hq hq' := by
    rw [h.mem_pool] at hq hq'
    by_cases ht : t' = t
    · rw [if_pos ht] at hq hq'
      rw [hq, hq']
    · rw [if_neg ht] at hq hq'
      exact hs.pool_unique t' q q' hq hq'
  mem_group_iff t' q m := by
    rw [h.mem_group, h.mem_pool, h.targetMap, find_assign]
    by_cases ht : t' = t
    · rw [if_pos ht, if_pos ht, if_pos ht, Option.some_inj, eq_comm (a := n)]
      exact and_congr_right fun _ => ⟨fun hm => ⟨hm ▸ hn, hm⟩, And.right⟩
    · rw [if_neg ht, if_neg ht, if_neg ht]
      exact hs.mem_group_iff t' q m
  noneEmpty := h.noneEmpty

theorem mem_pools_inserted : t' ∈ (s.inserted t n p).pools q ↔ q = p ∧ t' = t ∨ t' ∈ s.pools q := by
  unfold inserted
  by_cases hq : q = p
  · subst hq
    simp
  · simp [hq]

theorem mem_group_inserted : t' ∈ ((s.inserted t n p).groupedTargetPools q).group m ↔
    q = p ∧ m = n ∧ t' = t ∨ t' ∈ (s.groupedTargetPools q).group m := by
  unfold inserted
  by_cases hq : q = p
  · subst hq
    simp [mem_group_insertTarget]
  · simp [hq]

theorem noneEmpty_inserted (hs : s.Consistent) (q : CapacityPoolType) :
    ((s.inserted t n p).groupedTargetPools q).NoneEmpty := by
  unfold inserted
  by_cases hq : q = p
  · subst hq
    simpa using (hs.noneEmpty q).insertTarget
  · simpa [update_of_ne hq] using hs.noneEmpty q

theorem find_of_getNodeID (h : getNodeIDFromTargetID t s.targetMap = m) (hm : m ≠ 0) :
    s.targetMap.find t = some m := by
  subst h
  unfold getNodeIDFromTargetID at hm ⊢
  cases hfind : s.targetMap.find t with
  | none => simp [hfind] at hm
  | some m => rfl

theorem getNodeID_of_find (h : s.targetMap.find t = some m) :
    getNodeIDFromTargetID t s.targetMap = m := by
  rw [getNodeIDFromTargetID, h]
  rfl

section
variable (hs : s.Consistent)
include hs

theorem mem_group_iff_getNodeID : t ∈ (s.groupedTargetPools p).group m ↔
    t ∈ s.pools p ∧ m ≠ 0 ∧ getNodeIDFromTargetID t s.targetMap = m := by
  rw [hs.mem_group_iff]
  exact and_congr_right fun _ => and_congr_right fun hm =>
    ⟨getNodeID_of_find, fun h => find_of_getNodeID h hm⟩

/-- The two insertions without a removal: the target was in no other pool. -/
theorem placed_inserted (hn : n ≠ 0)
    (hpool : ∀ q, q ≠ p → t ∉ s.pools q) (hnode : ¬(t ∈ s.pools p ∧ s.OtherNode t n)) :
    Placed s t n p { s.inserted t n p with targetMap := s.targetMap.assign t n } where
  mem_pool t' q := by
    rw [mem_pools_inserted]
    grind
  mem_group t' q m := by
    rw [mem_group_inserted, mem_group_iff_getNodeID hs]
    unfold OtherNode at hnode
    grind
  noneEmpty := noneEmpty_inserted hs
  targetMap := rfl

/-- The insertions after which the target is taken out of another pool and its group there. -/
theorem placed_moved (hq : q ≠ p) (ht : t ∈ s.pools q) : Placed s t n p
      { pools := update (s.inserted t n p).pools q (((s.inserted t n p).pools q).erase t)
        groupedTargetPools :=
          if getNodeIDFromTargetID t s.targetMap ≠ 0 then
            update (s.inserted t n p).groupedTargetPools q
              (((s.inserted t n p).groupedTargetPools q).eraseTarget
                (getNodeIDFromTargetID t s.targetMap) t)
          else (s.inserted t n p).groupedTargetPools
        targetMap := s.targetMap.assign t n } where
  mem_pool t' r := by
    have hunique := hs.pool_unique t q
    by_cases hr : r = q
    · subst hr
      simp only [update_self, mem_erase_iff, mem_pools_inserted]
      grind
    · simp only [update_of_ne hr, mem_pools_inserted]
      grind
  mem_group t' r m := by
    have hunique := hs.pool_unique t q
    have hgroup : t ∈ (s.groupedTargetPools r).group m ↔ _ := mem_group_iff_getNodeID hs
    by_cases hzero : getNodeIDFromTargetID t s.targetMap = 0
    · simp only [hzero, ne_eq, not_true_eq_false, if_false, mem_group_inserted]
      grind
    · simp only [ne_eq, hzero, not_false_eq_true, if_true]
      by_cases hr : r = q
      · subst hr
        simp only [update_self, mem_group_eraseTarget, mem_group_inserted]
        grind
      · simp only [update_of_ne hr, mem_group_inserted]
        grind
  noneEmpty r := by
    split
    · by_cases hr : r = q
      · subst hr
        simpa using (noneEmpty_inserted hs r).eraseTarget
      · simpa [update_of_ne hr] using noneEmpty_inserted hs r
    · exact noneEmpty_inserted hs r
  targetMap := rfl

theorem addOrUpdateUnlocked_placed (hn : n ≠ 0) (hnode : ¬(t ∈ s.pools p ∧ s.OtherNode t n)) :
    Placed s t n p (s.addOrUpdateUnlocked t n p).2 := by
  unfold addOrUpdateUnlocked
  dsimp only
  have hother : ∀ q, q ≠ p → (t ∈ (s.inserted t n p).pools q ↔ t ∈ s.pools q) := by
    intro q hq
    rw [mem_pools_inserted]
    simp [hq]
  split_ifs with hold
  · unfold removeFromOthersUnlocked
    cases hfound : (s.inserted t n p).otherPool t p with
    | none =>
      have hpool : ∀ q, q ≠ p → t ∉ s.pools q := fun q hq hmem =>
        otherPool_none hfound hq ((hother q hq).mpr hmem)
      exact placed_inserted hs hn hpool hnode
    | some q =>
      obtain ⟨hq, hmem⟩ := otherPool_some hfound
      exact placed_moved hs hq ((hother q hq).mp hmem)
  · have hmem : t ∈ s.pools p := by
      by_contra hmem
      simp [hmem] at hold
    have hpool : ∀ q, q ≠ p → t ∉ s.pools q := fun q hq hmem' =>
      hq (hs.pool_unique t q p hmem' hmem)
    exact placed_inserted hs hn hpool hnode

/-- A target that gets another node in its own pool is in the groups of both. -/
theorem addOrUpdateUnlocked_rehomes (ht : t ∈ s.pools p)
    (hnode : s.OtherNode t n) : ¬(s.addOrUpdateUnlocked t n p).2.Consistent := by
  obtain ⟨hzero, hne⟩ := hnode
  have hnone : (s.inserted t n p).otherPool t p = none := by
    refine List.find?_eq_none.mpr fun q _ hfound => ?_
    simp only [mem_pools_inserted, decide_not, Bool.and_eq_true, Bool.not_eq_true',
      decide_eq_false_iff_not, decide_eq_true_eq] at hfound
    obtain ⟨hq, ⟨rfl, -⟩ | hmem⟩ := hfound
    · exact hq rfl
    · exact hq (hs.pool_unique t q p hmem ht)
  have hgroups : (s.addOrUpdateUnlocked t n p).2.groupedTargetPools =
      (s.inserted t n p).groupedTargetPools := by
    unfold addOrUpdateUnlocked
    dsimp only
    split
    · rw [removeFromOthersUnlocked, hnone]
    · rfl
  have hmap : (s.addOrUpdateUnlocked t n p).2.targetMap = s.targetMap.assign t n := by
    unfold addOrUpdateUnlocked
    dsimp only
    split
    · rw [removeFromOthersUnlocked, hnone]
      rfl
    · rfl
  intro hcons
  have hold : t ∈ ((s.inserted t n p).groupedTargetPools p).group
      (getNodeIDFromTargetID t s.targetMap) :=
    mem_group_inserted.mpr (.inr ((mem_group_iff_getNodeID hs).mpr ⟨ht, hzero, rfl⟩))
  rw [← hgroups, hcons.mem_group_iff, hmap, find_assign_self] at hold
  exact hne (Option.some_inj.mp hold.2.2).symm

theorem addIfNotExists_eq (q : CapacityPoolType) :
    (s.addIfNotExists t n q).2 = s ∧ n = getNodeIDFromTargetID t s.targetMap ∨
      ∃ p, (s.addIfNotExists t n q).2 = (s.addOrUpdateUnlocked t n p).2 ∧
        (t ∈ s.pools p ∨ ∀ p, t ∉ s.pools p) := by
  unfold addIfNotExists needUpdate
  cases hpool : s.poolOf t with
  | none => exact .inr ⟨q, rfl, .inr (poolOf_eq_none_iff.mp hpool)⟩
  | some p =>
    have hmem := (poolOf_eq_some_iff hs).mp hpool
    by_cases hnode : n = getNodeIDFromTargetID t s.targetMap
    · simp [hnode]
    · refine .inr ⟨p, ?_, .inl hmem⟩
      simp [hnode]

theorem remove_consistent : (s.remove t).Consistent := by
  unfold remove
  cases hpool : s.poolOf t with
  | none => exact hs
  | some p =>
    have ht := (poolOf_eq_some_iff hs).mp hpool
    have hpools : ∀ t' q, t' ∈ update s.pools p ((s.pools p).erase t) q ↔
        t' ∈ s.pools q ∧ t' ≠ t := by
      intro t' q
      have hunique := hs.pool_unique t p q ht
      by_cases hq : q = p
      · subst hq
        simp
      · grind
    refine ⟨fun t' q q' hq hq' => ?_, fun t' q m => ?_, fun q => ?_⟩
    · rw [hpools] at hq hq'
      exact hs.pool_unique t' q q' hq.1 hq'.1
    · have hgroup : t' ∈ (s.groupedTargetPools q).group m ↔ _ := mem_group_iff_getNodeID hs
      have hfind : t' ∈ (s.groupedTargetPools q).group m ↔ _ := hs.mem_group_iff t' q m
      dsimp only
      split_ifs with hzero
      · grind
      · have hmem := (mem_group_iff_getNodeID hs).mpr ⟨ht, hzero, rfl⟩
        rw [eraseFound_eq hmem]
        by_cases hq : q = p
        · subst hq
          rw [update_self, mem_group_eraseTarget]
          grind
        · grind
    · dsimp only
      split_ifs with hzero
      · exact hs.noneEmpty q
      · have hmem := (mem_group_iff_getNodeID hs).mpr ⟨ht, hzero, rfl⟩
        rw [eraseFound_eq hmem]
        by_cases hq : q = p
        · subst hq
          rw [update_self]
          exact (hs.noneEmpty q).eraseTarget
        · rw [update_of_ne hq]
          exact hs.noneEmpty q

end

end

section
variable {targetMap : TargetMap} {targets : List UInt16} {t : UInt16} {n : NumNodeID}

theorem mem_group_groupTargetsByNode : t ∈ (groupTargetsByNode targets targetMap).group n ↔
    t ∈ targets ∧ n ≠ 0 ∧ targetMap.find t = some n := by
  -- the groups made so far are those of the targets walked so far
  suffices h : ∀ groups : GroupedTargets, t ∈ group (targets.foldl (fun groups targetID =>
          let nodeID := getNodeIDFromTargetID targetID targetMap
          if nodeID = 0 then groups else groups.insertTarget nodeID targetID) groups) n ↔
        (t ∈ targets ∧ n ≠ 0 ∧ targetMap.find t = some n) ∨ t ∈ groups.group n by
    have hempty : t ∉ (∅ : GroupedTargets).group n := not_mem_empty
    rw [groupTargetsByNode, h, or_iff_left hempty]
  induction targets with
  | nil => simp
  | cons t' targets ih =>
    intro groups
    rw [List.foldl_cons, ih]
    have hnode : n ≠ 0 → (getNodeIDFromTargetID t targetMap = n ↔ targetMap.find t = some n) := by
      intro hn
      unfold getNodeIDFromTargetID
      cases targetMap.find t with
      | none => simp [hn.symm]
      | some m => simp
    dsimp only
    split
    · grind
    · rw [mem_group_insertTarget]
      grind

theorem noneEmpty_groupTargetsByNode : (groupTargetsByNode targets targetMap).NoneEmpty := by
  suffices h : ∀ groups : GroupedTargets, groups.NoneEmpty → GroupedTargets.NoneEmpty (targets.foldl
        (fun groups targetID =>
          let nodeID := getNodeIDFromTargetID targetID targetMap
          if nodeID = 0 then groups else groups.insertTarget nodeID targetID) groups) from
    h ∅ fun _ _ hfind => by simp at hfind
  induction targets with
  | nil => exact fun _ h => h
  | cons t' targets ih =>
    intro groups h
    refine ih _ ?_
    dsimp only
    split
    · exact h
    · exact h.insertTarget

theorem syncPoolsFromLists_consistent {lists : CapacityPoolType → List UInt16}
    (hdisjoint : ∀ t p q, t ∈ lists p → t ∈ lists q → p = q) :
    (syncPoolsFromLists lists targetMap).Consistent where
  pool_unique t p q hp hq :=
    hdisjoint t p q (mem_ofList.mp hp) (mem_ofList.mp hq)
  mem_group_iff _ _ _ := mem_group_groupTargetsByNode
  noneEmpty _ := noneEmpty_groupTargetsByNode

end

/-- One call keeps the pools consistent exactly if it does not rehome a target. -/
theorem step_consistent_iff {s : TargetCapacityPools} (hs : s.Consistent) (call : Call) :
    (s.step call).Consistent ↔ ¬s.Rehomes call := by
  cases call with
  | addOrUpdate t n p hn =>
    constructor
    · rintro h ⟨ht, hnode⟩
      exact addOrUpdateUnlocked_rehomes hs ht hnode h
    · intro h
      exact (addOrUpdateUnlocked_placed hs hn h).consistent hs hn
  | addIfNotExists t n q hn =>
    simp only [step, Rehomes]
    rcases addIfNotExists_eq hs q with ⟨heq, hnode⟩ | ⟨p, heq, hp⟩ <;> rw [heq]
    · refine iff_of_true hs ?_
      rintro ⟨-, hother⟩
      exact hother.2 hnode.symm
    rcases hp with ht | hnone
    · constructor
      · rintro h ⟨-, hnode⟩
        exact addOrUpdateUnlocked_rehomes hs ht hnode h
      · intro h
        refine (addOrUpdateUnlocked_placed hs hn fun hp => ?_).consistent hs hn
        exact h ⟨⟨p, ht⟩, hp.2⟩
    · refine iff_of_true ?_ fun hpool => hpool.1.elim hnone
      exact (addOrUpdateUnlocked_placed hs hn fun hp => hnone p hp.1).consistent hs hn
  | remove t => exact iff_of_true (remove_consistent hs) id
  | syncPoolsFromLists lists targetMap hdisjoint =>
    exact iff_of_true (syncPoolsFromLists_consistent hdisjoint) id

/-- The pools are consistent after every call of a sequence exactly if none of them rehomes a
target. -/
theorem consistent_run_iff (calls : List Call) : EveryState step Consistent init calls ↔
      EveryStep step (fun s call => ¬s.Rehomes call) init calls :=
  everyState_iff_of_inv (I := Consistent) (fun _ h => h)
    (fun _ call hs => (step_consistent_iff hs call).mpr)
    (fun _ call hs hc h => hc ((step_consistent_iff hs call).mp h)) init_consistent calls

/-- A target that is reported by another node of the same pool ends up in two groups. -/
theorem consistent_rehomed : ¬EveryState step Consistent init
    [.addOrUpdate 1 1 .normal (by decide), .addOrUpdate 1 2 .normal (by decide)] := by
  rintro ⟨-, -, h⟩
  have hgroup := (h.mem_group_iff 1 .normal 1).mp (by decide)
  exact absurd hgroup.2.2 (by decide)

end TargetCapacityPools

end Congfs
