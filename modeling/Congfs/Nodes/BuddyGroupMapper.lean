import Congfs.Nodes.Basic

/-!
# Mirror buddy groups

`MirrorBuddyGroupMapper` pairs targets, or metadata nodes, for mirroring. A group has an id other
than 0 and a primary and a secondary member. A server also keeps the id of the group it is a member
of itself.

`mapMirrorBuddyGroup` is not one section: it looks for the members before it takes the lock under
which it writes, so its checks are definitions of their own.
-/

namespace Congfs

open List StdMap
open UInt16 (lt_iff_toNat_lt toNat_inj)

structure MirrorBuddyGroup where
  firstTargetID : UInt16
  secondTargetID : UInt16
  deriving DecidableEq, Repr

namespace MirrorBuddyGroup

variable (mbg : MirrorBuddyGroup)

def Has (targetID : UInt16) : Prop :=
  mbg.firstTargetID = targetID ∨ mbg.secondTargetID = targetID

instance (mbg : MirrorBuddyGroup) (targetID : UInt16) : Decidable (mbg.Has targetID) :=
  inferInstanceAs (Decidable (_ ∨ _))

/-- Node ids are wider than target ids. -/
def HasNode (nodeID : NumNodeID) : Prop :=
  nodeID = mbg.firstTargetID.toUInt32 ∨ nodeID = mbg.secondTargetID.toUInt32

instance (mbg : MirrorBuddyGroup) (nodeID : NumNodeID) : Decidable (mbg.HasNode nodeID) :=
  inferInstanceAs (Decidable (_ ∨ _))

def swap : MirrorBuddyGroup := ⟨mbg.secondTargetID, mbg.firstTargetID⟩

@[simp] theorem has_swap {mbg : MirrorBuddyGroup} {t : UInt16} : mbg.swap.Has t ↔ mbg.Has t :=
  or_comm

end MirrorBuddyGroup

abbrev MirrorBuddyGroupMap := UInt16Map MirrorBuddyGroup

structure MirrorBuddyGroupMapper where
  mirrorBuddyGroups : MirrorBuddyGroupMap
  /-- The group of the local node, 0 if it is in none. -/
  localGroupID : UInt16

namespace MirrorBuddyGroupMapper

def init : MirrorBuddyGroupMapper := ⟨∅, 0⟩

/-- The arguments of `mapMirrorBuddyGroup`. -/
structure MapRequest where
  /-- 0 to create a new id. -/
  buddyGroupID : UInt16
  primaryTargetID : UInt16
  secondaryTargetID : UInt16
  localNodeID : NumNodeID
  allowUpdate : Bool
  deriving DecidableEq, Repr

/-- The stores that are asked whether the members exist. A mapper for targets has a target mapper,
the one for metadata nodes can have a node store. -/
structure Stores where
  targetMapper : Option (UInt16 → Bool)
  usableNodes : Option (NumNodeID → Bool)

/-- The checks that need no lock of the mapper. -/
def sanityChecks (stores : Stores) (groups : MirrorBuddyGroupMap) (req : MapRequest) :
    FhgfsOpsErr :=
  if req.buddyGroupID ≠ 0 ∧ !req.allowUpdate ∧ (groups.find req.buddyGroupID).isSome then .exists
  else if req.primaryTargetID = req.secondaryTargetID then .inval
  else
    match stores.targetMapper, stores.usableNodes with
    | some targetExists, _ =>
      if targetExists req.primaryTargetID && targetExists req.secondaryTargetID then .success
      else .unknownTarget
    | none, some nodeExists =>
      if nodeExists req.primaryTargetID.toUInt32 && nodeExists req.secondaryTargetID.toUInt32 then
        .success
      else .unknownNode
    | none, none => .success

section

variable (groups : MirrorBuddyGroupMap)

/-- The group of a target, 0 if it has none. -/
def getBuddyGroupID (targetID : UInt16) : UInt16 :=
  match groups.toList.find? fun e => e.2.Has targetID with
  | some e => e.1
  | none => 0

/-- The same with the role of the target. -/
def getBuddyGroupIDUnlocked (targetID : UInt16) : UInt16 × Bool :=
  match groups.toList.find? fun e => e.2.Has targetID with
  | some e => (e.1, e.2.firstTargetID = targetID)
  | none => (0, false)

variable (req : MapRequest)

/-- Whether a member is in a group other than the one that is mapped. -/
def inOtherGroup (targetID : UInt16) : Bool :=
  let inGroup := getBuddyGroupID groups targetID
  decide (0 < inGroup) && inGroup != req.buddyGroupID

/-- `std::adjacent_find` with `hasGap`: the key before the first gap. -/
def findGap {β : Type*} : List (UInt16 × β) → Option UInt16
  | a :: b :: l => if a.1.toNat + 1 < b.1.toNat then some a.1 else findGap (b :: l)
  | _ => none

/-- A free id; 0 if there is none. -/
def generateID : UInt16 :=
  match groups.toList.head?, groups.toList.getLast? with
  | some first, some last =>
    if last.1 < 65535 then last.1 + 1
    else if 1 < first.1 then 1
    else
      match findGap groups.toList with
      | some key => key + 1
      | none => 0
  | _, _ => 1

/-- The id under which `mapMirrorBuddyGroup` writes the group. -/
def newGroupID : UInt16 :=
  if req.buddyGroupID = 0 then generateID groups else req.buddyGroupID

def MapRequest.group : MirrorBuddyGroup :=
  ⟨req.primaryTargetID, req.secondaryTargetID⟩

variable (m : MirrorBuddyGroupMapper)

/-- The part of `mapMirrorBuddyGroup` under the write lock. -/
def insertGroup (req : MapRequest) : MirrorBuddyGroupMapper :=
  let buddyGroupID := newGroupID m.mirrorBuddyGroups req
  { mirrorBuddyGroups := m.mirrorBuddyGroups.assign buddyGroupID req.group
    localGroupID := if req.group.HasNode req.localNodeID then buddyGroupID else m.localGroupID }

/-- The whole of `mapMirrorBuddyGroup`, with the new id. -/
def mapMirrorBuddyGroup (stores : Stores) (m : MirrorBuddyGroupMapper) (req : MapRequest) :
    (FhgfsOpsErr × Option UInt16) × MirrorBuddyGroupMapper :=
  match sanityChecks stores m.mirrorBuddyGroups req with
  | .success =>
    if inOtherGroup m.mirrorBuddyGroups req req.primaryTargetID then ((.inUse, none), m)
    else if inOtherGroup m.mirrorBuddyGroups req req.secondaryTargetID then ((.inUse, none), m)
    else ((.success, some (newGroupID m.mirrorBuddyGroups req)), m.insertGroup req)
  | err => ((err, none), m)

/-- The group is read through the inserting operator if there is a local group. -/
def unmapMirrorBuddyGroup (buddyGroupID : UInt16)
    (localNodeID : NumNodeID) : Bool × MirrorBuddyGroupMapper :=
  let mbg := (m.mirrorBuddyGroups.find buddyGroupID).getD ⟨0, 0⟩
  let groups :=
    if m.localGroupID ≠ 0 then m.mirrorBuddyGroups.assign buddyGroupID mbg
    else m.mirrorBuddyGroups
  let localGroupID :=
    if m.localGroupID ≠ 0 ∧ mbg.HasNode localNodeID then 0 else m.localGroupID
  let numErased := (groups.find buddyGroupID).isSome
  (numErased, ⟨groups.erase buddyGroupID, localGroupID⟩)

/-- The last group of a list that has the local node, as the two synchronisations find it. -/
def findLocalGroupID (groups : List (UInt16 × MirrorBuddyGroup)) (localNodeID : NumNodeID) :
    UInt16 :=
  groups.foldl (fun localGroupID e => if e.2.HasNode localNodeID then e.1 else localGroupID) 0

/-- The keys and the values of the two lists, pair by pair. -/
def syncGroupsFromLists (buddyGroups : List (UInt16 × MirrorBuddyGroup)) (localNodeID : NumNodeID) :
    MirrorBuddyGroupMapper :=
  let localGroupID := findLocalGroupID buddyGroups localNodeID
  { mirrorBuddyGroups := buddyGroups.foldl (fun newGroups e => newGroups.assign e.1 e.2) ∅
    localGroupID := if localGroupID ≠ 0 then localGroupID else m.localGroupID }

/-- `TargetStateStore::syncStatesAndGroups`: the new map of states, each with the time at which it
was made, and the mapper. -/
def syncStatesAndGroups (clock : UInt16 → Time) (states : UInt16Map CombinedTargetState)
    (m : MirrorBuddyGroupMapper) (newGroups : MirrorBuddyGroupMap) (localNodeID : NumNodeID) :
    UInt16Map TargetStateInfo × MirrorBuddyGroupMapper :=
  let localGroupID := findLocalGroupID newGroups.toList localNodeID
  (states.toList.foldl (fun statesMap e => statesMap.assign e.1 ⟨e.2, clock e.1⟩) ∅,
    { mirrorBuddyGroups := newGroups
      localGroupID := if localGroupID ≠ 0 then localGroupID else m.localGroupID })

def switchover (buddyGroupID : UInt16) : MirrorBuddyGroupMap :=
  match groups.find buddyGroupID with
  | none => groups
  | some mbg => groups.assign buddyGroupID mbg.swap

end

/-! ## Free ids -/

section
variable {β : Type*} {l : List (UInt16 × β)} {a z : UInt16 × β} {key : UInt16}

theorem findGap_between (h : findGap l = some key) :
    (∃ e ∈ l, e.1 = key) ∧ ∃ e ∈ l, key.toNat + 1 < e.1.toNat := by
  fun_induction findGap l with
  | case1 a b l hgap =>
    cases h
    exact ⟨⟨a, by simp, rfl⟩, b, by simp, hgap⟩
  | case2 a b l _ ih =>
    obtain ⟨⟨e, he, hkey⟩, e', he', hlt⟩ := ih h
    exact ⟨⟨e, mem_cons_of_mem _ he, hkey⟩, e', mem_cons_of_mem _ he', hlt⟩
  | case3 => cases h

theorem findGap_some (hl : l.Pairwise fun a b => a.1 < b.1) (h : findGap l = some key) :
    ∀ e ∈ l, e.1.toNat ≤ key.toNat ∨ key.toNat + 1 < e.1.toNat := by
  fun_induction findGap l with
  | case1 a b l hgap =>
    cases h
    obtain ⟨hb, -⟩ := pairwise_cons.mp (pairwise_cons.mp hl).2
    intro e he
    rcases mem_cons.mp he with rfl | he
    · exact .inl (le_refl _)
    rcases mem_cons.mp he with rfl | he
    · exact .inr hgap
    · exact .inr (lt_trans hgap (lt_iff_toNat_lt.mp (hb e he)))
  | case2 a b l _ ih =>
    obtain ⟨ha, hl⟩ := pairwise_cons.mp hl
    intro e he
    rcases mem_cons.mp he with rfl | he
    · obtain ⟨⟨e', he', rfl⟩, -⟩ := findGap_between h
      exact .inl (le_of_lt (lt_iff_toNat_lt.mp (ha e' he')))
    · exact ih hl h e he
  | case3 => cases h

theorem findGap_none (h : findGap (a :: l) = none) (hz : (a :: l).getLast? = some z)
    (hak : a.1.toNat ≤ k) (hkz : k ≤ z.1.toNat) : ∃ e ∈ a :: l, e.1.toNat = k := by
  induction l generalizing a with
  | nil =>
    obtain rfl : a = z := by simpa using hz
    exact ⟨a, mem_cons_self, le_antisymm hak hkz⟩
  | cons b l ih =>
    rw [findGap] at h
    split at h
    · cases h
    rcases eq_or_lt_of_le hak with heq | hlt
    · exact ⟨a, mem_cons_self, heq⟩
    · have hz' : (b :: l).getLast? = some z := by rwa [getLast?_cons_cons] at hz
      obtain ⟨e, he, hek⟩ := ih h hz' (by omega)
      exact ⟨e, mem_cons_of_mem _ he, hek⟩

end

section
variable {groups : MirrorBuddyGroupMap} {e first last : UInt16 × MirrorBuddyGroup} {id : UInt16}

theorem le_last (h : groups.toList.getLast? = some last) (he : e ∈ groups.toList) :
    e.1.toNat ≤ last.1.toNat := by
  obtain ⟨l, hl⟩ := getLast?_eq_some_iff.mp h
  have hs := groups.sorted
  rw [hl] at hs he
  rcases mem_append.mp he with he | he
  · have hlt := (pairwise_append.mp hs).2.2 e he last mem_cons_self
    exact le_of_lt (lt_iff_toNat_lt.mp hlt)
  · rw [mem_singleton.mp he]

theorem first_le (h : groups.toList.head? = some first) (he : e ∈ groups.toList) :
    first.1.toNat ≤ e.1.toNat := by
  obtain ⟨l, hl⟩ := head?_eq_some_iff.mp h
  have hs := groups.sorted
  rw [hl] at hs he
  rcases mem_cons.mp he with rfl | he
  · exact le_refl _
  · exact le_of_lt (lt_iff_toNat_lt.mp ((pairwise_cons.mp hs).1 e he))

theorem find_eq_none_of_ne (h : ∀ e ∈ groups.toList, e.1 ≠ id) : groups.find id = none :=
  find_eq_none_iff.mpr fun v hmem => h (id, v) hmem rfl

theorem find_isSome_of_mem (he : e ∈ groups.toList) (hid : e.1 = id) : (groups.find id).isSome := by
  subst hid
  rw [find_eq_some_iff.mpr he]
  rfl

section

variable (groups : MirrorBuddyGroupMap)

theorem generateID_cases : generateID groups ≠ 0 ∧ groups.find (generateID groups) = none ∨
      generateID groups = 0 ∧ ∀ id, id ≠ 0 → (groups.find id).isSome := by
  unfold generateID
  split
  · rename_i first last hfirst hlast
    split
    · rename_i hlt
      have hlt' : last.1.toNat < 65535 := lt_iff_toNat_lt.mp hlt
      have hnat : (last.1 + 1).toNat = last.1.toNat + 1 := by
        exact Nat.mod_eq_of_lt (by simpa using Nat.succ_lt_succ hlt')
      refine .inl ⟨fun h => ?_, find_eq_none_of_ne fun e he heq => ?_⟩
      · rw [h] at hnat
        exact absurd hnat (by simp)
      · have := le_last hlast he
        rw [heq, hnat] at this
        omega
    rename_i hlast'
    have hlast' : last.1.toNat = 65535 := by
      have h := mt lt_iff_toNat_lt.mpr hlast'
      have h' := last.1.toNat_lt
      simp at h
      omega
    split
    · rename_i hlt
      refine .inl ⟨by decide, find_eq_none_of_ne fun e he heq => ?_⟩
      have h := first_le hfirst he
      have h' := lt_iff_toNat_lt.mp hlt
      rw [heq] at h
      omega
    rename_i hfirst'
    have hfirst' : first.1.toNat ≤ 1 :=
      not_lt.mp fun h => hfirst' (lt_iff_toNat_lt.mpr h)
    split
    · rename_i key hkey
      obtain ⟨-, e', he', hlt⟩ := findGap_between hkey
      have hnat : (key + 1).toNat = key.toNat + 1 := by
        exact Nat.mod_eq_of_lt (Nat.lt_trans hlt e'.1.toNat_lt)
      refine .inl ⟨fun h => ?_, find_eq_none_of_ne fun e he heq => ?_⟩
      · rw [h] at hnat
        exact absurd hnat (by simp)
      · have hgap := findGap_some groups.sorted hkey e he
        rw [heq, hnat] at hgap
        omega
    · rename_i hkey
      refine .inr ⟨rfl, fun id hid => ?_⟩
      obtain ⟨l, hl⟩ := head?_eq_some_iff.mp hfirst
      rw [hl] at hkey hlast
      have hid' : id.toNat ≠ 0 := fun h => hid (toNat_inj.mp h)
      have hle : id.toNat ≤ last.1.toNat := by
        have := id.toNat_lt
        omega
      obtain ⟨e, he, hek⟩ := findGap_none hkey hlast (by omega) hle
      exact find_isSome_of_mem (hl ▸ he) (toNat_inj.mp hek)
  · rename_i h
    refine .inl ⟨by decide, find_eq_none_of_ne fun e he => ?_⟩
    cases hl : groups.toList with
    | nil => rw [hl] at he; cases he
    | cons a l =>
      rw [hl] at h
      exact absurd rfl (h a ((a :: l).getLast (by simp)) rfl)

/-! ## What the operations do -/

theorem getBuddyGroupID_cases (t : UInt16) :
    (∃ mbg, groups.find (getBuddyGroupID groups t) = some mbg ∧ mbg.Has t) ∨
      getBuddyGroupID groups t = 0 ∧ ∀ id mbg, groups.find id = some mbg → ¬mbg.Has t := by
  unfold getBuddyGroupID
  split
  · rename_i e he
    have hhas := find?_some he
    exact .inl ⟨e.2, find_eq_some_iff.mpr (mem_of_find?_eq_some he), of_decide_eq_true hhas⟩
  · rename_i hnone
    refine .inr ⟨rfl, fun id mbg hfind hhas => ?_⟩
    exact find?_eq_none.mp hnone _ (find_eq_some_iff.mp hfind) (decide_eq_true hhas)

end

theorem find_switchover : (switchover groups g).find id =
    if id = g then (groups.find g).map .swap else groups.find id := by
  unfold switchover
  split
  · rename_i hnone
    split_ifs with h
    · rw [h, hnone]
      rfl
    · rfl
  · rename_i mbg hmbg
    rw [find_assign, hmbg]
    rfl

variable {m : MirrorBuddyGroupMapper} {nodeID : NumNodeID}

theorem unmapMirrorBuddyGroup_fst : (m.unmapMirrorBuddyGroup id nodeID).1 ↔
    m.localGroupID ≠ 0 ∨ (m.mirrorBuddyGroups.find id).isSome := by
  unfold unmapMirrorBuddyGroup
  by_cases h : m.localGroupID = 0 <;> simp [h]

theorem unmapMirrorBuddyGroup_groups :
    (m.unmapMirrorBuddyGroup id nodeID).2.mirrorBuddyGroups = m.mirrorBuddyGroups.erase id := by
  unfold unmapMirrorBuddyGroup
  by_cases h : m.localGroupID = 0
  · simp [h]
  · refine ext_find fun k => ?_
    simp only [h, ne_eq, not_false_eq_true, if_true, find_erase, find_assign]
    split <;> rfl

end

end MirrorBuddyGroupMapper

end Congfs
