import Congfs.Nodes.BuddyGroupMapper

/-!
# Target states of the management daemon

The states that targets report, in batches. `changeConsistencyStatesFromLists` is meant to change
all states of a batch or none: it compares the old states first and writes only if all of them
match. Both loops read the map through its inserting operator, so a target that was not known is
known afterwards, as a good one (`KnownWhileMatching`).

The clock is read once for a batch here; only the timeouts depend on it.
-/

namespace Congfs.TargetStateStore

abbrev TargetStateInfoMap := UInt16Map TargetStateInfo

/-- An entry of the three lists. -/
structure StateChange where
  targetID : UInt16
  oldState : TargetConsistencyState
  newState : TargetConsistencyState
  deriving DecidableEq, Repr

section
variable (groups : MirrorBuddyGroupMap) (buddyGroupID : UInt16) (now : Time)
  (statesMap : TargetStateInfoMap) (targetID : UInt16) (newState : TargetConsistencyState)

/-- The value that `statesMap[targetID]` refers to. -/
def stateAt : TargetStateInfo :=
  (statesMap.find targetID).getD (.init now)

/-- The map after a read of `statesMap[targetID]`. -/
def touch : TargetStateInfoMap :=
  if (statesMap.find targetID).isSome then statesMap
  else statesMap.assign targetID (.init now)

/-- The first loop of `changeConsistencyStatesFromLists`: whether all old states match. -/
def checkOldStates (now : Time) (statesMap : TargetStateInfoMap) :
    List StateChange → Bool × TargetStateInfoMap
  | [] => (true, statesMap)
  | change :: changes =>
    let targetState := stateAt now statesMap change.targetID
    let statesMap := touch now statesMap change.targetID
    if targetState.consistencyState = change.oldState then checkOldStates now statesMap changes
    else (false, statesMap)

/-- What a turn of the second loop does to the states. A target that reported is online. -/
def changeState : TargetStateInfoMap :=
  statesMap.assign targetID ⟨⟨.online, newState⟩, now⟩

def getPrimaryTargetIDUnlocked : UInt16 :=
  ((groups.find buddyGroupID).map (·.firstTargetID)).getD 0

end

section

variable (statesMap : TargetStateInfoMap)

/-- The group that is switched when a secondary target comes online, because its primary is
offline. -/
def switchOnComingOnline (groups : MirrorBuddyGroupMap) (targetID : UInt16) : Option UInt16 :=
  let (buddyGroupID, isPrimary) := MirrorBuddyGroupMapper.getBuddyGroupIDUnlocked groups targetID
  if isPrimary || buddyGroupID == 0 then none
  else
    match statesMap.find (getPrimaryTargetIDUnlocked groups buddyGroupID) with
    | none => none
    | some primaryState =>
      if primaryState.reachabilityState = .offline then some buddyGroupID else none

/-- The second loop. The groups are those of a mapper, if one was given. -/
def applyChanges (now : Time) (statesMap : TargetStateInfoMap)
    (buddyGroups : Option MirrorBuddyGroupMap) :
    List StateChange → TargetStateInfoMap × Option MirrorBuddyGroupMap
  | [] => (statesMap, buddyGroups)
  | change :: changes =>
    let targetComingOnline :=
      (stateAt now statesMap change.targetID).reachabilityState ≠ .online
    let statesMap := changeState now statesMap change.targetID change.newState
    let buddyGroups := buddyGroups.map fun groups =>
      if targetComingOnline ∧ change.newState = .good then
        match switchOnComingOnline statesMap groups change.targetID with
        | none => groups
        | some buddyGroupID => MirrorBuddyGroupMapper.switchover groups buddyGroupID
      else groups
    applyChanges now statesMap buddyGroups changes

def changeConsistencyStatesFromLists (now : Time) (statesMap : TargetStateInfoMap)
    (buddyGroups : Option MirrorBuddyGroupMap) (changes : List StateChange) :
    FhgfsOpsErr × TargetStateInfoMap × Option MirrorBuddyGroupMap :=
  match checkOldStates now statesMap changes with
  | (true, statesMap) => (.success, applyChanges now statesMap buddyGroups changes)
  | (false, statesMap) => (.again, statesMap, buddyGroups)

/-! ## All or nothing -/

def HasOldState (change : StateChange) : Prop :=
  ∃ info, statesMap.find change.targetID = some info ∧ info.consistencyState = change.oldState

/-- The batch was refused and nothing changed, or it was accepted, all old states matched and
exactly the listed targets have their new states and are online. -/
def AllOrNothing (changes : List StateChange)
    (res : FhgfsOpsErr) (statesMap' : TargetStateInfoMap) : Prop :=
  (res = .again → statesMap' = statesMap) ∧ (res = .success →
      (∀ change ∈ changes, HasOldState statesMap change) ∧
      (∀ change ∈ changes, ∃ info, statesMap'.find change.targetID = some info ∧
        info.reachabilityState = .online ∧ info.consistencyState = change.newState) ∧
      ∀ t, t ∉ changes.map (·.targetID) → statesMap'.find t = statesMap.find t)

end

/-- A target is known if all the targets before it have their old states. -/
def KnownWhileMatching (statesMap : TargetStateInfoMap) : List StateChange → Prop
  | [] => True
  | change :: changes => ∃ info, statesMap.find change.targetID = some info ∧
      (info.consistencyState = change.oldState → KnownWhileMatching statesMap changes)

section
variable {now : Time} {statesMap : TargetStateInfoMap} {changes : List StateChange} {t : UInt16}
  {change : StateChange} {info : TargetStateInfo} {buddyGroups : Option MirrorBuddyGroupMap}

theorem touch_of_find (h : statesMap.find t = some info) : touch now statesMap t = statesMap := by
  rw [touch, h]
  rfl

theorem stateAt_of_find (h : statesMap.find t = some info) : stateAt now statesMap t = info := by
  rw [stateAt, h]
  rfl

theorem find_touch_isSome : ((touch now statesMap t).find t).isSome := by
  unfold touch
  split
  · assumption
  · rw [StdMap.find_assign_self]
    rfl

theorem find_touch_mono (h : (statesMap.find t').isSome) :
    ((touch now statesMap t).find t').isSome := by
  unfold touch
  split
  · exact h
  · rw [StdMap.find_assign]
    split
    · rfl
    · exact h

theorem find_checkOldStates_mono (h : (statesMap.find t).isSome) :
    ((checkOldStates now statesMap changes).2.find t).isSome := by
  induction changes generalizing statesMap with
  | nil => exact h
  | cons change changes ih =>
    rw [checkOldStates]
    split
    · exact ih (find_touch_mono h)
    · exact find_touch_mono h

theorem checkOldStates_of_known (h : KnownWhileMatching statesMap changes) :
    (checkOldStates now statesMap changes).2 = statesMap ∧
      ((checkOldStates now statesMap changes).1 ↔
        ∀ change ∈ changes, HasOldState statesMap change) := by
  induction changes with
  | nil => exact ⟨rfl, iff_of_true rfl fun _ h => by cases h⟩
  | cons change changes ih =>
    obtain ⟨info, hinfo, hrest⟩ := h
    rw [checkOldStates]
    rw [stateAt_of_find hinfo, touch_of_find hinfo, List.forall_mem_cons]
    split
    · rename_i hold
      obtain ⟨hsame, hiff⟩ := ih (hrest hold)
      exact ⟨hsame, hiff.trans (and_iff_right ⟨info, hinfo, hold⟩).symm⟩
    · rename_i hold
      refine ⟨rfl, iff_of_false Bool.false_ne_true ?_⟩
      rintro ⟨⟨info', hinfo', hold'⟩, -⟩
      rw [hinfo] at hinfo'
      cases hinfo'
      exact hold hold'

theorem checkOldStates_of_not_known (h : ¬KnownWhileMatching statesMap changes) :
    ∃ change ∈ changes, statesMap.find change.targetID = none ∧
      ((checkOldStates now statesMap changes).2.find change.targetID).isSome := by
  induction changes with
  | nil => exact absurd trivial h
  | cons change changes ih =>
    rw [checkOldStates]
    cases hinfo : statesMap.find change.targetID with
    | none =>
      refine ⟨change, List.mem_cons_self, hinfo, ?_⟩
      split
      · exact find_checkOldStates_mono find_touch_isSome
      · exact find_touch_isSome
    | some info =>
      have hold : info.consistencyState = change.oldState := by
        by_contra hold
        exact h ⟨info, hinfo, fun hc => absurd hc hold⟩
      have hrest : ¬KnownWhileMatching statesMap changes := fun hrest =>
        h ⟨info, hinfo, fun _ => hrest⟩
      rw [stateAt_of_find hinfo, touch_of_find hinfo, if_pos hold]
      obtain ⟨change', hmem, hnone, hsome⟩ := ih hrest
      exact ⟨change', List.mem_cons_of_mem _ hmem, hnone, hsome⟩

theorem find_applyChanges_of_not_mem (ht : t ∉ changes.map (·.targetID)) :
    (applyChanges now statesMap buddyGroups changes).1.find t = statesMap.find t := by
  induction changes generalizing statesMap buddyGroups with
  | nil => rfl
  | cons change changes ih =>
    rw [List.map_cons, List.mem_cons, not_or] at ht
    obtain ⟨hne, ht⟩ := ht
    rw [applyChanges, ih ht, changeState, StdMap.find_assign_of_ne hne]

theorem find_applyChanges (hnodup : (changes.map (·.targetID)).Nodup) (hmem : change ∈ changes) :
    (applyChanges now statesMap buddyGroups changes).1.find change.targetID =
      some ⟨⟨.online, change.newState⟩, now⟩ := by
  induction changes generalizing statesMap buddyGroups with
  | nil => cases hmem
  | cons change' changes ih =>
    obtain ⟨hnot, hnodup⟩ := List.nodup_cons.mp (List.map_cons ▸ hnodup)
    rw [applyChanges]
    rcases List.mem_cons.mp hmem with rfl | hmem
    · rw [find_applyChanges_of_not_mem hnot, changeState, StdMap.find_assign_self]
    · exact ih hnodup hmem

end

/-- A batch of distinct targets is applied as a whole or not at all exactly if the targets that are
compared are known. -/
theorem allOrNothing_iff (now : Time) (statesMap : TargetStateInfoMap)
    (buddyGroups : Option MirrorBuddyGroupMap) (changes : List StateChange)
    (hnodup : (changes.map (·.targetID)).Nodup) :
    AllOrNothing statesMap changes
        (changeConsistencyStatesFromLists now statesMap buddyGroups changes).1
        (changeConsistencyStatesFromLists now statesMap buddyGroups changes).2.1 ↔
      KnownWhileMatching statesMap changes := by
  unfold changeConsistencyStatesFromLists
  constructor
  · intro h
    by_contra hknown
    obtain ⟨change, hmem, hnone, hsome⟩ := @checkOldStates_of_not_known now _ _ hknown
    generalize checkOldStates now statesMap changes = r at h hsome
    obtain ⟨_ | _, statesMap'⟩ := r
    · obtain rfl : statesMap' = statesMap := h.1 rfl
      rw [hnone] at hsome
      cases hsome
    · obtain ⟨info, hinfo, -⟩ := (h.2 rfl).1 change hmem
      rw [hnone] at hinfo
      cases hinfo
  · intro hknown
    obtain ⟨hsame, hiff⟩ := @checkOldStates_of_known now _ _ hknown
    generalize checkOldStates now statesMap changes = r at hsame hiff ⊢
    obtain ⟨_ | _, statesMap'⟩ := r
    · exact ⟨fun _ => hsame, fun h => by cases h⟩
    · obtain rfl : statesMap' = statesMap := hsame
      refine ⟨fun h => (by cases h), fun _ => ⟨hiff.mp rfl, fun change hmem => ?_, fun t ht => ?_⟩⟩
      · exact ⟨_, find_applyChanges hnodup hmem, rfl, rfl⟩
      · exact find_applyChanges_of_not_mem ht

theorem allOrNothing_known : ([⟨1, .good, .needsResync⟩].map StateChange.targetID).Nodup ∧
      AllOrNothing ((∅ : TargetStateInfoMap).assign 1 ⟨⟨.online, .good⟩, ⟨0, 0⟩⟩)
        [⟨1, .good, .needsResync⟩] .success
        ((∅ : TargetStateInfoMap).assign 1 ⟨⟨.online, .needsResync⟩, ⟨7, 0⟩⟩) := by
  refine ⟨by decide, (allOrNothing_iff ⟨7, 0⟩ _ none _ (by decide)).mpr ?_⟩
  exact ⟨_, rfl, fun _ => trivial⟩

/-- A refused batch makes a target known, and a batch is accepted for a target that was not. -/
theorem allOrNothing_unknown : (¬AllOrNothing ∅ [⟨2, .bad, .good⟩]
      (changeConsistencyStatesFromLists ⟨7, 0⟩ ∅ none [⟨2, .bad, .good⟩]).1
      (changeConsistencyStatesFromLists ⟨7, 0⟩ ∅ none [⟨2, .bad, .good⟩]).2.1) ∧
    ¬AllOrNothing ∅ [⟨2, .good, .needsResync⟩]
      (changeConsistencyStatesFromLists ⟨7, 0⟩ ∅ none [⟨2, .good, .needsResync⟩]).1
      (changeConsistencyStatesFromLists ⟨7, 0⟩ ∅ none [⟨2, .good, .needsResync⟩]).2.1 := by
  constructor
  · intro h
    exact absurd (h.1 rfl) (by decide)
  · intro h
    obtain ⟨info, hinfo, -⟩ := (h.2 rfl).1 _ List.mem_cons_self
    cases hinfo

end Congfs.TargetStateStore
