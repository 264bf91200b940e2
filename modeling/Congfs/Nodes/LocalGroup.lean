import Congfs.Lib.Run
import Congfs.Nodes.BuddyGroupMapper

/-!
# The group of the local node

A server keeps the id of the group that it is a member of, so that it does not have to search for
itself. Four operations maintain it. None of them resets it when the local node is only left out of
the groups: the synchronisations keep an old id if they find no new one, and `mapMirrorBuddyGroup`
keeps it when it gives the group other members.
-/

namespace Congfs.MirrorBuddyGroupMapper

/-- `localGroupID` is the group of the local node, 0 if it is in none. -/
structure Tracks (localNodeID : NumNodeID) (m : MirrorBuddyGroupMapper) : Prop where
  eq_of_member : ∀ {id mbg}, m.mirrorBuddyGroups.find id = some mbg → mbg.HasNode localNodeID →
    m.localGroupID = id
  eq_zero : (∀ id mbg, m.mirrorBuddyGroups.find id = some mbg → ¬mbg.HasNode localNodeID) →
    m.localGroupID = 0

/-- Groups as they are sent: the ids differ and the members are disjoint. -/
structure GroupList where
  groups : List (UInt16 × MirrorBuddyGroup)
  nodup : (groups.map Prod.fst).Nodup
  disjoint : ∀ e ∈ groups, ∀ e' ∈ groups, ∀ t, e.2.Has t → e'.2.Has t → e = e'

inductive LocalCall
  | map (stores : Stores) (buddyGroupID primaryTargetID secondaryTargetID : UInt16)
    (allowUpdate : Bool)
  | unmap (buddyGroupID : UInt16)
  | syncGroupsFromLists (groups : GroupList)
  | syncStatesAndGroups (clock : UInt16 → Time) (states : UInt16Map CombinedTargetState)
    (newGroups : MirrorBuddyGroupMap)
    (disjoint : ∀ e ∈ newGroups.toList, ∀ e' ∈ newGroups.toList, ∀ t, e.2.Has t → e'.2.Has t →
      e = e')

variable (localNodeID : NumNodeID)

section

variable (m : MirrorBuddyGroupMapper)

def localStep : LocalCall → MirrorBuddyGroupMapper
  | .map stores buddyGroupID primaryTargetID secondaryTargetID allowUpdate =>
    (m.mapMirrorBuddyGroup stores
      ⟨buddyGroupID, primaryTargetID, secondaryTargetID, localNodeID, allowUpdate⟩).2
  | .unmap buddyGroupID => (m.unmapMirrorBuddyGroup buddyGroupID localNodeID).2
  | .syncGroupsFromLists groups => m.syncGroupsFromLists groups.groups localNodeID
  | .syncStatesAndGroups clock states newGroups _ =>
    (m.syncStatesAndGroups clock states newGroups localNodeID).2

/-- The request passes the checks of `mapMirrorBuddyGroup`. -/
def Admitted (stores : Stores) (m : MirrorBuddyGroupMapper) (req : MapRequest) : Prop :=
  MirrorBuddyGroupMapper.sanityChecks stores m.mirrorBuddyGroups req = .success ∧
    inOtherGroup m.mirrorBuddyGroups req req.primaryTargetID = false ∧
    inOtherGroup m.mirrorBuddyGroups req req.secondaryTargetID = false

def LocalIn (id : UInt16) : Prop :=
  ∃ mbg, m.mirrorBuddyGroups.find id = some mbg ∧ mbg.HasNode localNodeID

/-- The calls after which the id is right:
* a request that is admitted neither leaves the local node out of its own group, nor puts it into a
  second one because it was in group 0, which counts as no group;
* the group to unmap is mapped, if the local node has the id 0 of a group that is not;
* synchronised groups have the local node in a group other than 0, unless no id was kept. -/
def KeepsTrack : LocalCall → Prop
  | .map stores buddyGroupID primaryTargetID secondaryTargetID allowUpdate =>
    let req : MapRequest :=
      ⟨buddyGroupID, primaryTargetID, secondaryTargetID, localNodeID, allowUpdate⟩
    let newID := newGroupID m.mirrorBuddyGroups req
    Admitted stores m req → newID ≠ 0 →
      if req.group.HasNode localNodeID then ¬LocalIn localNodeID m 0
      else ¬LocalIn localNodeID m newID
  | .unmap buddyGroupID =>
    localNodeID = 0 → m.localGroupID ≠ 0 → (m.mirrorBuddyGroups.find buddyGroupID).isSome
  | .syncGroupsFromLists groups =>
    m.localGroupID ≠ 0 → ∃ e ∈ groups.groups, e.1 ≠ 0 ∧ e.2.HasNode localNodeID
  | .syncStatesAndGroups _ _ newGroups _ =>
    m.localGroupID ≠ 0 → ∃ e ∈ newGroups.toList, e.1 ≠ 0 ∧ e.2.HasNode localNodeID

end

section
variable {node : NumNodeID} {m : MirrorBuddyGroupMapper} {groups : MirrorBuddyGroupMap}
  {l : List (UInt16 × MirrorBuddyGroup)} {mbg : MirrorBuddyGroup} {id : UInt16}

theorem has_of_hasNode (h : mbg.HasNode node) : ∃ t : UInt16, t.toUInt32 = node ∧ mbg.Has t := by
  rcases h with h | h
  · exact ⟨mbg.firstTargetID, h.symm, .inl rfl⟩
  · exact ⟨mbg.secondTargetID, h.symm, .inr rfl⟩

theorem hasNode_iff : mbg.HasNode t.toUInt32 ↔ mbg.Has t := by
  have hinj : ∀ u : UInt16, t.toUInt32 = u.toUInt32 ↔ u = t := fun u => by
    rw [← UInt32.toNat_inj, UInt16.toNat_toUInt32, UInt16.toNat_toUInt32, UInt16.toNat_inj, eq_comm]
  unfold MirrorBuddyGroup.HasNode MirrorBuddyGroup.Has
  rw [hinj, hinj]

theorem eq_of_hasNode (hl : ∀ e ∈ l, ∀ e' ∈ l, ∀ t, e.2.Has t → e'.2.Has t → e = e') (he : e ∈ l)
    (he' : e' ∈ l) (h : e.2.HasNode node) (h' : e'.2.HasNode node) : e = e' := by
  obtain ⟨t, rfl, ht⟩ := has_of_hasNode h
  exact hl e he e' he' t ht (hasNode_iff.mp h')

theorem findLocalGroupID_eq_zero (h : ∀ e ∈ l, e.1 ≠ 0 → ¬e.2.HasNode node) :
    findLocalGroupID l node = 0 := by
  unfold findLocalGroupID
  induction l with
  | nil => rfl
  | cons e l ih =>
    have hl : ∀ e ∈ l, e.1 ≠ 0 → ¬e.2.HasNode node := fun e' he' =>
      h e' (List.mem_cons_of_mem _ he')
    rw [List.foldl_cons]
    split_ifs with hnode
    · have h0 : e.1 = 0 := by
        by_contra h0
        exact h e List.mem_cons_self h0 hnode
      rw [h0]
      exact ih hl
    · exact ih hl

theorem findLocalGroupID_eq (he : e ∈ l) (hnode : e.2.HasNode node)
    (hunique : ∀ e' ∈ l, e'.2.HasNode node → e' = e) : findLocalGroupID l node = e.1 := by
  -- once the group was found, later groups do not have the node
  have hkept : ∀ l : List (UInt16 × MirrorBuddyGroup), (∀ e' ∈ l, e'.2.HasNode node → e' = e) →
      l.foldl (fun id e => if e.2.HasNode node then e.1 else id) e.1 = e.1 := by
    intro l hl
    induction l with
    | nil => rfl
    | cons e' l ih =>
      have hl' : ∀ e' ∈ l, e'.2.HasNode node → e' = e := fun e1 he1 =>
        hl e1 (List.mem_cons_of_mem _ he1)
      rw [List.foldl_cons]
      split_ifs with hnode'
      · rw [hl e' List.mem_cons_self hnode']
        exact ih hl'
      · exact ih hl'
  obtain ⟨l1, l2, rfl⟩ := List.append_of_mem he
  unfold findLocalGroupID
  rw [List.foldl_append, List.foldl_cons, if_pos hnode]
  exact hkept l2 fun e' he' => hunique e' (List.mem_append_right _ (List.mem_cons_of_mem _ he'))

/-- Both synchronisations: the new groups are those of a list with disjoint members. -/
theorem tracks_sync_iff (hl : ∀ e ∈ l, ∀ e' ∈ l, ∀ t, e.2.Has t → e'.2.Has t → e = e')
    (hgroups : ∀ id mbg, groups.find id = some mbg ↔ (id, mbg) ∈ l) :
    Tracks node ⟨groups, if findLocalGroupID l node ≠ 0 then findLocalGroupID l node
      else m.localGroupID⟩ ↔
      (m.localGroupID ≠ 0 → ∃ e ∈ l, e.1 ≠ 0 ∧ e.2.HasNode node) := by
  by_cases hfound : ∃ e ∈ l, e.1 ≠ 0 ∧ e.2.HasNode node
  · refine iff_of_true ?_ fun _ => hfound
    obtain ⟨e, he, hne, hnode⟩ := hfound
    have hunique : ∀ e' ∈ l, e'.2.HasNode node → e' = e := fun e' he' hnode' =>
      eq_of_hasNode hl he' he hnode' hnode
    have hid := findLocalGroupID_eq he hnode hunique
    rw [hid, if_pos hne]
    refine ⟨fun {id mbg} hfind hnode' => ?_, fun hnone => ?_⟩
    · exact congrArg Prod.fst (hunique (id, mbg) ((hgroups id mbg).mp hfind) hnode').symm
    · exact absurd hnode (hnone e.1 e.2 ((hgroups e.1 e.2).mpr he))
  · have hid : findLocalGroupID l node = 0 :=
      findLocalGroupID_eq_zero fun e he hne hnode => hfound ⟨e, he, hne, hnode⟩
    rw [hid, if_neg (fun h => h rfl)]
    constructor
    · intro htracks hne
      refine absurd ?_ hne
      by_cases hmember : ∃ id mbg, groups.find id = some mbg ∧ mbg.HasNode node
      · obtain ⟨id, mbg, hfind, hnode⟩ := hmember
        -- the local node can only be in group 0
        have h0 : id = 0 := by
          by_contra h0
          exact hfound ⟨(id, mbg), (hgroups id mbg).mp hfind, h0, hnode⟩
        exact (htracks.eq_of_member hfind hnode).trans h0
      · exact htracks.eq_zero fun id mbg hfind hnode => hmember ⟨id, mbg, hfind, hnode⟩
    · intro hkept
      have h0 : m.localGroupID = 0 := by
        by_contra hne
        exact hfound (hkept hne)
      refine ⟨fun {id mbg} hfind hnode => ?_, fun _ => h0⟩
      rw [h0]
      by_contra hne
      exact hfound ⟨(id, mbg), (hgroups id mbg).mp hfind, Ne.symm hne, hnode⟩

theorem Tracks.eq_of_localIn (h : Tracks node m) (hid : LocalIn node m id) :
    m.localGroupID = id := by
  obtain ⟨mbg, hfind, hnode⟩ := hid
  exact h.eq_of_member hfind hnode

/-- A member of an admitted request that is the local node was in no group, in the one that is
mapped or in group 0. -/
theorem eq_of_inOtherGroup (h : Tracks t.toUInt32 m)
    (hother : inOtherGroup m.mirrorBuddyGroups req t = false) (hid : LocalIn t.toUInt32 m id) :
    id = 0 ∨ id = newGroupID m.mirrorBuddyGroups req := by
  obtain ⟨mbg, hfind, hnode⟩ := hid
  rcases getBuddyGroupID_cases m.mirrorBuddyGroups t with ⟨mbg', hfind', hhas'⟩ | ⟨-, hnone⟩
  · have hidg : id = getBuddyGroupID m.mirrorBuddyGroups t :=
      (h.eq_of_member hfind hnode).symm.trans (h.eq_of_member hfind' (hasNode_iff.mpr hhas'))
    unfold inOtherGroup at hother
    simp only [← hidg, Bool.and_eq_false_iff, decide_eq_false_iff_not,
      bne_eq_false_iff_eq] at hother
    rcases hother with h0 | hreq
    · refine .inl ?_
      by_contra hne
      exact h0 (UInt16.pos_iff_ne_zero.mpr hne)
    · by_cases h0 : id = 0
      · exact .inl h0
      · refine .inr ?_
        rw [newGroupID, ← hreq, if_neg h0]
  · exact absurd (hasNode_iff.mp hnode) (hnone id mbg hfind)

section
variable {req : MapRequest}

theorem find_insertGroup (hid : id ≠ newGroupID m.mirrorBuddyGroups req) :
    (m.insertGroup req).mirrorBuddyGroups.find id = m.mirrorBuddyGroups.find id :=
  StdMap.find_assign_of_ne hid

theorem find_insertGroup_self :
    (m.insertGroup req).mirrorBuddyGroups.find (newGroupID m.mirrorBuddyGroups req) =
      some req.group :=
  StdMap.find_assign_self

theorem tracks_insertGroup_of_member (h : Tracks req.localNodeID m) (hreq : Admitted stores m req)
    (hnode : req.group.HasNode req.localNodeID) :
    Tracks req.localNodeID (m.insertGroup req) ↔
      (newGroupID m.mirrorBuddyGroups req ≠ 0 → ¬LocalIn req.localNodeID m 0) := by
  have hlocal : (m.insertGroup req).localGroupID = newGroupID m.mirrorBuddyGroups req :=
    if_pos hnode
  constructor
  · rintro htracks hne ⟨mbg, hfind, hmember⟩
    rw [← find_insertGroup (Ne.symm hne)] at hfind
    exact hne (hlocal.symm.trans (htracks.eq_of_member hfind hmember))
  · intro hzero
    refine ⟨fun {id mbg} hfind hmember => ?_, fun hnone => ?_⟩
    · rw [hlocal]
      by_contra hne
      rw [find_insertGroup (Ne.symm hne)] at hfind
      have hin : LocalIn req.localNodeID m id := ⟨mbg, hfind, hmember⟩
      obtain ⟨-, hprimary, hsecondary⟩ := hreq
      have hid : id = 0 ∨ id = newGroupID m.mirrorBuddyGroups req := by
        rcases hnode with hnode | hnode <;> rw [hnode] at h hin
        · exact eq_of_inOtherGroup h hprimary hin
        · exact eq_of_inOtherGroup h hsecondary hin
      rcases hid with rfl | hid
      · exact hzero hne hin
      · exact hne hid.symm
    · exact absurd hnode (hnone _ _ find_insertGroup_self)

theorem tracks_insertGroup_of_other (h : Tracks req.localNodeID m)
    (hnode : ¬req.group.HasNode req.localNodeID) :
    Tracks req.localNodeID (m.insertGroup req) ↔ (newGroupID m.mirrorBuddyGroups req ≠ 0 →
        ¬LocalIn req.localNodeID m (newGroupID m.mirrorBuddyGroups req)) := by
  have hlocal : (m.insertGroup req).localGroupID = m.localGroupID := if_neg hnode
  have hold : ∀ {id mbg}, (m.insertGroup req).mirrorBuddyGroups.find id = some mbg →
      mbg.HasNode req.localNodeID →
      id ≠ newGroupID m.mirrorBuddyGroups req ∧ m.mirrorBuddyGroups.find id = some mbg := by
    intro id mbg hfind hmember
    have hne : id ≠ newGroupID m.mirrorBuddyGroups req := by
      rintro rfl
      rw [find_insertGroup_self] at hfind
      cases hfind
      exact hnode hmember
    exact ⟨hne, (find_insertGroup hne).symm.trans hfind⟩
  constructor
  · intro htracks hne hin
    have hid := h.eq_of_localIn hin
    have hzero := htracks.eq_zero fun id mbg hfind hmember => by
      obtain ⟨hne', hfind'⟩ := hold hfind hmember
      exact hne' ((h.eq_of_member hfind' hmember).symm.trans hid)
    exact hne (hid.symm.trans (hlocal.symm.trans hzero))
  · intro hout
    refine ⟨fun {id mbg} hfind hmember => ?_, fun hnone => ?_⟩
    · exact hlocal.trans (h.eq_of_member (hold hfind hmember).2 hmember)
    · rw [hlocal]
      by_cases hin : LocalIn req.localNodeID m (newGroupID m.mirrorBuddyGroups req)
      · have hzero : newGroupID m.mirrorBuddyGroups req = 0 := by
          by_contra hne
          exact hout hne hin
        exact (h.eq_of_localIn hin).trans hzero
      · refine h.eq_zero fun id mbg hfind hmember => ?_
        have hne : id ≠ newGroupID m.mirrorBuddyGroups req := by
          rintro rfl
          exact hin ⟨mbg, hfind, hmember⟩
        exact hnone id mbg ((find_insertGroup hne).trans hfind) hmember

theorem mapMirrorBuddyGroup_snd {stores : Stores} :
    Admitted stores m req ∧ (m.mapMirrorBuddyGroup stores req).2 = m.insertGroup req ∨
      ¬Admitted stores m req ∧ (m.mapMirrorBuddyGroup stores req).2 = m := by
  unfold Admitted mapMirrorBuddyGroup
  split
  · rename_i hchecks
    split
    · rename_i hother
      exact .inr ⟨fun h => by simp [hother] at h, rfl⟩
    split
    · rename_i hother
      exact .inr ⟨fun h => by simp [hother] at h, rfl⟩
    · rename_i hprimary hsecondary
      exact .inl ⟨⟨hchecks, by simpa using hprimary, by simpa using hsecondary⟩, rfl⟩
  · rename_i hchecks
    exact .inr ⟨fun h => hchecks h.1, rfl⟩

end

theorem Tracks.unmap (h : Tracks node m) (hmbg : m.mirrorBuddyGroups.find id = some mbg) :
    Tracks node (m.unmapMirrorBuddyGroup id node).2 := by
  have hlocal : (m.unmapMirrorBuddyGroup id node).2.localGroupID =
      if m.localGroupID ≠ 0 ∧ mbg.HasNode node then 0 else m.localGroupID := by
    rw [unmapMirrorBuddyGroup, hmbg]
    rfl
  have hfind : ∀ k, (m.unmapMirrorBuddyGroup id node).2.mirrorBuddyGroups.find k =
      if k = id then none else m.mirrorBuddyGroups.find k := fun k => by
    rw [unmapMirrorBuddyGroup_groups, StdMap.find_erase]
  refine ⟨fun {k mbg'} hk hnode => ?_, fun hnone => ?_⟩
  · rw [hfind] at hk
    split at hk
    · cases hk
    rename_i hne
    have hid := h.eq_of_member hk hnode
    have hout : ¬mbg.HasNode node := fun hin =>
      hne (hid.symm.trans (h.eq_of_member hmbg hin))
    rw [hlocal, if_neg fun hc => hout hc.2]
    exact hid
  · rw [hlocal]
    split
    · rfl
    rename_i hkeep
    by_cases hin : mbg.HasNode node
    · by_contra hne
      exact hkeep ⟨hne, hin⟩
    · refine h.eq_zero fun k mbg' hk hnode => ?_
      by_cases hkid : k = id
      · subst hkid
        rw [hmbg] at hk
        cases hk
        exact hin hnode
      · exact hnone k mbg' ((hfind k).trans ((if_neg hkid).trans hk)) hnode

/-- Unmapping goes wrong for a local node 0, which a group that is not mapped seems to have. -/
theorem tracks_unmap_iff (h : Tracks node m) : Tracks node (m.unmapMirrorBuddyGroup id node).2 ↔
      (node = 0 → m.localGroupID ≠ 0 → (m.mirrorBuddyGroups.find id).isSome) := by
  cases hmbg : m.mirrorBuddyGroups.find id with
  | some mbg => exact iff_of_true (h.unmap hmbg) fun _ _ => rfl
  | none =>
    have hlocal : (m.unmapMirrorBuddyGroup id node).2.localGroupID =
        if m.localGroupID ≠ 0 ∧ node = 0 then 0 else m.localGroupID := by
      have hdefault : MirrorBuddyGroup.HasNode ⟨0, 0⟩ node ↔ node = 0 := or_self_iff
      simp only [unmapMirrorBuddyGroup, hmbg, Option.getD_none, hdefault]
    have hfind : ∀ k, (m.unmapMirrorBuddyGroup id node).2.mirrorBuddyGroups.find k =
        m.mirrorBuddyGroups.find k := fun k => by
      rw [unmapMirrorBuddyGroup_groups, StdMap.find_erase]
      split_ifs with hk
      · rw [hk, hmbg]
      · rfl
    constructor
    · intro htracks hnode hne
      rw [if_pos ⟨hne, hnode⟩] at hlocal
      refine absurd (h.eq_zero fun k mbg hk hmember => ?_) hne
      have hk' := htracks.eq_of_member ((hfind k).trans hk) hmember
      exact hne ((h.eq_of_member hk hmember).trans (hk'.symm.trans hlocal))
    · intro hkeep
      have hsame : (m.unmapMirrorBuddyGroup id node).2.localGroupID = m.localGroupID :=
        hlocal.trans (if_neg fun hc => absurd (hkeep hc.2 hc.1) (by decide))
      refine ⟨fun {k mbg} hk hmember => ?_, fun hnone => ?_⟩
      · exact hsame.trans (h.eq_of_member ((hfind k).symm.trans hk) hmember)
      · exact hsame.trans (h.eq_zero fun k mbg hk => hnone k mbg ((hfind k).trans hk))

/-- One call keeps the id right exactly if it is one of `KeepsTrack`. -/
theorem tracks_localStep_iff (h : Tracks node m) :
    Tracks node (localStep node m call) ↔ KeepsTrack node m call := by
  cases call with
  | map stores buddyGroupID primaryTargetID secondaryTargetID allowUpdate =>
    simp only [localStep, KeepsTrack]
    generalize hreq : MapRequest.mk buddyGroupID primaryTargetID secondaryTargetID node
      allowUpdate = req
    obtain rfl : req.localNodeID = node := by rw [← hreq]
    rcases @mapMirrorBuddyGroup_snd m req stores with ⟨hadmitted, heq⟩ | ⟨hrefused, heq⟩
    · rw [heq]
      by_cases hnode : req.group.HasNode req.localNodeID
      · simp only [if_pos hnode, hadmitted, true_implies]
        exact tracks_insertGroup_of_member h hadmitted hnode
      · simp only [if_neg hnode, hadmitted, true_implies]
        exact tracks_insertGroup_of_other h hnode
    · rw [heq]
      exact iff_of_true h fun hadmitted => absurd hadmitted hrefused
  | unmap buddyGroupID => exact tracks_unmap_iff h
  | syncGroupsFromLists groups =>
    refine tracks_sync_iff groups.disjoint fun id mbg => ?_
    rw [StdMap.find_foldl_assign groups.nodup]
    simp
  | syncStatesAndGroups clock states newGroups hdisjoint =>
    exact tracks_sync_iff hdisjoint fun id mbg => StdMap.find_eq_some_iff

end

theorem tracks_init : Tracks node init where
  eq_of_member h := by cases h
  eq_zero _ := rfl

/-- The id is right after every call of a sequence exactly if every call is one of `KeepsTrack`. -/
theorem tracks_run_iff (localNodeID : NumNodeID) (calls : List LocalCall) :
    EveryState (localStep localNodeID) (Tracks localNodeID) init calls ↔
      EveryStep (localStep localNodeID) (KeepsTrack localNodeID) init calls :=
  everyState_iff_of_inv (I := Tracks localNodeID) (fun _ h => h)
    (fun _ _ h => (tracks_localStep_iff h).mpr)
    (fun _ _ h hc h' => hc ((tracks_localStep_iff h).mp h')) tracks_init calls

/-- The group of node 1 disappears, and the group of node 1 gets other members: its id is kept. -/
theorem tracks_left : ¬EveryState (localStep 1) (Tracks 1) init
      [.map ⟨none, none⟩ 0 1 2 false, .syncGroupsFromLists ⟨[], .nil, fun _ h => by cases h⟩] ∧
    ¬EveryState (localStep 1) (Tracks 1) init
      [.map ⟨none, none⟩ 0 1 2 false, .map ⟨none, none⟩ 1 3 4 true] := by
  constructor
  · rintro ⟨-, -, h⟩
    exact absurd (h.eq_zero fun _ _ hfind => by cases hfind) (by decide)
  · rintro ⟨-, -, h⟩
    refine absurd (h.eq_zero fun id mbg hfind => ?_) (by decide)
    have hgroups : (localStep 1 (localStep 1 init (.map ⟨none, none⟩ 0 1 2 false))
        (.map ⟨none, none⟩ 1 3 4 true)).mirrorBuddyGroups.toList = [(1, ⟨3, 4⟩)] := by decide
    rw [StdMap.find_eq_some_iff, hgroups, List.mem_singleton] at hfind
    cases hfind
    decide

end Congfs.MirrorBuddyGroupMapper
