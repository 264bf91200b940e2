import Congfs.Lib.Threads
import Congfs.Nodes.BuddyGroupMapper

/-!
# Buddy groups form a matching

Calls of `mapMirrorBuddyGroup`, `unmapMirrorBuddyGroup` and `switchover` run at the same time. The
members of a new group are looked up in two sections before the section that writes it, so another
call can take one of them in between; and the ids can run out. `Admissible` is what has to hold when
the section that writes begins.
-/

namespace Congfs.MirrorBuddyGroupMapper

open StdMap
open MirrorBuddyGroupMapper

/-- No target is in two groups, the members of a group differ, and 0 is no group. -/
structure Matching (groups : MirrorBuddyGroupMap) : Prop where
  unique : ∀ {t id id' mbg mbg'}, groups.find id = some mbg → groups.find id' = some mbg' →
    mbg.Has t → mbg'.Has t → id = id'
  distinct : ∀ {id mbg}, groups.find id = some mbg → mbg.firstTargetID ≠ mbg.secondTargetID
  zero_free : groups.find 0 = none

inductive Request
  | map (req : MapRequest)
  | unmap (buddyGroupID : UInt16) (localNodeID : NumNodeID)
  | switchover (buddyGroupID : UInt16)

/-- Where a call of `mapMirrorBuddyGroup` stands. -/
inductive MapStage
  | sanityChecks
  | findPrimary
  | findSecondary
  | insert
  deriving DecidableEq

inductive Call
  | map (req : MapRequest) (stage : MapStage)
  | unmap (buddyGroupID : UInt16) (localNodeID : NumNodeID)
  | switchover (buddyGroupID : UInt16)

inductive Result
  | mapped (err : FhgfsOpsErr) (newBuddyGroup : Option UInt16)
  | unmapped (res : Bool)
  | switched

def Request.call : Request → Call
  | map req => .map req .sanityChecks
  | unmap buddyGroupID localNodeID => .unmap buddyGroupID localNodeID
  | switchover buddyGroupID => .switchover buddyGroupID

section

variable (m : MirrorBuddyGroupMapper)

def next : Call → Stores → MirrorBuddyGroupMapper × (Call ⊕ Result)
  | .map req .sanityChecks, stores =>
    match sanityChecks stores m.mirrorBuddyGroups req with
    | .success => (m, .inl (.map req .findPrimary))
    | err => (m, .inr (.mapped err none))
  | .map req .findPrimary, _ =>
    if inOtherGroup m.mirrorBuddyGroups req req.primaryTargetID then
      (m, .inr (.mapped .inUse none))
    else (m, .inl (.map req .findSecondary))
  | .map req .findSecondary, _ =>
    if inOtherGroup m.mirrorBuddyGroups req req.secondaryTargetID then
      (m, .inr (.mapped .inUse none))
    else (m, .inl (.map req .insert))
  | .map req .insert, _ =>
    (m.insertGroup req, .inr (.mapped .success (some (newGroupID m.mirrorBuddyGroups req))))
  | .unmap buddyGroupID localNodeID, _ =>
    let r := m.unmapMirrorBuddyGroup buddyGroupID localNodeID
    (r.2, .inr (.unmapped r.1))
  | .switchover buddyGroupID, _ =>
    ({ m with
      mirrorBuddyGroups := MirrorBuddyGroupMapper.switchover m.mirrorBuddyGroups buddyGroupID },
      .inr .switched)

def program : Program MirrorBuddyGroupMapper Call Request Stores Result := ⟨Request.call, next⟩

/-- What is expected of a section: the groups are a matching after it, and a group was unmapped
exactly if it was mapped. -/
def Correct (call : Call) (stores : Stores) : Prop :=
  Matching (next m call stores).1.mirrorBuddyGroups ∧
    ∀ id nodeID res, call = .unmap id nodeID → (next m call stores).2 = .inr (.unmapped res) →
      (res ↔ (m.mirrorBuddyGroups.find id).isSome)

/-- A section that writes a group finds its members in no other group, and an id if none is given.
A group that is unmapped is mapped, if there is a local group. -/
def Admissible : Call → Stores → Prop
  | .map req .insert, _ =>
    (req.buddyGroupID = 0 → ∃ id, id ≠ 0 ∧ m.mirrorBuddyGroups.find id = none) ∧
      ∀ id mbg, m.mirrorBuddyGroups.find id = some mbg → id ≠ req.buddyGroupID →
        ¬mbg.Has req.primaryTargetID ∧ ¬mbg.Has req.secondaryTargetID
  | .unmap id _, _ => m.localGroupID = 0 ∨ (m.mirrorBuddyGroups.find id).isSome
  | _, _ => True

end

/-- A call that is past its first checks has two different members. -/
def Call.Checked : Call → Prop
  | .map req stage => stage ≠ .sanityChecks → req.primaryTargetID ≠ req.secondaryTargetID
  | _ => True

section
variable {m : MirrorBuddyGroupMapper} {groups : MirrorBuddyGroupMap} {req : MapRequest}
  {stores : Stores} {id : UInt16} {mbg : MirrorBuddyGroup}

theorem members_ne_of_sanityChecks (h : sanityChecks stores groups req = .success) :
    req.primaryTargetID ≠ req.secondaryTargetID := by
  intro heq
  unfold sanityChecks at h
  split at h <;> cases h

theorem Matching.erase (h : Matching groups) : Matching (groups.erase id) := by
  have hfind : ∀ {k mbg}, (groups.erase id).find k = some mbg → groups.find k = some mbg := by
    intro k mbg hk
    rw [find_erase] at hk
    split at hk
    · cases hk
    · exact hk
  refine ⟨fun h1 h2 => h.unique (hfind h1) (hfind h2), fun h1 => h.distinct (hfind h1), ?_⟩
  rw [find_erase, h.zero_free, ite_self]

theorem Matching.switchover (h : Matching groups) :
    Matching (MirrorBuddyGroupMapper.switchover groups id) := by
  -- a switch only exchanges the roles of the members
  have hfind : ∀ {k mbg}, (MirrorBuddyGroupMapper.switchover groups id).find k = some mbg →
      ∃ mbg', groups.find k = some mbg' ∧ (mbg = mbg' ∨ mbg = mbg'.swap) := by
    intro k mbg hk
    rw [find_switchover] at hk
    split_ifs at hk with heq
    · obtain ⟨mbg', hmbg', rfl⟩ := Option.map_eq_some_iff.mp hk
      exact ⟨mbg', heq ▸ hmbg', .inr rfl⟩
    · exact ⟨mbg, hk, .inl rfl⟩
  have hhas : ∀ {mbg mbg' : MirrorBuddyGroup} {t}, mbg = mbg' ∨ mbg = mbg'.swap → mbg.Has t →
      mbg'.Has t := by
    rintro mbg mbg' t (rfl | rfl) ht
    · exact ht
    · exact MirrorBuddyGroup.has_swap.mp ht
  refine ⟨fun h1 h2 ht ht' => ?_, fun h1 => ?_, ?_⟩
  · obtain ⟨mbg1, hm1, he1⟩ := hfind h1
    obtain ⟨mbg2, hm2, he2⟩ := hfind h2
    exact h.unique hm1 hm2 (hhas he1 ht) (hhas he2 ht')
  · obtain ⟨mbg1, hm1, rfl | rfl⟩ := hfind h1
    · exact h.distinct hm1
    · exact (h.distinct hm1).symm
  · rw [find_switchover, h.zero_free]
    split_ifs with h0
    · rw [← h0, h.zero_free]
      rfl
    · rfl

theorem matching_assign_iff (h : Matching groups) (hne : mbg.firstTargetID ≠ mbg.secondTargetID) :
    Matching (groups.assign id mbg) ↔ id ≠ 0 ∧ ∀ k mbg', groups.find k = some mbg' → k ≠ id →
        ¬mbg'.Has mbg.firstTargetID ∧ ¬mbg'.Has mbg.secondTargetID := by
  constructor
  · intro h'
    refine ⟨?_, fun k mbg' hk hkid => ?_⟩
    · rintro rfl
      exact absurd (find_assign_self.symm.trans h'.zero_free) (by simp)
    · have hk' : (groups.assign id mbg).find k = some mbg' := by
        rwa [find_assign_of_ne hkid]
      exact ⟨fun ht => hkid (h'.unique hk' find_assign_self ht (.inl rfl)),
        fun ht => hkid (h'.unique hk' find_assign_self ht (.inr rfl))⟩
  · rintro ⟨hid, hother⟩
    have hnew : ∀ {t k mbg'}, groups.find k = some mbg' → k ≠ id → mbg'.Has t → ¬mbg.Has t := by
      rintro t k mbg' hk hkid ht (rfl | rfl)
      · exact (hother k mbg' hk hkid).1 ht
      · exact (hother k mbg' hk hkid).2 ht
    refine ⟨fun {t k k' mbg1 mbg2} h1 h2 ht1 ht2 => ?_, fun {k mbg1} h1 => ?_, ?_⟩
    · rw [find_assign] at h1 h2
      split at h1 <;> split at h2
      · rename_i hk hk'
        rw [hk, hk']
      · rename_i hk hk'
        cases h1
        exact absurd ht1 (hnew h2 hk' ht2)
      · rename_i hk hk'
        cases h2
        exact absurd ht2 (hnew h1 hk ht1)
      · exact h.unique h1 h2 ht1 ht2
    · rw [find_assign] at h1
      split at h1
      · cases h1
        exact hne
      · exact h.distinct h1
    · rw [find_assign_of_ne hid.symm]
      exact h.zero_free

theorem insertGroup_matching_iff (h : Matching m.mirrorBuddyGroups)
    (hne : req.primaryTargetID ≠ req.secondaryTargetID) :
    Matching (m.insertGroup req).mirrorBuddyGroups ↔ Admissible m (.map req .insert) stores := by
  refine (matching_assign_iff h hne).trans ?_
  unfold Admissible newGroupID
  by_cases hreq : req.buddyGroupID = 0
  · have hzero : ∀ k mbg, m.mirrorBuddyGroups.find k = some mbg → k ≠ req.buddyGroupID := by
      rintro k mbg hk rfl
      rw [hreq, h.zero_free] at hk
      cases hk
    rw [if_pos hreq]
    rcases generateID_cases m.mirrorBuddyGroups with ⟨hnz, hfree⟩ | ⟨hz, hfull⟩
    · have hfresh : ∀ k mbg, m.mirrorBuddyGroups.find k = some mbg →
          k ≠ generateID m.mirrorBuddyGroups := by
        rintro k mbg hk rfl
        rw [hfree] at hk
        cases hk
      constructor
      · rintro ⟨-, hother⟩
        exact ⟨fun _ => ⟨_, hnz, hfree⟩, fun k mbg hk _ => hother k mbg hk (hfresh k mbg hk)⟩
      · rintro ⟨-, hother⟩
        exact ⟨hnz, fun k mbg hk _ => hother k mbg hk (hzero k mbg hk)⟩
    · refine iff_of_false (fun hc => hc.1 hz) fun hc => ?_
      obtain ⟨k, hk, hfree⟩ := hc.1 hreq
      have hsome := hfull k hk
      rw [hfree] at hsome
      cases hsome
  · rw [if_neg hreq]
    exact and_congr_left fun _ => iff_of_true hreq fun h0 => absurd h0 hreq

end

theorem next_checks {m : MirrorBuddyGroupMapper} {req : MapRequest} {stage : MapStage}
    {stores : Stores} (hstage : stage ≠ .insert) (hcall : (Call.map req stage).Checked) :
    (next m (.map req stage) stores).1 = m ∧
      ∀ call, (next m (.map req stage) stores).2 = .inl call → call.Checked := by
  cases stage with
  | sanityChecks =>
    rw [next]
    split
    · rename_i hchecks
      refine ⟨rfl, ?_⟩
      rintro call ⟨⟩
      exact fun _ => members_ne_of_sanityChecks hchecks
    · exact ⟨rfl, fun call h => by cases h⟩
  | findPrimary | findSecondary =>
    rw [next]
    split
    · exact ⟨rfl, fun call h => by cases h⟩
    · refine ⟨rfl, ?_⟩
      rintro call ⟨⟩
      exact fun _ => hcall (by decide)
  | insert => exact absurd rfl hstage

/-- What the interleaving relies on: a matching, and calls that are checked. -/
theorem next_keeps (h : Matching (next m call stores).1.mirrorBuddyGroups)
    (hcall : ∀ call', (next m call stores).2 = .inl call' → call'.Checked) :
    program.Keeps (fun m => Matching m.mirrorBuddyGroups) (fun _ call => call.Checked)
      (fun _ _ => True) m call stores :=
  ⟨h, hcall, fun _ hu _ => hu, fun _ _ _ _ _ => trivial⟩

theorem next_admissible (hm : Matching m.mirrorBuddyGroups) (hcall : call.Checked)
    (h : Admissible m call stores) :
    (Matching (next m call stores).1.mirrorBuddyGroups ∧
      ∀ call', (next m call stores).2 = .inl call' → call'.Checked) ∧ Correct m call stores := by
  suffices hnext : Matching (next m call stores).1.mirrorBuddyGroups ∧
      (∀ call', (next m call stores).2 = .inl call' → call'.Checked) ∧
      ∀ id nodeID res, call = .unmap id nodeID → (next m call stores).2 = .inr (.unmapped res) →
        (res ↔ (m.mirrorBuddyGroups.find id).isSome) from
    ⟨⟨hnext.1, hnext.2.1⟩, hnext.1, hnext.2.2⟩
  cases call with
  | map req stage =>
    by_cases hstage : stage = .insert
    · subst hstage
      refine ⟨?_, fun _ h => (by cases h), fun _ _ _ h => (by cases h)⟩
      exact (insertGroup_matching_iff hm (hcall (by decide))).mpr h
    · obtain ⟨heq, hchecked⟩ := @next_checks m req stage stores hstage hcall
      rw [heq]
      exact ⟨hm, hchecked, fun _ _ _ h => (by cases h)⟩
  | unmap id nodeID =>
    refine ⟨?_, fun _ hcall' => (by cases hcall'), ?_⟩
    · rw [next, unmapMirrorBuddyGroup_groups]
      exact hm.erase
    · rintro id' nodeID' res ⟨⟩ ⟨⟩
      rw [unmapMirrorBuddyGroup_fst]
      exact or_iff_right_of_imp fun hlocal => h.resolve_left hlocal
  | switchover id =>
    exact ⟨hm.switchover, fun _ hcall' => (by cases hcall'), fun _ _ _ h => (by cases h)⟩

theorem not_correct_of_not_admissible (hm : Matching m.mirrorBuddyGroups) (hcall : call.Checked)
    (h : ¬Admissible m call stores) :
    ¬Correct m call stores := by
  rintro ⟨hmatching, hres⟩
  cases call with
  | map req stage =>
    cases stage with
    | insert => exact h ((insertGroup_matching_iff hm (hcall (by decide))).mp hmatching)
    | sanityChecks | findPrimary | findSecondary => exact h trivial
  | unmap id nodeID =>
    obtain ⟨hlocal, hfree⟩ := not_or.mp h
    have hmapped := (hres id nodeID _ rfl rfl).mp (unmapMirrorBuddyGroup_fst.mpr (.inl hlocal))
    exact hfree hmapped
  | switchover id => exact h trivial

/-- In a run that starts from a matching, every section is correct exactly if every section is
admissible. -/
theorem matching_run_iff {m : MirrorBuddyGroupMapper} (hm : Matching m.mirrorBuddyGroups)
    (actions : List (Program.Action Request Stores)) :
    EveryStep program.step (Program.OfSection Correct) ⟨m, []⟩ actions ↔
      EveryStep program.step (Program.OfSection Admissible) ⟨m, []⟩ actions := by
  have hinv : Program.Inv (fun m : MirrorBuddyGroupMapper => Matching m.mirrorBuddyGroups)
      (fun _ (call : Call) => call.Checked) (fun _ _ => True) m [] := .of_no_calls hm
  refine Program.everySection_iff ?_ ?_ ?_ ?_ hinv
  · exact fun _ _ _ => trivial
  · refine ⟨?_, fun _ _ _ _ _ => trivial⟩
    rintro m (req | ⟨id, nodeID⟩ | id) -
    · exact fun h => absurd rfl h
    · trivial
    · trivial
  · intro m call stores hm hcall h
    obtain ⟨⟨hnext, hcall'⟩, hcorrect⟩ := next_admissible hm hcall h
    exact ⟨next_keeps hnext hcall', hcorrect⟩
  · intro m call stores hm hcall h
    exact not_correct_of_not_admissible hm hcall h

theorem matching_empty : Matching ∅ where
  unique h := by cases h
  distinct h := by cases h
  zero_free := rfl

/-- A group of two new targets is written into an empty mapper. -/
theorem matching_run_single : Matching init.mirrorBuddyGroups ∧
    EveryStep program.step (Program.OfSection Correct) ⟨init, []⟩
      [.start (.map ⟨0, 1, 2, 9, false⟩), .advance 0 ⟨none, none⟩, .advance 0 ⟨none, none⟩,
        .advance 0 ⟨none, none⟩, .advance 0 ⟨none, none⟩] := by
  refine ⟨matching_empty, (matching_run_iff matching_empty _).mpr ?_⟩
  refine ⟨trivial, ?_, ?_, ?_, ?_, trivial⟩
  · rintro call ⟨⟩
    trivial
  · rintro call ⟨⟩
    trivial
  · rintro call ⟨⟩
    trivial
  · rintro call ⟨⟩
    exact ⟨fun _ => ⟨1, by decide, rfl⟩, fun id mbg h => by cases h⟩

/-- Two calls that look for target 1 before either of them writes put it into two groups, and with a
local group an id that is not mapped is reported as unmapped. -/
theorem matching_raced : (¬EveryStep program.step (Program.OfSection Correct) ⟨init, []⟩
      [.start (.map ⟨0, 1, 2, 9, false⟩), .start (.map ⟨0, 1, 3, 9, false⟩),
        .advance 0 ⟨none, none⟩, .advance 0 ⟨none, none⟩, .advance 0 ⟨none, none⟩,
        .advance 1 ⟨none, none⟩, .advance 1 ⟨none, none⟩, .advance 1 ⟨none, none⟩,
        .advance 0 ⟨none, none⟩, .advance 0 ⟨none, none⟩]) ∧
    ¬EveryStep program.step (Program.OfSection Correct)
      ⟨⟨(∅ : MirrorBuddyGroupMap).assign 1 ⟨1, 2⟩, 1⟩, []⟩
      [.start (.unmap 7 1), .advance 0 ⟨none, none⟩] := by
  constructor
  · rintro ⟨-, -, -, -, -, -, -, -, -, h, -⟩
    obtain ⟨hmatching, -⟩ := h _ rfl
    have heq := @hmatching.unique 1 1 2 ⟨1, 2⟩ ⟨1, 3⟩ (by decide) (by decide) (.inl rfl) (.inl rfl)
    exact absurd heq (by decide)
  · rintro ⟨-, h, -⟩
    obtain ⟨-, hres⟩ := h _ rfl
    have hmapped := hres 7 1 true rfl rfl
    exact absurd (hmapped.mp rfl) (by decide)

end Congfs.MirrorBuddyGroupMapper
