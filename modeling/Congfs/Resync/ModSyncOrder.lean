import Congfs.Nodes.Basic
import Mathlib.Data.List.Lex
import Mathlib.Data.Prod.Lex

/-!
# The order of a modification resync

`BuddyResyncerModSyncSlave::streamCandidates` sorts a change set, deletions before updates and
inodes before everything else, and transfers the elements in this order. The rules of
`resyncElemCmp` contradict each other where an update is below a deletion by type and path: each is
before the other one, and `std::sort` may do anything.
-/

namespace Congfs.Resync

inductive MetaSyncFileType
  | inode
  | dentry
  | directory
  deriving DecidableEq

/-- `MetaSyncCandidateFile::Element` -/
structure Element where
  path : List UInt8
  type : MetaSyncFileType
  isDeletion : Bool

def MetaSyncFileType.int : MetaSyncFileType → ℕ
  | inode => 0
  | dentry => 1
  | directory => 2

/-- The type and the path, which is compared by its bytes. -/
def Element.key (a : Element) : ℕ ×ₗ List ℕ := toLex (a.type.int, a.path.map UInt8.toNat)

def resyncElemCmp (a b : Element) : Bool :=
  if a.isDeletion && !b.isDeletion then true
  else if a.type = .inode && b.type ≠ .inode then true
  else a.key < b.key

/-- The length of `buddymir/`, which is cut off: `substr` throws for a shorter path. -/
def prefixLength : ℕ := 9

/-- The elements that are transferred, the last one maybe with an error, and whether the stream goes
on. -/
def streamElements (resync : Element → FhgfsOpsErr) : List Element → List Element × Bool
  | [] => ([], true)
  | element :: elements =>
    if element.path.length < prefixLength then ([], false)
    else if resync element = .success then
      let (sent, ok) := streamElements resync elements
      (element :: sent, ok)
    else ([element], false)

/-- What is transferred of each change set. The stream ends with the first failure or exception. -/
def streamCandidates (sort : List Element → List Element) (resync : Element → FhgfsOpsErr) :
    List (List Element) → List (List Element)
  | [] => []
  | candidate :: candidates =>
    let (sent, ok) := streamElements resync (sort candidate)
    if ok then sent :: streamCandidates sort resync candidates else [sent]

/-- The comparison puts neither of them first. -/
def Tie (a b : Element) : Prop := resyncElemCmp a b = false ∧ resyncElemCmp b a = false

/-- What `std::sort` asks of the comparison of these elements. -/
structure StrictWeak (l : List Element) : Prop where
  irrefl : ∀ a ∈ l, resyncElemCmp a a = false
  trans : ∀ a ∈ l, ∀ b ∈ l, ∀ c ∈ l, resyncElemCmp a b → resyncElemCmp b c → resyncElemCmp a c
  tie : ∀ a ∈ l, ∀ b ∈ l, ∀ c ∈ l, Tie a b → Tie b c → Tie a c

/-- What `std::sort` makes of the elements. -/
def SortedTo (l sorted : List Element) : Prop :=
  StrictWeak l → sorted.Perm l ∧ sorted.Pairwise fun a b => resyncElemCmp b a = false

/-- Deletions first, and inodes first among deletions and among updates. -/
def InOrder (sent : List Element) : Prop :=
  sent.Pairwise fun a b => (b.isDeletion → a.isDeletion) ∧
    (a.isDeletion = b.isDeletion → b.type = .inode → a.type = .inode)

/-- No update is below a deletion by type and path. -/
def Orderly (l : List Element) : Prop :=
  ∀ a ∈ l, ∀ b ∈ l, a.isDeletion → b.isDeletion = false → a.key ≤ b.key

theorem key_lt_of_inode {a b : Element} (ha : a.type = .inode) (hb : b.type ≠ .inode) :
    a.key < b.key := by
  refine Prod.Lex.toLex_lt_toLex.mpr (.inl ?_)
  cases htype : b.type with
  | inode => exact absurd htype hb
  | dentry | directory => simp [ha, MetaSyncFileType.int]

theorem resyncElemCmp_iff {a b : Element} : resyncElemCmp a b ↔
    (a.isDeletion ∧ b.isDeletion = false) ∨ a.key < b.key := by
  have hinode := key_lt_of_inode (a := a) (b := b)
  unfold resyncElemCmp
  split_ifs <;> simp_all

theorem tie_iff {a b : Element} : Tie a b ↔ a.isDeletion = b.isDeletion ∧ a.key = b.key := by
  rw [Tie, ← Bool.not_eq_true, ← Bool.not_eq_true, resyncElemCmp_iff, resyncElemCmp_iff]
  cases a.isDeletion <;> cases b.isDeletion <;> simp [le_antisymm_iff, and_comm]

theorem strictWeak_iff {l : List Element} : StrictWeak l ↔ Orderly l := by
  constructor
  · intro h a ha b hb hdel hupd
    by_contra hlt
    have hself := h.trans a ha b hb a ha (resyncElemCmp_iff.mpr (.inl ⟨hdel, hupd⟩))
      (resyncElemCmp_iff.mpr (.inr (not_le.mp hlt)))
    rw [h.irrefl a ha] at hself
    cases hself
  · intro h
    refine ⟨fun a _ => (tie_iff.mpr ⟨rfl, rfl⟩).1, fun a ha b hb c hc =>
      ?_, fun a _ b _ c _ hab hbc => ?_⟩
    · rw [resyncElemCmp_iff, resyncElemCmp_iff, resyncElemCmp_iff]
      rintro (⟨hdel, hupd⟩ | hab) (⟨hdel', hupd'⟩ | hbc)
      · exact .inl ⟨hdel, hupd'⟩
      · cases hc' : c.isDeletion with
        | false => exact .inl ⟨hdel, rfl⟩
        | true => exact absurd hbc (h c hc b hb hc' hupd).not_gt
      · cases ha' : a.isDeletion with
        | false => exact absurd hab (h b hb a ha hdel' ha').not_gt
        | true => exact .inl ⟨rfl, hupd'⟩
      · exact .inr (hab.trans hbc)
    · rw [tie_iff] at hab hbc ⊢
      exact ⟨hab.1.trans hbc.1, hab.2.trans hbc.2⟩

theorem streamElements_prefix : (streamElements resync l).1 <+: l := by
  induction l with
  | nil => exact List.prefix_rfl
  | cons element l ih =>
    unfold streamElements
    split_ifs
    · exact List.nil_prefix
    · exact (List.prefix_cons_inj element).mpr ih
    · exact (List.prefix_cons_inj element).mpr List.nil_prefix

/-- The transfer of an element that cannot fail. -/
def Transfers (resync : Element → FhgfsOpsErr) (a : Element) : Prop :=
  prefixLength ≤ a.path.length ∧ resync a = .success

theorem streamElements_eq (h : ∀ a ∈ l, Transfers resync a) :
    streamElements resync l = (l, true) := by
  induction l with
  | nil => rfl
  | cons a l ih =>
    obtain ⟨⟨hlen, hres⟩, hl⟩ := List.forall_mem_cons.mp h
    rw [streamElements, if_neg hlen.not_gt, if_pos hres, ih hl]

theorem inOrder_of_sorted (h : SortedTo l sorted) (hl : Orderly l) : InOrder sorted := by
  refine (h (strictWeak_iff.mpr hl)).2.imp fun {a b} hba => ?_
  rw [← Bool.not_eq_true, resyncElemCmp_iff, not_or] at hba
  constructor
  · intro hb
    simpa [hb] using hba.1
  · intro _ hb
    by_contra ha
    exact hba.2 (key_lt_of_inode hb ha)

/-- What is transferred of a change set: the elements in order, as far as the stream gets. -/
structure Sent (l sorted sent : List Element) : Prop where
  perm : sorted.Perm l
  inOrder : InOrder sorted
  isPrefix : sent <+: sorted

/-- The comparison orders a change set iff no update in it is below a deletion. Of such change sets
the elements are transferred in order, up to the first failure, and all of them if there is none. -/
theorem streamCandidates_inOrder (sort : List Element → List Element)
    (resync : Element → FhgfsOpsErr)
    (candidates : List (List Element)) (hsort : ∀ l ∈ candidates, SortedTo l (sort l)) :
    (∀ l, StrictWeak l ↔ Orderly l) ∧ ((∀ l ∈ candidates, Orderly l) →
      (∃ done, done <+: candidates ∧ List.Forall₂ (fun l sent => Sent l (sort l) sent) done
        (streamCandidates sort resync candidates)) ∧
      ((∀ l ∈ candidates, ∀ a ∈ l, Transfers resync a) →
        streamCandidates sort resync candidates = candidates.map sort)) := by
  refine ⟨fun _ => strictWeak_iff, fun h => ?_⟩
  induction candidates with
  | nil => exact ⟨⟨[], List.prefix_rfl, .nil⟩, fun _ => rfl⟩
  | cons l candidates ih =>
    have hperm := (hsort l (.head _) (strictWeak_iff.mpr (h l (.head _)))).1
    have hfirst : Sent l (sort l) (streamElements resync (sort l)).1 :=
      ⟨hperm, inOrder_of_sorted (hsort l (.head _)) (h l (.head _)), streamElements_prefix⟩
    obtain ⟨⟨done, hdone, hsent⟩, hall⟩ :=
      ih (fun l hl => hsort l (.tail _ hl)) fun l hl => h l (.tail _ hl)
    rw [streamCandidates]
    refine ⟨?_, fun htransfers => ?_⟩
    · dsimp only
      split
      · exact ⟨l :: done, (List.prefix_cons_inj l).mpr hdone, .cons hfirst hsent⟩
      · exact ⟨[l], (List.prefix_cons_inj l).mpr List.nil_prefix, .cons hfirst .nil⟩
    · have hl := streamElements_eq fun a ha => htransfers l (.head _) a (hperm.mem_iff.mp ha)
      rw [hl, hall fun l hl => htransfers l (.tail _ hl)]
      rfl

/-- `buddymir/` and a name. -/
def itemPath (name : UInt8) : List UInt8 := [98, 117, 100, 100, 121, 109, 105, 114, 47, name]

/-- An inode is deleted and a dentry updated. -/
theorem streamCandidates_inOrder_inode :
    streamCandidates id (fun _ => .success)
        [[⟨itemPath 50, .inode, true⟩, ⟨itemPath 49, .dentry, false⟩]] =
      [[⟨itemPath 50, .inode, true⟩, ⟨itemPath 49, .dentry, false⟩]] := by
  refine ((streamCandidates_inOrder id (fun _ => .success) _ ?_).2 ?_).2 ?_
  · rintro _ (_ | ⟨_, ⟨⟩⟩) -
    exact ⟨.refl _, by decide⟩
  · simp only [List.forall_mem_singleton, Orderly]
    decide
  · simp [Transfers, itemPath, prefixLength]

/-- A dentry that is deleted and an inode that is updated are each before the other one. -/
theorem resyncElemCmp_both :
    resyncElemCmp ⟨itemPath 49, .dentry, true⟩ ⟨itemPath 50, .inode, false⟩ ∧
    resyncElemCmp ⟨itemPath 50, .inode, false⟩ ⟨itemPath 49, .dentry, true⟩ ∧
    ¬StrictWeak [⟨itemPath 49, .dentry, true⟩, ⟨itemPath 50, .inode, false⟩] := by
  refine ⟨by decide, by decide, fun h => ?_⟩
  have := strictWeak_iff.mp h _ (.head _) _ (.tail _ (.head _)) rfl rfl
  revert this
  decide

end Congfs.Resync
