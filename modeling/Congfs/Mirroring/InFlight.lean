import Congfs.Mirroring.MirrorBuddyGroup
import Mathlib.Algebra.Group.Nat.Defs

/-!
# The heap of numbers in flight

Everything a release does to the slots is a sequence of swaps, which keep the slots that there are
and let the handles follow them (`Rearranged`). The order needs more: the way up halves the index,
but the children of a slot `i` are at `2 * i + 1` and `2 * i + 2`, so that it leaves the path to the
root at every right child. It stays on the path if the slot is on the left edge of the heap; and in
a heap of six, where the old root always ends up above the slots that are out of order (`RightWay`).
-/

namespace Congfs.Mirroring.MirrorBuddyGroup

open MinHeap
open Function

/-- The handles of the first `n` slots have their addresses. -/
def Linked (group : MirrorBuddyGroup) (n : ℕ) : Prop :=
  ∀ k, k < n → group.handles (group.seqNoInFlight k).pSelf = some k

def keys (group : MirrorBuddyGroup) (k : ℕ) : ℕ := (group.seqNoInFlight k).value.toNat

variable {group group' group'' : MirrorBuddyGroup} {n i j k : ℕ} {s : BuddySequenceNumber}

theorem Linked.pSelf_inj (h : group.Linked n) (hi : i < n) (hj : j < n)
    (heq : (group.seqNoInFlight i).pSelf = (group.seqNoInFlight j).pSelf) : i = j := by
  have hhi := h i hi
  rw [heq, h j hj] at hhi
  exact (Option.some.inj hhi).symm

theorem Linked.mono (h : group.Linked n) (hm : m ≤ n) : group.Linked m :=
  fun k hk => h k (by omega)

/-- The first `n` slots are the same in another order, and nothing else has changed. -/
structure Rearranged (n : ℕ) (group group' : MirrorBuddyGroup) : Prop where
  rest : group' = { group with seqNoInFlight := group'.seqNoInFlight, handles := group'.handles }
  slots : ∀ s, (∃ k, k < n ∧ group'.seqNoInFlight k = s) ↔ ∃ k, k < n ∧ group.seqNoInFlight k = s
  linked : group.Linked n → group'.Linked n

namespace Rearranged

theorem refl : Rearranged n group group := ⟨rfl, fun _ => .rfl, id⟩

theorem trans (h : Rearranged n group group') (h' : Rearranged n group' group'') :
    Rearranged n group group'' where
  rest := by
    rw [h'.rest, h.rest]
  slots s := (h'.slots s).trans (h.slots s)
  linked hlinked := h'.linked (h.linked hlinked)

theorem inFlightSize (h : Rearranged n group group') :
    group'.inFlightSize = group.inFlightSize := by
  rw [h.rest]

end Rearranged

@[simp] theorem swapSlots_seqNoInFlight :
    (group.swapSlots i j).seqNoInFlight = swapAt group.seqNoInFlight i j := rfl

theorem Linked.swapSlots (h : group.Linked n) (hi : i < n) (hj : j < n) :
    (group.swapSlots i j).Linked n := by
  intro k hk
  have hslot : ∀ k, k < n → ∃ k', k' < n ∧ swapAt group.seqNoInFlight i j k =
      group.seqNoInFlight k' ∧ (k ≠ i → k ≠ j → k' = k) ∧ (k = i → k' = j) ∧ (k = j → k' = i) := by
    intro k hk
    by_cases hki : k = i
    · exact ⟨j, hj, by rw [hki, swapAt_left], by omega, by omega, by omega⟩
    by_cases hkj : k = j
    · exact ⟨i, hi, by rw [hkj, swapAt_right], by omega, by omega, by omega⟩
    · exact ⟨k, hk, swapAt_of_ne hki hkj, by omega, by omega, by omega⟩
  obtain ⟨k', hk', hseq, hother, hleft, hright⟩ := hslot k hk
  simp only [MirrorBuddyGroup.swapSlots, swapAt_left, swapAt_right, hseq]
  by_cases hkj : k = j
  · rw [hright hkj, update_self, hkj]
  have hne : (group.seqNoInFlight k').pSelf ≠ (group.seqNoInFlight i).pSelf := by
    intro heq
    have := h.pSelf_inj hk' hi heq
    by_cases hki : k = i
    · omega
    · omega
  rw [update_of_ne hne]
  by_cases hki : k = i
  · rw [hleft hki, update_self, hki]
  have hne' : (group.seqNoInFlight k').pSelf ≠ (group.seqNoInFlight j).pSelf := by
    intro heq
    have := h.pSelf_inj hk' hj heq
    omega
  rw [update_of_ne hne', h k' hk', hother hki hkj]

theorem rearranged_swapSlots (hi : i < n) (hj : j < n) :
    Rearranged n group (group.swapSlots i j) where
  rest := rfl
  slots s := exists_swapAt_iff (P := fun slot => slot = s) hi hj
  linked h := h.swapSlots hi hj

theorem keys_swapSlots : (group.swapSlots i j).keys = swapAt group.keys i j :=
  comp_swapAt fun s : BuddySequenceNumber => s.value.toNat

/-! ## The way up -/

/-- The slots on the way, halving the index each time, are the ancestors, or the heap is small. -/
def RightWay (inFlightSize slot : ℕ) : Prop := inFlightSize ≤ 6 ∨ ∃ k ≤ slot, slot + 1 = 2 ^ k

instance rightWayDecidable (inFlightSize slot : ℕ) : Decidable (RightWay inFlightSize slot) :=
  inferInstanceAs (Decidable (_ ∨ ∃ k ≤ slot, _))

section
variable {fuel index : ℕ}

theorem decreaseKey_zero : group.decreaseKey fuel 0 = group := by
  cases fuel with
  | zero => rfl
  | succ fuel => exact if_pos rfl

theorem rearranged_decreaseKey (hindex : index < n) :
    Rearranged n group (group.decreaseKey fuel index) := by
  induction fuel generalizing group index with
  | zero => exact .refl
  | succ fuel ih =>
    rw [decreaseKey]
    split
    · exact .refl
    · exact (rearranged_swapSlots hindex (by omega)).trans (ih (by omega))

section
variable (hfuel : index ≤ fuel)
include hfuel

theorem decreaseKey_root :
    (group.decreaseKey fuel index).seqNoInFlight 0 = group.seqNoInFlight index := by
  induction fuel generalizing group index with
  | zero => rw [decreaseKey, Nat.le_zero.mp hfuel]
  | succ fuel ih =>
    rw [decreaseKey]
    split_ifs with h
    · rw [h]
    · exact (ih (by omega)).trans swapAt_right

theorem decreaseKey_one (hpos : 0 < index) :
    (group.decreaseKey fuel index).seqNoInFlight 1 = group.seqNoInFlight 0 := by
  induction fuel generalizing group index with
  | zero => omega
  | succ fuel ih =>
    rw [decreaseKey, if_neg (by omega)]
    rcases Nat.eq_zero_or_pos (index / 2) with hhalf | hhalf
    · have hone : index = 1 := by omega
      rw [hhalf, decreaseKey_zero, hone, swapSlots_seqNoInFlight, swapAt_left]
    · exact (ih (by omega) hhalf).trans (swapAt_of_ne (by omega) (by omega))

theorem holeAt_decreaseKey_left (hleft : index + 1 = 2 ^ e)
    (hindex : index < n) (h : HoleAt group.keys n index) :
    HoleAt (group.decreaseKey fuel index).keys n 0 := by
  induction fuel generalizing group index e with
  | zero =>
    rw [Nat.le_zero.mp hfuel] at h
    exact h
  | succ fuel ih =>
    rw [decreaseKey]
    split_ifs with hzero
    · rw [hzero] at h
      exact h
    · cases e with
      | zero =>
        omega
      | succ e =>
        have hparent : index / 2 = parent index := by
          rw [parent]
          omega
        refine ih (by omega) (by omega : index / 2 + 1 = 2 ^ e) (by omega) ?_
        rw [keys_swapSlots, hparent]
        exact h.up (by omega) hindex

/-- Only the slots 3 and 4 are below another one than the root, and they are below the old root. -/
theorem holeAt_decreaseKey_small (hindex : index < n) (hsmall : n ≤ 6)
    (h : Ordered group.keys n) : HoleAt (group.decreaseKey fuel index).keys (n - 1) 0 := by
  rcases Nat.eq_zero_or_pos index with rfl | hpos
  · rw [decreaseKey_zero]
    exact (h.holeAt 0).root_of_eq (Nat.sub_le n 1) fun _ _ _ => rfl
  · refine ⟨fun i hi hin _ hpar => ?_, fun hzero => absurd hzero (lt_irrefl 0)⟩
    have hone : parent i = 1 := by
      rw [parent] at hpar ⊢
      omega
    have hmoved : Rearranged n group (group.decreaseKey fuel index) := rearranged_decreaseKey hindex
    obtain ⟨k, hk, hseq⟩ := (hmoved.slots _).mp ⟨i, by omega, rfl⟩
    rw [hone, keys, decreaseKey_one hfuel hpos, keys, ← hseq]
    exact h.root_le hk

end

end

/-! ## The way down -/

theorem minNode_spec (group : MirrorBuddyGroup) (i : ℕ) :
    (group.minNode i = i ∨ 0 < group.minNode i ∧ group.minNode i < group.inFlightSize ∧
      parent (group.minNode i) = i ∧ group.keys (group.minNode i) ≤ group.keys i) ∧
    ∀ c, 0 < c → c < group.inFlightSize → parent c = i → group.keys (group.minNode i) ≤
    group.keys c := by
  have hlt : ∀ a b, (group.seqNoInFlight a).value < (group.seqNoInFlight b).value ↔
      group.keys a < group.keys b := fun a b => UInt64.lt_iff_toNat_lt
  -- The choice between the slot and its left child.
  obtain ⟨m, hm, hleft⟩ :
    ∃ m, (if 2 * i + 1 < group.inFlightSize ∧ group.keys (2 * i + 1) < group.keys i
      then 2 * i + 1 else i) = m ∧
      (m = i ∧ (2 * i + 1 < group.inFlightSize → group.keys i ≤ group.keys (2 * i + 1)) ∨
        m = 2 * i + 1 ∧ 2 * i + 1 < group.inFlightSize ∧ group.keys m < group.keys i) := by
    refine ⟨_, rfl, ?_⟩
    split_ifs with hleft
    · exact .inr ⟨rfl, hleft⟩
    · exact .inl ⟨rfl, by omega⟩
  simp only [minNode, hlt, hm]
  constructor
  · split_ifs with hright
    · refine .inr ⟨by omega, hright.1, by rw [parent]; omega, ?_⟩
      rcases hleft with ⟨rfl, -⟩ | ⟨-, -, hleft⟩ <;> omega
    · rcases hleft with ⟨rfl, -⟩ | ⟨rfl, hsize, hleft⟩
      · exact .inl rfl
      · exact .inr ⟨by omega, hsize, by rw [parent]; omega, hleft.le⟩
  · intro c hpos hc hpar
    have hchild := (parent_eq_iff hpos).mp hpar
    split_ifs with hright
    · rcases hchild with rfl | rfl
      · rcases hleft with ⟨rfl, hleft⟩ | ⟨rfl, -, -⟩
        · exact hright.2.le.trans (hleft hc)
        · exact hright.2.le
      · exact le_rfl
    · rcases hchild with rfl | rfl
      · rcases hleft with ⟨rfl, hleft⟩ | ⟨rfl, -, -⟩
        · exact hleft hc
        · exact le_rfl
      · exact not_lt.mp fun hlt => hright ⟨hc, hlt⟩

theorem rearranged_moveDown (hn : group.inFlightSize = n) (hi : i < n) :
    Rearranged n group (group.moveDown fuel i) := by
  induction fuel generalizing group i with
  | zero => exact .refl
  | succ fuel ih =>
    rw [moveDown]
    split_ifs with hne
    · rcases (group.minNode_spec i).1 with heq | ⟨-, hlt, -, -⟩
      · exact absurd heq hne
      · rw [hn] at hlt
        exact (rearranged_swapSlots hi hlt).trans (ih hn hlt)
    · exact .refl

theorem ordered_moveDown (hn : group.inFlightSize = n) (hi : i < n) (hfuel : n ≤ i + fuel)
    (h : HoleAt group.keys n i) (habove : 0 < i → group.keys (parent i) ≤ group.keys i) :
    Ordered (group.moveDown fuel i).keys n := by
  induction fuel generalizing group i with
  | zero => omega
  | succ fuel ih =>
    rw [moveDown]
    have hspec := group.minNode_spec i
    rw [hn] at hspec
    split_ifs with hc
    · rcases hspec.1 with heq | ⟨hpos, hlt, hpar, hle⟩
      · exact absurd heq hc
      · have hparent := parent_lt hpos
        refine ih hn hlt (by omega) ?_ fun _ => ?_
        · rw [keys_swapSlots]
          exact h.down hpos hlt hpar hspec.2
        · rw [keys_swapSlots, hpar, swapAt_left, swapAt_right]
          exact hle
    · rw [not_not.mp hc] at hspec
      exact h.ordered habove hspec.2

/-! ## Acquiring and releasing -/

def InFlight (group : MirrorBuddyGroup) (s : BuddySequenceNumber) : Prop :=
  ∃ k, k < group.inFlightSize ∧ group.seqNoInFlight k = s

/-- What holds between two sections. -/
structure Valid (group : MirrorBuddyGroup) : Prop where
  linked : group.Linked group.inFlightSize
  distinct : ∀ s s', group.InFlight s → group.InFlight s' → s.value = s'.value → s = s'
  ordered : Ordered group.keys group.inFlightSize
  bounded : ∀ s, group.InFlight s → 0 < s.value.toNat ∧ s.value.toNat ≤ group.sequence.toNat

theorem Linked.eq_of_pSelf (h : group.Linked group.inFlightSize) (hs : group.InFlight s)
    (hs' : group.InFlight s') (heq : s.pSelf = s'.pSelf) : s = s' := by
  obtain ⟨i, hi, rfl⟩ := hs
  obtain ⟨j, hj, rfl⟩ := hs'
  rw [h.pSelf_inj hi hj heq]

section
variable (hseq : group'.seqNoInFlight = group.seqNoInFlight) (hsize : group'.inFlightSize =
    group.inFlightSize)
include hseq hsize

theorem inFlight_congr : group'.InFlight s ↔ group.InFlight s := by
  rw [InFlight, InFlight, hseq, hsize]

theorem Valid.congr (h : group.Valid)
    (hhandles : ∀ s, group.InFlight s → group'.handles s.pSelf = group.handles s.pSelf)
    (hsequence : group.sequence.toNat ≤ group'.sequence.toNat) : group'.Valid where
  linked k hk := by
    rw [hsize] at hk
    rw [hseq, hhandles _ ⟨k, hk, rfl⟩]
    exact h.linked k hk
  distinct s s' hs hs' :=
    h.distinct s s' ((inFlight_congr hseq hsize).mp hs) ((inFlight_congr hseq hsize).mp hs')
  ordered := by
    have hkeys : group'.keys = group.keys := by
      funext k
      rw [keys, hseq]
      rfl
    rw [hkeys, hsize]
    exact h.ordered
  bounded s hs := by
    obtain ⟨hpos, hle⟩ := h.bounded s ((inFlight_congr hseq hsize).mp hs)
    exact ⟨hpos, hle.trans hsequence⟩

end

theorem inFlight_addInFlight : (group.addInFlight handle).InFlight s ↔
    group.InFlight s ∨ s = ⟨handle, group.sequence + 1⟩ := by
  constructor
  · rintro ⟨k, hk, rfl⟩
    rcases Nat.lt_succ_iff_lt_or_eq.mp hk with hk | rfl
    · exact .inl ⟨k, hk, (update_of_ne hk.ne _ _).symm⟩
    · exact .inr (update_self _ _ _)
  · rintro (⟨k, hk, rfl⟩ | rfl)
    · exact ⟨k, Nat.lt_succ_of_lt hk, update_of_ne hk.ne _ _⟩
    · exact ⟨group.inFlightSize, Nat.lt_succ_self _, update_self _ _ _⟩

theorem sequence_succ (h : group.sequence + 1 ≠ 0) :
    (group.sequence + 1).toNat = group.sequence.toNat + 1 := by
  have hne : (group.sequence + 1).toNat ≠ 0 := fun hzero => h (UInt64.toNat_inj.mp hzero)
  rw [UInt64.toNat_add] at hne ⊢
  have hlt := group.sequence.toNat_lt
  have hone : (1 : UInt64).toNat = 1 := rfl
  omega

theorem Valid.addInFlight (h : group.Valid) (hfresh : ∀ s, group.InFlight s → s.pSelf ≠ handle)
    (hwrap : group.sequence + 1 ≠ 0) :
    (group.addInFlight handle).Valid where
  linked k hk := by
    simp only [MirrorBuddyGroup.addInFlight] at hk ⊢
    rcases Nat.lt_succ_iff_lt_or_eq.mp hk with hk | rfl
    · rw [update_of_ne hk.ne, update_of_ne (hfresh _ ⟨k, hk, rfl⟩)]
      exact h.linked k hk
    · rw [update_self, update_self]
  distinct s s' hs hs' heq := by
    have hnew : ∀ t, group.InFlight t → t.value ≠ group.sequence + 1 := by
      intro t ht heq
      have hle := (h.bounded t ht).2
      rw [heq, sequence_succ hwrap] at hle
      omega
    rcases inFlight_addInFlight.mp hs with hs | rfl <;> rcases inFlight_addInFlight.mp
      hs' with hs' | rfl
    · exact h.distinct s s' hs hs' heq
    · exact absurd heq (hnew s hs)
    · exact absurd heq.symm (hnew s' hs')
    · rfl
  ordered := by
    have hold : ∀ k, k < group.inFlightSize → (group.addInFlight handle).keys k = group.keys k := by
      intro k hk
      simp only [keys, MirrorBuddyGroup.addInFlight, update_of_ne hk.ne]
    have hlast : (group.addInFlight handle).keys group.inFlightSize = group.sequence.toNat + 1 := by
      simp only [keys, MirrorBuddyGroup.addInFlight, update_self, sequence_succ hwrap]
    refine Ordered.push (fun i hi hin => ?_) fun i hi => ?_
    · have hlt := parent_lt hi
      rw [hold i hin, hold _ (by omega)]
      exact h.ordered i hi hin
    · rw [hold i hi, hlast]
      exact (h.bounded _ ⟨i, hi, rfl⟩).2.trans (Nat.le_succ _)
  bounded s hs := by
    have hseq : (group.addInFlight handle).sequence.toNat = group.sequence.toNat + 1 :=
      sequence_succ hwrap
    rw [hseq]
    rcases inFlight_addInFlight.mp hs with hs | rfl
    · exact ⟨(h.bounded s hs).1, (h.bounded s hs).2.trans (Nat.le_succ _)⟩
    · rw [sequence_succ hwrap]
      exact ⟨Nat.succ_pos _, le_rfl⟩

structure Removed (s : BuddySequenceNumber) (group group' : MirrorBuddyGroup) : Prop where
  rest : group' = { group with
      seqNoInFlight := group'.seqNoInFlight
      inFlightSize := group.inFlightSize - 1
      handles := group'.handles }
  slots : ∀ t, group'.InFlight t ↔ group.InFlight t ∧ t ≠ s
  linked : group'.Linked group'.inFlightSize

theorem removed_removeRoot (hpos : 0 < group.inFlightSize)
    (hlinked : group.Linked group.inFlightSize) :
    Removed (group.seqNoInFlight 0) group group.removeRoot := by
  obtain ⟨n, hn⟩ : ∃ n, group.inFlightSize = n + 1 := ⟨group.inFlightSize - 1, by omega⟩
  rw [hn] at hlinked
  have hlast : n < n + 1 := Nat.lt_succ_self n
  -- The root and the last slot change places.
  obtain ⟨swapped, hswapped⟩ : ∃ swapped,
    swapped = { group with inFlightSize := n }.swapSlots 0 n := ⟨_, rfl⟩
  have hswap : Rearranged (n + 1) { group with inFlightSize := n } swapped :=
    hswapped ▸ rearranged_swapSlots (Nat.succ_pos n) hlast
  have hroot : swapped.seqNoInFlight n = group.seqNoInFlight 0 := by
    rw [hswapped, swapSlots_seqNoInFlight, swapAt_right]
  have hlinked' : swapped.Linked (n + 1) := hswap.linked hlinked
  have hdown : Rearranged n swapped (swapped.moveDown n 0) := by
    cases n with
    | zero => exact .refl
    | succ n => exact rearranged_moveDown (by rw [hswap.rest]) (Nat.succ_pos n)
  have hremove : group.removeRoot = swapped.moveDown n 0 := by
    rw [hswapped, removeRoot, hn]
    rfl
  have hsize : group.removeRoot.inFlightSize = n := by
    rw [hremove, hdown.inFlightSize, hswap.inFlightSize]
  refine ⟨?_, fun t => ?_, ?_⟩
  · rw [hremove, hdown.rest, hswap.rest, hn]
    rfl
  · have hdrop : (∃ k, k < n ∧ swapped.seqNoInFlight k = t) ↔
        (∃ k, k < n + 1 ∧ swapped.seqNoInFlight k = t) ∧ t ≠ group.seqNoInFlight 0 := by
      constructor
      · rintro ⟨k, hk, rfl⟩
        refine ⟨⟨k, Nat.lt_succ_of_lt hk, rfl⟩, fun heq => ?_⟩
        rw [← hroot] at heq
        have := hlinked'.pSelf_inj (Nat.lt_succ_of_lt hk) hlast (congrArg _ heq)
        omega
      · rintro ⟨⟨k, hk, rfl⟩, hne⟩
        rcases Nat.lt_succ_iff_lt_or_eq.mp hk with hk | rfl
        · exact ⟨k, hk, rfl⟩
        · exact absurd hroot hne
    rw [InFlight, hsize, hremove, hdown.slots, hdrop, hswap.slots, InFlight, hn]
  · rw [hsize, hremove]
    exact hdown.linked (hlinked'.mono (Nat.le_succ n))

theorem ordered_removeRoot (h : HoleAt group.keys (group.inFlightSize - 1) 0) :
    Ordered group.removeRoot.keys (group.inFlightSize - 1) := by
  rw [removeRoot]
  dsimp only
  generalize group.inFlightSize - 1 = n at h
  cases n with
  | zero => exact fun i _ hi => absurd hi (Nat.not_lt_zero i)
  | succ n =>
    refine ordered_moveDown rfl (Nat.succ_pos n) (Nat.zero_add (n + 1)).ge ?_ fun hzero =>
      absurd hzero (lt_irrefl 0)
    refine h.root_of_eq le_rfl fun i hi hin => ?_
    rw [keys_swapSlots, swapAt_of_ne (by omega) (by omega)]
    rfl

theorem addFinished_rest (group : MirrorBuddyGroup) (value : UInt64) : group.addFinished value =
      { group with
        finishedSeqNums := (group.addFinished value).finishedSeqNums
        firstFinishedIndex := (group.addFinished value).firstFinishedIndex
        finishedCount := (group.addFinished value).finishedCount } := by
  rw [addFinished]
  split <;> rfl

theorem releaseSequenceNumber_sequence (group : MirrorBuddyGroup) (handle : SeqNoHandle) :
    (group.releaseSequenceNumber handle).sequence = group.sequence := by
  have hup : ∀ fuel index (group : MirrorBuddyGroup),
      (group.decreaseKey fuel index).sequence = group.sequence := by
    intro fuel
    induction fuel with
    | zero => exact fun _ _ => rfl
    | succ fuel ih =>
      intro index group
      rw [decreaseKey]
      split
      · rfl
      · exact ih _ _
  have hdown : ∀ fuel i (group : MirrorBuddyGroup), (group.moveDown fuel i).sequence =
    group.sequence := by
    intro fuel
    induction fuel with
    | zero => exact fun _ _ => rfl
    | succ fuel ih =>
      intro i group
      rw [moveDown]
      split
      · exact ih _ _
      · rfl
  rw [releaseSequenceNumber]
  split
  · rfl
  · rw [removeRoot, hdown, addFinished_rest]
    exact hup _ _ _

structure Released (s : BuddySequenceNumber) (group group' : MirrorBuddyGroup) : Prop where
  valid : group'.Valid
  removed : Removed s (group.addFinished s.value) group'

theorem Valid.release (h : group.Valid) (hslot : group.handles handle = some slot)
    (hlt : slot < group.inFlightSize) (hway : RightWay group.inFlightSize slot) :
    Released (group.seqNoInFlight slot) group (group.releaseSequenceNumber handle) := by
  obtain ⟨finished, hfinished⟩ : ∃ finished, finished = group.addFinished
    (group.seqNoInFlight slot).value :=
    ⟨_, rfl⟩
  have hrest := addFinished_rest group (group.seqNoInFlight slot).value
  rw [← hfinished] at hrest
  have hsize : finished.inFlightSize = group.inFlightSize := by rw [hrest]
  have hseq : finished.seqNoInFlight = group.seqNoInFlight := by rw [hrest]
  have hkeys : finished.keys = group.keys := by
    funext k
    rw [keys, hseq]
    rfl
  have hlinked : finished.Linked group.inFlightSize := by
    rw [hrest]
    exact h.linked
  have hup : Rearranged group.inFlightSize finished (finished.decreaseKey slot slot) :=
    rearranged_decreaseKey hlt
  have hroot : (finished.decreaseKey slot slot).seqNoInFlight 0 = group.seqNoInFlight slot := by
    rw [decreaseKey_root le_rfl, hseq]
  have hupsize : (finished.decreaseKey slot slot).inFlightSize = group.inFlightSize :=
    hup.inFlightSize.trans hsize
  have hhole : HoleAt (finished.decreaseKey slot slot).keys (group.inFlightSize - 1) 0 := by
    have hordered : Ordered finished.keys group.inFlightSize := hkeys ▸ h.ordered
    rcases hway with hsmall | ⟨e, -, hleft⟩
    · exact holeAt_decreaseKey_small le_rfl hlt hsmall hordered
    · exact (holeAt_decreaseKey_left le_rfl hleft hlt (hordered.holeAt slot)).root_of_eq
        (Nat.sub_le _ 1) fun _ _ _ => rfl
  have hrelease : group.releaseSequenceNumber handle =
    (finished.decreaseKey slot slot).removeRoot := by
    rw [releaseSequenceNumber, hslot, hfinished]
  have hremoved : Removed (group.seqNoInFlight slot) finished
    (group.releaseSequenceNumber handle) := by
    have hremove := @removed_removeRoot (finished.decreaseKey slot slot) (by omega)
      (hupsize ▸ hup.linked hlinked)
    rw [hroot, ← hrelease] at hremove
    refine ⟨?_, fun t => ?_, hremove.linked⟩
    · rw [hremove.rest, hupsize, hsize, hup.rest]
    · rw [hremove.slots, InFlight, InFlight, hupsize, hup.slots, hsize]
  have hold : ∀ t, (group.releaseSequenceNumber handle).InFlight t → group.InFlight t := by
    intro t ht
    have hinFlight := ((hremoved.slots t).mp ht).1
    rw [InFlight, hsize, hseq] at hinFlight
    exact hinFlight
  refine ⟨⟨hremoved.linked, ?_, ?_, ?_⟩, hfinished ▸ hremoved⟩
  · exact fun s s' hs hs' => h.distinct s s' (hold s hs) (hold s' hs')
  · have hordered := @ordered_removeRoot (finished.decreaseKey slot slot) (hupsize ▸ hhole)
    rw [← hrelease, hupsize] at hordered
    have hless : (group.releaseSequenceNumber handle).inFlightSize = group.inFlightSize - 1 := by
      rw [hremoved.rest, hsize]
    rw [hless]
    exact hordered
  · intro s hs
    rw [releaseSequenceNumber_sequence]
    exact h.bounded s (hold s hs)

end Congfs.Mirroring.MirrorBuddyGroup
