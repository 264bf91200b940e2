import Congfs.Lib.Segments
import Congfs.Striping.ClientPattern
import Mathlib.Algebra.Order.BigOperators.Group.List

/-!
# How a request is cut into pieces

`FhgfsOpsRemoting_writefileVec` and `FhgfsOpsRemoting_readfileVec` serve a request in rounds. A
round walks over at most one stripe set, with a piece for every chunk, and ends early when there is
no memory for the state of the next piece. How the request is cut does not depend on the answers of
the targets, so the rounds are computed here and the answers are looked at where they are used.
-/

namespace Congfs

open Word

/-- How far a `struct iov_iter` has advanced in the caller's buffer, and how much is left. -/
structure IovIter where
  pos : UInt64
  count : UInt64
  deriving DecidableEq, Repr

namespace IovIter

def truncate (iter : IovIter) (count : UInt64) : IovIter :=
  if iter.count > count then { iter with count } else iter

def advance (iter : IovIter) (size : UInt64) : IovIter :=
  ⟨iter.pos + size, iter.count - size⟩

end IovIter

/-- `WritefileState` and `ReadfileState`, as their creators fill them in. -/
structure FileState where
  targetIndex : UInt32
  targetID : UInt16
  /-- The offset in the chunk file. -/
  offset : Int64
  totalSize : UInt64
  data : IovIter
  deriving DecidableEq, Repr

def FileState.expectedNodeResult (state : FileState) : Int64 := state.totalSize.toInt64

/-- The states of one round. The list is empty if there was no memory even for the first one. -/
structure Round where
  firstTargetIndex : UInt32
  states : List FileState
  deriving DecidableEq, Repr

/-- The variables of the two loops. What is still to be transferred (`toBeWritten`, `toBeRead`) is
the count of the iterator. -/
structure Cursor where
  currentOffset : Int64
  iterCopy : IovIter
  deriving DecidableEq, Repr

/-- What a request is cut by. `alloc first pos` tells whether there is memory for the state of the
piece at `pos`, when it is the first one of its round or a later one. -/
structure Splitter where
  type : StripePatternType
  pattern : StripePattern
  alloc : Bool → UInt64 → Bool
  /-- `serializeWrites`: one piece at a time. -/
  serialize : Bool

namespace Splitter
variable (sp : Splitter)

def numStripeTargets : UInt32 := sp.pattern.getNumStripeTargetIDs.toUInt32

variable (currentOffset : Int64)

def currentChunkSize : UInt64 :=
  (sp.pattern.getChunkEnd currentOffset - currentOffset + 1).toUInt64

section

variable (cur : Cursor)

def chunkIter : IovIter :=
  cur.iterCopy.truncate (sp.currentChunkSize cur.currentOffset)

def fileState (currentTargetIndex : UInt32) (cur : Cursor) : FileState where
  targetIndex := currentTargetIndex
  targetID := sp.pattern.stripeTargetIDs.getD currentTargetIndex.toNat 0
  offset := FhgfsOpsRemoting.getChunkOffset cur.currentOffset sp.pattern.getChunkSize
    sp.numStripeTargets.toUInt64 currentTargetIndex.toUInt64
  totalSize := (sp.chunkIter cur).count
  data := sp.chunkIter cur

def next : Cursor where
  currentOffset := cur.currentOffset + (sp.chunkIter cur).count.toInt64
  iterCopy := cur.iterCopy.advance (sp.chunkIter cur).count

/-- The target of the byte at `pos`, as the client computes it. -/
def targetIndexAt (pos : Int64) : UInt32 := (sp.type.getStripeTargetIndex sp.pattern pos).toUInt32

/-- Its offset in the chunk file, as the client computes it. -/
def localOffsetAt (pos : Int64) : Int64 :=
  FhgfsOpsRemoting.getChunkOffset pos sp.pattern.getChunkSize sp.numStripeTargets.toUInt64
    (sp.targetIndexAt pos).toUInt64

/-- The stripe set loop, for at most `works` more pieces. -/
def stripeSet : ℕ → Bool → UInt32 → Cursor → List FileState × Cursor
  | 0, _, _, cur => ([], cur)
  | works + 1, first, currentTargetIndex, cur =>
    if cur.iterCopy.count = 0 then ([], cur)
    else if sp.alloc first cur.iterCopy.pos = false then ([], cur)
    else if sp.serialize then ([sp.fileState currentTargetIndex cur], sp.next cur)
    else
      let rest := stripeSet works false ((currentTargetIndex + 1) % sp.numStripeTargets)
        (sp.next cur)
      (sp.fileState currentTargetIndex cur :: rest.1, rest.2)

def round : Round × Cursor :=
  let firstTargetIndex := sp.targetIndexAt cur.currentOffset
  let set := sp.stripeSet sp.pattern.stripeTargetIDs.length true firstTargetIndex cur
  (⟨firstTargetIndex, set.1⟩, set.2)

/-- The outer loop. Every round that is not empty takes at least one byte, so as many rounds as
there are bytes are enough. -/
def roundsFrom : ℕ → Cursor → List Round
  | 0, _ => []
  | fuel + 1, cur =>
    if cur.iterCopy.count = 0 then []
    else if (sp.round cur).1.states = [] then [(sp.round cur).1]
    else (sp.round cur).1 :: roundsFrom fuel (sp.round cur).2

def rounds (offset : Int64) (count : UInt64) : List Round :=
  sp.roundsFrom count.toNat ⟨offset, ⟨0, count⟩⟩

/-! ## The size of a piece -/

/-- The rest of a chunk is the chunk size without the position in the chunk, whatever the sign of
the offset. -/
theorem currentChunkSize_eq : sp.currentChunkSize currentOffset = (int64 sp.pattern.chunkSize -
      int64 (uint32 (currentOffset &&& int64 (sp.pattern.chunkSize - 1)))).toUInt64 := by
  rw [currentChunkSize, StripePattern.getChunkEnd, StripePattern.getNextChunkStart,
    StripePattern.getChunkStart]
  congr 1
  grind

theorem currentChunkSize_pos : 0 < (sp.currentChunkSize currentOffset).toNat ∧
      (sp.currentChunkSize currentOffset).toNat ≤ sp.pattern.layout.chunk := by
  have hchunk := sp.pattern.chunk_lt
  have hmask : (sp.pattern.chunkSize - 1).toNat = sp.pattern.layout.chunk - 1 :=
    UInt32.toNat_sub_of_le _ _ (UInt32.le_iff_toNat_le.mpr sp.pattern.layout.chunk_pos)
  have hinner := toNat_uint32_and_le currentOffset (sp.pattern.chunkSize - 1)
  have hpos := sp.pattern.layout.chunk_pos
  rw [currentChunkSize_eq, sp.pattern.int64_chunkSize, int64_eq,
    ← Int64.ofNat_sub _ _ (by omega), Int64.toUInt64_ofNat',
    UInt64.toNat_ofNat_of_lt' (lt_of_le_of_lt (Nat.sub_le _ _) (hchunk.trans (by decide)))]
  omega

theorem chunkIter_pos : (sp.chunkIter cur).pos = cur.iterCopy.pos := by
  rw [chunkIter, IovIter.truncate]
  split <;> rfl

theorem toNat_chunkIter_count : (sp.chunkIter cur).count.toNat =
    min cur.iterCopy.count.toNat (sp.currentChunkSize cur.currentOffset).toNat := by
  rw [chunkIter, IovIter.truncate]
  split_ifs with h
  · exact (min_eq_right (UInt64.lt_iff_toNat_lt.mp h).le).symm
  · exact (min_eq_left (UInt64.le_iff_toNat_le.mp (UInt64.not_lt.mp h))).symm

theorem toNat_next_count : (sp.next cur).iterCopy.count.toNat =
    cur.iterCopy.count.toNat - (sp.chunkIter cur).count.toNat :=
  UInt64.toNat_sub_of_le _ _ (UInt64.le_iff_toNat_le.mpr
    (sp.toNat_chunkIter_count cur ▸ min_le_left _ _))

end

theorem toNat_next_pos (h : cur.iterCopy.pos.toNat + cur.iterCopy.count.toNat < 2 ^ 64) :
    (sp.next cur).iterCopy.pos.toNat = cur.iterCopy.pos.toNat + (sp.chunkIter cur).count.toNat := by
  have hle : (sp.chunkIter cur).count.toNat ≤ cur.iterCopy.count.toNat :=
    sp.toNat_chunkIter_count cur ▸ min_le_left _ _
  exact (UInt64.toNat_add _ _).trans (Nat.mod_eq_of_lt (by omega))

/-! ## What the loops do -/

/-- The pieces `states` are taken one after the other from `cur` on, up to `cur'`. -/
inductive Cut : Cursor → List FileState → Cursor → Prop
  | nil (cur : Cursor) : Cut cur [] cur
  | cons {cur cur' : Cursor} {states : List FileState} (currentTargetIndex : UInt32)
    (hcount : cur.iterCopy.count ≠ 0) (h : Cut (sp.next cur) states cur') :
    Cut cur (sp.fileState currentTargetIndex cur :: states) cur'

variable {sp} {cur cur' cur'' : Cursor} {states states' : List FileState}

section
variable (h : sp.Cut cur states cur')
include h

theorem Cut.append (h' : sp.Cut cur' states' cur'') : sp.Cut cur (states ++ states') cur'' := by
  induction h with
  | nil => exact h'
  | cons index hcount _ ih => exact .cons index hcount (ih h')

theorem Cut.totalSize_pos :
    ∀ s ∈ states, 0 < s.totalSize.toNat ∧ s.totalSize.toNat ≤ sp.pattern.layout.chunk := by
  induction h with
  | nil => simp
  | @cons cur _ _ index hcount _ ih =>
    refine List.forall_mem_cons.mpr ⟨?_, ih⟩
    have hsize := sp.currentChunkSize_pos cur.currentOffset
    have hpos : cur.iterCopy.count.toNat ≠ 0 := fun h0 => hcount (UInt64.toNat_inj.mp h0)
    have hmin := sp.toNat_chunkIter_count cur
    exact (show 0 < (sp.chunkIter cur).count.toNat ∧ (sp.chunkIter cur).count.toNat ≤ _ by omega)

theorem Cut.count_eq : cur.iterCopy.count.toNat =
    (states.map fun s => s.totalSize.toNat).sum + cur'.iterCopy.count.toNat := by
  induction h with
  | nil => simp
  | @cons cur _ _ index _ _ ih =>
    have hle : (sp.chunkIter cur).count.toNat ≤ cur.iterCopy.count.toNat :=
      sp.toNat_chunkIter_count cur ▸ min_le_left _ _
    rw [sp.toNat_next_count] at ih
    rw [List.map_cons, List.sum_cons, add_assoc, ← ih]
    exact (Nat.add_sub_cancel' hle).symm

theorem Cut.consecutive (hword : cur.iterCopy.pos.toNat + cur.iterCopy.count.toNat < 2 ^ 64)
    {seg : FileState → Segment} (hstart : ∀ s, (seg s).start = s.data.pos.toNat)
    (hsize : ∀ s, (seg s).size = s.totalSize.toNat) :
    Segment.Consecutive cur.iterCopy.pos.toNat (states.map seg) := by
  induction h with
  | nil => trivial
  | @cons cur _ _ index _ _ ih =>
    have hle : (sp.chunkIter cur).count.toNat ≤ cur.iterCopy.count.toNat :=
      sp.toNat_chunkIter_count cur ▸ min_le_left _ _
    rw [sp.toNat_next_count, sp.toNat_next_pos hword] at ih
    refine ⟨(hstart _).trans (congrArg UInt64.toNat (sp.chunkIter_pos cur)), ?_⟩
    rw [hsize]
    exact ih (by omega)

end

section
variable (works : ℕ) (first : Bool) (index : UInt32) (cur : Cursor)

theorem stripeSet_cut :
    sp.Cut cur (sp.stripeSet works first index cur).1 (sp.stripeSet works first index cur).2 := by
  induction works generalizing first index cur with
  | zero => exact .nil cur
  | succ works ih =>
    rw [stripeSet]
    split
    · exact .nil cur
    · rename_i hcount
      split
      · exact .nil cur
      · split
        · exact .cons index hcount (.nil _)
        · exact .cons index hcount (ih _ _ _)

theorem length_stripeSet_le : (sp.stripeSet works first index cur).1.length ≤ works := by
  induction works generalizing first index cur with
  | zero => exact le_rfl
  | succ works ih =>
    rw [stripeSet]
    split
    · exact Nat.zero_le _
    · split
      · exact Nat.zero_le _
      · split
        · exact Nat.le_add_left 1 works
        · exact Nat.succ_le_succ (ih _ _ _)

end

theorem length_round_le : (sp.round cur).1.states.length ≤ sp.pattern.layout.width :=
  length_stripeSet_le _ _ _ _

theorem round_cut (sp : Splitter) (cur : Cursor) :
    sp.Cut cur (sp.round cur).1.states (sp.round cur).2 :=
  stripeSet_cut _ _ _ _

/-- If there is memory for it, a round begins with the piece at the cursor. -/
theorem round_head (hcount : cur.iterCopy.count ≠ 0) (halloc : sp.alloc true cur.iterCopy.pos) :
    ∃ rest, (sp.round cur).1.states =
      sp.fileState (sp.targetIndexAt cur.currentOffset) cur :: rest := by
  obtain ⟨works, hworks⟩ := Nat.exists_eq_succ_of_ne_zero sp.pattern.targets_pos.ne'
  simp only [round, hworks, stripeSet, if_neg hcount, halloc, Bool.true_eq_false, if_false]
  split <;> exact ⟨_, rfl⟩

theorem round_ne_nil (hcount : cur.iterCopy.count ≠ 0)
    (halloc : sp.alloc true cur.iterCopy.pos) : (sp.round cur).1.states ≠ [] := by
  obtain ⟨rest, hrest⟩ := round_head hcount halloc
  exact hrest ▸ List.cons_ne_nil _ _

theorem sum_pos_of_round_ne_nil (h : (sp.round cur).1.states ≠ []) :
    0 < ((sp.round cur).1.states.map fun s => s.totalSize.toNat).sum := by
  obtain ⟨s, states, hstates⟩ := List.exists_cons_of_ne_nil h
  have hpos := ((sp.round_cut cur).totalSize_pos s (hstates ▸ List.mem_cons_self)).1
  rw [hstates, List.map_cons, List.sum_cons]
  omega

/-- The rounds take the whole request, if there is memory for the first piece of each. -/
theorem roundsFrom_cut (halloc : ∀ pos, sp.alloc true pos)
    (hfuel : cur.iterCopy.count.toNat ≤ fuel) :
    ∃ cur', sp.Cut cur ((sp.roundsFrom fuel cur).flatMap Round.states) cur' ∧
      cur'.iterCopy.count = 0 := by
  induction fuel generalizing cur with
  | zero => exact ⟨cur, .nil cur, UInt64.toNat_inj.mp (Nat.le_zero.mp hfuel)⟩
  | succ fuel ih =>
    rw [roundsFrom]
    split
    · exact ⟨cur, .nil cur, ‹_›⟩
    · rename_i hcount
      have hne := round_ne_nil hcount (halloc _)
      have heq := (sp.round_cut cur).count_eq
      have hpos := sum_pos_of_round_ne_nil hne
      obtain ⟨cur', hcut, hend⟩ := @ih (sp.round cur).2 (by omega)
      rw [if_neg hne, List.flatMap_cons]
      exact ⟨cur', (sp.round_cut cur).append hcut, hend⟩

theorem roundsFrom_forall {P : Round → Prop}
    (h : ∀ cur, cur.iterCopy.count ≠ 0 → P (sp.round cur).1) (fuel : ℕ) (cur : Cursor) :
    ∀ r ∈ sp.roundsFrom fuel cur, P r := by
  induction fuel generalizing cur with
  | zero => simp [roundsFrom]
  | succ fuel ih =>
    rw [roundsFrom]
    split
    · simp
    · rename_i hcount
      split
      · simpa using h cur hcount
      · exact List.forall_mem_cons.mpr ⟨h cur hcount, ih _⟩

theorem sum_round_lt (sp : Splitter) {r : Round} (hlen : r.states.length ≤ sp.pattern.layout.width)
    (hsize : ∀ s ∈ r.states, s.totalSize.toNat ≤ sp.pattern.layout.chunk) :
    (r.states.map fun s => s.totalSize.toNat).sum < 2 ^ 63 := by
  have hchunk := sp.pattern.chunk_le
  have hsum := List.sum_le_card_nsmul (r.states.map fun s => s.totalSize.toNat)
    sp.pattern.layout.chunk (by simpa using hsize)
  rw [List.length_map, Nat.nsmul_eq_mul] at hsum
  have hmul := Nat.mul_le_mul hlen hchunk
  have hwidth := sp.pattern.width_lt
  omega

/-! ## Whole requests -/

section Request
variable (sp) (halloc : ∀ pos, sp.alloc true pos) (offset : Int64) (count : UInt64)
include halloc

theorem rounds_cut : ∃ cur, sp.Cut ⟨offset, ⟨0, count⟩⟩
    ((sp.rounds offset count).flatMap Round.states) cur ∧ cur.iterCopy.count = 0 :=
  roundsFrom_cut halloc le_rfl

theorem rounds_states_ne_nil : ∀ round ∈ sp.rounds offset count, round.states ≠ [] :=
  roundsFrom_forall (fun _ hcount => round_ne_nil hcount (halloc _)) _ _

theorem rounds_consecutive (hstart : ∀ s, (seg s).start = s.data.pos.toNat)
    (hsize : ∀ s, (seg s).size = s.totalSize.toNat) :
    Segment.Consecutive 0 (((sp.rounds offset count).flatMap Round.states).map seg) := by
  obtain ⟨cur, hcut, -⟩ := sp.rounds_cut halloc offset count
  have hword : (0 : UInt64).toNat + count.toNat < 2 ^ 64 := by
    rw [UInt64.toNat_zero, zero_add]
    exact count.toNat_lt
  exact hcut.consecutive hword hstart hsize

theorem rounds_total (hsize : ∀ s, (seg s).size = s.totalSize.toNat) :
    Segment.total (((sp.rounds offset count).flatMap Round.states).map seg) = count.toNat := by
  obtain ⟨cur, hcut, hend⟩ := sp.rounds_cut halloc offset count
  have heq := hcut.count_eq
  rw [hend, UInt64.toNat_zero, add_zero] at heq
  have hcomp : Segment.size ∘ seg = fun s => s.totalSize.toNat := funext hsize
  rw [Segment.total, List.map_map, hcomp]
  exact heq.symm

theorem rounds_head (hcount : count ≠ 0) : ∃ rest, (sp.rounds offset count).flatMap Round.states =
      sp.fileState (sp.targetIndexAt offset) ⟨offset, ⟨0, count⟩⟩ :: rest := by
  obtain ⟨fuel, hfuel⟩ :=
    Nat.exists_eq_succ_of_ne_zero (fun h0 => hcount (UInt64.toNat_inj.mp h0) : count.toNat ≠ 0)
  obtain ⟨rest, hrest⟩ : ∃ rest, (sp.round ⟨offset, ⟨0, count⟩⟩).1.states = _ :: rest :=
    round_head hcount (halloc 0)
  have hne : (sp.round ⟨offset, ⟨0, count⟩⟩).1.states ≠ [] := hrest ▸ List.cons_ne_nil _ _
  rw [rounds, hfuel, roundsFrom, if_neg hcount, if_neg hne, List.flatMap_cons, hrest,
    List.cons_append]
  exact ⟨_, rfl⟩

theorem rounds_of_le_chunk {offset : Int64} {count : UInt64} (hpos : 0 < count.toNat)
    (hle : count.toNat ≤ (sp.currentChunkSize offset).toNat) :
    (sp.rounds offset count).flatMap Round.states =
      [sp.fileState (sp.targetIndexAt offset) ⟨offset, ⟨0, count⟩⟩] := by
  obtain ⟨cur, hcut, -⟩ := sp.rounds_cut halloc offset count
  obtain ⟨rest, hhead⟩ := sp.rounds_head halloc offset count
    (fun h0 => hpos.ne (congrArg UInt64.toNat h0).symm)
  have hcount : (sp.chunkIter ⟨offset, ⟨0, count⟩⟩).count.toNat = count.toNat :=
    (sp.toNat_chunkIter_count _).trans (min_eq_left hle)
  have hnext := sp.toNat_next_count ⟨offset, ⟨0, count⟩⟩
  rw [hhead] at hcut ⊢
  cases hcut with
  | cons _ _ hrest =>
    cases hrest with
    | nil => rfl
    | cons _ hne _ =>
      refine absurd (UInt64.toNat_inj.mp ?_) hne
      rw [hnext, hcount, Nat.sub_self, UInt64.toNat_zero]

end Request

end Splitter
end Congfs
