import Congfs.Remoting.ReadExact

/-!
# The pieces of a request

The pieces that a request is cut into follow each other and cover the request, each of them lies in
one chunk, and a round asks each target at most once. A piece is at the place of its first byte,
except with a `Raid10` pattern whose stripe set is larger than 4 GiB: there the client's
`getStripeTargetIndex` starts again too early, while a round simply goes on to the next target.
-/

namespace Congfs

open Raid10Pattern Splitter StripePatternType

open Raid10Pattern (period)

namespace Splitter
variable {sp : Splitter}

def piece (state : FileState) : Segment := ⟨state.data.pos.toNat, state.totalSize.toNat, 0,
    Nat.zero_le _⟩

def pieces (sp : Splitter) (start : ℕ) (count : UInt64) : List FileState :=
  (sp.rounds (Int64.ofNat start) count).flatMap Round.states

/-- How the request for `count` bytes at `start` is cut. -/
structure Exact (sp : Splitter) (start : ℕ) (count : UInt64) : Prop where
  consecutive : Segment.Consecutive 0 ((sp.pieces start count).map piece)
  total : Segment.total ((sp.pieces start count).map piece) = count.toNat
  nonempty : ∀ state ∈ sp.pieces start count, 0 < state.totalSize.toNat
  inChunk : ∀ state ∈ sp.pieces start count,
    (start + state.data.pos.toNat) % sp.pattern.layout.chunk + state.totalSize.toNat ≤
      sp.pattern.layout.chunk
  target : ∀ state ∈ sp.pieces start count,
    state.targetIndex = sp.targetIndexAt (Int64.ofNat (start + state.data.pos.toNat))
  offset : ∀ state ∈ sp.pieces start count,
    state.offset = Int64.ofNat (sp.pattern.layout.offset (start + state.data.pos.toNat))
  distinct : ∀ round ∈ sp.rounds (Int64.ofNat start) count,
    (round.states.map FileState.targetIndex).Nodup

/-! ## The targets of a round -/

theorem toNat_numStripeTargets (sp : Splitter) : sp.numStripeTargets.toNat =
    sp.pattern.layout.width := by
  rw [numStripeTargets, sp.pattern.getNumStripeTargetIDs_eq, UInt64.toUInt32_ofNat',
    UInt32.toNat_ofNat_of_lt' sp.pattern.width_lt]

theorem toNat_nextTargetIndex (hindex : index.toNat < sp.pattern.layout.width) :
    ((index + 1) % sp.numStripeTargets).toNat = (index.toNat + 1) % sp.pattern.layout.width := by
  have hwidth := sp.pattern.width_lt
  rw [UInt32.toNat_mod, sp.toNat_numStripeTargets, UInt32.toNat_add, UInt32.toNat_one,
    Nat.mod_eq_of_lt (show index.toNat + 1 < 2 ^ 32 by omega)]

theorem stripeSet_targetIndex (works : ℕ) (first : Bool) (cur : Cursor)
    (hindex : index.toNat < sp.pattern.layout.width) :
    ∀ state ∈ (sp.stripeSet works first index cur).1,
      ∃ i < works, state.targetIndex.toNat = (index.toNat + i) % sp.pattern.layout.width := by
  induction works generalizing first index cur with
  | zero => simp [stripeSet]
  | succ works ih =>
    have hhead : ∃ i < works + 1, (sp.fileState index cur).targetIndex.toNat =
        (index.toNat + i) % sp.pattern.layout.width :=
      ⟨0, Nat.succ_pos works, (Nat.mod_eq_of_lt hindex).symm⟩
    rw [stripeSet]
    split
    · simp
    · split
      · simp
      · split
        · simpa using hhead
        · refine List.forall_mem_cons.mpr ⟨hhead, fun state hstate => ?_⟩
          have hnext := sp.toNat_nextTargetIndex hindex
          obtain ⟨i, hi, heq⟩ := ih false (sp.next cur)
            (hnext ▸ Nat.mod_lt _ sp.pattern.layout.width_pos) state hstate
          refine ⟨i + 1, Nat.succ_lt_succ hi, ?_⟩
          rw [heq, hnext, Nat.mod_add_mod, Nat.add_assoc, Nat.add_comm 1 i]

theorem stripeSet_nodup (hworks : works ≤ sp.pattern.layout.width) (first : Bool) (index : UInt32)
    (cur : Cursor) :
    ((sp.stripeSet works first index cur).1.map FileState.targetIndex).Nodup := by
  induction works generalizing first index cur with
  | zero => simp [stripeSet]
  | succ works ih =>
    rw [stripeSet]
    split
    · simp
    · split
      · simp
      · split
        · simp
        · refine List.nodup_cons.mpr ⟨fun hmem => ?_, ih (Nat.le_of_succ_le hworks) _ _ _⟩
          obtain ⟨state, hstate, heq⟩ := List.mem_map.mp hmem
          have hlt : ((index + 1) % sp.numStripeTargets).toNat < sp.pattern.layout.width := by
            rw [UInt32.toNat_mod, sp.toNat_numStripeTargets]
            exact Nat.mod_lt _ sp.pattern.layout.width_pos
          obtain ⟨i, hi, hindex⟩ := stripeSet_targetIndex works false (sp.next cur) hlt state hstate
          have heq : state.targetIndex = index := heq
          rw [heq] at hindex
          have hin : index.toNat < sp.pattern.layout.width :=
            hindex ▸ Nat.mod_lt _ sp.pattern.layout.width_pos
          -- the first target comes again only after a whole turn
          rw [sp.toNat_nextTargetIndex hin, Nat.mod_add_mod] at hindex
          rcases lt_or_ge (index.toNat + 1 + i) sp.pattern.layout.width with hbelow | hround
          · rw [Nat.mod_eq_of_lt hbelow] at hindex
            omega
          · rw [Nat.mod_eq_sub_mod hround, Nat.mod_eq_of_lt (by omega)] at hindex
            omega

/-! ## The place of a piece -/

theorem Placed.first (h : sp.Placed start fin state) :
    ∃ cur, At start fin cur ∧ state = sp.fileState (sp.targetIndexAt cur.currentOffset) cur ∧
      state.data.pos = cur.iterCopy.pos := by
  obtain ⟨cur, hat, -, rfl⟩ := h
  exact ⟨cur, hat, rfl, sp.chunkIter_pos cur⟩

theorem Agrees.exact (h : sp.Agrees) (halloc : ∀ pos, sp.alloc true pos)
    (hend : start + count.toNat < 2 ^ 63) : sp.Exact start count := by
  have hat : At start count.toNat ⟨Int64.ofNat start, ⟨0, count⟩⟩ := ⟨rfl, zero_add _⟩
  have hplaced := roundsFrom_placed h hend count.toNat hat
  obtain ⟨cur', hcut, -⟩ := sp.rounds_cut halloc (Int64.ofNat start) count
  refine {
    consecutive := sp.rounds_consecutive halloc _ count (fun _ => rfl) fun _ => rfl
    total := sp.rounds_total halloc _ count fun _ => rfl
    nonempty := fun state hstate => (hcut.totalSize_pos state hstate).1
    inChunk := fun state hstate => ?_
    target := fun state hstate => ?_
    offset := fun state hstate => ?_
    distinct := roundsFrom_forall (fun cur _ => stripeSet_nodup le_rfl true _ cur) _ _ }
  all_goals
    obtain ⟨cur, hcur, rfl, hpos⟩ := (hplaced state hstate).first
    have hin := hcur.end_eq
    rw [hpos]
  · have hsize := sp.toNat_chunkIter_count cur
    have hmod := Nat.mod_lt (start + cur.iterCopy.pos.toNat) sp.pattern.layout.chunk_pos
    rw [hcur.offset_eq, sp.toNat_currentChunkSize_ofNat] at hsize
    exact (show _ + (sp.chunkIter cur).count.toNat ≤ _ by omega)
  · exact congrArg sp.targetIndexAt hcur.offset_eq
  · exact (congrArg sp.localOffsetAt hcur.offset_eq).trans (h.localOffsetAt_ofNat (by omega))

/-! ## Stripe sets of more than 4 GiB -/

section
variable {pattern : StripePattern} (hlarge : 2 ^ 32 < pattern.layout.width * pattern.layout.chunk)
include hlarge

/-- There is a position in the first stripe set at which the client starts again, and which it then
puts behind the first byte of the chunk file. -/
theorem exists_restart : ∃ k, k * period pattern / pattern.layout.chunk < pattern.layout.width ∧
    pattern.layout.width ≤ k * period pattern := by
  obtain ⟨m, hm⟩ := chunk_dvd_period pattern
  have hperiod := period_le pattern
  have hpos := period_pos pattern
  have hchunk := pattern.layout.chunk_pos
  have hwidth := pattern.width_lt
  have hm0 : 0 < m := Nat.pos_of_mul_pos_left (hm ▸ hpos)
  have hmlt : m < pattern.layout.width := by
    refine Nat.lt_of_mul_lt_mul_left (a := pattern.layout.chunk) ?_
    rw [← hm, Nat.mul_comm]
    omega
  -- chunks of one byte cannot make up a stripe set of this size
  have htwo : 2 ≤ pattern.layout.chunk := by
    by_contra hone
    have hone : pattern.layout.chunk = 1 := by omega
    rw [hone] at hlarge
    omega
  have hdiv := Nat.div_add_mod (pattern.layout.width - 1) m
  have hmod := Nat.mod_lt (pattern.layout.width - 1) hm0
  have hk : 0 < (pattern.layout.width - 1) / m := Nat.div_pos (by omega) hm0
  have hle : m ≤ m * ((pattern.layout.width - 1) / m) := Nat.le_mul_of_pos_right m hk
  refine ⟨(pattern.layout.width - 1) / m, ?_, ?_⟩
  · rw [hm, Nat.mul_left_comm, Nat.mul_div_cancel_left _ hchunk, Nat.mul_comm]
    omega
  · rw [hm, mul_left_comm, mul_comm _ m]
    have := Nat.mul_le_mul_right (m * ((pattern.layout.width - 1) / m)) htwo
    omega

omit hlarge in
theorem targetIndexAt_restart (alloc : Bool → UInt64 → Bool) (serialize : Bool) {k : ℕ}
    (hk : k * period pattern < 2 ^ 63) :
    targetIndexAt ⟨.raid10, pattern, alloc, serialize⟩ (Int64.ofNat (k * period pattern)) = 0 := by
  have heq := getStripeTargetIndex_ofNat pattern hk
  obtain ⟨m, hm⟩ := chunk_dvd_period pattern
  rw [hm, Nat.mul_left_comm, Nat.mul_div_cancel_left _ pattern.layout.chunk_pos,
    Nat.mul_div_cancel_left _ pattern.layout.chunk_pos, Nat.mul_mod_left] at heq
  rw [hm, mul_left_comm]
  exact congrArg UInt64.toUInt32 heq

/-- A byte at that position is a single piece, at the wrong place of the chunk file. -/
theorem not_exact_of_large {alloc : Bool → UInt64 → Bool} {serialize : Bool}
    (halloc : ∀ pos, alloc true pos) :
    ∃ start, start + (1 : UInt64).toNat < 2 ^ 63 ∧
      ¬Splitter.Exact ⟨.raid10, pattern, alloc, serialize⟩ start 1 := by
  obtain ⟨k, hfirst, hbehind⟩ := exists_restart hlarge
  have hmod : k * period pattern % pattern.layout.chunk = 0 :=
    Nat.mod_eq_zero_of_dvd (Nat.dvd_mul_left_of_dvd (chunk_dvd_period pattern) k)
  have hlt : k * period pattern < 2 ^ 63 - 1 := by
    have hbelow := (Nat.div_lt_iff_lt_mul pattern.layout.chunk_pos).mp hfirst
    have hmul := Nat.mul_le_mul (Nat.le_sub_one_of_lt pattern.width_lt) pattern.chunk_le
    omega
  have hchunk := pattern.layout.chunk_pos
  refine ⟨k * period pattern, Nat.add_lt_of_lt_sub hlt, fun hexact => ?_⟩
  have hsize : (1 : UInt64).toNat ≤ (currentChunkSize ⟨.raid10, pattern, alloc, serialize⟩
      (Int64.ofNat (k * period pattern))).toNat := by
    rw [toNat_currentChunkSize_ofNat]
    rw [hmod]
    exact hchunk
  have hsingle := rounds_of_le_chunk ⟨.raid10, pattern, alloc, serialize⟩ halloc
    (show 0 < (1 : UInt64).toNat by decide) hsize
  have hoffset := hexact.offset _ (by rw [pieces, hsingle]; exact List.mem_singleton_self _)
  have hindex := @targetIndexAt_restart pattern alloc serialize k (by omega)
  have hzero := FhgfsOpsRemoting.getChunkOffset_zero pattern (p := k * period pattern) (by omega)
  rw [hmod, Nat.sub_zero, Nat.add_zero] at hzero
  have hplace : pattern.layout.offset (k * period pattern) = 0 := by
    rw [Layout.offset, Nat.div_eq_of_lt hfirst, hmod, Nat.zero_mul]
  have hpos : (fileState ⟨.raid10, pattern, alloc, serialize⟩
      (targetIndexAt ⟨.raid10, pattern, alloc, serialize⟩ (Int64.ofNat (k * period pattern)))
      ⟨Int64.ofNat (k * period pattern), ⟨0, 1⟩⟩).data.pos = 0 := chunkIter_pos _ _
  rw [hpos, UInt64.toNat_zero, add_zero, hplace] at hoffset
  dsimp only [fileState, numStripeTargets] at hoffset
  rw [hindex, hzero] at hoffset
  have hclamp := congrArg Int64.toNatClampNeg hoffset
  rw [Int64.toNatClampNeg_ofNat_of_lt ((Nat.div_le_self _ _).trans_lt (by omega)),
    Int64.toNatClampNeg_ofNat_of_lt (by omega)] at hclamp
  exact absurd (Nat.div_pos hbehind pattern.layout.width_pos) (by omega)

end

/-- The pieces are as they should be, exactly if the pattern is not a `Raid10` pattern with a stripe
set of more than 4 GiB. -/
theorem exact_iff (sp : Splitter) (halloc : ∀ pos, sp.alloc true pos) :
    (∀ (start : ℕ) (count : UInt64), start + count.toNat < 2 ^ 63 → sp.Exact start count) ↔
      (sp.type = .raid10 → sp.pattern.stripeTargetIDs.length * sp.pattern.chunkSize.toNat ≤
      2 ^ 32) := by
  refine ⟨fun hexact htype => ?_, fun h start count hend => Agrees.exact h halloc hend⟩
  obtain ⟨type, pattern, alloc, serialize⟩ := sp
  subst htype
  by_contra hlarge
  obtain ⟨start, hend, hnot⟩ := not_exact_of_large (not_le.mp hlarge) halloc
  exact hnot (hexact start 1 hend)

/-- Requests with memory for one piece at a time. -/
def onePiece : Splitter := ⟨.raid0, largeChunks, fun first _ => first, false⟩

theorem exact_onePiece : (∀ pos, onePiece.alloc true pos) ∧
    ∀ (start : ℕ) (count : UInt64), start + count.toNat < 2 ^ 63 → onePiece.Exact start count :=
  ⟨fun _ => rfl, (exact_iff onePiece fun _ => rfl).mpr fun h => by cases h⟩

/-- Two bytes around the end of the first chunk: the second one goes to the second target, where the
client does not look for it. -/
theorem second_piece_elsewhere :
    ((rounds ⟨.raid10, largeChunks, fun _ _ => true, false⟩ 0x7fffffff 2).flatMap
      Round.states).map FileState.targetIndex = [0, 1] ∧
    targetIndexAt ⟨.raid10, largeChunks, fun _ _ => true, false⟩ 0x80000000 = 0 := by
  decide

end Splitter
end Congfs
