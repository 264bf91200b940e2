import Congfs.Remoting.ReadFile

/-!
# Reading a sparse file

The chunk files of a file that was written to at some positions hold these bytes and zeros between
them, and end with the last byte that they hold. Reading the file gives all of its bytes up to its
size, with zeros for the holes, whether a target's answer is short because the file ends or
because its chunk file does.
-/

namespace Congfs

open FhgfsOpsRemoting FhgfsOpsHelper Segment
open UInt64 (le_iff_toNat_le toNat_inj toNat_ofNat_of_lt' toNat_sub_of_le toNat_zero)

namespace Splitter
variable {sp : Splitter} {p start fin : ℕ} {cur cur' : Cursor} {states : List FileState}

/-- The client's arithmetic for this pattern is that of the servers. -/
def Agrees (sp : Splitter) : Prop :=
  sp.type = .raid10 → sp.pattern.layout.width * sp.pattern.layout.chunk ≤ 2 ^ 32

theorem Agrees.targetIndexAt_ofNat (h : sp.Agrees) (hp : p < 2 ^ 63) :
    sp.targetIndexAt (Int64.ofNat p) = UInt32.ofNat (sp.pattern.layout.column p) := by
  rw [targetIndexAt, StripePatternType.getStripeTargetIndex_eq sp.pattern h hp,
    sp.pattern.getStripeTargetIndex_ofNat hp, UInt64.toUInt32_ofNat']

theorem Agrees.localOffsetAt_ofNat (h : sp.Agrees) (hp : p < 2 ^ 63) :
    sp.localOffsetAt (Int64.ofNat p) = Int64.ofNat (sp.pattern.layout.offset p) := by
  rw [← currentNodeLocalOffset_ofNat sp.pattern hp, localOffsetAt, targetIndexAt,
    StripePatternType.getStripeTargetIndex_eq sp.pattern h hp]
  rfl

theorem toNat_currentChunkSize_ofNat (sp : Splitter) (p : ℕ) :
    (sp.currentChunkSize (Int64.ofNat p)).toNat =
      sp.pattern.layout.chunk - p % sp.pattern.layout.chunk := by
  have hchunk := sp.pattern.chunk_lt
  have hmod := Nat.mod_lt p sp.pattern.layout.chunk_pos
  rw [currentChunkSize_eq, sp.pattern.int64_chunkSize, sp.pattern.and_mask,
    Word.int64_uint32 (by omega), ← Int64.ofNat_sub _ _ hmod.le, Int64.toUInt64_ofNat',
    toNat_ofNat_of_lt' (lt_of_le_of_lt (Nat.sub_le _ _) (hchunk.trans (by decide)))]

/-- The cursor of a request for the positions from `start` to `start + fin`. -/
structure At (start fin : ℕ) (cur : Cursor) : Prop where
  offset_eq : cur.currentOffset = Int64.ofNat (start + cur.iterCopy.pos.toNat)
  end_eq : cur.iterCopy.pos.toNat + cur.iterCopy.count.toNat = fin

theorem At.next (sp : Splitter) (h : At start fin cur) (hfin : start + fin < 2 ^ 63) :
    At start fin (sp.next cur) := by
  have hend := h.end_eq
  have hle : (sp.chunkIter cur).count.toNat ≤ cur.iterCopy.count.toNat :=
    sp.toNat_chunkIter_count cur ▸ min_le_left _ _
  have hpos : (sp.next cur).iterCopy.pos.toNat = _ := sp.toNat_next_pos (by omega)
  refine ⟨?_, ?_⟩
  · rw [hpos, ← add_assoc, Int64.ofNat_add, ← h.offset_eq, ← Word.toInt64_eq]
    rfl
  · rw [hpos, sp.toNat_next_count]
    omega

theorem Cut.at (h : sp.Cut cur states cur') (hat : At start fin cur) (hfin : start + fin < 2 ^ 63) :
    At start fin cur' := by
  induction h with
  | nil => exact hat
  | cons _ _ _ ih => exact ih (hat.next sp hfin)

/-- If something is left behind a piece, then the piece ends with its chunk. -/
theorem At.next_column (h : At start fin cur) (hfin : start + fin < 2 ^ 63)
    (hcount : (sp.next cur).iterCopy.count ≠ 0) :
    sp.pattern.layout.column (start + (sp.next cur).iterCopy.pos.toNat) =
      (sp.pattern.layout.column (start + cur.iterCopy.pos.toNat) + 1) %
        sp.pattern.layout.width := by
  have hend := h.end_eq
  have hne : (sp.next cur).iterCopy.count.toNat ≠ 0 := fun h0 => hcount (toNat_inj.mp h0)
  have hchunk := sp.toNat_currentChunkSize_ofNat (start + cur.iterCopy.pos.toNat)
  rw [← h.offset_eq] at hchunk
  have hmin := sp.toNat_chunkIter_count cur
  rw [sp.toNat_next_count] at hne
  rw [sp.toNat_next_pos (by omega), ← sp.pattern.layout.column_next, ← hchunk, ← add_assoc]
  congr 2
  omega

/-- A piece at its place: the target and the offset are those of its first byte. -/
def Placed (sp : Splitter) (start fin : ℕ) (state : FileState) : Prop :=
  ∃ cur, At start fin cur ∧ cur.iterCopy.count ≠ 0 ∧
    state = sp.fileState (sp.targetIndexAt cur.currentOffset) cur

theorem stripeSet_placed (hagrees : sp.Agrees) (hfin : start + fin < 2 ^ 63) (works : ℕ)
    (first : Bool) (hat : At start fin cur)
    (hindex : cur.iterCopy.count ≠ 0 → index = sp.targetIndexAt cur.currentOffset) :
    ∀ state ∈ (sp.stripeSet works first index cur).1, sp.Placed start fin state := by
  induction works generalizing first index cur with
  | zero => simp [stripeSet]
  | succ works ih =>
    rw [stripeSet]
    split
    · simp
    · rename_i hcount
      have hhead : sp.Placed start fin (sp.fileState index cur) :=
        ⟨cur, hat, hcount, by rw [hindex hcount]⟩
      split
      · simp
      · split
        · simpa using hhead
        · refine List.forall_mem_cons.mpr ⟨hhead, ih _ (hat.next sp hfin) fun hcount' => ?_⟩
          have hat' := hat.next sp hfin
          have hend := hat.end_eq
          have hend' := hat'.end_eq
          have hcol := sp.pattern.layout.column_lt (start + cur.iterCopy.pos.toNat)
          have hwidth := sp.pattern.width_lt
          rw [hat'.offset_eq, hagrees.targetIndexAt_ofNat (by omega),
            hat.next_column hfin hcount', hindex hcount, hat.offset_eq,
            hagrees.targetIndexAt_ofNat (by omega), UInt32.ofNat_mod (by omega) hwidth,
            UInt32.ofNat_add, numStripeTargets, sp.pattern.getNumStripeTargetIDs_eq,
            UInt64.toUInt32_ofNat']
          rfl

theorem roundsFrom_placed (hagrees : sp.Agrees) (hfin : start + fin < 2 ^ 63) (fuel : ℕ)
    (hat : At start fin cur) :
    ∀ state ∈ (sp.roundsFrom fuel cur).flatMap Round.states, sp.Placed start fin state := by
  induction fuel generalizing cur with
  | zero => simp [roundsFrom]
  | succ fuel ih =>
    have hround : ∀ state ∈ (sp.round cur).1.states, sp.Placed start fin state :=
      stripeSet_placed hagrees hfin _ _ hat fun _ => rfl
    rw [roundsFrom]
    split
    · simp
    · split
      · simpa using hround
      · intro state hstate
        rcases List.mem_append.mp hstate with hstate | hstate
        · exact hround state hstate
        · exact ih ((sp.round_cut cur).at hat hfin) state hstate

end Splitter

/-! ## Chunk files -/

/-- The contents of the chunk files, by target index. -/
abbrev ChunkContents := UInt32 → List UInt8

def fileSize (W : Finset ℕ) : ℕ := W.sup (· + 1)

def fileByte (W : Finset ℕ) (content : ℕ → UInt8) (p : ℕ) : UInt8 := if p ∈ W then content p else 0

/-- The chunk files hold exactly the bytes that were written to the positions `W`, each of them
where the client puts it. -/
structure Holds (sp : Splitter) (W : Finset ℕ) (content : ℕ → UInt8) (files : ChunkContents) :
    Prop where
  length_eq : ∀ target, (files target).length =
    (W.filter fun p => sp.targetIndexAt (Int64.ofNat p) = target).sup
      fun p => (sp.localOffsetAt (Int64.ofNat p)).toNatClampNeg + 1
  written : ∀ p ∈ W, (files (sp.targetIndexAt (Int64.ofNat p)))[
    (sp.localOffsetAt (Int64.ofNat p)).toNatClampNeg]? = some (content p)
  hole : ∀ target x, x < (files target).length →
    (∀ p ∈ W, sp.targetIndexAt (Int64.ofNat p) = target →
      (sp.localOffsetAt (Int64.ofNat p)).toNatClampNeg ≠ x) → (files target)[x]? = some 0

/-- A target reads its chunk file, up to its end. -/
def readAnswers (files : ChunkContents) : ReadAnswers where
  nodeResult state := Int64.ofNat
    (((files state.targetIndex).drop state.offset.toNatClampNeg).take state.totalSize.toNat).length
  received state :=
    ((files state.targetIndex).drop state.offset.toNatClampNeg).take state.totalSize.toNat

/-- Such a file, of a size that fits, where the client computes the places that the servers do and
has memory for its requests. -/
structure Stored (sp : Splitter) (W : Finset ℕ) (content : ℕ → UInt8) (files : ChunkContents) :
    Prop extends Holds sp W content files where
  agrees : sp.Agrees
  fits : fileSize W < 2 ^ 63
  alloc : ∀ pos, sp.alloc true pos

namespace Stored
variable {sp : Splitter} {W : Finset ℕ} {content : ℕ → UInt8} {files : ChunkContents} {p : ℕ}

theorem targetIndexAt_eq_iff (hagrees : sp.Agrees) (hp : p < 2 ^ 63) (hq : q < 2 ^ 63) :
    sp.targetIndexAt (Int64.ofNat q) = sp.targetIndexAt (Int64.ofNat p) ↔
      sp.pattern.layout.column q = sp.pattern.layout.column p := by
  have hword (r : ℕ) : sp.pattern.layout.column r < UInt32.size :=
    ((sp.pattern.layout.column_lt r).trans sp.pattern.width_lt).trans_eq rfl
  rw [hagrees.targetIndexAt_ofNat hp, hagrees.targetIndexAt_ofNat hq, ← UInt32.toNat_inj,
    UInt32.toNat_ofNat_of_lt' (hword _), UInt32.toNat_ofNat_of_lt' (hword _)]

theorem toNatClampNeg_localOffsetAt (hagrees : sp.Agrees) (hp : p < 2 ^ 63) :
    (sp.localOffsetAt (Int64.ofNat p)).toNatClampNeg = sp.pattern.layout.offset p := by
  rw [hagrees.localOffsetAt_ofNat hp,
    Int64.toNatClampNeg_ofNat_of_lt ((sp.pattern.layout.offset_le p).trans_lt hp)]

theorem lt_fileSize (hp : p ∈ W) : p < fileSize W :=
  Finset.le_sup (f := (· + 1)) hp

/-- What a request for `count` bytes from `start` on receives. -/
def segments (sp : Splitter) (files : ChunkContents) (start : ℕ) (count : UInt64) : List Segment :=
  ((sp.rounds (Int64.ofNat start) count).flatMap Round.states).map (readSegment (readAnswers files))

theorem start_at : Splitter.At o count.toNat ⟨Int64.ofNat o, ⟨0, count⟩⟩ where
  offset_eq := by rw [toNat_zero, add_zero]
  end_eq := by rw [toNat_zero, zero_add]

theorem toUInt64_lt_iff (hT : T ≤ count.toNat) :
    (Int64.ofNat T).toUInt64 < count ↔ T < count.toNat := by
  rw [Int64.toUInt64_ofNat', UInt64.lt_iff_toNat_lt,
    toNat_ofNat_of_lt' (hT.trans_lt count.toNat_lt)]

theorem ofNat_nonneg (hT : T < 2 ^ 63) : ¬ Int64.ofNat T < 0 :=
  Int64.not_lt.mpr ((Int64.ofNat_le_iff_le (by norm_num) hT).mpr (Nat.zero_le _))

section
variable (h : Stored sp W content files)
include h

theorem length_le (hp : p < 2 ^ 63) (hend : fileSize W ≤ p) :
    (files (sp.targetIndexAt (Int64.ofNat p))).length ≤ sp.pattern.layout.offset p := by
  have hshare : sp.pattern.layout.extent W (sp.pattern.layout.column p) ≤
      sp.pattern.layout.share p (sp.pattern.layout.column p) :=
    sp.pattern.layout.extent_le_share (fun q hq => (lt_fileSize hq).trans_le hend) _
  have hoffset : ¬ sp.pattern.layout.offset p <
      sp.pattern.layout.share p (sp.pattern.layout.column p) := by
    rw [sp.pattern.layout.offset_lt_share_iff]
    exact lt_irrefl p
  rw [h.length_eq]
  refine le_trans (le_of_eq ?_) (hshare.trans (not_lt.mp hoffset))
  have hlt : ∀ q ∈ W, q < 2 ^ 63 := fun q hq => (lt_fileSize hq).trans h.fits
  rw [Layout.extent, Finset.filter_congr fun q hq => targetIndexAt_eq_iff h.agrees hp (hlt q hq)]
  refine Finset.sup_congr rfl fun q hq => ?_
  rw [toNatClampNeg_localOffsetAt h.agrees (hlt q (Finset.mem_of_mem_filter q hq))]

/-- The byte at its place in the chunk file, with zero for what the chunk file does not have. -/
theorem getD_eq (hp : p < 2 ^ 63) :
    (files (sp.targetIndexAt (Int64.ofNat p))).getD (sp.pattern.layout.offset p) 0 =
      fileByte W content p := by
  rw [fileByte, List.getD_eq_getElem?_getD]
  split_ifs with hmem
  · rw [← toNatClampNeg_localOffsetAt h.agrees hp, h.written p hmem, Option.getD_some]
  · by_cases hlt : sp.pattern.layout.offset p < (files (sp.targetIndexAt (Int64.ofNat p))).length
    · rw [h.hole _ _ hlt, Option.getD_some]
      intro q hq hindex hoffset
      have hq63 : q < 2 ^ 63 := (lt_fileSize hq).trans h.fits
      rw [toNatClampNeg_localOffsetAt h.agrees hq63] at hoffset
      have hcolumn := (targetIndexAt_eq_iff h.agrees hp hq63).mp hindex
      -- the layout stores no two positions at the same place
      have hqp := sp.pattern.layout.position_column_offset q
      rw [hcolumn, hoffset, sp.pattern.layout.position_column_offset] at hqp
      exact hmem (hqp ▸ hq)
    · rw [List.getElem?_eq_none (not_lt.mp hlt), Option.getD_none]

/-! ## One piece -/

variable {start fin o base j : ℕ} {state : FileState}

omit h in
theorem piece_bytes (hagrees : sp.Agrees) (hfin : start + fin < 2 ^ 63)
    (hstate : sp.Placed start fin state) (hj : j < state.totalSize.toNat) :
    state.data.pos.toNat + j < fin ∧
    state.targetIndex = sp.targetIndexAt (Int64.ofNat (start + state.data.pos.toNat + j)) ∧
    state.offset.toNatClampNeg + j =
      sp.pattern.layout.offset (start + state.data.pos.toNat + j) := by
  obtain ⟨cur, hat, -, rfl⟩ := hstate
  have hend := hat.end_eq
  have hpos : (sp.fileState (sp.targetIndexAt cur.currentOffset) cur).data.pos.toNat =
      cur.iterCopy.pos.toNat := congrArg UInt64.toNat (sp.chunkIter_pos cur)
  have hchunk := sp.toNat_currentChunkSize_ofNat (start + cur.iterCopy.pos.toNat)
  have hsize : j < min cur.iterCopy.count.toNat (sp.currentChunkSize cur.currentOffset).toNat :=
    hj.trans_eq (sp.toNat_chunkIter_count cur)
  rw [hat.offset_eq, hchunk] at hsize
  have hin : (start + cur.iterCopy.pos.toNat) % sp.pattern.layout.chunk + j <
      sp.pattern.layout.chunk := by omega
  rw [hpos]
  refine ⟨by omega, ?_, ?_⟩
  · refine (congrArg sp.targetIndexAt hat.offset_eq).trans ?_
    rw [targetIndexAt_eq_iff hagrees (by omega) (by omega), sp.pattern.layout.column_add hin]
  · have hoffset : (sp.fileState (sp.targetIndexAt cur.currentOffset) cur).offset =
        sp.localOffsetAt (Int64.ofNat (start + cur.iterCopy.pos.toNat)) :=
      congrArg sp.localOffsetAt hat.offset_eq
    rw [hoffset, toNatClampNeg_localOffsetAt hagrees (by omega), sp.pattern.layout.offset_add hin]

theorem received_getD (hfin : start + fin < 2 ^ 63)
    (hstate : sp.Placed start fin state) (hj : j < state.totalSize.toNat) :
    ((readAnswers files).received state).getD j 0 =
      fileByte W content (start + state.data.pos.toNat + j) := by
  obtain ⟨hlt, hindex, hoffset⟩ := piece_bytes h.agrees hfin hstate hj
  rw [← h.getD_eq (by omega), ← hindex, ← hoffset, readAnswers,
    List.getD_eq_getElem?_getD, List.getD_eq_getElem?_getD, List.getElem?_take_of_lt hj,
    List.getElem?_drop]

theorem lt_fileSize_of_received (hfin : start + fin < 2 ^ 63)
    (hstate : sp.Placed start fin state) (hj : j < ((readAnswers files).received state).length) :
    start + state.data.pos.toNat + j < fileSize W := by
  have hlength : j < (((files state.targetIndex).drop state.offset.toNatClampNeg).take
    state.totalSize.toNat).length := hj
  rw [List.length_take, List.length_drop] at hlength
  obtain ⟨hlt, hindex, hoffset⟩ :=
    piece_bytes h.agrees hfin hstate (show j < state.totalSize.toNat by omega)
  by_contra hend
  have hle := h.length_le (p := start + state.data.pos.toNat + j) (by omega) (not_lt.mp hend)
  rw [← hindex, ← hoffset] at hle
  omega

omit h in
theorem totalSize_lt (hstate : sp.Placed start fin state) : state.totalSize.toNat < 2 ^ 63 := by
  obtain ⟨cur, -, -, rfl⟩ := hstate
  have hsize := (sp.currentChunkSize_pos cur.currentOffset).2
  have hchunk := sp.pattern.chunk_lt
  have hmin := sp.toNat_chunkIter_count cur
  exact (show (sp.chunkIter cur).count.toNat < 2 ^ 63 by omega)

/-- The answers are right for a buffer that starts at position `o` of the file. -/
theorem delivers (hfin : o + base + fin < 2 ^ 63) (hstate : sp.Placed (o + base) fin state) :
    FhgfsOpsRemoting.Delivers (readAnswers files) base (fun i => fileByte W content (o + i))
      state where
  nodeResult_eq := rfl
  length_le := List.length_take_le _ _
  totalSize_lt := totalSize_lt hstate
  byte j hj := by
    have hlt : j < state.totalSize.toNat := hj.trans_le (List.length_take_le _ _)
    rw [← List.getD_eq_getElem _ 0 hj, h.received_getD hfin hstate hlt]
    congr 1
    omega

/-! ## One call -/

variable {count : UInt64} {buf : UserBuffer}

theorem covers_lt_fileSize {states : List FileState}
    (hfin : start + fin < 2 ^ 63) (hplaced : ∀ state ∈ states, sp.Placed start fin state)
    (hb : Segment.Covers (states.map (readSegment (readAnswers files))) b) :
    start + b < fileSize W := by
  obtain ⟨_, hmem, hle, hlt⟩ := hb
  obtain ⟨state, hstate, rfl⟩ := List.mem_map.mp hmem
  have hle' : state.data.pos.toNat ≤ b := hle
  have hlt' : b < state.data.pos.toNat + min ((readAnswers files).received state).length
    state.totalSize.toNat := hlt
  have hsize := h.lt_fileSize_of_received hfin (hplaced state hstate)
    (show b - state.data.pos.toNat < _ by omega)
  omega

/-- A read from the servers returns a prefix of what is there, and puts it into the buffer. -/
theorem readfileVec_eq (o base : ℕ) (hfin : o + base + count.toNat < 2 ^ 63) (buf : UserBuffer) :
    ∃ T ≤ count.toNat, T = transferred (segments sp files (o + base) count) ∧
      (T = 0 ∨ o + base + T ≤ fileSize W) ∧
      (readfileVec (readAnswers files) sp base (Int64.ofNat (o + base)) count
        buf).1 = Int64.ofNat T ∧
      ∀ i, buf i = fileByte W content (o + i) ∨ (∃ b < T, i = base + b) →
        (readfileVec (readAnswers files) sp base (Int64.ofNat (o + base)) count
          buf).2 i = fileByte W content (o + i) := by
  have hplaced := Splitter.roundsFrom_placed h.agrees hfin count.toNat start_at
  have hsegs : Segment.Consecutive 0 (segments sp files (o + base) count) :=
    sp.rounds_consecutive h.alloc _ _ (fun _ => rfl) (fun _ => rfl)
  have htotal : total (segments sp files (o + base) count) = count.toNat :=
    sp.rounds_total h.alloc _ _ (fun _ => rfl)
  have hret : count.toInt64 = _ := Word.toInt64_eq count
  rw [← htotal, ← zero_add (total _)] at hret
  obtain ⟨hres, hbuf⟩ := readRounds_eq
    (sp.rounds_states_ne_nil h.alloc (Int64.ofNat (o + base)) count)
    (fun s hs => h.delivers hfin (hplaced s hs)) hsegs hret
  refine ⟨_, htotal ▸ transferred_le_total, rfl, ?_, ?_, fun i hi => hbuf i ?_⟩
  · rcases eq_zero_or_pos (transferred _) with hzero | hpos
    · exact .inl hzero
    · have hcovers := covers_of_lt_transferred hsegs (Nat.sub_lt hpos one_pos)
      have hlt := h.covers_lt_fileSize hfin hplaced hcovers
      exact .inr (by omega)
  · rw [zero_add] at hres
    exact hres
  · refine hi.imp_right ?_
    rintro ⟨b, hb, rfl⟩
    exact ⟨b, by rw [zero_add], hb⟩

omit h in
theorem toNat_toUInt64 (hT : T ≤ count.toNat) : (Int64.ofNat T).toUInt64.toNat = T := by
  rw [Int64.toUInt64_ofNat', toNat_ofNat_of_lt' (hT.trans_lt count.toNat_lt)]

theorem fileByte_eq_zero (hfin : start + count.toNat < 2 ^ 63) (hpos : 0 < count.toNat)
    (hle : count.toNat ≤ (sp.currentChunkSize (Int64.ofNat start)).toNat)
    (hT : transferred (segments sp files start count) ≤ j) (hj : j < count.toNat) :
    fileByte W content (start + j) = 0 := by
  have hrounds := sp.rounds_of_le_chunk h.alloc hpos hle
  have hplaced := Splitter.roundsFrom_placed h.agrees hfin count.toNat start_at
    (sp.fileState (sp.targetIndexAt (Int64.ofNat start)) ⟨Int64.ofNat start, ⟨0, count⟩⟩)
  rw [Splitter.rounds] at hrounds
  rw [hrounds] at hplaced
  rw [segments, Splitter.rounds, hrounds] at hT
  have hstate := hplaced List.mem_cons_self
  have hsize := (sp.toNat_chunkIter_count ⟨Int64.ofNat start, ⟨0, count⟩⟩).trans (min_eq_left hle)
  have hdata :
    (sp.fileState (sp.targetIndexAt (Int64.ofNat start)) ⟨Int64.ofNat start,
    ⟨0, count⟩⟩).data.pos.toNat = 0 :=
    congrArg UInt64.toNat (sp.chunkIter_pos _)
  have hbyte := h.received_getD hfin hstate (hj.trans_eq hsize.symm)
  rw [hdata, add_zero] at hbyte
  have hdone : (readSegment (readAnswers files)
      (sp.fileState (sp.targetIndexAt (Int64.ofNat start)) ⟨Int64.ofNat start, ⟨0, count⟩⟩)).done ≤
      j := by
    simp only [List.map_cons, List.map_nil, transferred] at hT
    split at hT <;> omega
  have hdelivers : FhgfsOpsRemoting.Delivers (readAnswers files) 0
      (fun i => fileByte W content (start + i)) _ := h.delivers hfin hstate
  rw [← hbyte, List.getD_eq_default]
  rw [hdelivers.done_eq] at hdone
  exact hdone

theorem readOrClearChunk_eq (o base : ℕ) (count : UInt64)
    (hfin : o + base + count.toNat < 2 ^ 63) (hpos : 0 < count.toNat)
    (hle : count.toNat ≤ (sp.currentChunkSize (Int64.ofNat (o + base))).toNat) (buf : UserBuffer) :
    ∃ buf', readOrClearChunk (readAnswers files) sp base count
        (Int64.ofNat (o + base)) buf = (.ok (), buf') ∧
      ∀ i, buf i = fileByte W content (o + i) ∨ (∃ b < count.toNat, i = base + b) →
        buf' i = fileByte W content (o + i) := by
  obtain ⟨T, hT, htransferred, -, hres, hbuf⟩ :=
    h.readfileVec_eq o base hfin buf
  rw [readOrClearChunk]
  simp only [hres, if_neg (ofNat_nonneg (show T < 2 ^ 63 by omega)), toUInt64_lt_iff hT]
  split_ifs with hcase
  · refine ⟨_, rfl, fun i hi => ?_⟩
    have hclear : (count - (Int64.ofNat T).toUInt64).toNat = count.toNat - T := by
      rw [toNat_sub_of_le _ _ (le_iff_toNat_le.mpr ((toNat_toUInt64 hT).trans_le hT)),
        toNat_toUInt64 hT]
    rw [UserBuffer.clear, toNat_toUInt64 hT, hclear]
    split_ifs with hc
    · have hzero := h.fileByte_eq_zero hfin hpos hle
        (htransferred.symm.trans_le (show T ≤ i - base by omega)) (by omega)
      rw [← hzero]
      congr 1
      omega
    · refine hbuf i (hi.imp_right ?_)
      rintro ⟨b, hb, rfl⟩
      exact ⟨b, by omega, rfl⟩
  · refine ⟨_, rfl, fun i hi => hbuf i (hi.imp_right ?_)⟩
    rintro ⟨b, hb, rfl⟩
    exact ⟨b, by omega, rfl⟩

theorem readOrClearChunks_eq (o base : ℕ) {size : UInt64}
    (hfin : o + base + size.toNat < 2 ^ 63) (fuel : ℕ) (left : UInt64) {d : ℕ}
    (hfuel : left.toNat ≤ fuel) (hd : d + left.toNat = size.toNat) (buf : UserBuffer) :
    ∃ buf', readOrClearChunks (readAnswers files) sp base size fuel left
        (Int64.ofNat (o + (base + d))) buf = (.ok (), buf') ∧
      ∀ i, buf i = fileByte W content (o + i) ∨ (∃ b < left.toNat, i = base + d + b) →
        buf' i = fileByte W content (o + i) := by
  induction fuel generalizing left d buf with
  | zero => exact ⟨buf, rfl, fun i hi => hi.resolve_right (by rintro ⟨b, hb, -⟩; omega)⟩
  | succ fuel ih =>
    rw [readOrClearChunks]
    by_cases hzero : left = 0
    · subst hzero
      exact ⟨buf, if_pos rfl, fun i hi => hi.resolve_right (by rintro ⟨b, hb, -⟩; cases hb)⟩
    · have hne : left.toNat ≠ 0 := fun h0 => hzero (toNat_inj.mp h0)
      have hsub : (size - left).toNat = d := by
        rw [toNat_sub_of_le _ _ (le_iff_toNat_le.mpr (by omega))]
        omega
      obtain ⟨n, hn⟩ :
          ∃ n, n = minSize (sp.currentChunkSize (Int64.ofNat (o + (base + d)))) left := ⟨_, rfl⟩
      have hchunk := sp.currentChunkSize_pos (Int64.ofNat (o + (base + d)))
      have hmin : n.toNat = min _ left.toNat := hn ▸ toNat_minSize
      obtain ⟨buf', hread, hbuf⟩ := h.readOrClearChunk_eq o (base + d) n
        (by omega) (by omega) (by omega) buf
      have hrest : (left - n).toNat = left.toNat - n.toNat :=
        toNat_sub_of_le _ _ (le_iff_toNat_le.mpr (by omega))
      obtain ⟨buf'', hloop, hbuf'⟩ := @ih (left - n) (d + n.toNat) (by omega) (by omega) buf'
      have hoffset : Int64.ofNat (o + (base + d)) + n.toInt64 =
          Int64.ofNat (o + (base + (d + n.toNat))) := by
        rw [Word.toInt64_eq, ← Int64.ofNat_add, add_assoc o, add_assoc base]
      simp only [if_neg hzero, ← hn, hsub, hread, hoffset]
      refine ⟨buf'', hloop, fun i hi => hbuf' i ?_⟩
      rcases hi with hi | ⟨b, hb, rfl⟩
      · exact .inl (hbuf i (.inl hi))
      · by_cases hin : b < n.toNat
        · exact .inl (hbuf _ (.inr ⟨b, hin, rfl⟩))
        · exact .inr ⟨b - n.toNat, by omega, by omega⟩

/-! ## The whole read -/

/-- The sparse read fills the buffer from `base` on, up to the end of the file. -/
theorem readSparse_eq (o base : ℕ)
    (hfin : o + base + count.toNat < 2 ^ 63) (hlt : o + base < fileSize W) (buf : UserBuffer) :
    ∃ buf', FhgfsOps.readSparse (readAnswers files) sp (Int64.ofNat (fileSize W)) base count
        (Int64.ofNat (o + base)) buf =
          (.ok (Int64.ofNat (min count.toNat (fileSize W - (o + base)))), buf') ∧
      ∀ i, buf i = fileByte W content (o + i) ∨
          (∃ b < min count.toNat (fileSize W - (o + base)), i = base + b) →
        buf' i = fileByte W content (o + i) := by
  have hfits := h.fits
  have hsub : (Int64.ofNat (fileSize W) - Int64.ofNat (o + base)).toUInt64.toNat =
      fileSize W - (o + base) := by
    rw [← Int64.ofNat_sub _ _ hlt.le, Int64.toUInt64_ofNat',
      toNat_ofNat_of_lt' (lt_of_lt_of_le (show _ < 2 ^ 63 by omega) (by decide))]
  obtain ⟨size, hsize⟩ : ∃ size, size =
      minSize count (Int64.ofNat (fileSize W) - Int64.ofNat (o + base)).toUInt64 := ⟨_, rfl⟩
  have hmin : size.toNat = min count.toNat (fileSize W - (o + base)) := by
    rw [hsize, toNat_minSize, hsub]
  obtain ⟨buf', hloop, hbuf⟩ := h.readOrClearChunks_eq o base (by omega) size.toNat
    size le_rfl (zero_add _) buf
  simp only [add_zero] at hloop hbuf
  rw [FhgfsOps.readSparse,
    if_neg (Int64.not_le.mpr ((Int64.ofNat_lt_iff_lt (by omega) h.fits).mpr hlt))]
  simp only [← hsize, readOrClearUser, hloop, ← hmin, Word.toInt64_eq]
  exact ⟨buf', rfl, hbuf⟩

theorem read_eq (hfin : o + count.toNat < 2 ^ 63) (buf : UserBuffer) :
    ∃ buf', FhgfsOps.read (readAnswers files) sp (Int64.ofNat (fileSize W)) count (Int64.ofNat o)
        buf = (.ok (Int64.ofNat (min count.toNat (fileSize W - o))), buf') ∧
      ∀ i < min count.toNat (fileSize W - o), buf' i = fileByte W content (o + i) := by
  obtain ⟨T, hT, -, hend, hres, hbuf⟩ :=
    h.readfileVec_eq o 0 hfin buf
  rw [add_zero] at hres hend hbuf
  have hcond : (Int64.ofNat T).toUInt64 < count ∧
      Int64.ofNat (fileSize W) > Int64.ofNat o + Int64.ofNat T ↔
        T < count.toNat ∧ o + T < fileSize W := by
    rw [toUInt64_lt_iff hT, ← Int64.ofNat_add, gt_iff_lt, Int64.ofNat_lt_iff_lt (by omega) h.fits]
  rw [FhgfsOps.read]
  simp only [hres, if_neg (ofNat_nonneg (show T < 2 ^ 63 by omega)), hcond, toNat_toUInt64 hT]
  split_ifs with hc
  · have hrest : (count - (Int64.ofNat T).toUInt64).toNat = count.toNat - T := by
      rw [toNat_sub_of_le _ _ (le_iff_toNat_le.mpr ((toNat_toUInt64 hT).trans_le hT)),
        toNat_toUInt64 hT]
    obtain ⟨buf', hread, hbuf'⟩ := h.readSparse_eq o T
      (show o + T + (count - (Int64.ofNat T).toUInt64).toNat < 2 ^ 63 by omega) hc.2
      (readfileVec (readAnswers files) sp 0 (Int64.ofNat o) count buf).2
    rw [hrest] at hread hbuf'
    simp only [← Int64.ofNat_add, hread]
    refine ⟨buf', ?_, fun i hi => hbuf' i ?_⟩
    · rw [show T + min (count.toNat - T) (fileSize W - (o + T)) =
        min count.toNat (fileSize W - o) by omega]
    · by_cases hi' : i < T
      · exact .inl (hbuf i (.inr ⟨i, hi', (zero_add i).symm⟩))
      · exact .inr ⟨i - T, by omega, by omega⟩
  · refine ⟨_, by rw [show T = min count.toNat (fileSize W - o) by omega], fun i hi => ?_⟩
    exact hbuf i (.inr ⟨i, by omega, (zero_add i).symm⟩)

end

end Stored
end Congfs
