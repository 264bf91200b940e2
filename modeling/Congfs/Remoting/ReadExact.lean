import Congfs.Remoting.SparseRead

/-!
# When reading is exact

Reading a sparse file is exact for every pattern for which the client's arithmetic is that of the
servers. In a `Raid10` pattern with a larger stripe set the client puts two positions of the file at
the same place of a chunk file: a byte written to one of them appears in a hole at the other.
-/

namespace Congfs

open Raid10Pattern FhgfsOpsRemoting

namespace FhgfsOpsRemoting
variable (pattern : StripePattern) {p : ℕ}

/-- Where the client stores a position that it places on the first target. -/
theorem getChunkOffset_zero (hp : p < 2 ^ 63) : getChunkOffset (Int64.ofNat p) pattern.getChunkSize
        pattern.getNumStripeTargetIDs.toUInt32.toUInt64 (0 : UInt32).toUInt64 =
      Int64.ofNat ((p - p % pattern.layout.chunk) / pattern.layout.width +
        p % pattern.layout.chunk) := by
  have hwidth := pattern.width_lt
  have hdiv := divNumNodes_ofNat (n := p - p % pattern.layout.chunk) (by omega)
    pattern.layout.width_pos hwidth
  have hzero : (0 : UInt32).toUInt64 * pattern.chunkSize.toUInt64 = 0 := UInt64.zero_mul
  rw [getChunkOffset, StripePattern.getChunkSize, pattern.and_mask, hzero, UInt64.sub_zero,
    ← Int64.ofNat_sub _ _ (Nat.mod_le _ _), Int64.toUInt64_ofNat', UInt64.toInt64_ofNat',
    pattern.getNumStripeTargetIDs_eq, UInt64.toUInt32_ofNat', UInt32.toUInt64_ofNat' hwidth,
    UInt64.toUInt32_ofNat', hdiv, ← Int64.ofNat_add]

end FhgfsOpsRemoting

section Alias
variable (pattern : StripePattern) (alloc : Bool → UInt64 → Bool)

abbrev raid10Read : Splitter := ⟨.raid10, pattern, alloc, false⟩

open Raid10Pattern (period)

/-- The position in the first chunk that shares its place with position `period`. -/
def aliasOf : ℕ := period pattern / pattern.layout.width

variable {pattern} (h : 2 ^ 32 < pattern.layout.width * pattern.layout.chunk)
include h

theorem aliasOf_lt : aliasOf pattern < pattern.layout.chunk :=
  (Nat.div_lt_iff_lt_mul pattern.layout.width_pos).mpr
    (Nat.mul_comm _ _ ▸ (period_le pattern).trans_lt h)

theorem aliasOf_lt_period : aliasOf pattern < period pattern :=
  (aliasOf_lt h).trans_le (Nat.le_of_dvd (period_pos pattern) (chunk_dvd_period pattern))

omit h in
theorem targetIndexAt_period :
    (raid10Read pattern alloc).targetIndexAt (Int64.ofNat (period pattern)) = 0 := by
  have hle := period_le pattern
  have hindex := getStripeTargetIndex_ofNat pattern (show period pattern < 2 ^ 63 by omega)
  rw [Nat.mod_self] at hindex
  exact congrArg UInt64.toUInt32 hindex

omit h in
theorem localOffsetAt_period :
    (raid10Read pattern alloc).localOffsetAt (Int64.ofNat (period pattern)) =
      Int64.ofNat (aliasOf pattern) := by
  have hle := period_le pattern
  have hmod : period pattern % pattern.layout.chunk = 0 :=
    Nat.mod_eq_zero_of_dvd (chunk_dvd_period pattern)
  have hoffset := getChunkOffset_zero pattern (show period pattern < 2 ^ 63 by omega)
  rw [hmod, Nat.sub_zero, Nat.add_zero] at hoffset
  rw [Splitter.localOffsetAt, targetIndexAt_period]
  exact hoffset

theorem targetIndexAt_aliasOf :
    (raid10Read pattern alloc).targetIndexAt (Int64.ofNat (aliasOf pattern)) = 0 := by
  have hlt := aliasOf_lt h
  have hchunk := pattern.chunk_lt
  have hindex := getStripeTargetIndex_ofNat pattern (show aliasOf pattern < 2 ^ 63 by omega)
  rw [Nat.div_eq_of_lt hlt, Nat.zero_mod] at hindex
  exact congrArg UInt64.toUInt32 hindex

theorem localOffsetAt_aliasOf :
    (raid10Read pattern alloc).localOffsetAt (Int64.ofNat (aliasOf pattern)) =
      Int64.ofNat (aliasOf pattern) := by
  have hlt := aliasOf_lt h
  have hchunk := pattern.chunk_lt
  have hoffset := getChunkOffset_zero pattern (show aliasOf pattern < 2 ^ 63 by omega)
  rw [Nat.mod_eq_of_lt hlt, Nat.sub_self, Nat.zero_div, Nat.zero_add] at hoffset
  rw [Splitter.localOffsetAt, targetIndexAt_aliasOf alloc h]
  exact hoffset

/-- The chunk files after one byte has been written to position `period`. -/
def aliasFiles (pattern : StripePattern) : ChunkContents := fun target =>
  if target = 0 then List.replicate (aliasOf pattern) 0 ++ [1] else []

theorem holds_aliasFiles :
    Holds (raid10Read pattern alloc) {period pattern} (fun _ => 1) (aliasFiles pattern) := by
  have hlt := aliasOf_lt h
  have hchunk := pattern.chunk_lt
  have hclamp : (Int64.ofNat (aliasOf pattern)).toNatClampNeg = aliasOf pattern :=
    Int64.toNatClampNeg_ofNat_of_lt (by omega)
  refine ⟨fun target => ?_, fun p hp => ?_, fun target x hx hne => ?_⟩
  · rw [Finset.filter_singleton, targetIndexAt_period, aliasFiles]
    by_cases htarget : target = 0
    · subst htarget
      simp [localOffsetAt_period, hclamp]
    · rw [if_neg htarget, if_neg (Ne.symm htarget), Finset.sup_empty]
      rfl
  · obtain rfl := Finset.mem_singleton.mp hp
    rw [targetIndexAt_period, localOffsetAt_period, hclamp, aliasFiles, if_pos rfl]
    simp
  · rw [aliasFiles] at hx ⊢
    split_ifs at hx with htarget
    · have hx' := hne _ (Finset.mem_singleton_self _) (by rw [targetIndexAt_period, htarget])
      rw [localOffsetAt_period, hclamp] at hx'
      simp only [List.length_append, List.length_replicate, List.length_singleton] at hx
      rw [if_pos htarget, List.getElem?_append_left (by rw [List.length_replicate]; omega),
        List.getElem?_replicate, if_pos (by omega)]
    · exact absurd hx (Nat.not_lt_zero _)

/-- The only piece of a read of one byte at this position. -/
def aliasState (pattern : StripePattern) (alloc : Bool → UInt64 → Bool) : FileState :=
  (raid10Read pattern alloc).fileState
    ((raid10Read pattern alloc).targetIndexAt (Int64.ofNat (aliasOf pattern)))
    ⟨Int64.ofNat (aliasOf pattern), ⟨0, 1⟩⟩

omit h in
theorem totalSize_aliasState : (aliasState pattern alloc).totalSize.toNat = 1 :=
  ((raid10Read pattern alloc).toNat_chunkIter_count _).trans
    (min_eq_left ((raid10Read pattern alloc).currentChunkSize_pos _).1)

theorem received_aliasState :
    (readAnswers (aliasFiles pattern)).received (aliasState pattern alloc) = [1] := by
  have hlt := aliasOf_lt h
  have hchunk := pattern.chunk_lt
  have hoffset : (aliasState pattern alloc).offset = _ := localOffsetAt_aliasOf alloc h
  have hindex : (aliasState pattern alloc).targetIndex = 0 := targetIndexAt_aliasOf alloc h
  change ((aliasFiles pattern (aliasState pattern alloc).targetIndex).drop
    (aliasState pattern alloc).offset.toNatClampNeg).take
      (aliasState pattern alloc).totalSize.toNat = [1]
  rw [totalSize_aliasState, hoffset, hindex, Int64.toNatClampNeg_ofNat_of_lt (by omega), aliasFiles,
    if_pos rfl, List.drop_append_of_le_length (by simp), List.drop_of_length_le (by simp)]
  rfl

theorem delivers_aliasState :
    FhgfsOpsRemoting.Delivers (readAnswers (aliasFiles pattern)) 0 (fun _ => 1)
      (aliasState pattern alloc) where
  nodeResult_eq := rfl
  length_le := by rw [received_aliasState alloc h, totalSize_aliasState]; rfl
  totalSize_lt := by rw [totalSize_aliasState]; norm_num
  byte := by simp [received_aliasState alloc h]

theorem read_aliasOf (halloc : ∀ pos, alloc true pos) (i_size : Int64) (buf : UserBuffer) :
    (FhgfsOps.read (readAnswers (aliasFiles pattern)) (raid10Read pattern alloc) i_size 1
      (Int64.ofNat (aliasOf pattern)) buf).2 0 = 1 := by
  have hrounds : ((raid10Read pattern alloc).rounds (Int64.ofNat (aliasOf pattern)) 1).flatMap
      Round.states = [aliasState pattern alloc] :=
    (raid10Read pattern alloc).rounds_of_le_chunk halloc one_pos
      ((raid10Read pattern alloc).currentChunkSize_pos _).1
  have hsegment : (readSegment (readAnswers (aliasFiles pattern))
      (aliasState pattern alloc)).done = 1 := by
    rw [(delivers_aliasState alloc h).done_eq, received_aliasState alloc h]
    rfl
  have hsize : (readSegment (readAnswers (aliasFiles pattern))
      (aliasState pattern alloc)).size = 1 := totalSize_aliasState alloc
  have hsegs : Segment.Consecutive 0 (((raid10Read pattern alloc).rounds
      (Int64.ofNat (aliasOf pattern)) 1).flatMap Round.states |>.map
        (readSegment (readAnswers (aliasFiles pattern)))) :=
    (raid10Read pattern alloc).rounds_consecutive halloc _ _ (fun _ => rfl) (fun _ => rfl)
  obtain ⟨hres, hbuf⟩ := readRounds_eq
    ((raid10Read pattern alloc).rounds_states_ne_nil halloc (Int64.ofNat (aliasOf pattern)) 1)
    (by rw [hrounds]; simpa using delivers_aliasState alloc h) hsegs
    (show (1 : UInt64).toInt64 = Int64.ofNat (0 + _) by rw [hrounds]; simp [hsize])
  simp only [hrounds, List.map_cons, List.map_nil, Segment.transferred, hsegment, hsize, if_true]
    at hres hbuf
  have hread : (readfileVec (readAnswers (aliasFiles pattern))
      (raid10Read pattern alloc) 0 (Int64.ofNat (aliasOf pattern)) 1 buf).1 = 1 := hres
  rw [FhgfsOps.read]
  simp only [hread]
  exact hbuf 0 (.inr ⟨0, rfl, one_pos⟩)

end Alias

/-- Reading returns the bytes of the file up to its size, with zeros in its holes, for all files,
offsets and lengths, exactly if the pattern is not a `Raid10` pattern with a stripe set of more than
4 GiB. -/
theorem FhgfsOps.read_exact_iff (type : StripePatternType) (pattern : StripePattern) :
    (∀ alloc : Bool → UInt64 → Bool, (∀ pos, alloc true pos) →
      ∀ (W : Finset ℕ) (content : ℕ → UInt8) (files : ChunkContents),
      fileSize W < 2 ^ 63 → Holds ⟨type, pattern, alloc, false⟩ W content files →
      ∀ (offset : ℕ) (length : UInt64), offset + length.toNat < 2 ^ 63 → ∀ buf : UserBuffer,
      (FhgfsOps.read (readAnswers files) ⟨type, pattern, alloc, false⟩ (Int64.ofNat (fileSize W))
        length (Int64.ofNat offset) buf).1 =
          .ok (Int64.ofNat (min length.toNat (fileSize W - offset))) ∧
      ∀ i < min length.toNat (fileSize W - offset),
        (FhgfsOps.read (readAnswers files) ⟨type, pattern, alloc, false⟩ (Int64.ofNat (fileSize W))
          length (Int64.ofNat offset) buf).2 i = fileByte W content (offset + i)) ↔
    (type = .raid10 → pattern.stripeTargetIDs.length * pattern.chunkSize.toNat ≤ 2 ^ 32) := by
  refine ⟨fun hexact htype => ?_, fun hagrees alloc halloc W content files hW h offset length hfin
    buf => ?_⟩
  · by_contra hlarge
    subst htype
    have h : 2 ^ 32 < pattern.layout.width * pattern.layout.chunk := not_le.mp hlarge
    have hperiod := period_le pattern
    have hlt := aliasOf_lt_period h
    have hsize : fileSize {period pattern} = period pattern + 1 :=
      Finset.sup_singleton
    have hbyte := (hexact (fun _ _ => true) (fun _ => rfl) {period pattern}
      (fun _ => 1) (aliasFiles pattern) (by omega) (holds_aliasFiles _ h) (aliasOf pattern) 1
      (show aliasOf pattern + 1 < 2 ^ 63 by omega) (fun _ => 0)).2 0
      (by rw [hsize]; exact lt_min one_pos (by omega))
    rw [read_aliasOf _ h (fun _ => rfl), fileByte, add_zero,
      if_neg (by simpa using hlt.ne)] at hbyte
    exact absurd hbyte (by decide)
  · have h : Stored ⟨type, pattern, alloc, false⟩ W content files := ⟨h, hagrees, hW, halloc⟩
    obtain ⟨buf', hread, hbuf⟩ := h.read_eq hfin buf
    rw [hread]
    exact ⟨rfl, hbuf⟩

open StripePatternType (largeChunks) in
/-- Three targets with chunks of 2 GiB. One byte is written at 2 GiB; a client with a `Raid10`
pattern reads it at 715827882, in a hole of the file. -/
theorem FhgfsOps.read_not_exact : ∃ files : ChunkContents,
    Holds (raid10Read largeChunks fun _ _ => true) {0x80000000} (fun _ => 1) files ∧
    (∀ buf, (FhgfsOps.read (readAnswers files) (raid10Read largeChunks fun _ _ => true) 0x80000001 1
      (Int64.ofNat 715827882) buf).2 0 = 1) ∧
    fileByte {0x80000000} (fun _ => 1) 715827882 = 0 := by
  have h : 2 ^ 32 < largeChunks.layout.width * largeChunks.layout.chunk := by decide
  have hperiod : period largeChunks = 0x80000000 := by decide
  have halias : aliasOf largeChunks = 715827882 := by rw [aliasOf, hperiod]; rfl
  have hholds := holds_aliasFiles (fun _ _ => true) h
  have hread := read_aliasOf (fun _ _ => true) h (fun _ => rfl) 0x80000001
  rw [halias] at hread
  refine ⟨aliasFiles largeChunks, hholds, fun buf => ?_, if_neg (by simp)⟩
  -- the two sides agree as they stand; comparing them by evaluation does not end
  with_reducible exact hread buf

end Congfs
