import Congfs.Striping.Placement
import Congfs.Striping.StatData
import Mathlib.Data.List.GetD

/-!
# The size of a striped file

The size that `updateDynamicFileAttribs` computes is the one recovered from the layout at the last
target with the most chunks. It is the end of the file for chunk files as the client writes them,
with holes or without, and for chunk files as the metadata server truncates them.
-/

namespace Congfs

open Word

namespace StripePattern
variable (pattern : StripePattern) {s : ℕ} {attribs : DynamicFileAttribs}

theorem getNumChunks_ofNat (h : s < 2 ^ 63) (hs : attribs.fileSize = Int64.ofNat s) :
    (ChunkFileInfo.ofDynAttribs pattern.getChunkSize (MathTk.log2Int32 pattern.getChunkSize)
      attribs).getNumChunks = Int64.ofNat (pattern.layout.chunks s) := by
  have hzero : Int64.ofNat (s % pattern.layout.chunk) = 0 ↔ s % pattern.layout.chunk = 0 :=
    ofNat_eq_zero_iff ((Nat.mod_le _ _).trans_lt h)
  have hdiv : Int64.ofNat s >>> int64 (MathTk.log2Int32 pattern.chunkSize) =
      Int64.ofNat (s / pattern.layout.chunk) :=
    MathTk.shiftRight_log2Int32 pattern.chunkSize_pow h
  simp only [ChunkFileInfo.getNumChunks, ChunkFileInfo.ofDynAttribs, getChunkSize, hs,
    pattern.and_mask, hdiv, ne_eq, hzero, ite_not, Layout.chunks, Int64.ofNat_add]
  split <;> rfl

end StripePattern

namespace StatData

/-- The walk has found the last of the first `t` targets with the most chunks, where `f` gives
the number of chunks of each target. -/
def Walk.Found (f : ℕ → ℕ) (t : ℕ) (w : Walk) : Prop :=
  ∃ k, w.lastMaxNumChunksIndex = UInt32.ofNat k ∧ w.maxNumChunks = Int64.ofNat (f k) ∧
    IsLastMax f t k

variable {f : ℕ → ℕ} {t : ℕ} {w : Walk} {numStripeTargets : UInt64}

theorem startWalk_found (h : first.getNumChunks = Int64.ofNat (f 0)) :
    (startWalk stat first numValid numStripeTargets).Found f 1 :=
  ⟨0, rfl, h, .one f⟩

theorem walkTarget_found (hf : ∀ i ≤ t, f i < 2 ^ 63) (h : info.getNumChunks = Int64.ofNat (f t))
    (hw : w.Found f t) :
    (walkTarget numStripeTargets (UInt32.ofNat t) info w).Found f (t + 1) := by
  obtain ⟨k, hindex, hmax, hk⟩ := hw
  have hle : w.maxNumChunks ≤ info.getNumChunks ↔ f k ≤ f t := by
    rw [hmax, h, Int64.ofNat_le_iff_le (hf k hk.lt.le) (hf t le_rfl)]
  by_cases hkt : f k ≤ f t
  · exact ⟨t, if_pos (hle.mpr hkt), (if_pos (hle.mpr hkt)).trans h, hk.succ_of_le hkt⟩
  · have hnot := mt hle.mp hkt
    exact ⟨k, (if_neg hnot).trans hindex, (if_neg hnot).trans hmax,
      hk.succ_of_lt (Nat.lt_of_not_le hkt)⟩

theorem walkTargets_found (hf : ∀ i < t + infos.length, f i < 2 ^ 63)
    (h : ∀ j (hj : j < infos.length), infos[j].getNumChunks = Int64.ofNat (f (t + j)))
    (hw : w.Found f t) :
    (walkTargets numStripeTargets (UInt32.ofNat t) infos w).Found f (t + infos.length) := by
  induction infos generalizing t w with
  | nil => exact hw
  | cons info rest ih =>
    rw [List.length_cons] at hf ⊢
    have hstep : (walkTarget numStripeTargets (UInt32.ofNat t) info w).Found f (t + 1) :=
      walkTarget_found (fun i hi => hf i (by omega)) (h 0 (Nat.succ_pos _)) hw
    have hrest := ih (fun i hi => hf i (by omega)) (fun j hj => ?_) hstep
    · rw [UInt32.ofNat_add] at hrest
      rw [show t + (rest.length + 1) = t + 1 + rest.length by omega]
      exact hrest
    · have hnext := h (j + 1) (Nat.succ_lt_succ hj)
      rw [List.getElem_cons_succ, show t + (j + 1) = t + 1 + j by omega] at hnext
      exact hnext

theorem totalLength_ofNat (pattern : StripePattern) (hk : k < pattern.layout.width) (hm : 0 < m)
    (s : ℕ) :
    totalLength (UInt64.ofNat pattern.layout.width) pattern.chunkSize (UInt32.ofNat k)
      (Int64.ofNat m) (Int64.ofNat s) =
    Int64.ofNat (k * m * pattern.layout.chunk +
      (pattern.layout.width - k - 1) * (m - 1) * pattern.layout.chunk + s) := by
  have hk32 : k < UInt32.size := hk.trans pattern.width_lt
  have hone : (1 : Int64) = Int64.ofNat 1 := rfl
  have hone' : (1 : UInt64) = UInt64.ofNat 1 := rfl
  rw [totalLength, pattern.int64_chunkSize, int64_eq, UInt32.toNat_ofNat_of_lt' hk32,
    UInt32.toUInt64_ofNat' hk32, pattern.toUInt64_chunkSize, hone, hone',
    ← Int64.ofNat_sub _ _ hm, Int64.toUInt64_ofNat', ← UInt64.ofNat_sub hk.le,
    ← UInt64.ofNat_sub (Nat.sub_pos_of_lt hk)]
  simp only [← UInt64.ofNat_mul, UInt64.toInt64_ofNat', ← Int64.ofNat_mul, ← Int64.ofNat_add]

theorem getFileSize_of_valid (hvalid : numValidDynAttribs (first :: rest) ≠ 0) (stat : StatData)
    (pattern : StripePattern) (now : Int64) :
    (stat.updateDynamicFileAttribs (first :: rest) pattern now).getFileSize =
      let w := stat.walk first rest pattern.getNumStripeTargetIDs
      if w.maxNumChunks ≠ 0 then
        totalLength (UInt64.ofNat (first :: rest).length) pattern.chunkSize
          w.lastMaxNumChunksIndex w.maxNumChunks
          ((first :: rest).getD w.lastMaxNumChunksIndex.toNat first).getFileSize
      else 0 := by
  simp only [updateDynamicFileAttribs, if_neg hvalid]
  rfl

theorem walk_found (hf : ∀ i < (first :: rest).length, f i < 2 ^ 63)
    (h : ∀ i (hi : i < (first :: rest).length), (first :: rest)[i].getNumChunks = Int64.ofNat (f i))
    (stat : StatData) (numStripeTargets : UInt64) :
    (stat.walk first rest numStripeTargets).Found f (first :: rest).length := by
  rw [List.length_cons, add_comm] at hf ⊢
  refine walkTargets_found hf (fun j hj => ?_) (startWalk_found (h 0 (Nat.succ_pos _)))
  rw [add_comm 1 j]
  exact h (j + 1) (Nat.succ_lt_succ hj)

/-- The size computed from valid reports is the one recovered from the sizes of the chunk files
at the last target with the most chunks. -/
theorem exists_getFileSize_eq_recover (pattern : StripePattern)
    (hlen : infos.length = pattern.layout.width) (hvalid : numValidDynAttribs infos ≠ 0)
    (hf : ∀ i < pattern.layout.width, f i < 2 ^ 63)
    (hsize : ∀ i (hi : i < infos.length), infos[i].getFileSize = Int64.ofNat (f i) ∧
    infos[i].getNumChunks = Int64.ofNat (pattern.layout.chunks (f i)))
    (stat : StatData) (now : Int64) :
    ∃ k, IsLastMax (fun i => pattern.layout.chunks (f i)) pattern.layout.width k ∧
      (stat.updateDynamicFileAttribs infos pattern now).getFileSize =
        Int64.ofNat (pattern.layout.recover f k) := by
  cases infos with
  | nil => exact absurd pattern.layout.width_pos (hlen ▸ lt_irrefl 0)
  | cons first rest =>
    rw [← hlen] at hf
    have hchunks : ∀ i < (first :: rest).length, pattern.layout.chunks (f i) < 2 ^ 63 :=
      fun i hi => (pattern.layout.chunks_le _).trans_lt (hf i hi)
    obtain ⟨k, hindex, hmax, hk⟩ :=
      walk_found hchunks (fun i hi => (hsize i hi).2) stat pattern.getNumStripeTargetIDs
    refine ⟨k, hlen ▸ hk, ?_⟩
    have hkwidth : k < pattern.layout.width := hlen ▸ hk.lt
    have hindex' : (UInt32.ofNat k).toNat = k :=
      UInt32.toNat_ofNat_of_lt' (hkwidth.trans pattern.width_lt)
    have hzero : Int64.ofNat (pattern.layout.chunks (f k)) = 0 ↔
        pattern.layout.chunks (f k) = 0 := ofNat_eq_zero_iff (hchunks k hk.lt)
    simp only [getFileSize_of_valid hvalid, hindex, hmax, hindex', hlen,
      List.getD_eq_getElem _ _ hk.lt, (hsize k hk.lt).1, ne_eq, hzero, Layout.recover]
    by_cases hnone : pattern.layout.chunks (f k) = 0
    · rw [if_neg (not_not_intro hnone), if_pos hnone]
      rfl
    · rw [if_pos hnone, if_neg hnone]
      exact totalLength_ofNat pattern hkwidth (pos_of_ne_zero hnone) (f k)

variable {attribs : List DynamicFileAttribs} (pattern : StripePattern)
  (hlen : attribs.length = pattern.layout.width) (hversion : ∀ a ∈ attribs, a.storageVersion ≠ 0)
include hlen hversion

theorem numValidDynAttribs_fileInfoVec : numValidDynAttribs (pattern.fileInfoVec attribs) ≠ 0 := by
  have hcount : (pattern.fileInfoVec attribs).countP (·.getStorageVersion ≠ 0) =
      pattern.layout.width := by
    rw [← hlen, StripePattern.fileInfoVec, List.countP_map]
    exact List.countP_eq_length.mpr fun a ha => decide_eq_true (hversion a ha)
  rw [numValidDynAttribs, hcount, ne_eq, ← UInt32.toNat_inj,
    UInt32.toNat_ofNat_of_lt' pattern.width_lt]
  exact pattern.layout.width_pos.ne'

/-- The size comes out as `size` if no chunk file is longer than its share and that of the last
byte is as long. -/
theorem getFileSize_eq_of_le_share
    (hS : size < 2 ^ 63) (hle : ∀ i < pattern.layout.width, f i ≤ pattern.layout.share size i)
    (heq : ∀ p, size = p + 1 → f (pattern.layout.column p) = pattern.layout.share size
    (pattern.layout.column p))
    (hsize : ∀ i (hi : i < attribs.length), attribs[i].fileSize = Int64.ofNat (f i))
    (stat : StatData) (now : Int64) :
    (stat.updateDynamicFileAttribs (pattern.fileInfoVec attribs) pattern now).getFileSize =
      Int64.ofNat size := by
  have hlen' : (pattern.fileInfoVec attribs).length = pattern.layout.width :=
    (List.length_map _).trans hlen
  have hf : ∀ i < pattern.layout.width, f i < 2 ^ 63 := fun i hi =>
    ((hle i hi).trans (pattern.layout.share_le hi size)).trans_lt hS
  have hinfo : ∀ i (hi : i < (pattern.fileInfoVec attribs).length),
      (pattern.fileInfoVec attribs)[i].getFileSize = Int64.ofNat (f i) ∧
      (pattern.fileInfoVec attribs)[i].getNumChunks =
        Int64.ofNat (pattern.layout.chunks (f i)) := by
    intro i hi
    have hi' : i < attribs.length := hlen.symm ▸ hlen' ▸ hi
    simp only [StripePattern.fileInfoVec, List.getElem_map]
    exact ⟨hsize i hi', pattern.getNumChunks_ofNat (hf i (hlen ▸ hi')) (hsize i hi')⟩
  obtain ⟨k, hk, hsize'⟩ := exists_getFileSize_eq_recover pattern hlen'
    (numValidDynAttribs_fileInfoVec pattern hlen hversion) hf hinfo stat now
  rw [hsize', pattern.layout.recover_eq hle heq hk]

end StatData
end Congfs
