import Congfs.Lib.Striping
import Congfs.Lib.Word

/-!
# Where the bytes of a file are stored

The arithmetic of `StripePattern.h`, of the client's `FhgfsOpsRemoting.c` and of the metadata
server's `MsgHelperTrunc.cpp`, on the integer types of the source: file positions are signed 64-bit
words, sizes and indices (`size_t`) unsigned 64-bit words, and `unsigned` is 32 bits wide. All of
it depends on the chunk size being a power of two.
-/

namespace Congfs

open Word

namespace MathTk

/-- The position of the highest bit that is set, from the number of leading zeros. -/
def log2Int32 (value : UInt32) : UInt32 := 32 - 1 - UInt32.ofBitVec value.toBitVec.clz

def isPowerOfTwo (value : UInt32) : Bool := (value &&& (value - 1)) == 0

theorem log2Int32_eq (h : value.toNat = 2 ^ k) : log2Int32 value = UInt32.ofNat k := by
  have hclz : value.toBitVec.clz.toNat + k + 1 = 32 := toNat_clz h
  have hle : UInt32.ofBitVec value.toBitVec.clz ≤ 32 - 1 := by
    exact (show value.toBitVec.clz.toNat ≤ 31 by omega)
  apply UInt32.toNat_inj.mp
  rw [log2Int32, UInt32.toNat_sub_of_le _ _ hle, UInt32.toNat_ofBitVec,
    UInt32.toNat_ofNat_of_lt' (show k < UInt32.size by simp only [UInt32.size]; omega)]
  exact (show 31 - value.toBitVec.clz.toNat = k by omega)

theorem isPowerOfTwo_iff (h : 0 < value.toNat) : isPowerOfTwo value ↔ value.toNat.isPowerOfTwo := by
  have hsub : (value - 1).toNat = value.toNat - 1 :=
    UInt32.toNat_sub_of_le _ _ (UInt32.le_iff_toNat_le.mpr h)
  rw [isPowerOfTwo, beq_iff_eq, ← UInt32.toNat_inj, UInt32.toNat_and, hsub]
  exact Nat.and_sub_one_eq_zero_iff_isPowerOfTwo h.ne'

theorem shiftRight_log2Int32 (hpow : value.toNat.isPowerOfTwo) (h : n < 2 ^ 63) :
    Int64.ofNat n >>> int64 (log2Int32 value) = Int64.ofNat (n / value.toNat) := by
  obtain ⟨k, hk⟩ := hpow
  have hlt : k < 32 := (Nat.pow_lt_pow_iff_right (by norm_num)).mp (hk ▸ value.toNat_lt)
  rw [log2Int32_eq hk, int64_eq, UInt32.toNat_ofNat_of_lt' (hlt.trans (by decide)),
    ofNat_shiftRight h (by omega), hk]

end MathTk

/-- What all patterns have in common. The servers and the tools accept no chunk size that is not a
power of two, and the number of targets is stored, sent and counted as an `unsigned`. -/
structure StripePattern where
  chunkSize : UInt32
  stripeTargetIDs : List UInt16
  chunkSize_pow : chunkSize.toNat.isPowerOfTwo
  targets_pos : 0 < stripeTargetIDs.length
  targets_lt : stripeTargetIDs.length < 2 ^ 32

namespace StripePattern
variable (pattern : StripePattern)

def getChunkSize : UInt32 := pattern.chunkSize

def getNumStripeTargetIDs : UInt64 := UInt64.ofNat pattern.stripeTargetIDs.length

variable (pos : Int64)

def getChunkStart : Int64 :=
  let posModChunkSize := uint32 (pos &&& int64 (pattern.chunkSize - 1))
  pos - int64 posModChunkSize

def getNextChunkStart : Int64 :=
  pattern.getChunkStart pos + int64 pattern.chunkSize

def getChunkEnd : Int64 := pattern.getNextChunkStart pos - 1

/-- The quotient is signed; the remainder is taken of it as a `size_t`. -/
def getStripeTargetIndex : UInt64 :=
  (pos / int64 pattern.getChunkSize).toUInt64 % pattern.getNumStripeTargetIDs

end StripePattern

namespace FhgfsOpsRemoting

/-- The position in the chunk file of target `stripeNodeIndex`, as the client computes it. The
division of the slow path (`do_div`) is one of unsigned 64-bit words. -/
def getChunkOffset (pos : Int64) (chunkSize : UInt32) (numNodes stripeNodeIndex : UInt64) : Int64 :=
  let posModChunkSize := pos &&& int64 (chunkSize - 1)
  let stripeSetStart :=
    ((pos - posModChunkSize).toUInt64 - stripeNodeIndex * chunkSize.toUInt64).toInt64
  let stripeSetStartDivNumNodes :=
    if MathTk.isPowerOfTwo numNodes.toUInt32 then
      stripeSetStart >>> int64 (MathTk.log2Int32 numNodes.toUInt32)
    else
      (stripeSetStart.toUInt64 / numNodes.toUInt32.toUInt64).toInt64
  stripeSetStartDivNumNodes + posModChunkSize

/-- The calls of `getChunkOffset` for reading and writing at `currentOffset`, with the index of the
servers, from which that of the client may differ. -/
def currentNodeLocalOffset (pattern : StripePattern) (currentOffset : Int64) : Int64 :=
  let numStripeTargets := pattern.getNumStripeTargetIDs.toUInt32
  let currentTargetIndex := (pattern.getStripeTargetIndex currentOffset).toUInt32
  getChunkOffset currentOffset pattern.getChunkSize numStripeTargets.toUInt64
    currentTargetIndex.toUInt64

end FhgfsOpsRemoting

namespace MsgHelperTrunc

/-- The same position, as the metadata server computes it. -/
def getNodeLocalOffset (pos chunkSize : Int64) (numNodes stripeNodeIndex : UInt64) : Int64 :=
  let posModChunkSize := pos &&& (chunkSize - 1)
  let chunkStart :=
    ((pos - posModChunkSize).toUInt64 - stripeNodeIndex * chunkSize.toUInt64).toInt64
  (chunkStart.toUInt64 / numNodes + posModChunkSize.toUInt64).toInt64

/-- The length to which the chunk file of target `stripeNodeIndex` is cut when the file is
truncated to `pos`. -/
def getNodeLocalTruncPos (pos : Int64) (pattern : StripePattern) (stripeNodeIndex : UInt64) :
    Int64 :=
  let numTargets := pattern.getNumStripeTargetIDs
  let mainNodeIndex := pattern.getStripeTargetIndex pos
  let mainNodeLocalOffset :=
    getNodeLocalOffset pos (int64 pattern.getChunkSize) numTargets mainNodeIndex
  let truncPos :=
    if stripeNodeIndex < mainNodeIndex then pattern.getNextChunkStart mainNodeLocalOffset
    else if stripeNodeIndex = mainNodeIndex then mainNodeLocalOffset
    else pattern.getChunkStart mainNodeLocalOffset
  if truncPos < 0 then 0 else truncPos

end MsgHelperTrunc
end Congfs
