import Congfs.Striping.Placement

/-!
# The client's stripe patterns

The kernel client has an implementation of its own for every pattern type. For `Raid0` and
`BuddyMirror` it divides as the servers do. For `Raid10` it keeps the size of a stripe set in an
`unsigned` and reduces the position modulo that; when the stripe set is larger than 4 GiB the
field holds something smaller, and client and servers disagree.
-/

namespace Congfs

open Word

/-- The pattern types that a client can be sent. -/
inductive StripePatternType
  | raid0
  | raid10
  | buddyMirror
  deriving DecidableEq, Repr

/-- `do_div(n, base)`: the remainder that it returns. -/
def doDivRem (n : Int64) (base : UInt32) : UInt32 := (n.toUInt64 % base.toUInt64).toUInt32

namespace Raid0Pattern

def getStripeTargetIndex (pattern : StripePattern) (pos : Int64) : UInt64 :=
  (pos / int64 pattern.chunkSize).toUInt64 % UInt64.ofNat pattern.stripeTargetIDs.length

end Raid0Pattern

namespace BuddyMirrorPattern

def getStripeTargetIndex (pattern : StripePattern) (pos : Int64) : UInt64 :=
  (pos / int64 pattern.chunkSize).toUInt64 % UInt64.ofNat pattern.stripeTargetIDs.length

end BuddyMirrorPattern

namespace Raid10Pattern

/-- The field that `deserializePattern` computes: the product of the number of targets and the
chunk size, cut to 32 bits. -/
def stripeSetSize (pattern : StripePattern) : UInt32 :=
  (UInt64.ofNat pattern.stripeTargetIDs.length * pattern.chunkSize.toUInt64).toUInt32

def getStripeTargetIndex (pattern : StripePattern) (pos : Int64) : UInt64 :=
  let stripeSetInnerOffset :=
    if MathTk.isPowerOfTwo (stripeSetSize pattern) then pos &&& int64 (stripeSetSize pattern - 1)
    else int64 (doDivRem pos (stripeSetSize pattern))
  (stripeSetInnerOffset >>> int64 (MathTk.log2Int32 pattern.chunkSize)).toUInt64

end Raid10Pattern

/-- The virtual method of the client's pattern. -/
def StripePatternType.getStripeTargetIndex : StripePatternType → StripePattern → Int64 → UInt64
  | .raid0 => Raid0Pattern.getStripeTargetIndex
  | .raid10 => Raid10Pattern.getStripeTargetIndex
  | .buddyMirror => BuddyMirrorPattern.getStripeTargetIndex

namespace Raid10Pattern
variable (pattern : StripePattern) {p : ℕ}

theorem toNat_stripeSetSize : (stripeSetSize pattern).toNat =
    pattern.layout.width * pattern.layout.chunk % 2 ^ 32 := by
  rw [stripeSetSize, pattern.toUInt64_chunkSize, ← UInt64.ofNat_mul, UInt64.toUInt32_ofNat',
    UInt32.toNat_ofNat']
  rfl

/-- The number of bytes after which the client starts again with the first target. A product that
is cut to zero counts as a power of two, and its mask keeps 32 bits. -/
def period : ℕ :=
  if (stripeSetSize pattern).toNat = 0 then 2 ^ 32 else (stripeSetSize pattern).toNat

theorem period_pos : 0 < period pattern := by
  rw [period]
  split <;> omega

theorem period_le : period pattern ≤ 2 ^ 32 := by
  have hlt := (stripeSetSize pattern).toNat_lt
  rw [period]
  split <;> omega

theorem chunk_dvd_period : pattern.layout.chunk ∣ period pattern := by
  obtain ⟨k, hlt, hchunk⟩ := pattern.exists_chunk_eq
  have hdvd : pattern.layout.chunk ∣ 2 ^ 32 := hchunk ▸ pow_dvd_pow 2 hlt.le
  rw [period, toNat_stripeSetSize]
  split
  · exact hdvd
  · exact (Nat.dvd_mod_iff hdvd).mpr (Nat.dvd_mul_left _ _)

theorem period_eq_iff : period pattern = pattern.layout.width * pattern.layout.chunk ↔
    pattern.layout.width * pattern.layout.chunk ≤ 2 ^ 32 := by
  have hpos := mul_pos pattern.layout.width_pos pattern.layout.chunk_pos
  rw [period, toNat_stripeSetSize]
  split <;> omega

theorem innerOffset_ofNat (hp : p < 2 ^ 63) : (if MathTk.isPowerOfTwo (stripeSetSize pattern) then
      Int64.ofNat p &&& int64 (stripeSetSize pattern - 1)
    else int64 (doDivRem (Int64.ofNat p) (stripeSetSize pattern))) =
      Int64.ofNat (p % period pattern) := by
  have hlt := (stripeSetSize pattern).toNat_lt
  rcases eq_zero_or_pos (stripeSetSize pattern).toNat with hzero | hpos
  · have hset : stripeSetSize pattern = 0 := UInt32.toNat_inj.mp hzero
    have hmask : int64 (0 - 1) = Int64.ofNat (2 ^ 32 - 1) := by decide
    rw [period, if_pos hzero, hset, if_pos (by decide), hmask, ofNat_and_mask (by norm_num)]
  · rw [period, if_neg hpos.ne']
    split_ifs with hpow
    · obtain ⟨k, hk⟩ := (MathTk.isPowerOfTwo_iff hpos).mp hpow
      have hk32 : k < 32 := (Nat.pow_lt_pow_iff_right (by norm_num)).mp (hk ▸ hlt)
      have hsub : (stripeSetSize pattern - 1).toNat = (stripeSetSize pattern).toNat - 1 :=
        UInt32.toNat_sub_of_le _ _ (UInt32.le_iff_toNat_le.mpr hpos)
      rw [int64_eq, hsub, hk, ofNat_and_mask (by omega)]
    · have hmod : p % (stripeSetSize pattern).toNat < 2 ^ 32 := (Nat.mod_lt _ hpos).trans hlt
      rw [doDivRem, int64_eq, Int64.toUInt64_ofNat', UInt64.toNat_toUInt32, UInt64.toNat_mod,
        UInt32.toNat_toUInt64, UInt64.toNat_ofNat_of_lt' (hp.trans (by decide)),
        Nat.mod_eq_of_lt hmod]

/-- The client stripes over as many targets as fit into the period. -/
theorem getStripeTargetIndex_ofNat (hp : p < 2 ^ 63) :
    getStripeTargetIndex pattern (Int64.ofNat p) =
      UInt64.ofNat (p / pattern.layout.chunk % (period pattern / pattern.layout.chunk)) := by
  have hmod : p % period pattern < 2 ^ 63 := (Nat.mod_le _ _).trans_lt hp
  have hperiod : period pattern / pattern.layout.chunk * pattern.layout.chunk = period pattern :=
    Nat.div_mul_cancel (chunk_dvd_period pattern)
  rw [getStripeTargetIndex, innerOffset_ofNat pattern hp,
    MathTk.shiftRight_log2Int32 pattern.chunkSize_pow hmod, Int64.toUInt64_ofNat',
    ← Nat.mod_mul_left_div_self, hperiod]
  rfl

/-- With a larger stripe set the client is back at the first target too early. -/
theorem getStripeTargetIndex_ne (h : 2 ^ 32 < pattern.layout.width * pattern.layout.chunk) :
    getStripeTargetIndex pattern (Int64.ofNat (period pattern)) ≠
      pattern.getStripeTargetIndex (Int64.ofNat (period pattern)) := by
  have hle := period_le pattern
  have hp : period pattern < 2 ^ 63 := by omega
  have hchunk := pattern.layout.chunk_pos
  have hcols : 0 < period pattern / pattern.layout.chunk :=
    Nat.div_pos (Nat.le_of_dvd (period_pos pattern) (chunk_dvd_period pattern)) hchunk
  have hfewer : period pattern / pattern.layout.chunk < pattern.layout.width :=
    (Nat.div_lt_iff_lt_mul hchunk).mpr (hle.trans_lt h)
  rw [getStripeTargetIndex_ofNat pattern hp, pattern.getStripeTargetIndex_ofNat hp, Nat.mod_self,
    Layout.column, Nat.mod_eq_of_lt hfewer, ← UInt64.toNat_inj.ne,
    UInt64.toNat_ofNat_of_lt' (hfewer.trans pattern.width_lt |>.trans (by decide))]
  exact hcols.ne

end Raid10Pattern

namespace StripePatternType
variable (pattern : StripePattern)

theorem getStripeTargetIndex_eq {type : StripePatternType}
    (h : type = raid10 → pattern.layout.width * pattern.layout.chunk ≤ 2 ^ 32) (hp : p < 2 ^ 63) :
    type.getStripeTargetIndex pattern (Int64.ofNat p) =
      pattern.getStripeTargetIndex (Int64.ofNat p) := by
  cases type with
  | raid0 | buddyMirror => rfl
  | raid10 =>
    have hperiod := (Raid10Pattern.period_eq_iff pattern).mpr (h rfl)
    rw [getStripeTargetIndex, Raid10Pattern.getStripeTargetIndex_ofNat pattern hp,
      pattern.getStripeTargetIndex_ofNat hp, hperiod,
      Nat.mul_div_cancel _ pattern.layout.chunk_pos, Layout.column]

/-- Client and servers agree on the placement of every position, exactly if the pattern is not
a `Raid10` pattern with a stripe set of more than 4 GiB. -/
theorem getStripeTargetIndex_agrees_iff (type : StripePatternType) : (∀ pos < 2 ^ 63,
      type.getStripeTargetIndex pattern (Int64.ofNat pos) =
        pattern.getStripeTargetIndex (Int64.ofNat pos) ∧
      (pattern.getStripeTargetIndex (Int64.ofNat pos)).toNat =
        pos / pattern.chunkSize.toNat % pattern.stripeTargetIDs.length ∧
      (type.getStripeTargetIndex pattern (Int64.ofNat pos)).toNat <
        pattern.stripeTargetIDs.length) ↔
    (type = raid10 → pattern.stripeTargetIDs.length * pattern.chunkSize.toNat ≤ 2 ^ 32) := by
  refine ⟨fun hagree htype => ?_, fun h pos hpos => ?_⟩
  · by_contra hlarge
    subst htype
    have hperiod := Raid10Pattern.period_le pattern
    exact Raid10Pattern.getStripeTargetIndex_ne pattern (not_le.mp hlarge) (hagree _ (by omega)).1
  · have hcolumn : (pattern.getStripeTargetIndex (Int64.ofNat pos)).toNat =
        pattern.layout.column pos := by
      rw [pattern.getStripeTargetIndex_ofNat hpos, UInt64.toNat_ofNat_of_lt'
        ((pattern.layout.column_lt pos).trans (pattern.width_lt.trans (by decide)))]
    have heq := getStripeTargetIndex_eq pattern h hpos
    refine ⟨heq, hcolumn, ?_⟩
    rw [heq, hcolumn]
    exact pattern.layout.column_lt pos

/-- Three targets with chunks of 2 GiB. -/
def largeChunks : StripePattern where
  chunkSize := 0x80000000
  stripeTargetIDs := [4, 5, 6]
  chunkSize_pow := ⟨31, rfl⟩
  targets_pos := by decide
  targets_lt := by decide

/-- The second chunk is on the second target; a client with a `Raid10` pattern looks for it on the
first. -/
theorem getStripeTargetIndex_disagrees : raid10.getStripeTargetIndex largeChunks 0x80000000 = 0 ∧
      largeChunks.getStripeTargetIndex 0x80000000 = 1 := by
  decide

end StripePatternType
end Congfs
