import Congfs.Nodes.TargetChoice

/-!
# When enough targets are chosen, and not too many

The emergency pool is asked for as many targets as the caller wants, also if some were found in the
other pools. With preferred targets, the pools of targets go on behind the first two passes unless a
single target is enough, because of an operator that binds more tightly than it looks; the passes
that follow want as many targets as at the start, or do not stop before the pool is used up. What
comes out is settled by the sizes of the pools and the numbers of preferred targets in them
(`EnoughWithoutPref`, `EnoughWithPref`).
-/

namespace Congfs

open TargetChooser TargetCapacityPools

/-- As many different targets from the pools as a caller expects. -/
structure WellChosen (pools : CapacityPoolType → UInt16Set) (numTargets : UInt32) (minimum : ℕ)
    (outTargets : List UInt16) : Prop extends FromPools pools outTargets where
  atMost : outTargets.length ≤ numTargets.toNat
  atLeast : minimum ≤ outTargets.length

def numTargetsInPools (pools : CapacityPoolType → UInt16Set) : ℕ :=
  poolSize pools .normal + poolSize pools .low + poolSize pools .emergency

namespace TargetChooser

/-- The numbers of targets that were taken from the pools. -/
structure Tallied (pools : CapacityPoolType → UInt16Set) (outTargets : List UInt16)
    (taken : CapacityPoolType → ℕ) : Prop extends FromPools pools outTargets where
  numTaken : ∀ poolType, numTaken pools outTargets poolType = taken poolType
  length : outTargets.length = taken .normal + taken .low + taken .emergency

def addTaken (taken : CapacityPoolType → ℕ) (poolType : CapacityPoolType) (k : ℕ)
    (poolType' : CapacityPoolType) : ℕ :=
  taken poolType' + if poolType' = poolType then k else 0

variable {pools : CapacityPoolType → UInt16Set} {type : CapacityPoolType} {out new : List UInt16}
  {taken : CapacityPoolType → ℕ} {num : ℕ} {sel : Selection}

theorem Tallied.nil : Tallied pools [] fun _ => 0 where
  nodup := List.nodup_nil
  mem _ hmem := by cases hmem
  numTaken type := by
    rw [Congfs.numTaken, List.filter_eq_nil_iff.mpr fun t _ => by simp]
    rfl
  length := rfl

section
variable (h : Tallied pools out taken)
include h

theorem Tallied.length_add (h' : Tallied pools out' (addTaken taken type k)) :
    out'.length = out.length + k := by
  rw [h.length, h'.length]
  cases type <;> simp [addTaken] <;> omega

theorem Tallied.append (hadds : Adds (pools type) out new)
    (hdisj : PoolsDisjoint pools) :
    Tallied pools (out ++ new) (addTaken taken type new.length) where
  toFromPools := hadds.fromPools h.toFromPools
  numTaken type' := by
    rw [hadds.numTaken hdisj, h.numTaken]
    rfl
  length := by
    rw [List.length_append, h.length]
    cases type <;> simp [addTaken] <;> omega

theorem Tallied.wellChosen_iff :
    WellChosen pools n minimum out ↔ out.length ≤ n.toNat ∧ minimum ≤ out.length :=
  ⟨fun h => ⟨h.atMost, h.atLeast⟩, fun hlen => ⟨h.toFromPools, hlen.1, hlen.2⟩⟩

end

theorem noPref_tallied (hdisj : PoolsDisjoint pools) (hnum : 0 < num)
    (h : Tallied pools out taken) (htaken : taken type = 0) :
    Gives (fun _ => chooseStorageNodesNoPref (pools type) num out) random
      fun out => Tallied pools out
        (addTaken taken type (min num (poolSize pools type))) := by
  refine (chooseStorageNodesNoPref_gives hnum).mono ?_
  rintro out' ⟨new, rfl, hlen, hnodup, hmem⟩
  refine hlen ▸ h.append ⟨hnodup, hmem, fun t hnew hout => ?_⟩ hdisj
  have hfresh := freshTargets_of_numTaken ((h.numTaken type).trans htaken)
  have hin : t ∈ freshTargets (pools type) out := hfresh ▸ hmem t hnew
  exact (mem_freshTargets.mp hin).2 hout

/-- The set and the vector agree. -/
structure Selected (pools : CapacityPoolType → UInt16Set) (selection : Selection)
    (taken : CapacityPoolType → ℕ) : Prop extends Tallied pools selection.outTargets taken where
  matching : selection.Matches

theorem Selected.nil : Selected pools ⟨[], ∅⟩ fun _ => 0 :=
  ⟨.nil, fun _ => .rfl⟩

theorem Selected.picks (h : Selected pools sel taken)
    (hpicks : Picks (pools type) sel new sel') (hdisj : PoolsDisjoint pools) :
    Selected pools sel' (addTaken taken type new.length) := by
  refine ⟨?_, hpicks.matching⟩
  rw [hpicks.outTargets]
  exact h.append hpicks.toAdds hdisj

end TargetChooser

/-! ## Without preferred targets -/

section
variable (pools : CapacityPoolType → UInt16Set) (numTargets minNumRequiredTargets : UInt32)

/-- The emergency pool is not needed, or has not too many targets. -/
def EnoughWithoutPref : Prop :=
  minNumRequiredTargets.toNat ≤ poolSize pools .normal + poolSize pools .low ∨
    poolSize pools .normal + poolSize pools .low + min numTargets.toNat
      (poolSize pools .emergency) ≤ numTargets.toNat

instance enoughWithoutPrefDecidable :
    Decidable (EnoughWithoutPref pools numTargets minNumRequiredTargets) :=
  inferInstanceAs (Decidable (_ ∨ _))

end

section
variable {pools : CapacityPoolType → UInt16Set} {num minNum : UInt32}

theorem toNat_sub_ofNat (h : size ≤ num.toNat) :
    (num - UInt32.ofNat size).toNat = num.toNat - size := by
  have hsize : (UInt32.ofNat size).toNat = size :=
    UInt32.toNat_ofNat_of_lt' (Nat.lt_of_le_of_lt h num.toNat_lt)
  rw [UInt32.toNat_sub_of_le _ _ (by rw [UInt32.le_iff_toNat_le, hsize]; exact h), hsize]

theorem tryPool_iff {type : CapacityPoolType} {taken : CapacityPoolType → ℕ}
    (hdisj : PoolsDisjoint pools) (hmin : minNum.toNat ≤ num.toNat)
    (h : Tallied pools out taken) (htaken : taken type = 0)
    (hsize : out.length < minNum.toNat)
    (henough : ∀ out', Tallied pools out' (addTaken taken type
        (min (num.toNat - out.length) (poolSize pools type))) →
      minNum.toNat ≤ out'.length → (P out' ↔ c))
    (hnext : ∀ out' random, Tallied pools out' (addTaken taken type (poolSize pools type)) →
      out'.length = out.length + poolSize pools type →
      out'.length < minNum.toNat → (Gives (fun _ => next out') random P ↔ c)) :
    Gives (fun _ => chooseStorageTargetsNoPref.tryPool pools num minNum type out
      next) random P ↔ c := by
  by_cases hempty : (pools type).toList = []
  · have hzero : poolSize pools type = 0 := List.length_eq_zero_iff.mpr hempty
    have hsame : addTaken taken type 0 = taken := by
      funext type'
      simp [addTaken]
    rw [hzero, hsame] at hnext
    simp only [chooseStorageTargetsNoPref.tryPool, if_pos hempty]
    exact hnext out random h rfl hsize
  · simp only [chooseStorageTargetsNoPref.tryPool, if_neg hempty]
    rw [toNat_sub_ofNat (by omega)]
    refine (noPref_tallied hdisj (by omega) h htaken).bind_iff fun out' random h' => ?_
    have hlen := h.length_add h'
    by_cases hlast : minNum.toNat ≤ out'.length
    · simp only [if_pos hlast, gives_pure]
      exact henough out' h' hlast
    · have hall : min (num.toNat - out.length) (poolSize pools type) =
          poolSize pools type := by omega
      rw [hall] at h' hlen
      simp only [if_neg hlast]
      exact hnext out' random h' hlen (by omega)

theorem chooseStorageTargetsNoPref_iff (hdisj : PoolsDisjoint pools) (hpos : 1 ≤ minNum.toNat)
    (hmin : minNum.toNat ≤ num.toNat) :
    Gives (fun _ => chooseStorageTargetsNoPref pools num minNum) random
        (WellChosen pools num (min minNum.toNat (numTargetsInPools pools))) ↔
      EnoughWithoutPref pools num minNum := by
  rw [EnoughWithoutPref, numTargetsInPools]
  refine tryPool_iff hdisj hmin .nil rfl hpos (fun out h hlen => ?_) fun out random h hlen hlt => ?_
  · have hsize := Tallied.nil.length_add h
    rw [h.wellChosen_iff]
    simp only [List.length_nil] at hsize
    omega
  · simp only [List.length_nil] at hlen
    refine tryPool_iff hdisj hmin h rfl hlt (fun out h' hlen' => ?_) fun out random h' hlen' hlt' =>
      ?_
    · have hsize := h.length_add h'
      rw [h'.wellChosen_iff]
      omega
    · refine (noPref_tallied hdisj (by omega) h' rfl).iff fun out h'' => ?_
      have hsize := h'.length_add h''
      rw [h''.wellChosen_iff]
      omega

end

/-! ## With preferred targets -/

section
variable {pools : CapacityPoolType → UInt16Set} {type : CapacityPoolType}
    {taken : CapacityPoolType → ℕ}
  {num minNum : UInt32} {pref : List UInt16} {sel : Selection}
  (hpref : pref ≠ [])

/-- All preferred targets of a pool that was not asked before, if they are wanted. -/
theorem choosePool_preferred (hdisj : PoolsDisjoint pools) (h : Selected pools sel taken)
    (htaken : taken type = 0) (random : Random) :
    Gives (fun fuel => choosePool fuel pools pref hpref type num false sel) random
      fun sel => Selected pools sel
        (addTaken taken type (min num.toNat (numPreferred pools pref type))) := by
  refine (chooseStorageNodesWithPref_preferred hpref h.matching random).mono ?_
  rintro sel' ⟨new, hpicks, hlen⟩
  rw [freshTargets_of_numTaken ((h.numTaken type).trans htaken)] at hlen
  have hselected := h.picks hpicks hdisj
  rw [hlen] at hselected
  exact hselected

theorem choosePool_any (hdisj : PoolsDisjoint pools) (h : Selected pools sel taken)
    (hfresh : min num.toNat (poolSize pools type) + taken type ≤ poolSize pools type)
    (random : Random) :
    Gives (fun fuel => choosePool fuel pools pref hpref type num true sel) random
      fun sel => Selected pools sel
        (addTaken taken type (min num.toNat (poolSize pools type))) := by
  have hcount := length_freshTargets_add_numTaken pools type sel.outTargets
  rw [h.numTaken] at hcount
  refine (chooseStorageNodesWithPref_any hpref h.matching random ?_).mono ?_
  · rw [← poolSize]
    omega
  · rintro sel' ⟨new, hpicks, hlen⟩
    exact hlen ▸ h.picks hpicks hdisj

theorem choosePool_hangs (h : Selected pools sel taken)
    (hfresh : poolSize pools type < min num.toNat (poolSize pools type) + taken type)
    (random : Random) :
    Hangs (fun fuel => choosePool fuel pools pref hpref type num true sel)
      random := by
  have hcount := length_freshTargets_add_numTaken pools type sel.outTargets
  rw [h.numTaken] at hcount
  refine chooseStorageNodesWithPref_hangs hpref h.matching random ?_
  rw [← poolSize]
  omega

theorem numPreferred_le (pools : CapacityPoolType → UInt16Set) (pref : List UInt16)
    (type : CapacityPoolType) : numPreferred pools pref type ≤ poolSize pools type :=
  List.length_filter_le ..

theorem chooseEmergency_iff (hdisj : PoolsDisjoint pools) (hpos : 0 < num.toNat)
    (hmin : minimum ≤ num.toNat) (h : Selected pools sel taken)
    (hempty : sel.outTargets.length = 0) (random : Random) :
    Gives (fun fuel => chooseEmergency fuel pools num pref hpref sel) random
        (WellChosen pools num minimum) ↔
      minimum ≤ numPreferred pools pref .emergency ∨
        numPreferred pools pref .emergency = 0 ∧ minimum ≤ poolSize pools .emergency := by
  have hlen := h.length
  refine (choosePool_preferred hpref hdisj h (by omega) random).bind_iff fun sel1 random h1 => ?_
  have hlen1 := h.length_add h1.toTallied
  by_cases hzero : sel1.outTargets.length = 0
  · simp only [List.isEmpty_iff_length_eq_zero.mpr hzero, not_true_eq_false, if_false]
    refine (choosePool_any hpref hdisj h1 ?_ random).bind_iff fun sel2 random h2 => ?_
    · simp only [addTaken, if_true]
      omega
    · have hlen2 := h1.length_add h2.toTallied
      rw [gives_pure, h2.wellChosen_iff]
      omega
  · have hne : ¬sel1.outTargets.isEmpty := fun h => hzero (List.isEmpty_iff_length_eq_zero.mp h)
    simp only [if_pos hne, gives_pure]
    rw [h1.wellChosen_iff]
    omega

/-- The two passes that may not end want `min numTargets size` targets which were not taken
before. -/
theorem chooseNonPreferred_iff (hdisj : PoolsDisjoint pools)
    (hpos : 1 ≤ minNum.toNat) (hmin : minNum.toNat ≤ num.toNat)
    (hminimum : minimum ≤ minNum.toNat) (h : Selected pools sel taken)
    (hsize1 : size1 = sel.outTargets.length + min num.toNat (poolSize pools .normal))
    (hsize2 : size2 = size1 + min (num.toNat - size1) (poolSize pools .low))
    (random : Random) :
    Gives (fun fuel => chooseNonPreferred fuel pools num minNum pref hpref
        sel) random (WellChosen pools num minimum) ↔
      min num.toNat (poolSize pools .normal) + taken .normal ≤ poolSize pools .normal ∧
        (minNum.toNat ≤ size1 ∧ size1 ≤ num.toNat ∨
          size1 < minNum.toNat ∧
          min (num.toNat - size1) (poolSize pools .low) + taken .low ≤ poolSize pools .low ∧
          (0 < size2 ∧ minimum ≤ size2 ∨ size2 = 0 ∧
            (minimum ≤ numPreferred pools pref .emergency ∨
              numPreferred pools pref .emergency = 0 ∧ minimum ≤ poolSize pools .emergency))) := by
  by_cases hnormal : min num.toNat (poolSize pools .normal) + taken .normal ≤ poolSize pools .normal
  swap
  · exact iff_of_false (choosePool_hangs hpref h (by omega) random).bind.not_gives
      fun hc => hnormal hc.1
  refine (choosePool_any hpref hdisj h hnormal random).bind_iff fun sel1 random h1 => ?_
  have hlen1 := h.length_add h1.toTallied
  rw [← hsize1] at hlen1
  by_cases henough : minNum.toNat ≤ sel1.outTargets.length
  · simp only [if_pos henough, gives_pure]
    rw [h1.wellChosen_iff]
    omega
  simp only [if_neg henough]
  have hremaining : (remaining num sel1).toNat = num.toNat - size1 := by
    rw [remaining, toNat_sub_ofNat (by omega), hlen1]
  have hlow : addTaken taken .normal (min num.toNat (poolSize pools .normal)) .low =
    taken .low := rfl
  by_cases hfresh : min (num.toNat - size1) (poolSize pools .low) + taken .low ≤ poolSize pools .low
  swap
  · refine iff_of_false (choosePool_hangs hpref h1 ?_ random).bind.not_gives ?_
    · omega
    · omega
  refine (choosePool_any hpref hdisj h1 ?_ random).bind_iff fun sel2 random h2 => ?_
  · rw [hremaining, hlow]
    exact hfresh
  have hlen2 := h1.length_add h2.toTallied
  by_cases hzero : sel2.outTargets.length = 0
  · simp only [List.isEmpty_iff_length_eq_zero.mpr hzero, not_true_eq_false, if_false]
    rw [chooseEmergency_iff hpref hdisj (by omega) (by omega) h2 hzero]
    omega
  · have hne : ¬sel2.outTargets.isEmpty := fun h => hzero (List.isEmpty_iff_length_eq_zero.mp h)
    simp only [if_pos hne, gives_pure]
    rw [h2.wellChosen_iff]
    omega

end

section
variable (pools : CapacityPoolType → UInt16Set) (numTargets minNumRequiredTargets : UInt32)
  (preferredTargets : List UInt16)

/-- One target is enough, or the preferred ones of the normal pool are. Otherwise none of them may
be in the normal pool, and the normal and the low pool together must have the right number of
targets. -/
def EnoughWithPref : Prop :=
  let n := numTargets.toNat
  let m := minNumRequiredTargets.toNat
  let size := poolSize pools
  let preferred := numPreferred pools preferredTargets
  m = 1 ∨ m ≤ preferred .normal ∨ preferred .normal = 0 ∧
    min n (preferred .low) + min n (size .normal) ≤ n ∧
    (m ≤ min n (preferred .low) + min n (size .normal) ∨
      0 < preferred .low ∧ n ≤ size .normal + size .low ∨
      preferred .low = 0 ∧ (m ≤ size .normal + size .low ∨
        0 < size .normal + size .low ∧ size .emergency = 0 ∨
        size .normal + size .low = 0 ∧ (preferred .emergency = 0 ∨
          min m (size .emergency) ≤ preferred .emergency)))

instance enoughWithPrefDecidable :
    Decidable (EnoughWithPref pools numTargets minNumRequiredTargets preferredTargets) :=
  inferInstanceAs (Decidable (_ ∨ _))

end

section
variable {num minNum : UInt32} {pref : List UInt16}

theorem toNat_not_isEmpty (out : List UInt16) :
    (!out.isEmpty).toNat = min out.length 1 := by
  cases out with
  | nil => rfl
  | cons => simp

/-- The arithmetic of the passes without preference, behind those for `a` and `b` preferred
targets. -/
theorem enoughWithPref_arith (hpos : 1 ≤ m) (hmin : m ≤ n) (he : e ≤ E) (hlow : b = min (n - a) pL)
    (hnot : a < m) (hsingle : m = 1 → a + b = 0)
    (hx : x = m ∧ m ≤ N + L + E ∨ x = N + L + E ∧ N + L + E < m) :
    min n N + a ≤ N ∧ (m ≤ a + b + min n N ∧ a + b + min n N ≤ n ∨
        a + b + min n N < m ∧ min (n - (a + b + min n N)) L + b ≤ L ∧
          (0 < a + b + min n N + min (n - (a + b + min n N)) L ∧
              x ≤ a + b + min n N + min (n - (a + b + min n N)) L ∨
            a + b + min n N + min (n - (a + b + min n N)) L = 0 ∧ (x ≤ e ∨ e = 0 ∧ x ≤ E))) ↔
      m = 1 ∨ m ≤ a ∨ a = 0 ∧ min n pL + min n N ≤ n ∧ (m ≤ min n pL + min n N ∨
        0 < pL ∧ n ≤ N + L ∨ pL = 0 ∧ (m ≤ N + L ∨ 0 < N + L ∧ E = 0 ∨
          N + L = 0 ∧ (e = 0 ∨ min m E ≤ e))) := by
  rcases Nat.eq_zero_or_pos a with rfl | hapos
  swap
  · omega
  rw [Nat.sub_zero] at hlow
  rw [← hlow]
  simp only [Nat.zero_add, Nat.add_zero, true_and]
  rcases Nat.lt_or_ge (b + min n N) m with hm | hm
  · have hN : min n N = N := by omega
    rw [hN] at hm ⊢
    rcases Nat.lt_or_ge L (n - (b + N)) with hL | hL
    · -- All targets of both pools are wanted, so none may be taken.
      rcases Nat.eq_zero_or_pos b with rfl | hb
      · omega
      · refine iff_of_false (fun h => ?_) fun h => ?_ <;> omega
    · constructor
      · rintro ⟨-, ⟨hle, -⟩ | ⟨-, hle, -⟩⟩
        · omega
        · rcases Nat.eq_zero_or_pos pL with hpL | hpL
          · exact .inr (.inr ⟨by omega, .inr (.inr ⟨hpL, .inl (by omega)⟩)⟩)
          · exact .inr (.inr ⟨by omega, .inr (.inl ⟨hpL, by omega⟩)⟩)
      · intro h
        exact ⟨Nat.le_refl N, .inr ⟨hm, by omega, .inl ⟨by omega, by omega⟩⟩⟩
  · constructor
    · rintro ⟨-, ⟨-, hle⟩ | ⟨hlt, -⟩⟩
      · exact .inr (.inr ⟨hle, .inl hm⟩)
      · omega
    · intro h
      have hle : b + min n N ≤ n := by
        rcases h with h | h | ⟨h, -⟩ <;> omega
      exact ⟨Nat.min_le_right n N, .inl ⟨hm, hle⟩⟩

section
variable (hpref : pref ≠ []) (hpos : 1 ≤ minNum.toNat)
  (hmin : minNum.toNat ≤ num.toNat) (random : Random)
include hpref hpos hmin

theorem TargetCapacityPools.chooseStorageTargets_withPref {s : TargetCapacityPools}
    (hdisj : PoolsDisjoint s.pools) :
    Gives (fun fuel => s.chooseStorageTargets fuel num minNum pref) random
        (WellChosen s.pools num (min minNum.toNat (numTargetsInPools s.pools))) ↔
      EnoughWithPref s.pools num minNum pref := by
  have hE := numPreferred_le s.pools pref .emergency
  rw [EnoughWithPref, numTargetsInPools]
  simp only [chooseStorageTargets, dif_neg hpref]
  refine (choosePool_preferred hpref hdisj .nil rfl random).bind_iff fun sel1 random h1 => ?_
  have hlen1 := Tallied.nil.length_add h1.toTallied
  rw [List.length_nil, Nat.zero_add] at hlen1
  by_cases henough1 : minNum.toNat ≤ sel1.outTargets.length
  · simp only [if_pos henough1, gives_pure]
    rw [h1.wellChosen_iff]
    omega
  have hnormal : min num.toNat (numPreferred s.pools pref .normal) =
      numPreferred s.pools pref .normal := by omega
  have hremaining : (remaining num sel1).toNat =
      num.toNat - numPreferred s.pools pref .normal := by
    rw [remaining, toNat_sub_ofNat (by omega), hlen1, hnormal]
  simp only [if_neg henough1]
  refine (choosePool_preferred hpref hdisj h1 rfl random).bind_iff fun sel2 random h2 => ?_
  have hlen2 := h1.length_add h2.toTallied
  rw [hlen1, hnormal, hremaining] at hlen2
  by_cases henough2 : minNum.toNat ≤ (!sel2.outTargets.isEmpty).toNat
  · simp only [if_pos henough2, gives_pure]
    rw [toNat_not_isEmpty] at henough2
    rw [h2.wellChosen_iff]
    omega
  simp only [if_neg henough2]
  rw [toNat_not_isEmpty] at henough2
  rw [chooseNonPreferred_iff hpref hdisj hpos hmin (Nat.min_le_left _ _) h2 rfl rfl random, hlen2]
  simp only [addTaken, reduceCtorEq, if_true, if_false, Nat.zero_add, Nat.add_zero,
    hnormal, hremaining]
  exact enoughWithPref_arith hpos hmin hE rfl (by omega) (fun _ => by omega) (by omega)

/-- One target that is preferred is enough here, and the later passes start from nothing. -/
theorem NodeCapacityPools.chooseStorageTargets_withPref {s : NodeCapacityPools}
    (hdisj : PoolsDisjoint s.pools) :
    Gives (fun fuel => s.chooseStorageTargets fuel num minNum pref) random
      (WellChosen s.pools num 0) := by
  refine (iff_true _).mp ?_
  simp only [chooseStorageTargets, dif_neg hpref]
  refine (choosePool_preferred hpref hdisj .nil rfl random).bind_iff fun sel1 random h1 => ?_
  have hlen1 := Tallied.nil.length_add h1.toTallied
  rw [List.length_nil, Nat.zero_add] at hlen1
  by_cases henough1 : minNum.toNat ≤ sel1.outTargets.length
  · simp only [if_pos henough1, gives_pure]
    rw [h1.wellChosen_iff, iff_true]
    omega
  simp only [if_neg henough1]
  have hremaining : (remaining num sel1).toNat = num.toNat - sel1.outTargets.length := by
    rw [remaining, toNat_sub_ofNat (by omega)]
  refine (choosePool_preferred hpref hdisj h1 rfl random).bind_iff fun sel2 random h2 => ?_
  have hlen2 := h1.length_add h2.toTallied
  by_cases hzero : sel2.outTargets.length = 0
  · have htaken := h2.length
    simp only [List.isEmpty_iff_length_eq_zero.mpr hzero, not_true_eq_false, if_false]
    rw [chooseNonPreferred_iff hpref hdisj hpos hmin (Nat.zero_le _) h2 rfl rfl random, iff_true]
    omega
  · have hne : ¬sel2.outTargets.isEmpty := fun h => hzero (List.isEmpty_iff_length_eq_zero.mp h)
    simp only [if_pos hne, gives_pure]
    rw [h2.wellChosen_iff, iff_true]
    omega

end

/-- Whatever numbers are drawn, the choosers end with as many different targets of the pools as they
should exactly if the pools are large enough, or small enough, for the passes that they make. -/
theorem chooseStorageTargets_iff_enough (s : TargetCapacityPools) (s' : NodeCapacityPools)
    (hdisj : PoolsDisjoint s.pools) (hdisj' : PoolsDisjoint s'.pools)
    (numTargets minNumRequiredTargets : UInt32) (hpos : 1 ≤ minNumRequiredTargets.toNat)
    (hmin : minNumRequiredTargets.toNat ≤ numTargets.toNat) (preferredTargets : List UInt16)
    (random : Random) :
    (Gives (fun fuel => s.chooseStorageTargets fuel numTargets minNumRequiredTargets
    preferredTargets) random
        (WellChosen s.pools numTargets (min minNumRequiredTargets.toNat
        (numTargetsInPools s.pools))) ↔
      if preferredTargets = [] then EnoughWithoutPref s.pools numTargets minNumRequiredTargets
      else EnoughWithPref s.pools numTargets minNumRequiredTargets preferredTargets) ∧
    (Gives (fun fuel => s'.chooseStorageTargets fuel numTargets minNumRequiredTargets
        preferredTargets) random (WellChosen s'.pools numTargets (if preferredTargets = [] then
          min minNumRequiredTargets.toNat (numTargetsInPools s'.pools) else 0)) ↔
      (preferredTargets = [] → EnoughWithoutPref s'.pools numTargets minNumRequiredTargets)) := by
  by_cases hpref : preferredTargets = []
  · simp only [hpref, if_true, forall_const, chooseStorageTargets,
      NodeCapacityPools.chooseStorageTargets, dif_pos]
    exact ⟨chooseStorageTargetsNoPref_iff hdisj hpos hmin,
      chooseStorageTargetsNoPref_iff hdisj' hpos hmin⟩
  · simp only [hpref, if_false, false_imp_iff, iff_true]
    exact ⟨chooseStorageTargets_withPref hpref hpos hmin random hdisj,
      NodeCapacityPools.chooseStorageTargets_withPref hpref hpos hmin random hdisj'⟩

end

/-- A target with enough space, and two with too little. -/
def almostFull : CapacityPoolType → UInt16Set
  | .normal => ⟨[1], by decide⟩
  | .low => ∅
  | .emergency => ⟨[2, 3], by decide⟩

theorem almostFull_disjoint : PoolsDisjoint almostFull := by
  have hdisj : ∀ type type', type ≠ type' →
      ∀ targetID ∈ (almostFull type).toList, targetID ∉ (almostFull type').toList := by
    intro type type'
    cases type <;> cases type' <;> simp [almostFull, EmptyCollection.emptyCollection]
  intro targetID type type' h h'
  by_contra hne
  exact hdisj type type' hne targetID h h'

theorem chooseStorageTargets_almostFull :
    (Gives (fun fuel => (⟨almostFull, fun _ => ∅, ∅⟩ : TargetCapacityPools).chooseStorageTargets
        fuel 3 1 [2, 1]) (fun _ => 0) (WellChosen almostFull 3 1)) ∧
      Gives (fun fuel => (⟨almostFull⟩ : NodeCapacityPools).chooseStorageTargets fuel 3 1
        [2, 1]) (fun _ => 0) (WellChosen almostFull 3 0) := by
  have h := chooseStorageTargets_iff_enough ⟨almostFull, fun _ => ∅, ∅⟩ ⟨almostFull⟩
    almostFull_disjoint almostFull_disjoint 3 1 (by decide) (by decide) [2, 1] fun _ => 0
  exact ⟨h.1.mpr (.inl rfl), h.2.mpr fun hnil => by cases hnil⟩

/-- Two targets are wanted and needed. The emergency pool adds two to the one that was found before.
If that one is preferred, its pool is walked for ever. -/
theorem chooseStorageTargets_not_enough :
    (∀ random, ¬Gives (fun fuel =>
    (⟨almostFull, fun _ => ∅, ∅⟩ : TargetCapacityPools).chooseStorageTargets
        fuel 2 2 []) random (WellChosen almostFull 2 2)) ∧
      (∀ random, ¬Gives (fun fuel => (⟨almostFull⟩ : NodeCapacityPools).chooseStorageTargets fuel
        2 2 []) random (WellChosen almostFull 2 2)) ∧
      ∀ random, ¬Gives (fun fuel =>
      (⟨almostFull, fun _ => ∅, ∅⟩ : TargetCapacityPools).chooseStorageTargets
        fuel 2 2 [1]) random (WellChosen almostFull 2 2) := by
  have hwithout : ¬EnoughWithoutPref almostFull 2 2 := by decide
  have hwith : ¬EnoughWithPref almostFull 2 2 [1] := by decide
  refine ⟨fun random h => hwithout ?_, fun random h => hwithout ?_, fun random h => hwith ?_⟩
  · exact (chooseStorageTargetsNoPref_iff almostFull_disjoint (by decide) (by decide)).mp h
  · exact (chooseStorageTargetsNoPref_iff almostFull_disjoint (by decide) (by decide)).mp h
  · exact (chooseStorageTargets_withPref (by simp) (by decide) (by decide) random
      almostFull_disjoint).mp h

/-- What comes out in the first case. -/
example : ((⟨almostFull⟩ : NodeCapacityPools).chooseStorageTargets 0 2 2 []
    (fun _ => 0)).toOption.map Prod.fst = some [1, 2, 3] := by decide

end Congfs
