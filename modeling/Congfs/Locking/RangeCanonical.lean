import Congfs.Locking.RangeGrants

/-!
# Range locks in canonical form

As long as no range reaches the end of the 64-bit offsets, merging leaves the ranges of one owner in
one mode with a byte between any two of them (`Canonical`): a granted request swallows every range
it touches, and what an unlock leaves of a range lies on different sides of the unlocked one. A
range of bytes that the owner holds is then part of a single lock, so the first lock that
`flockRangeIsGranted` meets decides rightly (`canonical_of_reachable`).
-/

namespace Congfs

open RangeLockDetails StdSet List
open UInt64

namespace RangeLockDetails

/-- A range that the client's signed offsets can express. -/
def InFile (l : RangeLockDetails) : Prop := l.start ≤ l.endPos ∧ l.endPos ≤ 0x7fffffffffffffff

instance (l : RangeLockDetails) : Decidable l.InFile := inferInstanceAs (Decidable (_ ∧ _))

def Gap (x y : RangeLockDetails) : Prop :=
  x.endPos.toNat + 1 < y.start.toNat ∨ y.endPos.toNat + 1 < x.start.toNat

variable {e f l p : RangeLockDetails}

theorem InFile.endPos_add_one (h : l.InFile) : (l.endPos + 1).toNat = l.endPos.toNat + 1 := by
  have hend : l.endPos.toNat ≤ 0x7fffffffffffffff := le_iff_toNat_le.mp h.2
  rw [UInt64.toNat_add, toNat_one, Nat.mod_eq_of_lt (by omega)]

theorem InFile.merge (hl : l.InFile) (he : e.InFile) : (l.merge e).InFile := by
  refine ⟨merge_spans_left.nonempty hl.1, ?_⟩
  unfold RangeLockDetails.merge
  dsimp only
  split
  · exact hl.2
  · exact he.2

theorem IsPiece.inFile (h : p.IsPiece e l) (he : e.InFile) : p.InFile :=
  ⟨h.nonempty, UInt64.le_trans h.within.2 he.2⟩

theorem isMergeable_eq_false_iff (hl : l.InFile) (he : e.InFile) :
    l.isMergeable e = false ↔ Gap e l := by
  unfold isMergeable Gap
  rw [Bool.not_eq_false', Bool.or_eq_true, decide_eq_true_eq, decide_eq_true_eq, gt_iff_lt,
    lt_iff_toNat_lt, lt_iff_toNat_lt, hl.endPos_add_one, he.endPos_add_one]

theorem Gap.merge (hf : f.InFile) (hl : l.InFile) (he : e.InFile) (hfl : Gap f l) (hfe : Gap f e)
    (hm : l.isMergeable e) : Gap f (l.merge e) := by
  have hle : ¬Gap e l := by
    rw [← isMergeable_eq_false_iff hl he, hm]
    exact Bool.false_ne_true.symm
  have hf' := le_iff_toNat_le.mp hf.1
  unfold Gap RangeLockDetails.merge at *
  dsimp only
  split <;> split <;> omega

end RangeLockDetails

/-! ## One table -/

/-- Ranges of one owner have a byte between them. -/
structure Canonical (es : List RangeLockDetails) : Prop where
  inFile : ∀ e ∈ es, e.InFile
  gap : Set.Pairwise {e | e ∈ es} fun x y => x.owner = y.owner → Gap x y

section
variable {lt : RangeLockDetails → RangeLockDetails → Prop} {e f l : RangeLockDetails}
  {es fs : List RangeLockDetails}

theorem Canonical.subset (h : Canonical es) (hfs : fs ⊆ es) : Canonical fs :=
  ⟨fun e he => h.inFile e (hfs he), h.gap.mono hfs⟩

section
variable {inReach : RangeLockDetails → RangeLockDetails → Bool}

theorem inFile_mergeLoop (hl : l.InFile) (hes : ∀ e ∈ es, e.InFile) :
    (mergeLoop inReach l es).1.InFile := by
  induction es generalizing l with
  | nil => exact hl
  | cons e es ih =>
    have hes' : ∀ e ∈ es, e.InFile := fun f hf => hes f (mem_cons_of_mem _ hf)
    rcases mergeLoop_cons with ⟨-, h⟩ | ⟨-, -, h⟩ | ⟨-, h⟩ <;> rw [h]
    · exact hl
    · exact ih (hl.merge (hes e mem_cons_self)) hes'
    · exact ih hl hes'

theorem gap_mergeLoop (hf : f.InFile) (hl : l.InFile) (hes : ∀ e ∈ es, e.InFile) (hfl : Gap f l)
    (hgap : ∀ e ∈ es, e.owner = l.owner → Gap f e) : Gap f (mergeLoop inReach l es).1 := by
  induction es generalizing l with
  | nil => exact hfl
  | cons e es ih =>
    have he := hes e mem_cons_self
    have hes' : ∀ e ∈ es, e.InFile := fun g hg => hes g (mem_cons_of_mem _ hg)
    have hgap' : ∀ e ∈ es, e.owner = l.owner → Gap f e := fun g hg =>
      hgap g (mem_cons_of_mem _ hg)
    rcases mergeLoop_cons with ⟨-, h⟩ | ⟨ho, hm, h⟩ | ⟨-, h⟩ <;> rw [h]
    · exact hfl
    · have hfe := hgap e mem_cons_self ho.symm
      exact ih (hl.merge he) hes' (hfl.merge hf hl he hfe hm) hgap'
    · exact ih hl hes' hfl hgap'

theorem gap_of_mem_mergeLoop [IsStrictOrder RangeLockDetails lt] (H : TableOrder lt inReach)
    (hsorted : es.Pairwise lt) (hl : l.InFile) (hes : Canonical es)
    (hf : f ∈ (mergeLoop inReach l es).2) (ho : f.owner = l.owner) :
    Gap f (mergeLoop inReach l es).1 := by
  induction es generalizing l with
  | nil => cases hf
  | cons e es ih =>
    obtain ⟨hlt, hsorted'⟩ := pairwise_cons.mp hsorted
    have hes' : Canonical es := hes.subset (subset_cons_self e es)
    have he := hes.inFile e mem_cons_self
    rcases mergeLoop_cons with ⟨hr, h⟩ | ⟨-, -, h⟩ | ⟨hnm, h⟩ <;> rw [h] at hf ⊢
    · have hreach := H.reach l e f hr ((mem_cons.mp hf).imp_right fun hf => hlt f hf)
      rw [lt_iff_toNat_lt, hl.endPos_add_one] at hreach
      exact .inr hreach
    · exact ih hsorted' (hl.merge he) hes' hf ho
    · rcases mem_cons.mp hf with rfl | hf
      · -- the range just passed over touches neither the request nor a later range of the owner
        have hm : l.isMergeable f = false := Bool.eq_false_iff.mpr fun hm => hnm ⟨ho.symm, hm⟩
        refine gap_mergeLoop he hl hes'.inFile ((isMergeable_eq_false_iff hl he).mp hm) ?_
        intro g hg hgo
        refine hes.gap mem_cons_self (mem_cons_of_mem _ hg) (fun hfg => ?_)
          (ho.trans hgo.symm)
        exact irrefl_of lt f (hfg ▸ hlt g hg)
      · exact ih hsorted' hl hes' hf ho

theorem Canonical.mergeInto [DecidableRel lt] [IsStrictOrder RangeLockDetails lt] {T : StdSet lt}
    (H : TableOrder lt inReach) (hT : Canonical T.toList) (hl : l.InFile) :
    Canonical (mergeInto inReach T l).2.toList := by
  have hsub := mergeLoop_sublist inReach l T.toList
  have hstay := hT.subset hsub.subset
  have hgap : ∀ f ∈ (mergeLoop inReach l T.toList).2, f.owner = l.owner →
      Gap f (mergeLoop inReach l T.toList).1 := fun f =>
    gap_of_mem_mergeLoop H T.sorted hl hT
  refine ⟨fun f hf => ?_, fun f hf g hg hne ho => ?_⟩
  · rcases eq_or_mem_of_mem_insert hf with rfl | hf
    · exact inFile_mergeLoop hl hT.inFile
    · exact hstay.inFile f hf
  · rcases eq_or_mem_of_mem_insert hf with rfl | hf <;>
      rcases eq_or_mem_of_mem_insert hg with rfl | hg
    · exact absurd rfl hne
    · exact (hgap g hg (ho.symm.trans owner_mergeLoop)).symm
    · exact hgap f hf (ho.trans owner_mergeLoop)
    · exact hstay.gap hf hg hne ho

end

theorem cutStable_gap (hl : l.Nonempty) : CutStable l fun x y => x.owner = y.owner → Gap x y where
  symm x y h ho := (h ho.symm).symm
  piece p e y hp h ho := by
    have hs := le_iff_toNat_le.mp hp.within.1
    have he := le_iff_toNat_le.mp hp.within.2
    have hey := h (hp.owner_eq.symm.trans ho)
    unfold Gap at hey ⊢
    omega
  across p q _ _ _ hpl hlq _ := by
    have hl := le_iff_toNat_le.mp hl
    have hpl := lt_iff_toNat_lt.mp hpl
    have hlq := lt_iff_toNat_lt.mp hlq
    exact .inl (by omega)

theorem Canonical.unlockLoop [DecidableRel lt] [IsStrictOrder RangeLockDetails lt]
    {inReach : RangeLockDetails → Bool} {T : StdSet lt} (hT : Canonical T.toList) (hl : l.Nonempty)
    (hreach : ∀ e f, inReach e = false → f = e ∨ lt e f → l.overlaps f = false)
    (removed : Bool) :
    Canonical (unlockLoop inReach l T.begin removed).table.toList := by
  have hne : ∀ e ∈ T, e.Nonempty := fun e he => (hT.inFile e he).1
  refine ⟨fun x hx => ?_,
    unlockLoop_pairwise hl hreach T.begin removed hne (cutStable_gap hl) hT.gap⟩
  rcases (unlockLoop_shrinks hl hreach T.begin removed hne).1.mem x hx with hx | ⟨e, he, -, hp⟩
  · exact hT.inFile x hx
  · exact hp.inFile (hT.inFile e he)

theorem Canonical.exists_spans (hes : Canonical es) (hl : l.Nonempty)
    (h : ∀ b ∈ l, b ∈ covered es l.owner) : ∃ e ∈ es, e.owner = l.owner ∧ e.Spans l := by
  obtain ⟨e, he, heo, hstart⟩ := h l.start hl.start_mem
  refine ⟨e, he, heo, hstart.1, ?_⟩
  by_contra hend
  have hlt : e.endPos.toNat < l.endPos.toNat := by
    rwa [le_iff_toNat_le, Nat.not_le] at hend
  have hnext := (hes.inFile e he).endPos_add_one
  have hse := le_iff_toNat_le.mp hstart.2
  -- the byte behind `e` would be in a range that touches `e`
  have hmem : e.endPos + 1 ∈ l := by
    rw [RangeLockDetails.mem_def, le_iff_toNat_le, le_iff_toNat_le, hnext]
    omega
  obtain ⟨f, hf, hfo, hbf⟩ := h _ hmem
  rw [RangeLockDetails.mem_def, le_iff_toNat_le, le_iff_toNat_le, hnext] at hbf
  have hfe : f ≠ e := by
    rintro rfl
    omega
  have he' := le_iff_toNat_le.mp (hes.inFile e he).1
  have hgap := hes.gap hf he hfe (hfo.trans heo.symm)
  unfold Gap at hgap
  omega

theorem overlapsEx_eq_none (h : l.overlaps e = false) : l.overlapsEx e = .none :=
  if_pos (overlaps_eq_false_iff.mp h)

theorem isGrantedLoop_of_spans (hes : Canonical es) (he : e ∈ es) (ho : e.owner = l.owner)
    (hsp : e.Spans l) (hl : l.Nonempty) : isGrantedLoop l es := by
  induction es with
  | nil => cases he
  | cons f es ih =>
    have hnext : f ≠ e → isGrantedLoop l es := fun hfe =>
      ih (hes.subset (subset_cons_self f es)) ((mem_cons.mp he).resolve_left hfe.symm)
    rw [isGrantedLoop]
    cases hf : l.equalsHandle f with
    | false =>
      refine hnext fun hfe => equalsHandle_eq_false.mp hf ?_
      rw [hfe, ho]
    | true =>
      by_cases hfe : f = e
      · subst hfe
        have hov := hsp.overlaps hl
        cases hx : l.overlapsEx f <;> have hspec := overlapsEx_spec hx
        case equals | isContained => rfl
        case none =>
          rw [hspec] at hov
          cases hov
        case contains => exact absurd hsp hspec.2.2
        case startOverlap => exact absurd hsp.1 (UInt64.not_le.mpr hspec.1)
        case endOverlap => exact absurd hsp.2 (UInt64.not_le.mpr hspec.2.2)
      · have hgap := hes.gap mem_cons_self he hfe ((equalsHandle_iff.mp hf).symm.trans ho.symm)
        have hs := le_iff_toNat_le.mp hsp.1
        have hend := le_iff_toNat_le.mp hsp.2
        have hov : l.overlaps f = false := by
          rw [overlaps_eq_false_iff, lt_iff_toNat_lt, lt_iff_toNat_lt]
          unfold Gap at hgap
          omega
        rw [overlapsEx_eq_none hov]
        exact hnext hfe

end

/-! ## The tables of an inode -/

def RangeLockOp.InFile : RangeLockOp → Prop
  | .flock l => l.InFile
  | _ => True

instance decidableInFile : DecidablePred RangeLockOp.InFile
  | .flock l => inferInstanceAs (Decidable l.InFile)
  | .cancelByClientID _ | .cancelAllWaiters => inferInstanceAs (Decidable True)

namespace RangeLocks

variable {s s' : RangeLocks} {l w : RangeLockDetails} {m : LockMode} {op : RangeLockOp}
  {released granted : Bool}

/-- Both tables are canonical. -/
structure Clean (s : RangeLocks) : Prop where
  locks : ∀ m, Canonical (s.locks m)
  waiters : ∀ m, ∀ w ∈ s.waiters m, w.InFile

theorem locks_enqueue : (s.enqueue l).locks m = s.locks m := by
  unfold enqueue
  split <;> cases m <;> rfl

section
variable (hs : ∀ m, Canonical (s.locks m))
include hs

theorem canonical_flockRangeUnlock (hl : l.Nonempty)
    (m : LockMode) : Canonical ((s.flockRangeUnlock l).2.locks m) := by
  have hexcl : Canonical (s.unlockExcl l).table.toList :=
    (hs .exclusive).unlockLoop hl overlaps_eq_false_of_ltExcl _
  have hshared : Canonical (s.unlockShared l).table.toList :=
    (hs .shared).unlockLoop hl (fun _ _ h => Bool.noConfusion h) _
  rcases flockRangeUnlock_cases with ⟨-, h⟩ | ⟨-, h⟩ <;> rw [h] <;> cases m
  · exact hexcl
  · exact hs .shared
  · exact hexcl
  · exact hshared

theorem canonical_grant (hl : l.InFile) (m : LockMode) : Canonical ((s.grant l).locks m) := by
  unfold grant
  split <;> cases m
  · exact hs .exclusive
  · exact (hs .shared).mergeInto tableOrder_shared hl
  · exact (hs .exclusive).mergeInto tableOrder_excl hl
  · exact hs .shared

theorem canonical_edit (hop : op.InFile)
    (h : Edit s op released granted s') (m : LockMode) : Canonical (s'.locks m) := by
  have hremove : ∀ gone, Canonical ((s.removeMatching gone).2.locks m) := by
    intro gone
    rw [locks_removeMatching]
    exact (hs m).subset filter_sublist.subset
  cases h with
  | cancel | cancelByClientID => exact hremove _
  | cancelAllWaiters =>
    cases m
    · exact hs .exclusive
    · exact hs .shared
  | waiting | granted | refuse => exact hs m
  | unlock l => exact canonical_flockRangeUnlock hs hop.1 m
  | grant l => exact canonical_grant (canonical_flockRangeUnlock hs hop.1) hop m
  | enqueue l =>
    rw [locks_enqueue]
    exact canonical_flockRangeUnlock hs hop.1 m

end

namespace Clean

theorem empty : RangeLocks.empty.Clean where
  locks m := by
    refine ⟨fun e he => ?_, fun e he => ?_⟩
    · cases m <;> cases he
    · cases m <;> cases he
  waiters m w hw := by cases m <;> cases hw

theorem edit (hs : s.Clean) (hop : op.InFile) (h : Edit s op released granted s') : s'.Clean where
  locks := canonical_edit hs.locks hop h
  waiters m w hw := by
    rcases h.waiters with hsub | ⟨l, rfl, -, rfl⟩
    · exact hs.waiters m w ((hsub m).subset hw)
    · rcases eq_or_mem_of_mem_enqueue hw with rfl | hw
      · exact hop
      · exact hs.waiters m w hw

theorem grantStep (hs : s.Clean) (h : GrantStep s w s') : s'.Clean where
  locks m := by
    obtain ⟨m', hw⟩ := h.mem_waiters
    have hin := hs.waiters m' w hw
    cases h <;> cases m
    · exact (hs.locks .exclusive).mergeInto tableOrder_excl hin
    · exact hs.locks .shared
    · exact hs.locks .exclusive
    · exact (hs.locks .shared).mergeInto tableOrder_shared hin
  waiters m v hv := hs.waiters m v ((h.waiters_sublist m).subset hv)

theorem step (hs : s.Clean) (hop : op.InFile) : (s.step op).Clean := by
  obtain ⟨released, s', ws, hedit, hsteps, -⟩ := s.call_steps op
  exact hsteps.inv (fun _ _ _ h hs => hs.grantStep h) (hs.edit hop hedit)

theorem of_reachable (h : Reachable RangeLocks.step RangeLockOp.InFile RangeLocks.empty s) :
    s.Clean := h.inv Clean.empty fun _ _ hop hs => hs.step hop

theorem isGranted_iff (hs : s.Clean) (hl : l.Asks m) :
    s.flockRangeIsGranted l ↔ ∀ b ∈ l, b ∈ s.held m l.owner := by
  constructor
  · intro h b hb
    obtain ⟨e, he, ho, hsp⟩ := exists_spans_of_isGranted hl h
    exact ⟨e, he, ho, hsp.mem hb⟩
  · intro h
    obtain ⟨e, he, ho, hsp⟩ := (hs.locks m).exists_spans hl.nonempty h
    unfold flockRangeIsGranted
    rw [hl.isExclusive, hl.isShared]
    cases m with
    | shared => exact isGrantedLoop_of_spans (hs.locks .shared) he ho hsp hl.nonempty
    | exclusive =>
      refine isGrantedLoop_of_spans ((hs.locks .exclusive).subset (takeWhile_subset _)) ?_ ho hsp
        hl.nonempty
      refine mem_takeWhile_of_pairwise s.exclRangeFLocks.sorted (fun a b hab hb => ?_) he ?_
      · rw [decide_eq_true_eq] at hb ⊢
        exact UInt64.le_trans (UInt64.le_of_lt hab) hb
      · exact decide_eq_true (UInt64.le_trans hsp.1 hl.nonempty)

end Clean

/-- In every run with ranges of clients, any two locks of one owner in one mode have a byte between
them, and a request is found to be granted exactly if its owner holds all its bytes. -/
theorem canonical_of_reachable (hs : Reachable step RangeLockOp.InFile empty s) :
    (∀ m, ∀ e ∈ s.locks m, ∀ f ∈ s.locks m, e.owner = f.owner → e ≠ f →
      e.endPos.toNat + 1 < f.start.toNat ∨ f.endPos.toNat + 1 < e.start.toNat) ∧
    ∀ l m, l.Asks m → (s.flockRangeIsGranted l ↔ ∀ b ∈ l, b ∈ s.held m l.owner) := by
  have hc := Clean.of_reachable hs
  exact ⟨fun m e he f hf ho hne => (hc.locks m).gap he hf hne ho, fun l m => hc.isGranted_iff⟩

/-- A range is split by an unlock and one half grows again. -/
def splitAndExtended : List RangeLockOp :=
  [.flock ⟨1, 1, "a", entryLockTypeExclusive, 0, 100⟩,
    .flock ⟨1, 1, "b", entryLockTypeUnlock, 40, 60⟩,
    .flock ⟨1, 1, "c", entryLockTypeExclusive, 41, 50⟩]

theorem canonical_splitAndExtended : (run step empty splitAndExtended).locks .exclusive =
      [⟨1, 1, "a", entryLockTypeExclusive, 0, 39⟩, ⟨1, 1, "c", entryLockTypeExclusive, 41, 50⟩,
        ⟨1, 1, "a", entryLockTypeExclusive, 61, 100⟩] ∧
    ∀ l m, l.Asks m → ((run step empty splitAndExtended).flockRangeIsGranted l ↔
      ∀ b ∈ l, b ∈ (run step empty splitAndExtended).held m l.owner) :=
  ⟨by decide +kernel, (canonical_of_reachable (Reachable.init.run (by decide))).2⟩

end RangeLocks

end Congfs
