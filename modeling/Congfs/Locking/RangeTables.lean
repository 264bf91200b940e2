import Congfs.Locking.Range

/-!
# One table of range locks

What merging a request into a table and unlocking a range do to the bytes that each owner holds.
Both tables are ordered by start among the ranges of one owner, and a loop that stops early has only
ranges before it that start too late (`TableOrder`).

A merged request may be kept out of the table by a range with the same start. That range is one of
the same owner which `isMergeable` has missed because of a range that reaches the last offset
(`mergeLoop_tie`). So no byte is ever lost, and only a request that itself reaches the last offset
can stay unrecorded (`covered_mergeInto`, `mem_covered_mergeInto`).
-/

namespace Congfs

open RangeLockDetails StdSet Cursor List

variable {lt : RangeLockDetails → RangeLockDetails → Prop}

def covered (es : List RangeLockDetails) (o : NumNodeID × Int32) : Set UInt64 :=
  {b | ∃ e ∈ es, e.owner = o ∧ b ∈ e}

/-- What the loops need to know of a comparator and of the condition they run under. -/
structure TableOrder (lt : RangeLockDetails → RangeLockDetails → Prop)
    (inReach : RangeLockDetails → RangeLockDetails → Bool) : Prop where
  start_lt : ∀ e f, e.owner = f.owner → lt e f → e.start < f.start
  start_eq : ∀ e f, ¬lt e f → ¬lt f e → e.start = f.start
  reach : ∀ l e f, inReach l e = false → f = e ∨ lt e f → l.endPos + 1 < f.start

theorem tableOrder_excl : TableOrder ltExcl (fun l e => decide (e.start ≤ l.endPos + 1)) where
  start_lt _ _ _ h := h
  start_eq e f h h' := by
    unfold ltExcl at h h'
    grind
  reach l e f h h' := by
    unfold ltExcl at h'
    grind

theorem tableOrder_shared : TableOrder ltShared (fun _ _ => true) where
  start_lt _ _ ho h := (ltShared_iff_of_owner_eq ho).mp h
  start_eq e f h h' := by
    have ho : e.owner = f.owner := by
      by_contra ho
      rcases ltShared_or_of_owner_ne ho with hlt | hlt
      · exact h hlt
      · exact h' hlt
    rw [ltShared_iff_of_owner_eq ho] at h
    rw [ltShared_iff_of_owner_eq ho.symm] at h'
    grind
  reach _ _ _ h := by cases h

/-! ## Merging -/

section
variable {inReach : RangeLockDetails → RangeLockDetails → Bool}
  {l e f : RangeLockDetails} {es : List RangeLockDetails}

theorem mergeLoop_cons : (inReach l e = false ∧ mergeLoop inReach l (e :: es) = (l, e :: es)) ∨
    (l.owner = e.owner ∧ l.isMergeable e ∧
      mergeLoop inReach l (e :: es) = mergeLoop inReach (l.merge e) es) ∨
    (¬(l.owner = e.owner ∧ l.isMergeable e) ∧ mergeLoop inReach l (e :: es) =
        ((mergeLoop inReach l es).1, e :: (mergeLoop inReach l es).2)) := by
  rw [← equalsHandle_iff, ← Bool.and_eq_true]
  simp only [mergeLoop]
  cases hr : inReach l e with
  | false => exact .inl ⟨rfl, rfl⟩
  | true =>
    cases hm : l.equalsHandle e && l.isMergeable e with
    | true =>
      obtain ⟨ho, hm'⟩ := (Bool.and_eq_true _ _).mp hm
      exact .inr (.inl ⟨ho, hm', rfl⟩)
    | false => exact .inr (.inr ⟨Bool.false_ne_true, rfl⟩)

theorem mergeLoop_keeps (f : RangeLockDetails → α) (hf : ∀ l e, f (merge l e) = f l) :
    f (mergeLoop inReach l es).1 = f l := by
  induction es generalizing l with
  | nil => rfl
  | cons e es ih =>
    rcases mergeLoop_cons with ⟨-, h⟩ | ⟨-, -, h⟩ | ⟨-, h⟩ <;> rw [h]
    · exact ih.trans (hf l e)
    · exact ih

theorem owner_mergeLoop : (mergeLoop inReach l es).1.owner = l.owner :=
  mergeLoop_keeps owner fun _ _ => rfl

theorem mergeLoop_spans : (mergeLoop inReach l es).1.Spans l := by
  induction es generalizing l with
  | nil => exact Spans.refl l
  | cons e es ih =>
    rcases mergeLoop_cons with ⟨-, h⟩ | ⟨-, -, h⟩ | ⟨-, h⟩ <;> rw [h]
    · exact Spans.refl l
    · exact ih.trans merge_spans_left
    · exact ih

/-- A range that leaves the table belongs to the owner of the request, which now spans it. -/
theorem mem_mergeLoop_or (inReach : RangeLockDetails → RangeLockDetails → Bool)
    (l : RangeLockDetails) (he : e ∈ es) :
    e ∈ (mergeLoop inReach l es).2 ∨ e.owner = l.owner ∧ (mergeLoop inReach l es).1.Spans e := by
  induction es generalizing l with
  | nil => cases he
  | cons f es ih =>
    rcases mergeLoop_cons with ⟨-, h⟩ | ⟨ho, -, h⟩ | ⟨-, h⟩ <;> rw [h]
    · exact .inl he
    · rcases mem_cons.mp he with rfl | he
      · exact .inr ⟨ho.symm, mergeLoop_spans.trans merge_spans_right⟩
      · exact ih _ he
    · rcases mem_cons.mp he with rfl | he
      · exact .inl mem_cons_self
      · exact (ih _ he).imp_left (mem_cons_of_mem _)

theorem mem_of_mem_mergeLoop (hb : b ∈ (mergeLoop inReach l es).1) :
    b ∈ l ∨ b ∈ covered es l.owner := by
  induction es generalizing l with
  | nil => exact .inl hb
  | cons e es ih =>
    have hcons : b ∈ covered es l.owner → b ∈ covered (e :: es) l.owner := by
      intro ⟨f, hf, ho, hbf⟩
      exact ⟨f, mem_cons_of_mem _ hf, ho, hbf⟩
    rcases mergeLoop_cons with ⟨-, h⟩ | ⟨ho, hm, h⟩ | ⟨-, h⟩ <;> rw [h] at hb
    · exact .inl hb
    · rcases ih hb with hb | hb
      · rcases mem_of_mem_merge hm hb with hb | hb
        · exact .inl hb
        · exact .inr ⟨e, mem_cons_self, ho.symm, hb⟩
      · exact .inr (hcons hb)
    · exact (ih hb).imp_right hcons

theorem mergeLoop_start (inReach : RangeLockDetails → RangeLockDetails → Bool)
    (l : RangeLockDetails) (es : List RangeLockDetails) :
    (mergeLoop inReach l es).1.start = l.start ∨
      ∃ f ∈ es, f.owner = l.owner ∧ (mergeLoop inReach l es).1.start = f.start := by
  induction es generalizing l with
  | nil => exact .inl rfl
  | cons e es ih =>
    rcases mergeLoop_cons with ⟨-, h⟩ | ⟨ho, hm, h⟩ | ⟨-, h⟩ <;> rw [h]
    · exact .inl rfl
    · rcases ih (l.merge e) with hs | ⟨f, hf, hfo, hs⟩
      · rw [hs]
        rcases merge_start with hs | hs
        · exact .inl hs
        · exact .inr ⟨e, mem_cons_self, ho.symm, hs⟩
      · exact .inr ⟨f, mem_cons_of_mem _ hf, hfo, hs⟩
    · rcases ih l with hs | ⟨f, hf, hfo, hs⟩
      · exact .inl hs
      · exact .inr ⟨f, mem_cons_of_mem _ hf, hfo, hs⟩

theorem mergeLoop_eq_self (h : ∀ e ∈ es, e.owner = l.owner → l.isMergeable e = false) :
    mergeLoop inReach l es = (l, es) := by
  induction es with
  | nil => rfl
  | cons e es ih =>
    have ih := ih fun f hf => h f (mem_cons_of_mem _ hf)
    rcases mergeLoop_cons with ⟨-, hc⟩ | ⟨ho, hm, -⟩ | ⟨-, hc⟩
    · exact hc
    · rw [h e mem_cons_self ho.symm] at hm
      cases hm
    · rw [hc, ih]

/-- A range of the owner that stays in the table and starts where the merged request does has been
missed by the merge: it reaches the last offset, or the request does and nothing was merged. -/
theorem mergeLoop_tie (H : TableOrder lt inReach) (hes : es.Pairwise lt) (hl : l.Nonempty)
    (hne : ∀ e ∈ es, e.Nonempty) (hf : f ∈ (mergeLoop inReach l es).2) (ho : f.owner = l.owner)
    (hs : f.start = (mergeLoop inReach l es).1.start) :
    f.endPos = maxOffset ∨
      mergeLoop inReach l es = (l, es) ∧ 0 < l.start ∧ l.endPos = maxOffset := by
  induction es generalizing l with
  | nil => cases hf
  | cons e es ih =>
    obtain ⟨hlt, hes'⟩ := pairwise_cons.mp hes
    have hne' : ∀ e ∈ es, e.Nonempty := fun g hg => hne g (mem_cons_of_mem _ hg)
    rcases mergeLoop_cons with ⟨hr, h⟩ | ⟨heo, hm, h⟩ | ⟨hnm, h⟩ <;>
      rw [h] at hf hs ⊢
    · -- out of reach: everything from here on starts behind the end of the request, plus one
      have hreach := H.reach l e f hr ((mem_cons.mp hf).imp_right fun hf => hlt f hf)
      rw [hs] at hreach
      exact .inr ⟨rfl, reaches_end hl hreach⟩
    · -- merged with `e`, which starts before all that is left of the owner
      rcases ih hes' (hl.merge e) hne' hf ho hs with hmax | ⟨hself, -, -⟩
      · exact .inl hmax
      · rw [hself] at hf hs
        have hef := H.start_lt e f (heo.symm.trans ho.symm) (hlt f hf)
        rw [hs] at hef
        have hle : (l.merge e).start ≤ e.start := merge_spans_right.1
        exact absurd hle (UInt64.not_le.mpr hef)
    · rcases mem_cons.mp hf with rfl | hf
      · -- `f` is the range just passed over, so the request has kept its start
        have hls : f.start = l.start := by
          rcases mergeLoop_start inReach l es with hs' | ⟨g, hg, hgo, hs'⟩
          · exact hs.trans hs'
          · have hfg := H.start_lt f g (ho.trans hgo.symm) (hlt g hg)
            rw [hs, hs'] at hfg
            exact absurd hfg (UInt64.lt_irrefl _)
        have hnm' : l.isMergeable f = false := by
          cases hm : l.isMergeable f with
          | false => rfl
          | true => exact absurd ⟨ho.symm, hm⟩ hnm
        rcases isMergeable_of_start_eq hl (hne f mem_cons_self) hls hnm' with hmax | ⟨hend, hpos⟩
        · exact .inl hmax
        · have hself : mergeLoop inReach l es = (l, es) := by
            apply mergeLoop_eq_self
            intro g hg hgo
            apply isMergeable_eq_false_of_end hend
            exact UInt64.lt_trans hpos (hls ▸ H.start_lt f g (ho.trans hgo.symm) (hlt g hg))
          rw [hself]
          exact .inr ⟨rfl, hpos, hend⟩
      · rcases ih hes' hl hne' hf ho hs with hmax | ⟨hself, hpos, hend⟩
        · exact .inl hmax
        · rw [hself]
          exact .inr ⟨rfl, hpos, hend⟩

variable [DecidableRel lt] [IsStrictOrder RangeLockDetails lt] {T : StdSet lt}

theorem owner_mergeInto : (mergeInto inReach T l).1.owner = l.owner := owner_mergeLoop

theorem mergeInto_lockAckID : (mergeInto inReach T l).1.lockAckID = l.lockAckID :=
  mergeLoop_keeps lockAckID fun _ _ => rfl

theorem mem_or_eq_of_mem_mergeInto (he : e ∈ (mergeInto inReach T l).2) :
    e ∈ T ∨ e = (mergeInto inReach T l).1 := by
  rcases eq_or_mem_of_mem_insert he with rfl | he
  · exact .inr rfl
  · exact .inl ((mergeLoop_sublist ..).subset he)

theorem nonempty_of_mem_mergeInto (hl : l.Nonempty) (hT : ∀ e ∈ T, e.Nonempty)
    (he : e ∈ (mergeInto inReach T l).2) : e.Nonempty := by
  rcases mem_or_eq_of_mem_mergeInto he with he | rfl
  · exact hT e he
  · exact mergeLoop_spans.nonempty hl

/-- No range of another owner stands in the place of the merged request. -/
def NoTie (inReach : RangeLockDetails → RangeLockDetails → Bool) (T : StdSet lt)
    (l : RangeLockDetails) : Prop :=
  ∀ f ∈ T, f.owner ≠ l.owner → lt (mergeInto inReach T l).1 f ∨ lt f (mergeInto inReach T l).1

theorem mergeInto_covered_le (hb : b ∈ covered (mergeInto inReach T l).2.toList o) :
    b ∈ covered T.toList o ∨ o = l.owner ∧ b ∈ l := by
  obtain ⟨e, he, heo, hb⟩ := hb
  rcases mem_or_eq_of_mem_mergeInto he with he | rfl
  · exact .inl ⟨e, he, heo, hb⟩
  · have ho : o = l.owner := heo.symm.trans owner_mergeInto
    rcases mem_of_mem_mergeLoop hb with hb | hb
    · exact .inr ⟨ho, hb⟩
    · exact .inl (ho ▸ hb)

section
variable (H : TableOrder lt inReach)
include H

theorem mergeInto_mem_or : (mergeInto inReach T l).1 ∈ (mergeInto inReach T l).2 ∨
      ∃ f ∈ (mergeLoop inReach l T.toList).2, f.start = (mergeInto inReach T l).1.start ∧
        ¬lt (mergeInto inReach T l).1 f ∧ ¬lt f (mergeInto inReach T l).1 := by
  by_cases h : ∀ f ∈ (mergeLoop inReach l T.toList).2,
      lt (mergeInto inReach T l).1 f ∨ lt f (mergeInto inReach T l).1
  · exact .inl (self_mem_insertList h)
  · obtain ⟨f, hf⟩ := not_forall.mp h
    obtain ⟨hf, hn⟩ := Classical.not_imp.mp hf
    obtain ⟨h1, h2⟩ := not_or.mp hn
    exact .inr ⟨f, hf, (H.start_eq _ _ h1 h2).symm, h1, h2⟩

/-- What the table has for the merged request: the request, or a range of its owner that spans it,
or nothing has changed because the request itself reaches the last offset. -/
theorem mergeInto_cases (hl : l.Nonempty) (hT : ∀ e ∈ T, e.Nonempty) (hn : NoTie inReach T l) :
    (∃ f ∈ (mergeInto inReach T l).2, f.owner = l.owner ∧ f.Spans (mergeInto inReach T l).1) ∨
      mergeLoop inReach l T.toList = (l, T.toList) ∧
        0 < l.start ∧ l.start < maxOffset ∧ l.endPos = maxOffset := by
  rcases mergeInto_mem_or H with hin | ⟨f, hf, hs, h1, h2⟩
  · exact .inl ⟨_, hin, owner_mergeInto, Spans.refl _⟩
  have hfT : f ∈ T := (mergeLoop_sublist ..).subset hf
  have ho : f.owner = l.owner := by
    by_contra ho
    rcases hn f hfT ho with h | h
    · exact h1 h
    · exact h2 h
  have hfR : f ∈ (mergeInto inReach T l).2 := mem_insertList_of_mem hf
  rcases mergeLoop_tie H T.sorted hl hT hf ho hs with hmax | ⟨hself, hpos, hend⟩
  · exact .inl ⟨f, hfR, ho, spans_of_end hs hmax⟩
  · rcases UInt64.lt_or_eq_of_le le_maxOffset with hlt | heq
    · exact .inr ⟨hself, hpos, hlt, hend⟩
    · -- a range that starts at the last offset ends there
      have hfs : f.start = maxOffset := by
        rw [hs, ← heq]
        exact congrArg (fun r => r.1.start) hself
      exact .inl ⟨f, hfR, ho, spans_of_end hs (end_eq_of_start (hT f hfT) hfs)⟩

theorem covered_le_mergeInto (hl : l.Nonempty)
    (hT : ∀ e ∈ T, e.Nonempty) (hn : NoTie inReach T l) (o : NumNodeID × Int32) :
    covered T.toList o ⊆ covered (mergeInto inReach T l).2.toList o := by
  intro b ⟨e, he, heo, hb⟩
  rcases mem_mergeLoop_or inReach l he with he' | ⟨ho, hsp⟩
  · exact ⟨e, mem_insertList_of_mem he', heo, hb⟩
  · rcases mergeInto_cases H hl hT hn with ⟨f, hf, hfo, hfs⟩ | ⟨hself, -⟩
    · exact ⟨f, hf, hfo.trans (ho.symm.trans heo), (hfs.trans hsp).mem hb⟩
    · have he' : e ∈ (mergeLoop inReach l T.toList).2 := by
        rw [hself]
        exact he
      exact ⟨e, mem_insertList_of_mem he', heo, hb⟩

/-- A request is recorded unless it reaches the last offset from a start inside the file. -/
theorem mem_covered_mergeInto (hl : l.Nonempty) (hT : ∀ e ∈ T, e.Nonempty) (hn : NoTie inReach T l)
    (hsafe : ¬(0 < l.start ∧ l.start < maxOffset ∧ l.endPos = maxOffset)) (hb : b ∈ l) :
    b ∈ covered (mergeInto inReach T l).2.toList l.owner := by
  rcases mergeInto_cases H hl hT hn with ⟨f, hf, hfo, hfs⟩ | ⟨-, hbad⟩
  · exact ⟨f, hf, hfo, (hfs.trans mergeLoop_spans).mem hb⟩
  · exact absurd hbad hsafe

end

end

/-! ## Unlocking -/

/-- What unlocking `l` may do to a table: ranges of its owner are replaced by pieces of them. -/
structure Shrinks (l : RangeLockDetails) (T R : StdSet lt) : Prop where
  mem : ∀ x ∈ R, x ∈ T ∨ ∃ e ∈ T, e.owner = l.owner ∧ x.IsPiece e l
  kept : ∀ x ∈ T, x.owner ≠ l.owner → x ∈ R

namespace Shrinks

variable {l : RangeLockDetails} {T R S : StdSet lt}

theorem refl (T : StdSet lt) : Shrinks l T T := ⟨fun _ h => .inl h, fun _ h _ => h⟩

theorem trans (h : Shrinks l T R) (h' : Shrinks l R S) : Shrinks l T S where
  mem x hx := by
    rcases h'.mem x hx with hx | ⟨e, he, ho, hp⟩
    · exact h.mem x hx
    · rcases h.mem e he with he | ⟨f, hf, hfo, hq⟩
      · exact .inr ⟨e, he, ho, hp⟩
      · exact .inr ⟨f, hf, hfo, hp.trans hq⟩
  kept x hx ho := h'.kept x (h.kept x hx ho) ho

theorem of_replace {ps : List RangeLockDetails} (he : e ∈ T) (ho : e.owner = l.owner)
    (hps : ∀ p ∈ ps, p.IsPiece e l) (hmem : ∀ x ∈ R, x ∈ ps ∨ x ∈ T)
    (hkept : ∀ x ∈ T, x = e ∨ x ∈ R) : Shrinks l T R where
  mem x hx := (hmem x hx).symm.imp_right fun hx => ⟨e, he, ho, hps x hx⟩
  kept x hx hxo := (hkept x hx).resolve_left fun hxe => hxo (hxe ▸ ho)

theorem nonempty (h : Shrinks l T R) (hT : ∀ e ∈ T, e.Nonempty) : ∀ e ∈ R, e.Nonempty := by
  intro x hx
  rcases h.mem x hx with hx | ⟨e, -, -, hp⟩
  · exact hT x hx
  · exact hp.nonempty

theorem covered_le (h : Shrinks l T R) (o : NumNodeID × Int32) :
    covered R.toList o ⊆ covered T.toList o := by
  intro b ⟨x, hx, hxo, hb⟩
  rcases h.mem x hx with hx | ⟨e, he, -, hp⟩
  · exact ⟨x, hx, hxo, hb⟩
  · exact ⟨e, he, hp.owner_eq.symm.trans hxo, hp.mem_of_mem b hb⟩

end Shrinks

/-- A range that spans `l` ends the search, so a later one of the same owner is missed. -/
def Conceals (l a b : RangeLockDetails) : Prop :=
  a.owner = l.owner ∧ a.Spans l ∧ b.owner = l.owner ∧ l.overlaps b

instance (l a b : RangeLockDetails) : Decidable (Conceals l a b) :=
  inferInstanceAs (Decidable (_ ∧ _ ∧ _ ∧ _))

/-- Nothing of `l` is left to its owner. -/
def Released (l : RangeLockDetails) (es : List RangeLockDetails) : Prop :=
  ∀ e ∈ es, e.owner = l.owner → l.overlaps e = false

theorem Released.append {l : RangeLockDetails} {es fs : List RangeLockDetails}
    (h : Released l es) (h' : Released l fs) : Released l (es ++ fs) := by
  intro e he
  rcases mem_append.mp he with he | he
  · exact h e he
  · exact h' e he

section
variable [DecidableRel lt] [IsStrictOrder RangeLockDetails lt]
  {inReach : RangeLockDetails → Bool} {l : RangeLockDetails}

theorem nonempty_of_mem_insert_erase {c : Cursor lt} (hc : ∀ e ∈ c.toSet, e.Nonempty)
    (hp : p.Nonempty) :
    ∀ f ∈ (c.erase.insert p).toSet, f.Nonempty := by
  intro f hf
  rcases eq_or_mem_of_mem_toSet_insert hf with rfl | hf
  · exact hp
  · exact hc f (mem_toSet_of_mem_erase hf)

omit [DecidableRel lt] [IsStrictOrder RangeLockDetails lt] in
theorem unlockLoop_entry {c : Cursor lt} (hc : ∀ e ∈ c.toSet, e.Nonempty)
    (hcons : c.after = e :: es) (ho : ¬(!l.equalsHandle e)) : e.owner = l.owner ∧ e.Nonempty :=
  ⟨(equalsHandle_iff.mp (by simpa using ho)).symm,
    hc e (mem_append_right _ (hcons ▸ mem_cons_self))⟩

/-- The exclusive ranges from the first one on that starts behind `l` do not overlap it. -/
theorem overlaps_eq_false_of_ltExcl (e f : RangeLockDetails)
    (he : decide (e.start ≤ l.endPos) = false) (hf : f = e ∨ ltExcl e f) :
    l.overlaps f = false := by
  by_contra hov
  have hle := start_le_of_overlaps (Bool.not_eq_false _ ▸ hov)
  rw [decide_eq_false_iff_not] at he
  rcases hf with rfl | hf
  · exact he hle
  · exact he (UInt64.le_trans (UInt64.le_of_lt hf) hle)

theorem Released.not_conceals (h : Released l es) (hb : b ∈ es) : ¬Conceals l a b := by
  intro ⟨_, _, hbo, hover⟩
  rw [h b hb hbo] at hover
  cases hover

theorem pairwise_of_released (h : Released l es) : es.Pairwise fun a b => ¬Conceals l a b :=
  pairwise_of_forall_mem_list fun _ _ _ hb => h.not_conceals hb

theorem not_spans_of_overlaps_eq_false (hl : l.Nonempty) (h : l.overlaps e = false) :
    ¬e.Spans l := by
  intro hsp
  rw [hsp.overlaps hl] at h
  cases h

/-! ### Relations between the ranges of a table -/

/-- A relation that cutting ranges at `l` keeps: pieces inherit it, and it holds across `l`. -/
structure CutStable (l : RangeLockDetails) (R : RangeLockDetails → RangeLockDetails → Prop) :
    Prop where
  symm : ∀ x y, R x y → R y x
  piece : ∀ p e y, p.IsPiece e l → R e y → R p y
  across : ∀ p q, p.Nonempty → q.Nonempty → p.owner = q.owner → p.endPos < l.start →
    l.endPos < q.start → R p q

section
variable {R : RangeLockDetails → RangeLockDetails → Prop} {e : RangeLockDetails}
  {ps : List RangeLockDetails} {c : Cursor lt}

omit [DecidableRel lt] [IsStrictOrder RangeLockDetails lt] in
theorem CutStable.pairwise_pieces (H : CutStable l R) (hps : l.Leaves e ps) : ps.Pairwise R := by
  refine hps.sides.imp_of_mem fun {p q} hp hq h => H.symm q p ?_
  have hp := hps.isPiece p hp
  have hq := hps.isPiece q hq
  exact H.across q p hq.nonempty hp.nonempty (hq.owner_eq.trans hp.owner_eq.symm) h.1 h.2

omit [DecidableRel lt] in
/-- Replacing one range of a table by its pieces keeps the relation. -/
theorem CutStable.pairwise_cut {T : StdSet lt} (H : CutStable l R) (hcons : c.after = e :: es)
    (hps : l.Leaves e ps) (hT : ∀ x ∈ T, x ∈ ps ∨ x ∈ c.erase.toSet)
    (hc : Set.Pairwise {x | x ∈ c.toSet} R) :
    Set.Pairwise {x | x ∈ T} R := by
  have he : e ∈ c.toSet := mem_append_right _ (hcons ▸ mem_cons_self)
  have hold : ∀ x ∈ c.erase.toSet, R e x := fun x hx =>
    hc he (mem_toSet_of_mem_erase hx) (ne_of_mem_erase hcons hx).symm
  have hpieces := H.pairwise_pieces hps
  intro x hx y hy hne
  rcases hT x hx with hx | hx
  · rcases hT y hy with hy | hy
    · have : Std.Symm R := ⟨H.symm⟩
      exact hpieces.forall hx hy hne
    · exact H.piece x e y (hps.isPiece x hx) (hold y hy)
  · rcases hT y hy with hy | hy
    · exact H.symm y x (H.piece y e x (hps.isPiece y hy) (hold x hx))
    · exact hc (mem_toSet_of_mem_erase hx) (mem_toSet_of_mem_erase hy) hne

end

/-! ### The loop -/

section
variable (hl : l.Nonempty)
  (hreach : ∀ e f, inReach e = false → f = e ∨ lt e f → l.overlaps f = false)
include hl hreach

/-- The induction behind every fact about an unlock loop. The loop ends when nothing is left that
overlaps `l`, passes over a range that is not the owner's or does not overlap, returns from a range
that spans `l`, and replaces any other one by the pieces that `l` leaves of it. -/
theorem unlockLoop_induct {P : Cursor lt → Bool → UnlockLoop lt → Prop}
    (done : ∀ c removed, (∀ e ∈ c.after, l.overlaps e = false) →
      P c removed ⟨c.toSet, false, removed⟩)
    (pass : ∀ c removed e es out, c.after = e :: es →
      (e.owner = l.owner → l.overlaps e = false) → P c.next removed out → P c removed out)
    (ret : ∀ c removed e es (ps : List RangeLockDetails), c.after = e :: es →
      e.owner = l.owner → e.Spans l → l.Leaves e ps →
      P c removed ⟨insertAll ps c.erase.toSet, true, true⟩)
    (cut : ∀ c removed e es (ps : List RangeLockDetails) out, c.after = e :: es →
      e.owner = l.owner → ¬e.Spans l → l.Leaves e ps →
      P (insertAll ps c.erase) true out → P c removed out)
    (c : Cursor lt) (removed : Bool) (hc : ∀ e ∈ c.toSet, e.Nonempty) :
    P c removed (unlockLoop inReach l c removed) := by
  fun_induction unlockLoop inReach l c removed with
  | case1 c b hnil =>
    apply done
    rw [hnil]
    intro e he
    cases he
  | case2 c b e es hcons hr =>
    apply done
    intro f hf
    rw [hcons] at hf
    have hs := c.sorted
    rw [hcons] at hs
    have hes := pairwise_cons.mp (pairwise_append.mp hs).2.1
    exact hreach e f (by simpa using hr) ((mem_cons.mp hf).imp_right (hes.1 f))
  | case3 c b e es hcons _ ho ih =>
    have ho : l.owner ≠ e.owner := equalsHandle_eq_false.mp (by simpa using ho)
    refine pass c b e es _ hcons (fun h => absurd h.symm ho) (ih ?_)
    rwa [toSet_next]
  | case4 c b e es hcons _ ho hov =>
    obtain ⟨ho, he⟩ := unlockLoop_entry hc hcons ho
    have hsp := overlapsEx_spec hov
    refine ret c b e es [] hcons ho ⟨hsp.1 ▸ UInt64.le_refl _, hsp.2 ▸ UInt64.le_refl _⟩ ?_
    exact leaves_nil he ⟨hsp.1 ▸ UInt64.le_refl _, hsp.2 ▸ UInt64.le_refl _⟩
  | case5 c b e es hcons _ ho hov hend =>
    obtain ⟨ho, he⟩ := unlockLoop_entry hc hcons ho
    have hsp := overlapsEx_spec hov
    refine ret c b e es [e.trim l] hcons ho ⟨hsp.1, hsp.2.1⟩ (leaves_trim he hl ?_)
    grind
  | case6 c b e es hcons _ ho hov hend =>
    have ho := (unlockLoop_entry hc hcons ho).1
    have hsp := overlapsEx_spec hov
    rw [Bool.or_eq_true, beq_iff_eq, beq_iff_eq, not_or] at hend
    refine ret c b e es [(e.split l).2, (e.split l).1] hcons ho ⟨hsp.1, hsp.2.1⟩ ?_
    exact leaves_split (UInt64.lt_of_le_of_ne hsp.1 (Ne.symm hend.1))
      (UInt64.lt_of_le_of_ne hsp.2.1 hend.2) hl
  | case7 c b e es hcons _ ho hov ih =>
    obtain ⟨ho, he⟩ := unlockLoop_entry hc hcons ho
    have hsp := overlapsEx_spec hov
    refine cut c b e es [] _ hcons ho hsp.2.2 (leaves_nil he ⟨hsp.1, hsp.2.1⟩) (ih ?_)
    exact fun f hf => hc f (mem_toSet_of_mem_erase hf)
  | case8 c b e es hcons _ ho hov ih =>
    obtain ⟨ho, he⟩ := unlockLoop_entry hc hcons ho
    have hsp := overlapsEx_spec hov
    have hps := leaves_trim he hl (.inr (.inr (.inl hsp)))
    refine cut c b e es [e.trim l] _ hcons ho (fun h => UInt64.not_le.mpr hsp.1 h.1) hps (ih ?_)
    exact nonempty_of_mem_insert_erase hc (hps.isPiece _ (mem_singleton_self _)).nonempty
  | case9 c b e es hcons _ ho hov ih =>
    obtain ⟨ho, he⟩ := unlockLoop_entry hc hcons ho
    have hsp := overlapsEx_spec hov
    have hps := leaves_trim he hl (.inr (.inr (.inr hsp)))
    refine cut c b e es [e.trim l] _ hcons ho (fun h => UInt64.not_le.mpr hsp.2.2 h.2) hps (ih ?_)
    exact nonempty_of_mem_insert_erase hc (hps.isPiece _ (mem_singleton_self _)).nonempty
  | case10 c b e es hcons _ ho hov ih =>
    have hsp := overlapsEx_spec hov
    refine pass c b e es _ hcons (fun _ => hsp) (ih ?_)
    rwa [toSet_next]

theorem unlockLoop_of_released {T : StdSet lt} (hT : ∀ e ∈ T, e.Nonempty)
    (hrel : Released l T.toList) : unlockLoop inReach l T.begin false = ⟨T, false, false⟩ := by
  have hleaves : ∀ {c : Cursor lt} {e es ps}, c.after = e :: es → e.owner = l.owner →
      l.Leaves e ps → ¬Released l c.after := by
    intro c e es ps hcons ho hps hc
    have hover := hps.overlaps
    rw [hc e (hcons ▸ mem_cons_self) ho] at hover
    cases hover
  refine unlockLoop_induct (P := fun c b out => Released l c.after → out = ⟨c.toSet, false, b⟩) hl
    hreach ?done ?pass ?ret ?cut T.begin false hT hrel
  case done =>
    intro c b _ _
    rfl
  case pass =>
    intro c b e es out hcons _ ih hc
    have hnext : Released l c.next.after := fun f hf => hc f (mem_of_mem_tail hf)
    rw [ih hnext, toSet_next]
  case ret =>
    intro c b e es ps hcons ho _ hps hc
    exact absurd hc (hleaves hcons ho hps)
  case cut =>
    intro c b e es ps out hcons ho _ hps _ hc
    exact absurd hc (hleaves hcons ho hps)

section
variable (c : Cursor lt) (removed : Bool) (hc : ∀ e ∈ c.toSet, e.Nonempty)
include hc

theorem unlockLoop_shrinks :
    Shrinks l c.toSet (unlockLoop inReach l c removed).table ∧
      ((unlockLoop inReach l c removed).lockRemoved = false →
        (unlockLoop inReach l c removed).table = c.toSet ∧ removed = false) := by
  refine unlockLoop_induct (P := fun c removed out => Shrinks l c.toSet out.table ∧
    (out.lockRemoved = false → out.table = c.toSet ∧ removed = false)) hl hreach
    ?done ?pass ?ret ?cut c removed hc
  case done =>
    intro c removed _
    exact ⟨Shrinks.refl _, fun h => ⟨rfl, h⟩⟩
  case pass =>
    intro c removed e es out _ _ ih
    rwa [toSet_next] at ih
  case ret =>
    intro c removed e es ps hcons ho _ hps
    have he : e ∈ c.toSet := mem_append_right _ (hcons ▸ mem_cons_self)
    refine ⟨.of_replace he ho hps.isPiece (fun x hx => ?_) (fun x hx => ?_), fun h => by cases h⟩
    · exact (mem_or_mem_of_mem_insertAll hx).imp_right mem_toSet_of_mem_erase
    · exact (mem_toSet_erase hcons hx).imp_right (mem_insertAll_of_mem)
  case cut =>
    intro c removed e es ps out hcons ho _ hps ih
    have he : e ∈ c.toSet := mem_append_right _ (hcons ▸ mem_cons_self)
    refine ⟨.trans (.of_replace he ho hps.isPiece (fun x hx => ?_) (fun x hx => ?_))
      ih.1, fun h => ?_⟩
    · exact (mem_or_mem_of_mem_toSet_insertAll hx).imp_right mem_toSet_of_mem_erase
    · exact (mem_toSet_erase hcons hx).imp_right (mem_toSet_insertAll_of_mem)
    · exact absurd (ih.2 h).2 Bool.true_eq_false.mp

theorem unlockLoop_pairwise (H : CutStable l R) (hR : Set.Pairwise {x | x ∈ c.toSet} R) :
    Set.Pairwise {x | x ∈ (unlockLoop inReach l c removed).table} R := by
  refine unlockLoop_induct (P := fun c _ out => Set.Pairwise {x | x ∈ c.toSet} R →
    Set.Pairwise {x | x ∈ out.table} R) hl hreach ?done ?pass ?ret ?cut c removed hc hR
  case done => exact fun c b _ hR => hR
  case pass =>
    intro c b e es out _ _ ih hR
    rw [toSet_next] at ih
    exact ih hR
  case ret =>
    intro c b e es ps hcons _ _ hps hR
    exact H.pairwise_cut hcons hps (fun x hx => mem_or_mem_of_mem_insertAll hx) hR
  case cut =>
    intro c b e es ps out hcons _ _ hps ih hR
    exact ih (H.pairwise_cut hcons hps (fun x => mem_or_mem_of_mem_toSet_insertAll) hR)

/-- If related ranges have different places in the table, no byte outside `l` gets lost. -/
theorem covered_unlockLoop (H : CutStable l R) (hlt : ∀ x y, R x y → lt x y ∨ lt y x)
    (hR : Set.Pairwise {x | x ∈ c.toSet} R) {b : UInt64} (hbl : b ∉ l)
    (hb : b ∈ covered c.toSet.toList l.owner) :
    b ∈ covered (unlockLoop inReach l c removed).table.toList l.owner := by
  -- what a cut does to the bytes of the owner, given that all pieces have found their place
  have hcut : ∀ {c : Cursor lt} {T : StdSet lt} {e es ps}, c.after = e :: es → l.Leaves e ps →
      (∀ p ∈ ps, p ∈ T) → (∀ x ∈ c.erase.toSet, x ∈ T) →
      b ∈ covered c.toSet.toList l.owner → b ∈ covered T.toList l.owner := by
    intro c T e es ps hcons hps hin hkept ⟨x, hx, hxo, hbx⟩
    rcases mem_toSet_erase hcons hx with rfl | hx
    · obtain ⟨p, hp, hbp⟩ := hps.covers b hbx hbl
      exact ⟨p, hin p hp, (hps.isPiece p hp).owner_eq.trans hxo, hbp⟩
    · exact ⟨x, hkept x hx, hxo, hbx⟩
  have hplace : ∀ {c : Cursor lt} {e es ps}, c.after = e :: es → l.Leaves e ps →
      Set.Pairwise {x | x ∈ c.toSet} R → ps.Pairwise (fun p q => lt p q ∨ lt q p) ∧
        ∀ p ∈ ps, ∀ x ∈ c.erase.toSet, lt p x ∨ lt x p := by
    intro c e es ps hcons hps hR
    refine ⟨(H.pairwise_pieces hps).imp fun h => hlt _ _ h, fun p hp x hx => hlt p x ?_⟩
    refine H.piece p e x (hps.isPiece p hp) (hR ?_ (mem_toSet_of_mem_erase hx) ?_)
    · exact mem_append_right _ (hcons ▸ mem_cons_self)
    · exact (ne_of_mem_erase hcons hx).symm
  refine unlockLoop_induct (P := fun c _ out => Set.Pairwise {x | x ∈ c.toSet} R →
    b ∈ covered c.toSet.toList l.owner → b ∈ covered out.table.toList l.owner) hl hreach
    ?done ?pass ?ret ?cut c removed hc hR hb
  case done => exact fun c _ _ _ hb => hb
  case pass =>
    intro c _ e es out _ _ ih hR hb
    rw [toSet_next] at ih
    exact ih hR hb
  case ret =>
    intro c _ e es ps hcons _ _ hps hR hb
    obtain ⟨h1, h2⟩ := hplace hcons hps hR
    exact hcut hcons hps (fun p => mem_insertAll_self h1 h2) (fun x => mem_insertAll_of_mem) hb
  case cut =>
    intro c _ e es ps out hcons _ _ hps ih hR hb
    obtain ⟨h1, h2⟩ := hplace hcons hps hR
    refine ih (H.pairwise_cut hcons hps (fun x => mem_or_mem_of_mem_toSet_insertAll) hR) ?_
    exact hcut hcons hps (fun p => mem_toSet_insertAll_self h1 h2)
      (fun x => mem_toSet_insertAll_of_mem) hb

/-- A loop takes all of `l` from its owner, unless a range that spans `l` comes before another one
of the owner. It returns from the whole function if it meets a range that spans `l`. -/
theorem unlockLoop_released_iff (hbefore : Released l c.before) :
    (Released l (unlockLoop inReach l c removed).table.toList ↔
        c.after.Pairwise fun a b => ¬Conceals l a b) ∧
      ((unlockLoop inReach l c removed).returned ↔
        ∃ e ∈ c.after, e.owner = l.owner ∧ e.Spans l) := by
  refine unlockLoop_induct (P := fun c _ out => Released l c.before →
    (Released l out.table.toList ↔ c.after.Pairwise fun a b => ¬Conceals l a b) ∧
      (out.returned ↔ ∃ e ∈ c.after, e.owner = l.owner ∧ e.Spans l)) hl hreach
    ?done ?pass ?ret ?cut c removed hc hbefore
  case done =>
    intro c removed hover hbefore
    have hafter : Released l c.after := fun e he _ => hover e he
    refine ⟨⟨fun _ => pairwise_of_released hafter, fun _ => ?_⟩, ⟨Bool.noConfusion, ?_⟩⟩
    · exact hbefore.append hafter
    · intro ⟨e, he, _, hsp⟩
      exact absurd hsp (not_spans_of_overlaps_eq_false hl (hover e he))
  case pass =>
    intro c removed e es out hcons hpass ih hbefore
    have hsp : ¬(e.owner = l.owner ∧ e.Spans l) := fun h =>
      not_spans_of_overlaps_eq_false hl (hpass h.1) h.2
    have hnext : Released l c.next.before := by
      refine hbefore.append fun f hf ho => ?_
      rw [hcons] at hf
      obtain rfl := mem_singleton.mp hf
      exact hpass ho
    obtain ⟨ih1, ih2⟩ := ih hnext
    rw [next_after, hcons, tail_cons] at ih1 ih2
    rw [hcons, pairwise_cons]
    refine ⟨ih1.trans ⟨fun h => ⟨fun f _ hcon => hsp ⟨hcon.1, hcon.2.1⟩, h⟩, And.right⟩, ?_⟩
    rw [ih2, exists_mem_cons_iff]
    exact ⟨.inr, fun h => h.resolve_left hsp⟩
  case ret =>
    intro c removed e es ps hcons ho hsp hps hbefore
    rw [hcons, pairwise_cons]
    refine ⟨⟨fun h => ?_, fun h => ?_⟩, ⟨fun _ => ⟨e, mem_cons_self, ho, hsp⟩, fun _ => rfl⟩⟩
    · have hes : Released l es := by
        intro f hf
        apply h
        apply mem_insertAll_of_mem
        apply mem_append_right
        rw [erase_after, hcons]
        exact hf
      exact ⟨fun f hf => hes.not_conceals hf, pairwise_of_released hes⟩
    · intro f hf hfo
      rcases mem_or_mem_of_mem_insertAll hf with hf | hf
      · exact (hps.isPiece f hf).overlaps_eq_false hl
      rcases mem_append.mp hf with hf | hf
      · exact hbefore f hf hfo
      · rw [erase_after, hcons] at hf
        by_contra hover
        exact h.1 f hf ⟨ho, hsp, hfo, by simpa using hover⟩
  case cut =>
    intro c removed e es ps out hcons ho hsp hps ih hbefore
    have hpiece : ∀ p ∈ ps, l.overlaps p = false := fun p hp =>
      (hps.isPiece p hp).overlaps_eq_false hl
    obtain ⟨ih1, ih2⟩ := ih fun f hf hfo => by
      rcases mem_or_mem_of_mem_insertAll_before hf with hf | hf
      · exact hpiece f hf
      · exact hbefore f hf hfo
    -- a piece does not overlap `l`, so it neither conceals nor is concealed
    have hpieces : Released l ps := fun p hp _ => hpiece p hp
    have hspan : ∀ p ∈ ps, ¬(p.owner = l.owner ∧ p.Spans l) := fun p hp h =>
      not_spans_of_overlaps_eq_false hl (hpiece p hp) h.2
    have hcon : ∀ p ∈ ps, ∀ f, ¬Conceals l p f ∧ ¬Conceals l f p := fun p hp f =>
      ⟨fun hcon => hspan p hp ⟨hcon.1, hcon.2.1⟩, hpieces.not_conceals hp⟩
    rw [pairwise_insertAll_after_iff hcon, erase_after, hcons, tail_cons] at ih1
    rw [mem_insertAll_after_iff hspan, erase_after, hcons, tail_cons] at ih2
    rw [hcons, pairwise_cons, ih1, ih2, exists_mem_cons_iff]
    refine ⟨⟨fun h => ⟨fun f _ hcon => hsp hcon.2.1, h⟩, And.right⟩, ⟨.inr, fun h => ?_⟩⟩
    exact h.resolve_left fun h => hsp h.2

end
end
end

end Congfs
