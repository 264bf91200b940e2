import Congfs.Locking.RangeQueues

/-!
# A granted range is recorded

A request that is answered with a grant, or notified later, is in the table of its mode when the
call returns: all its bytes are held by its owner. This can fail for one kind of request only, those
that start inside the file and reach the last offset, because `end + 1` is `0` for them: a shorter
range of the same owner with the same start is not merged, and keeps the request out of the table
(`grantsRecorded_iff`).
-/

namespace Congfs

open RangeLockDetails StdSet RangeLockOp
open List

namespace RangeLockDetails

variable {l : RangeLockDetails} {m m' : LockMode}

theorem Asks.mode_eq (h : l.Asks m) (h' : l.Asks m') : m = m' := by
  have he := h.isShared.symm.trans h'.isShared
  cases m <;> cases m' <;> first | rfl | cases he

theorem Asks.not_cancel (h : l.Asks m) (hone : l.lockTypeFlags.OneOp) :
    l.isCancel = false ∧ l.isUnlock = false := by
  have hs : l.lockTypeFlags.isShared = (m == .shared) := h.isShared
  have he : l.lockTypeFlags.isExclusive = (m == .exclusive) := h.isExclusive
  change l.lockTypeFlags.isCancel = false ∧ l.lockTypeFlags.isUnlock = false
  unfold LockTypeFlags.OneOp at hone
  rw [hs, he] at hone
  revert hone
  cases m <;> cases l.lockTypeFlags.isCancel <;> cases l.lockTypeFlags.isUnlock <;> decide

end RangeLockDetails

namespace RangeLocks

variable {s s' : RangeLocks} {l w r : RangeLockDetails} {m : LockMode} {op : RangeLockOp}
  {released granted : Bool}

/-! ## Requests that are held already -/

theorem exists_spans_of_isGrantedLoop (h : isGrantedLoop l es) :
    ∃ e ∈ es, e.owner = l.owner ∧ e.Spans l := by
  induction es with
  | nil => cases h
  | cons e es ih =>
    have hnext : isGrantedLoop l es → ∃ e' ∈ e :: es, e'.owner = l.owner ∧ e'.Spans l := by
      intro h
      obtain ⟨f, hf, hfl⟩ := ih h
      exact ⟨f, mem_cons_of_mem _ hf, hfl⟩
    rw [isGrantedLoop] at h
    cases ho : l.equalsHandle e with
    | false =>
      rw [ho] at h
      exact hnext h
    | true =>
      rw [ho] at h
      have hown : e.owner = l.owner := (equalsHandle_iff.mp ho).symm
      cases hov : l.overlapsEx e <;> have hspec := overlapsEx_spec hov <;> rw [hov] at h
      case none => exact hnext h
      case equals =>
        exact ⟨e, mem_cons_self, hown, hspec.1 ▸ UInt64.le_refl _, hspec.2 ▸ UInt64.le_refl _⟩
      case isContained => exact ⟨e, mem_cons_self, hown, hspec.1, hspec.2.1⟩
      all_goals cases h

theorem exists_spans_of_isGranted (hl : l.Asks m) (h : s.flockRangeIsGranted l) :
    ∃ e ∈ s.locks m, e.owner = l.owner ∧ e.Spans l := by
  unfold flockRangeIsGranted at h
  rw [hl.isExclusive, hl.isShared] at h
  cases m with
  | exclusive =>
    obtain ⟨e, he, hel⟩ := exists_spans_of_isGrantedLoop (show isGrantedLoop l _ = true from h)
    exact ⟨e, takeWhile_subset _ he, hel⟩
  | shared => exact exists_spans_of_isGrantedLoop (show isGrantedLoop l _ = true from h)

/-! ## Grants are recorded -/

theorem held_le_of_steps (h : Steps GrantStep s ws s') (hs : s.Safe) : s.held ≤ s'.held := by
  induction h with
  | nil => exact le_refl _
  | cons hg _ ih => exact (hg.held_le hs).trans (ih (hs.grantStep hg))

/-- A waiter that is granted is recorded, and stays so while others are granted. -/
theorem bytes_subset_held_of_steps (h : Steps GrantStep s ws s') (hs : s.Safe) (hr : r ∈ ws)
    (hasks : r.Asks m) (hsafe : ¬Overflows r) :
    r.bytes ⊆ s'.held m r.owner := by
  obtain ⟨l1, l2, t, t', -, h1, hg, h2⟩ := h.split_of_mem hr
  have ht : t.Safe := h1.inv (fun _ _ _ h hs => hs.grantStep h) hs
  obtain ⟨m', hasks', hb, hlocks⟩ := hg.spec ht
  obtain rfl := hasks.mode_eq hasks'
  have hrec := bytes_subset_held_grant ht.nonempty ht.excludes hasks hb hsafe
  have hle := held_le_of_steps h2 (ht.grantStep hg)
  intro b hbr
  apply hle m r.owner
  unfold held at hrec ⊢
  rw [hlocks]
  exact hrec hbr

/-- The call tells the owner of `r` that it has its lock: it answers `r` so, or it notifies `r`,
which was queued before or is the request of this call. -/
def Answers (s : RangeLocks) (op : RangeLockOp) (r : RangeLockDetails) : Prop :=
  (op = .flock r ∧ (s.call op).1.1) ∨
  ((op = .flock r ∨ ∃ m, r ∈ s.waiters m) ∧ ∃ x ∈ (s.call op).1.2, x.lockAckID = r.lockAckID)

/-- A request that is granted at once is recorded before the waiters are tried. -/
theorem bytes_subset_held_of_edit (hs : s.Safe) (hv : (flock r).Valid)
    (hasks : r.Asks m) (hsafe : ¬Overflows r) (h : Edit s (.flock r) released true s') :
    r.bytes ⊆ s'.held m r.owner := by
  obtain ⟨hc, hu⟩ := hasks.not_cancel hv.1
  rcases h.granted_cases hc hu with ⟨hg, rfl⟩ | ⟨hfree, rfl⟩
  · obtain ⟨e, he, ho, hsp⟩ := exists_spans_of_isGranted hasks hg
    exact fun b hb => ⟨e, he, ho, hsp.mem hb⟩
  · have ht := hs.unlock hv.2
    refine bytes_subset_held_grant ht.nonempty ht.excludes hasks (fun hb => ?_) hsafe
    exact not_blocks_of_free hs hasks hfree (hb.mono (held_flockRangeUnlock_le hs.nonempty hv.2))

theorem eq_of_notified (hi : s.IDsIndexed) (hc : r.isCancel = false) (hu : r.isUnlock = false)
    (hop : op = .flock r ∨ ∃ m, r ∈ s.waiters m) (hedit : Edit s op released granted s')
    (hnil : released = false → ws = []) (hsteps : Steps GrantStep s' ws (s.step op)) (hv : v ∈ ws)
    (hid : v.lockAckID = r.lockAckID) : v = r := by
  obtain ⟨m, hvs'⟩ := mem_waiters_of_steps hsteps hv
  rcases hop with rfl | ⟨mr, hr⟩
  · by_cases hmem : r.lockAckID ∈ s.waitersLockIDsRangeFLock
    · rw [hnil (hedit.eq_of_waiting hc hu hmem)] at hv
      cases hv
    · exact (hi.eq_of_edit_new hedit hmem hvs' hid).1
  · exact hi.eq_of_edit hedit hr hvs' hid

theorem recorded_of_answers (hs : s.Safe) (hi : s.IDsIndexed) (hv : op.Valid)
    (hone : r.lockTypeFlags.OneOp) (hasks : r.Asks m) (hsafe : ¬Overflows r)
    (h : Answers s op r) : r.bytes ⊆ (s.step op).held m r.owner := by
  obtain ⟨hc, hu⟩ := hasks.not_cancel hone
  obtain ⟨released, s', ws, hedit, hsteps, hns, hnil⟩ := s.call_steps op
  have hs' := hs.edit hv hedit
  rcases h with ⟨rfl, hgranted⟩ | ⟨hop, x, hx, hxr⟩
  · rw [hgranted] at hedit
    exact (bytes_subset_held_of_edit hs hv hasks hsafe hedit).trans
      (held_le_of_steps hsteps hs' m r.owner)
  · have hmem : r.lockAckID ∈ ws.map (·.lockAckID) := by
      rw [← hns, ← hxr]
      exact mem_map_of_mem hx
    obtain ⟨v, hv, hvr⟩ := mem_map.mp hmem
    obtain rfl := eq_of_notified hi hc hu hop hedit hnil hsteps hv hvr
    exact bytes_subset_held_of_steps hsteps hs' hv hasks hsafe

/-- In every run, whoever is told that it has the lock on `[start, endPos]` holds every byte of it
in the mode it asked for, right after the call. -/
def GrantsRecorded (start endPos : UInt64) : Prop :=
  ∀ s op r m, Reachable step RangeLockOp.Valid empty s → op.Valid →
    r.lockTypeFlags.OneOp → r.Asks m → r.start = start → r.endPos = endPos →
    Answers s op r → r.bytes ⊆ (s.step op).held m r.owner

/-! ## The requests that get lost -/

theorem step_first_request (hs : s.Safe) (hv : (flock l).Valid) (hl : l.Asks m)
    (hid : l.lockAckID ∉ s.waitersLockIDsRangeFLock) (hw : l.allowsWaiting)
    (h : ∀ m, ∀ e ∈ s.locks m, e.owner ≠ l.owner) :
    s.step (.flock l) =
      if (s.flockRangeCheckConflicts l).isSome then s.enqueue l else s.grant l := by
  obtain ⟨hc, hu⟩ := hl.not_cancel hv.1
  have hg : s.flockRangeIsGranted l = false := by
    by_contra hg
    obtain ⟨e, he, ho, -⟩ := exists_spans_of_isGranted hl (Bool.not_eq_false _ ▸ hg)
    exact h m e he ho
  have hunlock := flockRangeUnlock_of_released hs.nonempty hv.2 fun m e he ho =>
    absurd ho (h m e he)
  simp only [step, call, flockRangeUnlocked, hc, hu, hg, hw, hid, hunlock, Bool.or_true, if_true,
    if_false, Bool.false_eq_true]
  cases s.flockRangeCheckConflicts l <;> rfl

def lastByte : RangeLockDetails := ⟨1, 1, "a", entryLockTypeExclusive, maxOffset, maxOffset⟩

/-- A request of another client from `a` to the last byte, which has to wait for `lastByte`. -/
def toTheEnd (a : UInt64) : RangeLockDetails := ⟨2, 1, "b", entryLockTypeExclusive, a, maxOffset⟩

/-- A second request of that client, which does not. -/
def oneByte (a : UInt64) : RangeLockDetails := ⟨2, 1, "c", entryLockTypeExclusive, a, a⟩

theorem asks_exclusive (hf : l.lockTypeFlags = entryLockTypeExclusive) (hl : l.Nonempty) :
    l.Asks .exclusive where
  nonempty := hl
  isShared := by
    unfold isShared
    rw [hf]
    decide
  isExclusive := by
    unfold isExclusive
    rw [hf]
    decide

theorem valid_exclusive (hf : l.lockTypeFlags = entryLockTypeExclusive) (hl : l.Nonempty) :
    (flock l).Valid := by
  refine ⟨?_, hl⟩
  rw [hf]
  decide

section
variable {a : UInt64}

theorem asks_toTheEnd (a : UInt64) : (toTheEnd a).Asks .exclusive :=
  asks_exclusive rfl le_maxOffset

theorem asks_oneByte (a : UInt64) : (oneByte a).Asks .exclusive :=
  asks_exclusive rfl (UInt64.le_refl a)

theorem valid_toTheEnd (a : UInt64) : (flock (toTheEnd a)).Valid :=
  valid_exclusive rfl (asks_toTheEnd a).nonempty

theorem valid_oneByte (a : UInt64) : (flock (oneByte a)).Valid :=
  valid_exclusive rfl (asks_oneByte a).nonempty

theorem allowsWaiting_exclusive (hf : l.lockTypeFlags = entryLockTypeExclusive) :
    l.allowsWaiting := by
  unfold allowsWaiting
  rw [hf]
  decide

theorem lastByte_owner_ne : lastByte.owner ≠ (2, 1) := by decide

theorem owner_ne_of_lastByte (he : s.locks .exclusive = [lastByte]) (hs : s.locks .shared = []) :
    ∀ m, ∀ e ∈ s.locks m, e.owner ≠ (2, 1) := by
  intro m e hm
  cases m with
  | exclusive =>
    rw [he] at hm
    rw [mem_singleton.mp hm]
    exact lastByte_owner_ne
  | shared =>
    rw [hs] at hm
    cases hm

theorem step_toTheEnd (hs : s.Safe) (he : s.locks .exclusive = [lastByte])
    (hsh : s.locks .shared = []) (hid : (toTheEnd a).lockAckID ∉ s.waitersLockIDsRangeFLock) :
    s.step (.flock (toTheEnd a)) = s.enqueue (toTheEnd a) := by
  rw [step_first_request hs (valid_toTheEnd a) (asks_toTheEnd a) hid
    (allowsWaiting_exclusive rfl) (owner_ne_of_lastByte he hsh), if_pos]
  refine (conflicts_iff hs.nonempty (asks_toTheEnd a) (-1)).mpr (.inl ?_)
  refine ⟨.exclusive, lastByte.owner, maxOffset, ⟨le_maxOffset, UInt64.le_refl _⟩, ?_,
    lastByte_owner_ne, fun h => LockMode.noConfusion h.1⟩
  refine ⟨lastByte, ?_, rfl, UInt64.le_refl _, UInt64.le_refl _⟩
  rw [he]
  exact mem_cons_self

/-- The request for one byte does not touch the last one, and the waiting writer is its own. -/
theorem step_oneByte (ha : a < maxOffset) (hs : s.Safe) (he : s.locks .exclusive = [lastByte])
    (hsh : s.locks .shared = []) (hq : s.waitersExclRangeFLock = [toTheEnd a])
    (hid : (oneByte a).lockAckID ∉ s.waitersLockIDsRangeFLock) :
    s.step (.flock (oneByte a)) = s.grant (oneByte a) := by
  rw [step_first_request hs (valid_oneByte a) (asks_oneByte a) hid
    (allowsWaiting_exclusive rfl) (owner_ne_of_lastByte he hsh), if_neg]
  intro hconf
  rcases (conflicts_iff hs.nonempty (asks_oneByte a) (-1)).mp hconf with hb | hw
  · obtain ⟨m, o, b, hb, ⟨e, hm, -, hbe⟩, -, -⟩ := hb
    cases m with
    | exclusive =>
      rw [he] at hm
      rw [mem_singleton.mp hm] at hbe
      exact absurd (UInt64.le_trans hbe.1 hb.2) (UInt64.not_le.mpr ha)
    | shared =>
      rw [hsh] at hm
      cases hm
  · obtain ⟨w, hw, hopp⟩ := (checkExclWaiters_all _ (by omega)).mp hw
    rw [hq] at hw
    rw [mem_singleton.mp hw] at hopp
    exact hopp.2 rfl

/-- The tables before the lock on the last byte is removed: the second client holds `oneByte a` and
waits for `toTheEnd a`. -/
theorem reachable_oneByte (ha : a < maxOffset) :
    ∃ s, Reachable step RangeLockOp.Valid empty s ∧ s.locks .exclusive = [oneByte a, lastByte] ∧
      s.locks .shared = [] ∧ s.waitersExclRangeFLock = [toTheEnd a] ∧
      s.waitersSharedRangeFLock = [] := by
  have hr1 : Reachable step RangeLockOp.Valid empty (empty.step (.flock lastByte)) :=
    Reachable.init.step (by decide)
  obtain ⟨he, hs, hwe, hws, hid⟩ : (empty.step (.flock lastByte)).locks .exclusive = [lastByte] ∧
      (empty.step (.flock lastByte)).locks .shared = [] ∧
      (empty.step (.flock lastByte)).waitersExclRangeFLock = [] ∧
      (empty.step (.flock lastByte)).waitersSharedRangeFLock = [] ∧
      (empty.step (.flock lastByte)).waitersLockIDsRangeFLock = ∅ := by decide +kernel
  generalize empty.step (.flock lastByte) = s1 at hr1 he hs hwe hws hid
  have hr2 := hr1.step (valid_toTheEnd a)
  rw [step_toTheEnd (Safe.of_reachable hr1) he hs (by rw [hid]; exact Finset.notMem_empty _),
    enqueue_eq_exclusive (asks_toTheEnd a), hwe, hid] at hr2
  have hr3 := hr2.step (valid_oneByte a)
  rw [step_oneByte ha (Safe.of_reachable hr2) he hs rfl (by simp [oneByte, toTheEnd]),
    grant_eq_exclusive (asks_oneByte a)] at hr3
  refine ⟨_, hr3, ?_, hs, rfl, hws⟩
  have hself : ∀ e ∈ s1.locks .exclusive, e.owner = (oneByte a).owner →
      (oneByte a).isMergeable e = false := fun e hm ho =>
    absurd ho (owner_ne_of_lastByte he hs .exclusive e hm)
  change insertList ltExcl (mergeLoop _ (oneByte a) (s1.locks .exclusive)).1
    (mergeLoop _ (oneByte a) (s1.locks .exclusive)).2 = _
  rw [mergeLoop_eq_self hself, he]
  exact if_pos ha

/-- Granting `toTheEnd a` next to `oneByte a` does nothing: the ranges are not merged, and the one
in the table has the same start. -/
theorem locks_grant_toTheEnd (ha : 0 < a) (he : s.locks .exclusive = [oneByte a]) :
    (s.grant (toTheEnd a)).locks .exclusive = [oneByte a] := by
  rw [grant_eq_exclusive (asks_toTheEnd a)]
  change insertList ltExcl (mergeLoop _ (toTheEnd a) (s.locks .exclusive)).1
    (mergeLoop _ (toTheEnd a) (s.locks .exclusive)).2 = _
  have hself : ∀ e ∈ s.locks .exclusive, e.owner = (toTheEnd a).owner →
      (toTheEnd a).isMergeable e = false := by
    intro e hm _
    rw [he] at hm
    rw [mem_singleton.mp hm]
    exact isMergeable_eq_false_of_end rfl ha
  rw [mergeLoop_eq_self hself, he]
  exact insertList_eq_self (pairwise_singleton ..) mem_cons_self (UInt64.lt_irrefl a)
    (UInt64.lt_irrefl a)

/-- Without the lock on the last byte nothing keeps `toTheEnd a` from being granted. -/
theorem tryNext_toTheEnd (ha : 0 < a) (hs : s.Safe) (he : s.locks .exclusive = [oneByte a])
    (hsh : s.locks .shared = []) (hwe : s.waitersExclRangeFLock = [toTheEnd a])
    (hws : s.waitersSharedRangeFLock = []) :
    s.flockRangeTryNextWaiters.1 = [(s.mergeExcl (toTheEnd a)).1] ∧
      s.flockRangeTryNextWaiters.2.locks .exclusive = [oneByte a] := by
  have hq : s.waitersExclRangeFLock = [] ++ toTheEnd a :: [] := hwe
  unfold flockRangeTryNextWaiters
  rcases tryNextExclLoop_cons hq [] with ⟨hconf, -⟩ | ⟨t, hg, hqt, hloop⟩
  · exfalso
    rcases (conflicts_iff hs.nonempty (asks_toTheEnd a) _).mp hconf with hb | hw
    · obtain ⟨m, o, b, -, ⟨e, hm, rfl, -⟩, ho, -⟩ := hb
      cases m with
      | exclusive =>
        rw [he] at hm
        rw [mem_singleton.mp hm] at ho
        exact ho rfl
      | shared =>
        rw [hsh] at hm
        cases hm
    · obtain ⟨w, hw, -⟩ := (checkExclWaiters_take 0).mp hw
      cases hw
  · have hwt : t.waitersSharedRangeFLock = [] := by
      have hsub : t.waitersSharedRangeFLock.Sublist s.waitersSharedRangeFLock :=
        hg.waiters_sublist .shared
      rw [hws] at hsub
      exact sublist_nil.mp hsub
    rw [append_nil] at hqt
    rw [hwe, hloop, tryNextExclLoop_nil hqt]
    dsimp only
    rw [hwt, tryNextSharedLoop_nil hwt]
    obtain ⟨_, _, _, hlocks⟩ := hg.spec hs
    rw [hlocks]
    exact ⟨rfl, locks_grant_toTheEnd ha he⟩

/-- When the lock on the last byte goes, `toTheEnd a` is notified but not recorded. -/
theorem toTheEnd_lost (h0 : 0 < a) (ha : a < maxOffset) :
    ∃ s op, Reachable step RangeLockOp.Valid empty s ∧ op.Valid ∧ Answers s op (toTheEnd a) ∧
      maxOffset ∉ (s.step op).held .exclusive (toTheEnd a).owner := by
  obtain ⟨s, hr, he, hs, hwe, hws⟩ := reachable_oneByte ha
  have hfilter : ∀ (p : RangeLockDetails → Bool), p (oneByte a) → p lastByte = false →
      [oneByte a, lastByte].filter p = [oneByte a] := by
    intro p hp hp'
    rw [filter_cons_of_pos hp, filter_cons_of_neg (by simp [hp']), filter_nil]
  have hrel : (s.removeMatching fun e => e.clientNumID == 1).1 := by
    have hany : s.exclRangeFLocks.toList.any (fun e => e.clientNumID == 1) := by
      have he' : s.exclRangeFLocks.toList = [oneByte a, lastByte] := he
      rw [he']
      exact Bool.or_true _
    unfold removeMatching
    simp only [hany, Bool.true_or]
  obtain ⟨hns, hlocks⟩ := tryNext_toTheEnd (a := a)
    (s := (s.removeMatching fun e => e.clientNumID == 1).2) h0
    ((Safe.of_reachable hr).removeMatching _)
    (by rw [locks_removeMatching, he]; exact hfilter _ rfl rfl)
    (by rw [locks_removeMatching, hs]; rfl)
    (by
      have hw := waiters_removeMatching (s := s) (m := .exclusive) fun e => e.clientNumID == 1
      exact hw.trans (congrArg (List.filter _) hwe))
    (by
      have hw := waiters_removeMatching (s := s) (m := .shared) fun e => e.clientNumID == 1
      exact hw.trans (congrArg (List.filter _) hws))
  have hcall : s.call (.cancelByClientID 1) =
      ((true, (s.removeMatching fun e => e.clientNumID == 1).2.flockRangeTryNextWaiters.1),
        (s.removeMatching fun e => e.clientNumID == 1).2.flockRangeTryNextWaiters.2) := by
    simp only [call, flockRangeCancelByClientID, hrel, if_true]
  refine ⟨s, .cancelByClientID 1, hr, trivial, .inr ⟨.inr ⟨.exclusive, ?_⟩, ?_⟩, ?_⟩
  · change _ ∈ s.waitersExclRangeFLock
    rw [hwe]
    exact mem_cons_self
  · rw [hcall, hns]
    exact ⟨_, mem_cons_self, mergeInto_lockAckID⟩
  · rintro ⟨e, hm, -, hb⟩
    unfold step at hm
    rw [hcall, hlocks] at hm
    rw [mem_singleton.mp hm] at hb
    exact absurd hb.2 (UInt64.not_le.mpr ha)

end

/-- Requests for `[start, endPos]` are recorded in every run, unless they start inside the file and
reach the last offset. -/
theorem grantsRecorded_iff (start endPos : UInt64) :
    GrantsRecorded start endPos ↔ ¬(0 < start ∧ start < maxOffset ∧ endPos = maxOffset) := by
  constructor
  · intro h ⟨h0, ha, hend⟩
    obtain ⟨s, op, hs, hv, hans, hlost⟩ := toTheEnd_lost h0 ha
    refine hlost (h s op _ _ hs hv ?_ (asks_toTheEnd start) rfl hend.symm hans ?_)
    · exact (valid_toTheEnd start).1
    · exact ⟨le_maxOffset, UInt64.le_refl _⟩
  · intro hsafe s op r m hs hv hone hasks hstart hend hans
    refine recorded_of_answers (Safe.of_reachable hs) (IDsIndexed.of_reachable hs) hv hone hasks ?_
      hans
    unfold Overflows
    rwa [hstart, hend]

/-- A client waits for the bytes from 5 to the last one, which another client has locked, and locks
byte 5 meanwhile. -/
def byteWhileWaiting : List RangeLockOp :=
  [.flock lastByte, .flock (toTheEnd 5), .flock (oneByte 5)]

/-- When the last byte is unlocked, the waiting request is notified, but only byte 5 is held. -/
theorem not_grantsRecorded_byteWhileWaiting : ¬∀ start endPos, GrantsRecorded start endPos := by
  intro h
  have hs : Reachable step RangeLockOp.Valid empty (run step empty byteWhileWaiting) :=
    Reachable.init.run (by decide)
  have hans : Answers (run step empty byteWhileWaiting)
      (.flock ⟨1, 1, "d", entryLockTypeUnlock, maxOffset, maxOffset⟩) (toTheEnd 5) :=
    .inr ⟨.inr ⟨.exclusive, by decide +kernel⟩, toTheEnd 5, by decide +kernel, rfl⟩
  obtain ⟨e, he, -, hb⟩ := h 5 maxOffset _ _ (toTheEnd 5) .exclusive hs (by decide) (by decide)
    (asks_toTheEnd 5) rfl rfl hans ⟨le_maxOffset, UInt64.le_refl maxOffset⟩
  have hlocks : ((run step empty byteWhileWaiting).step
      (.flock ⟨1, 1, "d", entryLockTypeUnlock, maxOffset, maxOffset⟩)).locks .exclusive =
      [oneByte 5] := by decide +kernel
  rw [hlocks] at he
  rw [mem_singleton.mp he] at hb
  exact absurd hb (by decide)

end RangeLocks

end Congfs
