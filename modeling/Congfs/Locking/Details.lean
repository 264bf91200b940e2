import Congfs.Nodes.Basic

/-!
# Lock requests

The requests of `Locking.h`: entry locks (`flock`), which belong to a file handle of a client, and
range locks (`fcntl`), which belong to a process of a client and span the bytes from `start` to
`endPos` inclusive (`end` in the source). Both carry the operation in a set of flags.

All arithmetic on ranges is that of 64-bit unsigned integers: `endPos + 1` is `0` for a range that
reaches the last offset. `isMergeable` depends on it, while `trim` and `split` are only used where
it cannot happen (`IsPiece`).
-/

namespace Congfs

abbrev LockTypeFlags := BitVec 32

def entryLockTypeUnlock : LockTypeFlags := 1
def entryLockTypeExclusive : LockTypeFlags := 2
def entryLockTypeShared : LockTypeFlags := 4
def entryLockTypeNowait : LockTypeFlags := 8
def entryLockTypeCancel : LockTypeFlags := 16

namespace LockTypeFlags

section

variable (flags : LockTypeFlags)

def allowsWaiting : Bool := (flags &&& entryLockTypeNowait) == 0

def isUnlock : Bool := (flags &&& entryLockTypeUnlock) != 0

def isExclusive : Bool := (flags &&& entryLockTypeExclusive) != 0

def isShared : Bool := (flags &&& entryLockTypeShared) != 0

def isCancel : Bool := (flags &&& entryLockTypeCancel) != 0

/-- A request asks for one operation. -/
def OneOp : Prop :=
  [flags.isShared, flags.isExclusive, flags.isUnlock, flags.isCancel].count true = 1

end

instance (flags : LockTypeFlags) : Decidable flags.OneOp := inferInstanceAs (Decidable (_ = _))

theorem OneOp.cases {flags : LockTypeFlags} (h : flags.OneOp) :
    (flags.isCancel ∧ flags.isUnlock = false) ∨
    (flags.isCancel = false ∧ flags.isUnlock) ∨
    (flags.isCancel = false ∧ flags.isUnlock = false ∧ flags.isShared ∧ flags.isExclusive = false) ∨
    (flags.isCancel = false ∧ flags.isUnlock = false ∧ flags.isShared = false ∧
      flags.isExclusive) := by
  unfold OneOp at h
  revert h
  cases flags.isShared <;> cases flags.isExclusive <;> cases flags.isUnlock <;>
    cases flags.isCancel <;> simp

end LockTypeFlags

/-! ## Entry locks -/

/-- Entry locks are held per file handle: `clientFD` identifies it on the client. -/
structure EntryLockDetails where
  clientNumID : NumNodeID
  clientFD : Int64
  ownerPID : Int32
  lockAckID : String
  lockTypeFlags : LockTypeFlags
deriving DecidableEq, Repr

namespace EntryLockDetails

/-- The default constructor: an unset lock has client id 0. It leaves the other fields
uninitialised, which is the same as any fixed values for requests of clients other than 0. -/
def unset : EntryLockDetails := ⟨0, 0, 0, "", 0⟩

variable (l : EntryLockDetails)

def isSet : Bool := l.clientNumID != 0

def allowsWaiting : Bool := l.lockTypeFlags.allowsWaiting
def isUnlock : Bool := l.lockTypeFlags.isUnlock
def isExclusive : Bool := l.lockTypeFlags.isExclusive
def isShared : Bool := l.lockTypeFlags.isShared
def isCancel : Bool := l.lockTypeFlags.isCancel

def equalsHandle (l other : EntryLockDetails) : Bool :=
  l.clientFD == other.clientFD && l.clientNumID == other.clientNumID

/-- The file handle a lock belongs to. -/
def handle : NumNodeID × Int64 := (l.clientNumID, l.clientFD)

/-- `MapComparator`: order by file handle. -/
def lt (a b : EntryLockDetails) : Prop :=
  a.clientFD < b.clientFD ∨ a.clientFD = b.clientFD ∧ a.clientNumID < b.clientNumID

instance : DecidableRel lt := fun _ _ => inferInstanceAs (Decidable (_ ∨ _))

instance : IsStrictOrder EntryLockDetails lt where
  irrefl a h := by unfold lt at h; grind
  trans a b c h h' := by unfold lt at *; grind

theorem equalsHandle_iff {l other : EntryLockDetails} :
    l.equalsHandle other ↔ l.handle = other.handle := by
  simp [equalsHandle, handle, and_comm]

theorem equalsHandle_eq_false {l other : EntryLockDetails} :
    l.equalsHandle other = false ↔ l.handle ≠ other.handle := by
  rw [← Bool.not_eq_true, equalsHandle_iff]

theorem handle_eq_iff : a.handle = b.handle ↔ ¬lt a b ∧ ¬lt b a := by
  unfold lt handle
  grind

end EntryLockDetails

/-! ## Range locks -/

inductive RangeOverlapType where
  | none
  | equals
  | contains
  | isContained
  | startOverlap
  | endOverlap
deriving DecidableEq, Repr

/-- Range locks are held per process, whatever file handle they were requested through. -/
structure RangeLockDetails where
  clientNumID : NumNodeID
  ownerPID : Int32
  lockAckID : String
  lockTypeFlags : LockTypeFlags
  start : UInt64
  endPos : UInt64
deriving DecidableEq, Repr

namespace RangeLockDetails

section

variable (l : RangeLockDetails)

def allowsWaiting : Bool := l.lockTypeFlags.allowsWaiting
def isUnlock : Bool := l.lockTypeFlags.isUnlock
def isExclusive : Bool := l.lockTypeFlags.isExclusive
def isShared : Bool := l.lockTypeFlags.isShared
def isCancel : Bool := l.lockTypeFlags.isCancel

end

section

variable (l other : RangeLockDetails)

def equalsHandle : Bool :=
  l.ownerPID == other.ownerPID && l.clientNumID == other.clientNumID

/-- Ranges overlap or directly extend each other. -/
def isMergeable : Bool :=
  !(decide (other.endPos + 1 < l.start) || decide (other.start > l.endPos + 1))

def overlaps : Bool :=
  !(decide (other.endPos < l.start) || decide (other.start > l.endPos))

def overlapsEx : RangeOverlapType :=
  if other.endPos < l.start ∨ other.start > l.endPos then .none
  else if other.start = l.start ∧ other.endPos = l.endPos then .equals
  else if l.start ≤ other.start ∧ l.endPos ≥ other.endPos then .contains
  else if l.start ≥ other.start ∧ l.endPos ≤ other.endPos then .isContained
  else if l.start < other.start then .startOverlap
  else .endOverlap

/-- Cut off the part that `trimmer` overlaps, on the side where it does. -/
def trim (l trimmer : RangeLockDetails) : RangeLockDetails :=
  if trimmer.endPos < l.endPos then { l with start := trimmer.endPos + 1 }
  else { l with endPos := trimmer.start - 1 }

/-- The remainders on the left and on the right of `splitter`. -/
def split (l splitter : RangeLockDetails) : RangeLockDetails × RangeLockDetails :=
  ({ l with endPos := splitter.start - 1 }, { l with start := splitter.endPos + 1 })

def merge : RangeLockDetails :=
  { l with
    start := if l.start < other.start then l.start else other.start
    endPos := if l.endPos > other.endPos then l.endPos else other.endPos }

end

/-- `MapComparatorShared`: order by process, then by range start. -/
def ltShared (a b : RangeLockDetails) : Prop :=
  if a.ownerPID < b.ownerPID then True
  else if a.ownerPID > b.ownerPID then False
  else if a.clientNumID < b.clientNumID then True
  else if a.clientNumID > b.clientNumID then False
  else a.start < b.start

/-- `MapComparatorExcl`: order by range start. -/
def ltExcl (a b : RangeLockDetails) : Prop := a.start < b.start

instance : DecidableRel ltShared := fun _ _ => by unfold ltShared; infer_instance

instance : DecidableRel ltExcl := fun a b => inferInstanceAs (Decidable (a.start < b.start))

instance : IsStrictOrder RangeLockDetails ltShared where
  irrefl a h := by unfold ltShared at h; grind
  trans a b c h h' := by unfold ltShared at *; grind

instance : IsStrictOrder RangeLockDetails ltExcl where
  irrefl a h := by unfold ltExcl at h; grind
  trans a b c h h' := by unfold ltExcl at *; grind

/-! ### Owners and bytes -/

/-- The process a lock belongs to. -/
def owner (l : RangeLockDetails) : NumNodeID × Int32 := (l.clientNumID, l.ownerPID)

instance : Membership UInt64 RangeLockDetails := ⟨fun l b => l.start ≤ b ∧ b ≤ l.endPos⟩

instance (b : UInt64) (l : RangeLockDetails) : Decidable (b ∈ l) :=
  inferInstanceAs (Decidable (_ ∧ _))

def maxOffset : UInt64 := 0xffffffffffffffff

def Nonempty (l : RangeLockDetails) : Prop := l.start ≤ l.endPos

variable {l e o p : RangeLockDetails} {b : UInt64}

theorem mem_def : b ∈ l ↔ l.start ≤ b ∧ b ≤ l.endPos := .rfl

theorem Nonempty.start_mem (h : l.Nonempty) : l.start ∈ l := ⟨UInt64.le_refl _, h⟩

theorem equalsHandle_iff : l.equalsHandle o ↔ l.owner = o.owner := by
  simp [equalsHandle, owner, and_comm]

theorem equalsHandle_eq_false : l.equalsHandle o = false ↔ l.owner ≠ o.owner := by
  rw [← Bool.not_eq_true, equalsHandle_iff]

theorem ltShared_iff_of_owner_eq (h : l.owner = o.owner) : ltShared l o ↔ l.start < o.start := by
  unfold owner at h
  unfold ltShared
  grind

theorem ltShared_or_of_owner_ne (h : l.owner ≠ o.owner) : ltShared l o ∨ ltShared o l := by
  unfold owner at h
  unfold ltShared
  grind

theorem overlaps_iff (hl : l.Nonempty) (ho : o.Nonempty) : l.overlaps o ↔ ∃ b, b ∈ l ∧ b ∈ o := by
  unfold Nonempty at hl ho
  simp only [overlaps, mem_def, Bool.not_eq_true', Bool.or_eq_false_iff, decide_eq_false_iff_not]
  constructor
  · rintro ⟨h1, h2⟩
    by_cases h : l.start ≤ o.start
    · exact ⟨o.start, by grind⟩
    · exact ⟨l.start, by grind⟩
  · grind

theorem start_le_of_overlaps (h : l.overlaps o) : o.start ≤ l.endPos := by
  simp only [overlaps, Bool.not_eq_true', Bool.or_eq_false_iff, decide_eq_false_iff_not] at h
  exact UInt64.not_lt.mp h.2

theorem overlaps_eq_false (hl : l.Nonempty) (ho : o.Nonempty) :
    l.overlaps o = false ↔ ∀ b ∈ l, b ∉ o := by
  rw [← Bool.not_eq_true, overlaps_iff hl ho]
  simp

theorem overlaps_eq_false_iff : l.overlaps o = false ↔ o.endPos < l.start ∨ l.endPos < o.start := by
  simp only [overlaps, Bool.not_eq_false', Bool.or_eq_true, decide_eq_true_eq, gt_iff_lt]

theorem overlapsEx_spec : l.overlapsEx e = type →
    match type with
    | .none => l.overlaps e = false
    | .equals => e.start = l.start ∧ e.endPos = l.endPos
    | .contains => l.start ≤ e.start ∧ e.endPos ≤ l.endPos ∧
        ¬(e.start ≤ l.start ∧ l.endPos ≤ e.endPos)
    | .isContained => e.start ≤ l.start ∧ l.endPos ≤ e.endPos ∧
        ¬(e.start = l.start ∧ e.endPos = l.endPos)
    | .startOverlap => l.start < e.start ∧ e.start ≤ l.endPos ∧ l.endPos < e.endPos
    | .endOverlap => e.start < l.start ∧ l.start ≤ e.endPos ∧ e.endPos < l.endPos := by
  rintro rfl
  unfold overlapsEx overlaps
  grind

def Spans (e l : RangeLockDetails) : Prop := e.start ≤ l.start ∧ l.endPos ≤ e.endPos

instance (e l : RangeLockDetails) : Decidable (e.Spans l) := inferInstanceAs (Decidable (_ ∧ _))

theorem Spans.refl (l : RangeLockDetails) : l.Spans l := ⟨UInt64.le_refl _, UInt64.le_refl _⟩

theorem Spans.trans (h : o.Spans e) (h' : e.Spans l) : o.Spans l :=
  ⟨UInt64.le_trans h.1 h'.1, UInt64.le_trans h'.2 h.2⟩

theorem Spans.nonempty (h : e.Spans l) (hl : l.Nonempty) : e.Nonempty :=
  UInt64.le_trans h.1 (UInt64.le_trans hl h.2)

theorem Spans.mem (h : e.Spans l) (hb : b ∈ l) : b ∈ e :=
  ⟨UInt64.le_trans h.1 hb.1, UInt64.le_trans hb.2 h.2⟩

theorem Spans.overlaps (h : e.Spans l) (hl : l.Nonempty) : l.overlaps e := by
  exact (overlaps_iff hl (h.nonempty hl)).mpr ⟨l.start, hl.start_mem, h.mem hl.start_mem⟩

/-! ### What is left of a range, and unions of ranges -/

/-- `p` is a part of `e` that `l` leaves over: the same lock on fewer bytes. -/
structure IsPiece (p e l : RangeLockDetails) : Prop where
  owner_eq : p.owner = e.owner
  nonempty : p.Nonempty
  mem_of_mem : ∀ b ∈ p, b ∈ e
  not_mem : ∀ b ∈ p, b ∉ l

theorem IsPiece.overlaps_eq_false (h : p.IsPiece e l) (hl : l.Nonempty) : l.overlaps p = false :=
  (RangeLockDetails.overlaps_eq_false hl h.nonempty).mpr fun b hb hp => h.not_mem b hp hb

theorem IsPiece.trans (h : p.IsPiece e l) (h' : e.IsPiece o l) : p.IsPiece o l where
  owner_eq := h.owner_eq.trans h'.owner_eq
  nonempty := h.nonempty
  mem_of_mem b hb := h'.mem_of_mem b (h.mem_of_mem b hb)
  not_mem := h.not_mem

theorem IsPiece.within (h : p.IsPiece e l) : e.Spans p :=
  ⟨(h.mem_of_mem _ h.nonempty.start_mem).1, (h.mem_of_mem _ ⟨h.nonempty, UInt64.le_refl _⟩).2⟩

/-- `ps` is what `l` leaves over of a range that it overlaps: pieces that cover the rest of it, on
different sides of `l` if there are two. -/
structure Leaves (l e : RangeLockDetails) (ps : List RangeLockDetails) : Prop where
  overlaps : l.overlaps e
  isPiece : ∀ p ∈ ps, p.IsPiece e l
  covers : ∀ b ∈ e, b ∉ l → ∃ p ∈ ps, b ∈ p
  sides : ps.Pairwise fun p q => q.endPos < l.start ∧ l.endPos < p.start

theorem leaves_nil (he : e.Nonempty) (h : l.Spans e) : l.Leaves e [] where
  overlaps := (overlaps_iff (h.nonempty he) he).mpr ⟨e.start, h.mem he.start_mem, he.start_mem⟩
  isPiece p hp := by cases hp
  covers b hb hbl := absurd (h.mem hb) hbl
  sides := .nil

theorem leaves_trim (he : e.Nonempty) (hl : l.Nonempty)
    (h : (e.start = l.start ∧ l.endPos < e.endPos) ∨ (e.start < l.start ∧ l.endPos = e.endPos) ∨
      (l.start < e.start ∧ e.start ≤ l.endPos ∧ l.endPos < e.endPos) ∨
      (e.start < l.start ∧ l.start ≤ e.endPos ∧ e.endPos < l.endPos)) :
    l.Leaves e [e.trim l] := by
  unfold Nonempty at he hl
  have hpiece : (e.trim l).IsPiece e l ∧ ∀ b ∈ e, b ∉ l → b ∈ e.trim l := by
    unfold trim
    split
    · refine ⟨⟨rfl, ?_, fun b hb => ?_, fun b hb => ?_⟩, fun b hb hbl => ?_⟩ <;>
        simp only [Nonempty, mem_def] at * <;> grind
    · refine ⟨⟨rfl, ?_, fun b hb => ?_, fun b hb => ?_⟩, fun b hb hbl => ?_⟩ <;>
        simp only [Nonempty, mem_def] at * <;> grind
  refine ⟨?_, fun p hp => ?_, fun b hb hbl => ?_, List.pairwise_singleton ..⟩
  · unfold RangeLockDetails.overlaps
    grind
  · rw [List.mem_singleton.mp hp]
    exact hpiece.1
  · exact ⟨_, List.mem_singleton_self _, hpiece.2 b hb hbl⟩

theorem leaves_split (h1 : e.start < l.start) (h2 : l.endPos < e.endPos) (hl : l.Nonempty) :
    l.Leaves e [(e.split l).2, (e.split l).1] := by
  have hspan : e.Spans l := ⟨UInt64.le_of_lt h1, UInt64.le_of_lt h2⟩
  have hover := hspan.overlaps hl
  unfold split
  refine ⟨hover, fun p hp => ?_, fun b hb hbl => ?_, List.pairwise_pair.mpr ?_⟩
  · rcases List.mem_pair.mp hp with rfl | rfl
    · refine ⟨rfl, ?_, fun b hb => ?_, fun b hb => ?_⟩ <;>
        simp only [Nonempty, mem_def] at * <;> grind
    · refine ⟨rfl, ?_, fun b hb => ?_, fun b hb => ?_⟩ <;>
        simp only [Nonempty, mem_def] at * <;> grind
  · simp only [mem_def, List.exists_mem_cons_iff] at *
    grind
  · grind

theorem merge_spans_left : (l.merge o).Spans l := by
  unfold Spans merge
  grind

theorem merge_spans_right : (l.merge o).Spans o := by
  unfold Spans merge
  grind

theorem merge_start : (l.merge o).start = l.start ∨ (l.merge o).start = o.start := ite_eq_or_eq ..

theorem Nonempty.merge (h : l.Nonempty) (o : RangeLockDetails) : (l.merge o).Nonempty :=
  merge_spans_left.nonempty h

theorem mem_of_mem_merge (h : l.isMergeable o) (hb : b ∈ l.merge o) : b ∈ l ∨ b ∈ o := by
  simp only [isMergeable, Bool.not_eq_true', Bool.or_eq_false_iff, decide_eq_false_iff_not] at h
  simp only [mem_def, merge] at hb ⊢
  grind

/-- Ranges with one start touch, but `isMergeable` misses it if one of them reaches the last
offset, where `end + 1` is `0`. -/
theorem isMergeable_of_start_eq (hl : l.Nonempty) (ho : o.Nonempty) (hs : o.start = l.start)
    (h : l.isMergeable o = false) : o.endPos = maxOffset ∨ l.endPos = maxOffset ∧ 0 < l.start := by
  unfold Nonempty at hl ho
  unfold maxOffset
  simp only [isMergeable, Bool.not_eq_false', Bool.or_eq_true, decide_eq_true_eq] at h
  grind

/-- Only behind the last offset does the end of a range come before its start. -/
theorem reaches_end (hl : l.Nonempty) (h : l.endPos + 1 < l.start) :
    0 < l.start ∧ l.endPos = maxOffset := by
  unfold Nonempty at hl
  unfold maxOffset
  grind

theorem le_maxOffset : a ≤ maxOffset := by
  unfold maxOffset
  grind

theorem end_eq_of_start (hl : l.Nonempty) (h : l.start = maxOffset) : l.endPos = maxOffset :=
  UInt64.le_antisymm le_maxOffset (h ▸ hl)

theorem spans_of_end (hs : e.start = l.start) (hend : e.endPos = maxOffset) : e.Spans l :=
  ⟨hs ▸ UInt64.le_refl _, hend ▸ le_maxOffset⟩

theorem isMergeable_eq_false_of_end (hend : l.endPos = maxOffset) (ho : 0 < o.start) :
    l.isMergeable o = false := by
  unfold maxOffset at hend
  simp only [isMergeable, Bool.not_eq_false', Bool.or_eq_true, decide_eq_true_eq]
  grind

end RangeLockDetails

end Congfs
