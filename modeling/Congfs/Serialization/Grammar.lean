import Congfs.Serialization.Collections
import Congfs.Serialization.DecoderSafety

/-!
# What a reader accepts

A grammar says which words stand for a value. It knows nothing of buffers, offsets and errors, and
it is put together from the grammars of its parts. `Parses get grammar` says that a reader takes
exactly the words of the grammar: it reads each of them, wherever it stands, and whenever it is good
in the end there was one.
-/

namespace Congfs

open Format Reader

open List (append_assoc append_nil length_append length_cons length_take take_append_drop)
open Deserializer (good setBad)

/-- The words that stand for a value; a value may have several. -/
@[ext] structure Grammar (α : Type) where
  Word : α → List UInt8 → Prop

namespace Grammar

instance instMonad : Monad Grammar where
  pure v := ⟨fun w bytes => w = v ∧ bytes = []⟩
  bind first next := ⟨fun w bytes => ∃ v b b', first.Word v b ∧ (next v).Word w b' ∧
    bytes = b ++ b'⟩

variable {α β : Type} {v w : α} {bytes bytes' : List UInt8}

theorem Word.pure (v : α) : (Pure.pure v : Grammar α).Word v [] := ⟨rfl, rfl⟩

theorem Word.bind {first : Grammar α} {next : α → Grammar β} {w : β} (h : first.Word v bytes)
    (h' : (next v).Word w bytes') : (first >>= next).Word w (bytes ++ bytes') :=
  ⟨v, bytes, bytes', h, h', rfl⟩

instance instLawfulMonad : LawfulMonad Grammar := by
  refine LawfulMonad.mk' Grammar (fun {α} first => ?_) (fun {α β} v next => ?_)
    fun {α β γ} first second third => ?_
  · ext v bytes
    constructor
    · rintro ⟨_, b, _, hfirst, ⟨rfl, rfl⟩, rfl⟩
      rwa [append_nil]
    · intro hfirst
      exact ⟨v, bytes, [], hfirst, ⟨rfl, rfl⟩, (append_nil _).symm⟩
  · ext w bytes
    constructor
    · rintro ⟨_, _, b, ⟨rfl, rfl⟩, hnext, rfl⟩
      exact hnext
    · intro hnext
      exact ⟨v, [], bytes, ⟨rfl, rfl⟩, hnext, rfl⟩
  · ext w bytes
    constructor
    · rintro ⟨u, _, b3, ⟨v, b1, b2, h1, h2, rfl⟩, h3, rfl⟩
      exact ⟨v, b1, b2 ++ b3, h1, ⟨u, b2, b3, h2, h3, rfl⟩, append_assoc ..⟩
    · rintro ⟨v, b1, _, h1, ⟨u, b2, b3, h2, h3, rfl⟩, rfl⟩
      exact ⟨u, b1 ++ b2, b3, ⟨v, b1, b2, h1, h2, rfl⟩, h3, (append_assoc ..).symm⟩

/-- A word of the grammar, and anything behind it. -/
def StartsWith (grammar : Grammar α) (v : α) (buffer : List UInt8) : Prop :=
  ∃ bytes after, grammar.Word v bytes ∧ buffer = bytes ++ after

/-- Whatever there is. -/
def anything : Grammar Unit := ⟨fun _ _ => True⟩

theorem startsWith_iff :
    grammar.StartsWith v bytes ↔ (grammar >>= fun v => anything >>= fun _ => pure v).Word
    v bytes := by
  constructor
  · rintro ⟨b, after, hword, rfl⟩
    exact hword.bind ⟨(), after, [], trivial, ⟨rfl, rfl⟩, (append_nil _).symm⟩
  · rintro ⟨_, b, _, hword, ⟨_, after, _, -, ⟨rfl, rfl⟩, rfl⟩, rfl⟩
    exact ⟨b, after, hword, by rw [append_nil]⟩

def empty : Grammar α := ⟨fun _ _ => False⟩

theorem empty_bind : (empty >>= next) = empty := by
  ext w bytes
  refine iff_of_false ?_ id
  rintro ⟨_, _, _, h, -, -⟩
  exact h

theorem ite_empty_bind [Decidable p] :
    (if p then first else empty) >>= next = if p then first >>= next else empty := by
  split
  · rfl
  · exact empty_bind

/-- No bytes, under a condition. -/
def only (p : Prop) : Grammar Unit := ⟨fun _ bytes => p ∧ bytes = []⟩

theorem word_only_bind : (only p >>= next).Word v bytes ↔ p ∧ (next ()).Word v bytes := by
  constructor
  · rintro ⟨_, _, b, ⟨hp, rfl⟩, hnext, rfl⟩
    exact ⟨hp, hnext⟩
  · rintro ⟨hp, hnext⟩
    exact ⟨(), [], bytes, ⟨hp, rfl⟩, hnext, rfl⟩

def readIf (p : Prop) [Decidable p] (grammar : Grammar α) (v : α) : Grammar α :=
  if p then grammar else pure v

def pair (first : Grammar α) (second : Grammar β) : Grammar (α × β) := do
  return (← first, ← second)

def int (width : ℕ) (ofNat : ℕ → α) : Grammar α :=
  ⟨fun v bytes => bytes.length = width ∧ v = ofNat (LittleEndian.value bytes)⟩

theorem int_bind_ne_nil (h : (int (width + 1) ofNat >>= next).Word w bytes) : bytes ≠ [] := by
  obtain ⟨v, b, b', ⟨hlen, -⟩, -, rfl⟩ := h
  intro hnil
  rw [(List.append_eq_nil_iff.mp hnil).1] at hlen
  cases hlen

def uint8 : Grammar UInt8 := int 1 UInt8.ofNat

theorem word_uint8 {v : UInt8} : uint8.Word v bytes ↔ bytes = [v] := by
  constructor
  · rintro ⟨hlen, rfl⟩
    obtain ⟨b, rfl⟩ := List.length_eq_one_iff.mp hlen
    simp [LittleEndian.value]
  · rintro rfl
    exact ⟨rfl, by simp [LittleEndian.value]⟩

def uint16 : Grammar UInt16 := int 2 UInt16.ofNat

def uint32 : Grammar UInt32 := int 4 UInt32.ofNat

def uint64 : Grammar UInt64 := int 8 UInt64.ofNat

def int32 : Grammar Int32 := int 4 fun n => (UInt32.ofNat n).toInt32

def int64 : Grammar Int64 := int 8 fun n => (UInt64.ofNat n).toInt64

/-- Bytes nobody looks at. -/
def unused (length : ℕ) : Grammar Unit := ⟨fun _ bytes => bytes.length = length⟩

/-- A length, the string, a zero, and bytes nobody looks at. -/
def string (align : ℕ) : Grammar (List UInt8) where
  Word str bytes := ∃ padding, padding.length = Serialization.padLen align (4 + str.length + 1) ∧
    bytes = LittleEndian.bytes 4 str.length ++ str ++ [0] ++ padding

/-- Words one after the other. -/
def Items (elem : Grammar α) : List α → List UInt8 → Prop
  | [], bytes => bytes = []
  | v :: l, bytes => ∃ b b', elem.Word v b ∧ Items elem l b' ∧ bytes = b ++ b'

theorem Items.length_eq (h : ∀ v bytes, elem.Word v bytes → bytes.length = size) :
    ∀ {l : List α} {bytes : List UInt8}, Items elem l bytes → bytes.length = size * l.length
  | [], _, hitems => by
    cases hitems
    rfl
  | v :: l, _, hitems => by
    obtain ⟨b, b', hword, hrest, rfl⟩ := hitems
    rw [length_append, h v b hword, Items.length_eq h hrest, length_cons, Nat.mul_succ,
      Nat.add_comm]

/-- The length of everything, if there is one, and the number of elements come first. -/
def list (hasLength : Bool) (elem : Grammar α) : Grammar (List α) where
  Word l bytes := ∃ body, Items elem l body ∧
    bytes = Serialization.encodeSized hasLength l.length body

end Grammar

namespace Serialization

variable {α β : Type} {bytes bytes' before rest after : List UInt8} {inspected : List ℕ} {v : α}

/-- In front of `rest`, without an error. -/
def inside (before rest : List UInt8) (inspected : List ℕ) : Deserializer :=
  ⟨before ++ rest, (before ++ rest).length, before.length, inspected⟩

/-- There is a buffer, and its size is an `unsigned`. -/
structure Valid (buffer : List UInt8) : Prop where
  ne_nil : buffer ≠ []
  length_lt : buffer.length < 4294967296

theorem Valid.good (h : Valid (before ++ rest)) (inspected : List ℕ) :
    (inside before rest inspected).good := by
  refine good_of_le (fun hzero => h.ne_nil (List.length_eq_zero_iff.mp hzero)) ?_
  simp [inside]

theorem Valid.advance (h : Valid (before ++ (bytes ++ after))) :
    Valid (before ++ bytes ++ after) := by
  rwa [append_assoc]

theorem Valid.left_lt (h : Valid (bytes ++ rest)) : bytes.length < 4294967296 := by
  have hlt := h.length_lt
  rw [length_append] at hlt
  omega

theorem Reads.inside {get : Deserializer → α × Deserializer} (h : Reads get v bytes)
    (hvalid : Valid (before ++ (bytes ++ after))) (inspected : List ℕ) :
    ∃ inspected', get (inside before (bytes ++ after) inspected) =
      (v, Serialization.inside (before ++ bytes) after inspected') := by
  obtain ⟨inspected', hget⟩ := h _ before after inspected (append_assoc ..).symm hvalid.ne_nil
    hvalid.length_lt
  refine ⟨inspected', hget.trans ?_⟩
  simp only [Serialization.inside, append_assoc, length_append]

theorem bind_apply (first : StateM Deserializer α) (next : α → StateM Deserializer β)
    (des : Deserializer) : (first >>= next) des = next (first des).1 (first des).2 := rfl

/-! ## Early returns -/

theorem returnIfBad_of_good (h : des.good) : returnIfBad v next des = next des := by
  change (if des.good then next else Pure.pure v : StateM Deserializer α) des = next des
  rw [if_pos h]

theorem returnIfBad_of_bad (h : des.good = false) : returnIfBad v next des = (v, des) := by
  change (if des.good then next else Pure.pure v : StateM Deserializer α) des = (v, des)
  rw [h, if_neg Bool.false_ne_true]
  rfl

theorem setBad_good (des : Deserializer) : des.setBad.good = false := by
  simp [good, setBad]

/-- The same as `Reader.returnIfBad`, but for the error, which is set once more. -/
def failIfBad (v : α) (next : StateM Deserializer α) : StateM Deserializer α :=
  fun des => if ¬des.good then (v, des.setBad) else next des

theorem getBlock_of_good {des : Deserializer} (h : (des.getBlock width).2.good) :
    des.bufferOffset + width ≤ des.bufferSize ∧
      (des.getBlock width).1 = FlatFile.slice des.buffer des.bufferOffset width := by
  revert h
  simp only [Deserializer.getBlock]
  split_ifs with hfit
  · exact fun _ => ⟨hfit, rfl⟩
  · intro h
    simp [good, setBad] at h

theorem padFieldTo_le {des : Deserializer} (hoff : des.bufferOffset = offset + n)
    (h : (des.padFieldTo offset align).good) (hlt : offset + n < 4294967296) :
    offset + n + padLen align n ≤ des.bufferSize := by
  have hrange : sub32 des.bufferOffset offset = n := hoff ▸ sub32_add hlt
  simp only [Deserializer.padFieldTo, Deserializer.size, hrange] at h
  rw [← hoff]
  split_ifs at h with hc
  · rw [padLen, if_pos hc]
    exact (skip_good_iff.mp h).2
  · rw [padLen, if_neg hc]
    simp only [good, decide_eq_true_eq] at h
    exact h.2

/-! ## Readers and grammars -/

/-- No four bytes one after the other are the length of an overlong string. -/
def NoOverlong (buffer : List UInt8) : Prop :=
  ∀ pos < buffer.length, LittleEndian.value (FlatFile.slice buffer pos 4) ≠ 4294967295

structure Parses (get : Deserializer → α × Deserializer) (grammar : Grammar α) : Prop where
  reads : ∀ v bytes, grammar.Word v bytes → Reads get v bytes
  sound : ∀ before rest inspected, Valid (before ++ rest) →
    (get (inside before rest inspected)).2.good → ∃ bytes after, rest = bytes ++ after ∧
      grammar.Word (get (inside before rest inspected)).1 bytes
  bad : ∀ des, des.good = false → (get des).2.good = false
  stays : ∀ des, NoOverlong des.buffer → Stays False des (get des).2

namespace Parses

variable {get : Deserializer → α × Deserializer} {grammar : Grammar α}

section
variable (h : Parses get grammar)
include h

theorem accepts (hvalid : Valid (before ++ rest))
    (hgood : (get (inside before rest inspected)).2.good) :
    ∃ v bytes after inspected', rest = bytes ++ after ∧ grammar.Word v bytes ∧
      get (inside before rest inspected) = (v, inside (before ++ bytes) after inspected') := by
  obtain ⟨bytes, after, rfl, hword⟩ := h.sound before rest inspected hvalid hgood
  obtain ⟨inspected', hget⟩ := (h.reads _ bytes hword).inside hvalid inspected
  exact ⟨_, bytes, after, inspected', rfl, hword, hget⟩

theorem startsWith_of_good (hlen : buffer.length < 4294967296)
    (hgood : (get (.ofBuffer buffer)).2.good) :
    grammar.StartsWith (get (.ofBuffer buffer)).1 buffer := by
  have hvalid : Valid ([] ++ buffer) := by
    refine ⟨?_, hlen⟩
    rintro rfl
    rw [h.bad _ rfl] at hgood
    cases hgood
  obtain ⟨bytes, after, hbuf, hword⟩ := h.sound [] buffer [] hvalid hgood
  exact ⟨bytes, after, hword, hbuf⟩

/-- A value that is only given without an error is given if the buffer starts with it. -/
theorem value_iff (hgood : ∀ des, (get des).1 = v → (get des).2.good)
    (hne : ∀ bytes, grammar.Word v bytes → bytes ≠ []) (hlen : buffer.length < 4294967296) :
    (get (.ofBuffer buffer)).1 = v ↔ grammar.StartsWith v buffer := by
  constructor
  · intro hv
    exact hv ▸ h.startsWith_of_good hlen (hgood _ hv)
  · rintro ⟨bytes, after, hword, rfl⟩
    have hvalid : Valid ([] ++ (bytes ++ after)) :=
      ⟨List.append_ne_nil_of_left_ne_nil (hne bytes hword) after, hlen⟩
    obtain ⟨inspected, hget⟩ := (h.reads v bytes hword).inside hvalid []
    exact congrArg Prod.fst hget

theorem inspected_lt (hlen : buffer.length < 4294967296) (hshort : NoOverlong buffer) :
    ∀ i ∈ (get (.ofBuffer buffer)).2.inspected, i < buffer.length := by
  obtain ⟨new, heq, hnew⟩ :=
    (h.stays (.ofBuffer buffer) hshort).inspected (le_refl buffer.length) hlen
  rw [heq]
  exact hnew.mpr not_false

theorem word_of_reads (hreads : Reads get v bytes) (hvalid : Valid bytes) :
    grammar.Word v bytes := by
  have hvalid' : Valid ([] ++ (bytes ++ [])) := by rwa [append_nil]
  obtain ⟨inspected, hget⟩ := hreads.inside hvalid' []
  have hgood : (get (inside [] (bytes ++ []) [])).2.good := by
    rw [hget]
    exact hvalid'.advance.good inspected
  obtain ⟨w, bytes', after, inspected', hrest, hword, hget'⟩ := h.accepts hvalid' hgood
  rw [hget'] at hget
  have hlen : bytes'.length = bytes.length := congrArg (·.2.bufferOffset) hget
  cases congrArg Prod.fst hget
  obtain rfl := (List.append_inj hrest hlen.symm).1
  exact hword

theorem word_unique (hword : grammar.Word v bytes)
    (hword' : grammar.Word w bytes') (hvalid : Valid (bytes ++ after))
    (heq : bytes ++ after = bytes' ++ after') : v = w ∧ bytes = bytes' := by
  obtain ⟨inspected, hget⟩ := @Reads.inside _ _ [] after _ _ (h.reads v bytes hword) hvalid []
  obtain ⟨inspected', hget'⟩ := @Reads.inside _ _ [] after' _ _
    (h.reads w bytes' hword') (heq ▸ hvalid) []
  rw [heq, hget'] at hget
  have hlen : bytes'.length = bytes.length := congrArg (·.2.bufferOffset) hget
  exact ⟨(congrArg Prod.fst hget).symm, (List.append_inj heq hlen.symm).1⟩

theorem word_bind_iff (hword : grammar.Word v bytes) (hvalid : Valid (bytes ++ rest)) :
    (grammar >>= next).Word w (bytes ++ rest) ↔ (next v).Word w rest := by
  constructor
  · rintro ⟨u, b, b', hfirst, hnext, heq⟩
    obtain ⟨rfl, rfl⟩ := h.word_unique hword hfirst hvalid heq
    exact List.append_cancel_left heq ▸ hnext
  · exact fun hnext => hword.bind hnext

theorem of_eq (heq : get = get') : Parses get' grammar := heq ▸ h

end

theorem pure (v : α) : Parses (Pure.pure v : StateM Deserializer α) (Pure.pure v) where
  reads := by
    rintro w bytes ⟨rfl, rfl⟩
    exact Reads.pure w
  sound _ rest _ _ _ := ⟨[], rest, rfl, rfl, rfl⟩
  bad _ h := h
  stays des _ := .refl des

theorem bind {first : StateM Deserializer α} {next : α → StateM Deserializer β}
    {grammar' : α → Grammar β} (h : Parses first grammar) (h' : ∀ v, Parses (next v) (grammar' v)) :
    Parses (first >>= next) (grammar >>= grammar') where
  reads := by
    rintro w _ ⟨v, b, b', hfirst, hnext, rfl⟩
    exact (h.reads v b hfirst).bind ((h' v).reads w b' hnext)
  sound before rest inspected hvalid hgood := by
    by_cases hfirst : (first (inside before rest inspected)).2.good
    · obtain ⟨v, b, rest, inspected', rfl, hword, hget⟩ := h.accepts hvalid hfirst
      have heq : (first >>= next) (inside before (b ++ rest) inspected) =
          next v (inside (before ++ b) rest inspected') := by
        rw [bind_apply, hget]
      rw [heq] at hgood ⊢
      obtain ⟨b', after, rfl, hword'⟩ := (h' v).sound _ _ _ hvalid.advance hgood
      exact ⟨b ++ b', after, (append_assoc ..).symm, v, b, b', hword, hword', rfl⟩
    · exact absurd ((h' _).bad _ (Bool.eq_false_iff.mpr hfirst)) (Bool.not_eq_false _ ▸ hgood)
  bad des hbad := (h' _).bad _ (h.bad des hbad)
  stays des hshort :=
    have hfirst := h.stays des hshort
    hfirst.andThen ((h' _).stays _ (hfirst.buffer ▸ hshort))

theorem ite [Decidable p] (h : p → Parses get grammar) (h' : ¬p → Parses get' grammar') :
    Parses (if p then get else get') (if p then grammar else grammar') := by
  split
  · exact h ‹_›
  · exact h' ‹_›

/-! ## Fields -/

/-- What is done after an error does not matter, as long as it stays one. -/
theorem orElse {failed next : Deserializer → α × Deserializer} (h : Parses next grammar)
    (hfailed : ∀ des, Stays False des (failed des).2) :
    Parses (fun des => if ¬des.good then failed des else next des) grammar where
  reads w bytes hword buffer before after inspected hbuf hne hsize := by
    have hvalid : Valid (before ++ (bytes ++ after)) := by
      rw [← append_assoc, ← hbuf]
      exact ⟨hne, hsize⟩
    have hgood := hvalid.good inspected
    rw [inside, ← append_assoc, ← hbuf] at hgood
    dsimp only
    rw [if_neg (not_not.mpr hgood)]
    exact h.reads w bytes hword buffer before after inspected hbuf hne hsize
  sound before rest inspected hvalid := by
    rw [if_neg (not_not.mpr (hvalid.good inspected))]
    exact h.sound before rest inspected hvalid
  bad des hbad := by
    rw [if_pos (by rw [hbad]; exact Bool.false_ne_true)]
    exact (hfailed des).bad hbad
  stays des hshort := by
    split
    · exact hfailed des
    · exact h.stays des hshort

theorem returnIfBad (h : Parses next grammar) (v : α) :
    Parses (returnIfBad v next) grammar := by
  have heq : Reader.returnIfBad v next = fun des => if ¬des.good then (v, des) else next des := by
    funext des
    cases hgood : des.good with
    | true =>
      rw [returnIfBad_of_good hgood]
      rfl
    | false =>
      rw [returnIfBad_of_bad hgood]
      rfl
  rw [heq]
  exact h.orElse Stays.refl

theorem failIfBad (h : Parses next grammar) (v : α) :
    Parses (Serialization.failIfBad v next) grammar :=
  h.orElse Stays.setBad

theorem fail (v : α) : Parses (fail v) Grammar.empty where
  reads _ _ h := h.elim
  sound _ _ _ _ h := by
    cases h
  bad des _ := setBad_good des
  stays des _ := .setBad des

theorem failUnless [Decidable p] (h : Parses next grammar) (v : α) :
    Parses (do if (← MonadState.get).good ∧ ¬p then Reader.fail v else next :
      StateM Deserializer α) (if p then grammar else Grammar.empty) := by
  have heq : ∀ des, (do if (← MonadState.get).good ∧ ¬p then Reader.fail v else next :
      StateM Deserializer α) des = if des.good ∧ ¬p then (v, des.setBad) else next des := by
    intro des
    change (if des.good ∧ ¬p then Reader.fail v else next) des = _
    split <;> rfl
  by_cases hp : p
  · rw [if_pos hp]
    refine h.of_eq (funext fun des => ?_)
    rw [heq, if_neg fun hand => hand.2 hp]
  · rw [if_neg hp]
    refine ⟨fun _ _ hword => hword.elim, fun before rest inspected hvalid hgood => ?_,
      fun des hbad => ?_, fun des hshort => ?_⟩
    · rw [heq, if_pos ⟨hvalid.good inspected, hp⟩, setBad_good] at hgood
      cases hgood
    · rw [heq, if_neg fun hand => Bool.false_ne_true (hbad.symm.trans hand.1)]
      exact h.bad des hbad
    · rw [heq]
      split
      · exact .setBad des
      · exact h.stays des hshort

theorem getBlock (width : ℕ) :
    Parses (fun des => des.getBlock width) ⟨fun v bytes => bytes.length = width ∧ v = bytes⟩ where
  reads v bytes := by
    rintro ⟨hlen, rfl⟩
    exact reads_getBlock hlen
  sound before rest inspected hvalid hgood := by
    obtain ⟨hfit, hblock⟩ := getBlock_of_good hgood
    simp only [inside, length_append] at hfit
    refine ⟨rest.take width, rest.drop width, (take_append_drop ..).symm, ?_, ?_⟩
    · rw [length_take]
      omega
    · rw [hblock]
      simp [inside, FlatFile.slice]
  bad des hbad := (Stays.getBlock des width).bad hbad
  stays des _ := .getBlock des width

theorem map (h : Parses get grammar) (f : α → β) :
    Parses (fun des => (f (get des).1, (get des).2)) (grammar >>= fun v => Pure.pure (f v)) :=
  @bind _ _ grammar get _ _ h fun v => Parses.pure (f v)

theorem pair (h : Parses (read fmt) grammar) (h' : Parses (read fmt') grammar') :
    Parses (read (fmt.pair fmt')) (grammar.pair grammar') :=
  h.bind fun v => h'.bind fun w => Parses.pure (v, w)

theorem congr (h : Parses get grammar)
    (hiff : ∀ v bytes, grammar.Word v bytes ↔ grammar'.Word v bytes) : Parses get grammar' := by
  have heq : grammar = grammar' := Grammar.ext (funext fun v => funext fun bytes =>
    propext (hiff v bytes))
  exact heq ▸ h

theorem int (width : ℕ) (toNat : α → ℕ) (ofNat : ℕ → α) :
    Parses (read (int width toNat ofNat)) (Grammar.int width ofNat) := by
  refine ((getBlock width).map fun bytes => ofNat (LittleEndian.value bytes)).congr
    fun v bytes => ?_
  constructor
  · rintro ⟨_, _, _, ⟨hlen, rfl⟩, ⟨rfl, rfl⟩, rfl⟩
    rw [append_nil]
    exact ⟨hlen, rfl⟩
  · rintro ⟨hlen, rfl⟩
    exact ⟨bytes, bytes, [], ⟨hlen, rfl⟩, ⟨rfl, rfl⟩, (append_nil _).symm⟩

theorem skip (length : ℕ) : Parses (skip length) (Grammar.unused length) where
  reads v bytes hlen buffer before after inspected hbuf _ hsize := by
    refine ⟨inspected, Prod.ext rfl ?_⟩
    rw [show bytes.length = length from hlen]
    refine skip_of_le ?_ hsize
    rw [hbuf, ← show bytes.length = length from hlen]
    simp
  sound before rest inspected hvalid hgood := by
    have hfit := (skip_good_iff.mp hgood).2
    simp only [inside, length_append] at hfit
    have htake : (rest.take length).length = length := by
      rw [length_take]
      omega
    exact ⟨rest.take length, rest.drop length, (take_append_drop ..).symm, htake⟩
  bad des hbad := (Stays.skip des length).bad hbad
  stays des _ := .skip des length

theorem uint8 : Parses (read uint8) Grammar.uint8 := int ..

theorem uint16 : Parses (read uint16) Grammar.uint16 := int ..

theorem uint32 : Parses (read uint32) Grammar.uint32 := int ..

theorem uint64 : Parses (read uint64) Grammar.uint64 := int ..

theorem int32 : Parses (read int32) Grammar.int32 := int ..

theorem int64 : Parses (read int64) Grammar.int64 := int ..

theorem readIf [Decidable p] (h : Parses (read fmt) grammar) (v : α) :
    Parses (readIf p fmt v) (Grammar.readIf p grammar v) :=
  ite (fun _ => h) fun _ => Parses.pure v

theorem getUInt32 : Parses Deserializer.getUInt32 (Grammar.int 4 id) := Parses.int 4 id id

theorem string_split (hvalid : Valid (before ++ rest))
    (hraw : ((inside before rest inspected).getRawString align).2.good) :
    ∃ str padding after, padding.length = padLen align (4 + str.length + 1) ∧
      rest = LittleEndian.bytes 4 str.length ++ str ++ [0] ++ padding ++ after := by
  obtain ⟨hlength, hterm, heq⟩ := getRawString_of_good hraw
  obtain ⟨length, b, rest, inspected', rfl, ⟨hb, hval⟩, hget⟩ := getUInt32.accepts hvalid hlength
  have hsize := hvalid.length_lt
  rw [hget] at hterm heq
  simp only [inside, FlatFile.slice, ← append_assoc before b rest] at hterm
  rw [← List.drop_drop, List.drop_left] at hterm
  obtain ⟨tail, htail⟩ : ∃ tail, rest.drop length = 0 :: tail := by
    cases hdrop : rest.drop length with
    | nil =>
      rw [hdrop] at hterm
      cases hterm
    | cons c tail =>
      rw [hdrop] at hterm
      cases hterm
      exact ⟨tail, rfl⟩
  have hrest : rest.take length ++ 0 :: tail = rest := by rw [← htail, take_append_drop]
  have hstr : (rest.take length).length = length := by
    have hdrop := congrArg List.length htail
    rw [List.length_drop, length_cons] at hdrop
    rw [length_take]
    omega
  generalize rest.take length = str at hrest hstr
  subst hrest
  subst hstr
  simp only [length_append, length_cons] at hsize
  have hpad : padLen align (4 + str.length + 1) ≤ tail.length := by
    rw [heq, wrap32_of_lt (by omega)] at hraw
    simp only [inside, Deserializer.size, length_append, length_cons, hb] at hraw
    rw [skip_of_le (by omega) (by omega)] at hraw
    have hoff : before.length + 4 + (str.length + 1) =
      before.length + (4 + str.length + 1) := by omega
    have hfit := padFieldTo_le hoff hraw (by omega)
    simp only [Deserializer.inspect] at hfit
    omega
  refine ⟨str, tail.take (padLen align (4 + str.length + 1)),
    tail.drop (padLen align (4 + str.length + 1)), ?_, ?_⟩
  · rw [length_take]
    omega
  · have hbytes : LittleEndian.bytes 4 str.length = b := by
      rw [hval, ← hb]
      exact LittleEndian.bytes_value b
    rw [hbytes, append_assoc _ _ (tail.drop _), take_append_drop]
    simp

theorem string (align : ℕ) : Parses (read (Format.string align)) (Grammar.string align) where
  reads str bytes := by
    rintro ⟨padding, hpad, rfl⟩
    exact reads_padded_string hpad
  sound before rest inspected hvalid hgood := by
    have hraw : ((inside before rest inspected).getRawString align).2.good := by
      revert hgood
      simp only [Reader.read, Format.string]
      split
      · exact fun _ => ‹_›
      · exact fun h => h
    obtain ⟨str, padding, after, hpad, rfl⟩ := string_split hvalid hraw
    obtain ⟨inspected', hget⟩ := (reads_padded_string hpad).inside hvalid inspected
    refine ⟨_, after, rfl, padding, ?_⟩
    rw [Reader.read, hget]
    exact ⟨hpad, rfl⟩
  bad des hbad := (Stays.string align des).bad hbad
  stays des hshort := by
    refine (Stays.string align des).congr fun hsize _ => iff_of_false ?_ not_false
    rintro ⟨hfit, hmax⟩
    exact hshort _ (by omega) hmax

/-! ## Lists -/

section
variable {hasLength : Bool} {l : List α}

theorem reads_items (h : Parses get grammar) (hbody : Grammar.Items grammar l bytes)
    (value : List α) :
    Reads (getItems get (fun value item => value ++ [item]) l.length value) (value ++ l)
      bytes := by
  induction l generalizing bytes value with
  | nil =>
    cases hbody
    rw [append_nil]
    exact Reads.pure value
  | cons v l ih =>
    obtain ⟨b, b', hv, hl, rfl⟩ := hbody
    have hrest := ih hl (value ++ [v])
    rw [append_assoc, List.singleton_append] at hrest
    exact @Reads.bindGood _ _ _ _ get v (h.reads v b hv) (fun _ des => (value, des))
      (fun item => getItems get (fun value item => value ++ [item]) l.length
        (value ++ [item])) _ hrest

theorem items_sound (h : Parses get grammar) (hvalid : Valid (before ++ rest))
    (hgood : (getItems get (fun value item => value ++ [item]) count value
      (inside before rest inspected)).2.good) :
    ∃ l body after, l.length = count ∧ Grammar.Items grammar l body ∧ rest = body ++ after := by
  induction count generalizing value before rest inspected with
  | zero => exact ⟨[], [], rest, rfl, rfl, rfl⟩
  | succ count ih =>
    simp only [getItems] at hgood
    split at hgood
    · rename_i hbad
      exact absurd hgood hbad
    · rename_i hread
      obtain ⟨v, b, rest, inspected', rfl, hv, hget⟩ := h.accepts hvalid (not_not.mp hread)
      rw [hget] at hgood
      obtain ⟨l, body, after, hl, hbody, rfl⟩ := ih hvalid.advance hgood
      exact ⟨v :: l, b ++ body, after, congrArg (· + 1) hl, ⟨b, body, hv, hbody, rfl⟩,
        (append_assoc ..).symm⟩

theorem items_stays (h : Parses get grammar) (hshort : NoOverlong des.buffer) :
    Stays False des (getItems get (fun value item => value ++ [item]) count value des).2 := by
  induction count generalizing value des with
  | zero => exact .refl des
  | succ count ih =>
    have hfirst := h.stays des hshort
    simp only [getItems]
    split
    · exact hfirst
    · exact hfirst.andThen (ih (hfirst.buffer ▸ hshort))

theorem items_length_le (hne : ∀ v bytes, grammar.Word v bytes → bytes ≠ [])
    (h : Grammar.Items grammar l bytes) : l.length ≤ bytes.length := by
  induction l generalizing bytes with
  | nil => exact Nat.zero_le _
  | cons v l ih =>
    obtain ⟨b, b', hv, hl, rfl⟩ := h
    have hb := List.length_pos_of_ne_nil (hne v b hv)
    have hl := ih hl
    rw [length_append, length_cons]
    omega

theorem getTotalLen (hasLength : Bool) : Parses (Format.getTotalLen hasLength)
    (if hasLength then Grammar.int 4 id else Pure.pure 0) := by
  cases hasLength with
  | false => exact Parses.pure 0
  | true => exact getUInt32

theorem checkTotalLen_of_good
    (h : (checkTotalLen hasLength totalLen offsetAtStart result).2.good) :
    result.2.good ∧ (hasLength → totalLen = sub32 result.2.bufferOffset offsetAtStart) := by
  revert h
  simp only [checkTotalLen]
  split
  · exact fun h => absurd h ‹_›
  rename_i hgood
  split_ifs with hlen
  · intro h
    cases h
  · exact fun _ => ⟨not_not.mp hgood, fun hhas => not_not.mp fun hne => hlen ⟨hhas, hne⟩⟩

theorem reads_list (h : Parses get grammar) (hne : ∀ v bytes, grammar.Word v bytes → bytes ≠ [])
    (hbody : Grammar.Items grammar l bytes) :
    Reads (getCollection hasLength get [] fun value item => value ++ [item]) l
      (encodeSized hasLength l.length bytes) := by
  intro buffer before after inspected hbuf hnil hsize
  have hcount := items_length_le hne hbody
  have hlen : (encodeSized hasLength l.length bytes).length < 4294967296 := by
    rw [hbuf, length_append, length_append] at hsize
    omega
  have hlen' := hlen
  rw [length_encodeSized] at hlen'
  exact reads_getSized (h.reads_items hbody []) (by omega) hlen buffer before after inspected hbuf
    hnil hsize

theorem list_split (h : Parses get grammar) (hvalid : Valid (before ++ rest))
    (hgood : (getCollection hasLength get [] (fun value item => value ++ [item])
      (inside before rest inspected)).2.good) :
    ∃ l body after, Grammar.Items grammar l body ∧
      rest = encodeSized hasLength l.length body ++ after := by
  simp only [getCollection, getSized] at hgood
  split at hgood
  · rename_i hbad
    exact absurd hgood hbad
  rename_i hcount
  have htotal : (Format.getTotalLen hasLength (inside before rest inspected)).2.good := by
    by_contra hbad
    exact hcount (by rw [getUInt32.bad _ (Bool.eq_false_iff.mpr hbad)]; exact Bool.false_ne_true)
  obtain ⟨totalLen, b1, rest, inspected1, rfl, hword1, hget1⟩ :=
    (getTotalLen hasLength).accepts hvalid htotal
  rw [hget1] at hcount hgood
  obtain ⟨count, b2, rest, inspected2, rfl, ⟨hb2, hval2⟩, hget2⟩ :=
    getUInt32.accepts hvalid.advance (not_not.mp hcount)
  rw [hget2] at hgood
  obtain ⟨hitems, hlen⟩ := checkTotalLen_of_good hgood
  have hvalid' := hvalid.advance.advance
  obtain ⟨l, body, after, rfl, hbody, rfl⟩ := h.items_sound hvalid' hitems
  obtain ⟨inspected3, hget3⟩ := (h.reads_items hbody []).inside hvalid' inspected2
  rw [hget3] at hlen
  have hsize := hvalid.length_lt
  simp only [inside, length_append, hb2] at hlen hsize
  have hcount2 : LittleEndian.bytes 4 l.length = b2 := by
    rw [hval2, ← hb2]
    exact LittleEndian.bytes_value b2
  refine ⟨l, body, after, hbody, ?_⟩
  rw [encodeSized, encodeHeader, hcount2]
  cases hasLength with
  | false =>
    cases hword1.2
    simp [encodeTotalLen]
  | true =>
    obtain ⟨hb1, hval1⟩ := hword1
    have htotal1 : LittleEndian.bytes 4 totalLen = b1 := by
      rw [hval1, ← hb1]
      exact LittleEndian.bytes_value b1
    have hsum : totalLen = headerLen true + body.length := by
      rw [hlen rfl, hb1, Nat.add_assoc, Nat.add_assoc, sub32_add (by omega)]
      simp only [headerLen, if_true]
      omega
    rw [encodeTotalLen, if_pos rfl, ← hsum, htotal1]
    simp

theorem list (h : Parses (read elem) grammar)
    (hne : ∀ v bytes, grammar.Word v bytes → bytes ≠ []) (hasLength : Bool) :
    Parses (read (Format.list hasLength elem)) (Grammar.list hasLength grammar) where
  reads l bytes := by
    rintro ⟨body, hbody, rfl⟩
    exact h.reads_list hne hbody
  sound before rest inspected hvalid hgood := by
    obtain ⟨l, body, after, hbody, rfl⟩ := h.list_split hvalid hgood
    obtain ⟨inspected', hget⟩ := (h.reads_list hne hbody).inside hvalid inspected
    refine ⟨_, after, rfl, body, ?_⟩
    rw [show read (Format.list hasLength elem) _ = _ from hget]
    exact ⟨hbody, rfl⟩
  bad des hbad := by
    have hcount := getUInt32.bad _ ((getTotalLen hasLength).bad des hbad)
    simp only [Reader.read, Format.list, getCollection, getSized]
    rw [if_pos (by rw [hcount]; exact Bool.false_ne_true)]
    exact hcount
  stays des hshort := by
    have hheader := (Stays.getTotalLen hasLength des).andThen (.getUInt32 _)
    simp only [Reader.read, Format.list, getCollection, getSized]
    split
    · exact hheader
    · exact (hheader.andThen (h.items_stays (hheader.buffer ▸ hshort))).andThen .checkTotalLen

end

end Parses

end Serialization
end Congfs
