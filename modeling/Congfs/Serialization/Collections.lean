import Congfs.Serialization.RoundTrip

/-!
# Collections are read back

A collection starts with fields that are only known when its elements have been written. They are
written as zeros, and once more at the end.
-/

namespace Congfs.Serialization

open Writes Reads FlatFile LittleEndian
open List (append_assoc flatMap_cons length_append mem_cons_of_mem mem_cons_self)

variable {α β γ : Type}

/-! ## Writing -/

/-- Writes over the start of what `put` has written, with the number of bytes there are since
before the header. -/
theorem Writes.patchedBehind {header put : Serializer → Serializer}
    {write : ℕ → Serializer → Serializer} {head hole rest patch : List UInt8}
    (hh : Writes header head) (h : Writes put (hole ++ rest))
    (hw : Writes (write (wrap32 (head ++ (hole ++ rest)).length)) patch)
    (hlen : patch.length = hole.length) :
    Writes (fun ser => (put (header ser)).writeAt (header ser)
      (write (sub32 (put (header ser)).bufferOffset ser.bufferOffset)))
      (head ++ (patch ++ rest)) := by
  have hboth := hh.comp h
  have hsame : (head ++ (patch ++ rest)).length = (head ++ (hole ++ rest)).length := by
    simp only [length_append, hlen]
  constructor
  · intro ser hnone hlt
    obtain ⟨hmark, hmarkOff⟩ := hh.dry ser hnone hlt
    obtain ⟨hput, hoff⟩ := hboth.dry ser hnone hlt
    rw [hsame]
    refine ⟨?_, hoff⟩
    simp only [Serializer.writeAt, hput, hoff, sub32_wrap32_add]
    exact (hw.dry ⟨none, (header ser).bufferSize, (header ser).bufferOffset⟩ rfl
      (hmarkOff ▸ wrap32_lt)).1
  · intro buffer offset hfit hsize
    rw [hsame] at hfit ⊢
    have hrange : sub32 (offset + (head ++ (hole ++ rest)).length) offset =
        wrap32 (head ++ (hole ++ rest)).length := by
      rw [sub32_add (by omega), wrap32_of_lt (by omega)]
    have hfit' : offset + head.length + (hole ++ rest).length ≤ buffer.length := by
      rw [length_append] at hfit
      omega
    have hmark := hh.wet buffer offset (by omega) hsize
    have hlenAll := length_overwrite hfit
    have hpatch := hw.wet (overwrite 0 buffer offset (head ++ (hole ++ rest)))
      (offset + head.length) (by rw [hlenAll, hlen]; rw [length_append] at hfit'; omega) (by omega)
    rw [hlenAll] at hpatch
    have hput := hboth.wet buffer offset hfit hsize
    simp only [hmark] at hput
    simp only [hmark, hput, Serializer.writeAt, hrange, hpatch]
    rw [← overwrite_append, overwrite_overwrite hlen, overwrite_append]

/-- Without a header. -/
theorem Writes.patched {put : Serializer → Serializer} {write : ℕ → Serializer → Serializer}
    {hole rest patch : List UInt8} (h : Writes put (hole ++ rest))
    (hw : Writes (write (wrap32 (hole ++ rest).length)) patch) (hlen : patch.length = hole.length) :
    Writes (fun ser => (put ser).writeAt ser
      (write (sub32 (put ser).bufferOffset ser.bufferOffset))) (patch ++ rest) :=
  patchedBehind nil h hw hlen

theorem writes_putAll (h : ∀ v ∈ l, Writes (put v) (encode v)) :
    Writes (Format.putAll put l) (l.flatMap encode) := by
  induction l with
  | nil => exact nil
  | cons v l ih =>
    exact (h v mem_cons_self).comp (ih fun w hw => h w (mem_cons_of_mem _ hw))

def encodeTotalLen (hasLength : Bool) (totalLen : ℕ) : List UInt8 :=
  if hasLength then bytes 4 totalLen else []

/-- What is in front of the elements: the length of everything, if there is one, and the count. -/
def encodeHeader (hasLength : Bool) (totalLen count : ℕ) : List UInt8 :=
  encodeTotalLen hasLength totalLen ++ bytes 4 count

def headerLen (hasLength : Bool) : ℕ := if hasLength then 8 else 4

theorem length_encodeHeader (hasLength : Bool) :
    (encodeHeader hasLength totalLen count).length = headerLen hasLength := by
  cases hasLength <;> simp [encodeHeader, encodeTotalLen, headerLen]

def encodeSized (hasLength : Bool) (count : ℕ) (body : List UInt8) : List UInt8 :=
  encodeHeader hasLength (headerLen hasLength + body.length) count ++ body

theorem length_encodeSized (hasLength : Bool) (count : ℕ) (body : List UInt8) :
    (encodeSized hasLength count body).length = headerLen hasLength + body.length := by
  rw [encodeSized, length_append, length_encodeHeader]

theorem writes_header (hasLength : Bool) (totalLen count : ℕ) :
    Writes (fun ser => (if hasLength then ser.putUInt32 totalLen else ser).putUInt32 count)
      (encodeHeader hasLength totalLen count) := by
  cases hasLength with
  | false => exact putUInt32 count
  | true => exact (putUInt32 totalLen).comp (putUInt32 count)

theorem writes_putCollection {put : α → Serializer → Serializer} {encode : α → List UInt8}
    {l : List α} {hasLength : Bool} (h : ∀ v ∈ l, Writes (put v) (encode v))
    (hlen : (encodeSized hasLength l.length (l.flatMap encode)).length < 4294967296) :
    Writes (Format.putCollection hasLength put l)
      (encodeSized hasLength l.length (l.flatMap encode)) := by
  have hbody := (writes_header hasLength 0 0).comp (writes_putAll h)
  rw [length_encodeSized] at hlen
  refine @patched _ (fun totalLen atStart =>
    (if hasLength then atStart.putUInt32 totalLen else atStart).putUInt32 l.length) _ _
      _ hbody ?_ ?_
  · rw [length_append, length_encodeHeader, wrap32_of_lt hlen]
    exact writes_header ..
  · rw [length_encodeHeader, length_encodeHeader]

/-! ## Reading -/

theorem reads_getItems {get : Deserializer → α × Deserializer} {insert : γ → α → γ} {l : List α}
    (h : ∀ v ∈ l, Reads get v (encode v)) (value : γ) :
    Reads (Format.getItems get insert l.length value) (l.foldl insert value)
    (l.flatMap encode) := by
  induction l generalizing value with
  | nil => exact pure value
  | cons v l ih =>
    have hrest := ih (fun w hw => h w (mem_cons_of_mem _ hw)) (insert value v)
    exact @bindGood _ _ _ _ get v (h v mem_cons_self) (fun _ des => (value, des))
      (fun item => Format.getItems get insert l.length (insert value item)) _ hrest

theorem reads_totalLen {hasLength : Bool} {totalLen : ℕ} (h : totalLen < 4294967296) :
    Reads (Format.getTotalLen hasLength) (if hasLength then totalLen else 0)
      (encodeTotalLen hasLength totalLen) := by
  cases hasLength with
  | false => exact pure 0
  | true => exact getUInt32 h

theorem reads_getSized {hasLength : Bool} {loop : ℕ → Deserializer → γ × Deserializer} {empty w : γ}
    {count : ℕ} {body : List UInt8} (hloop : Reads (loop count) w body)
    (hcount : count < 4294967296) (hlen : (encodeSized hasLength count body).length < 4294967296) :
    Reads (Format.getSized hasLength loop empty) w (encodeSized hasLength count body) := by
  intro buffer before after inspected hbuf hne hsize
  have hpos : buffer.length ≠ 0 := fun h => hne (List.length_eq_zero_iff.mp h)
  have htotal : before.length + (headerLen hasLength + body.length) ≤ buffer.length := by
    rw [hbuf, length_append, length_append, length_encodeSized]
    omega
  rw [length_encodeSized] at hlen ⊢
  have hbuf' : buffer = before ++ (encodeTotalLen hasLength (headerLen hasLength + body.length) ++
      bytes 4 count ++ body) ++ after := hbuf
  generalize htl : encodeTotalLen hasLength (headerLen hasLength + body.length) = totalLen at hbuf'
  have hheader : totalLen.length + 4 = headerLen hasLength := by
    rw [← htl]
    cases hasLength <;> simp [encodeTotalLen, headerLen]
  obtain ⟨inspected1, h1⟩ := @reads_totalLen hasLength _ hlen buffer before
    (bytes 4 count ++ body ++ after) inspected (by rw [hbuf', htl]; simp) hne hsize
  obtain ⟨inspected2, h2⟩ := getUInt32 hcount buffer (before ++ totalLen) (body ++ after) inspected1
    (by rw [hbuf']; simp) hne hsize
  obtain ⟨inspected3, h3⟩ := hloop buffer (before ++ totalLen ++ bytes 4 count) after inspected2
    (by rw [hbuf']; simp) hne hsize
  rw [htl] at h1
  rw [length_append, length_bytes, Nat.add_assoc, hheader] at h2
  rw [length_append, length_append, length_bytes, Nat.add_assoc _ _ 4, hheader,
    Nat.add_assoc] at h3
  have hrange := @sub32_add before.length (headerLen hasLength + body.length) (by omega)
  have hgood2 := @good_of_le ⟨buffer, buffer.length, before.length + headerLen
    hasLength, inspected2⟩ hpos (by simp only; omega)
  have hgood3 := @good_of_le
    ⟨buffer, buffer.length, before.length + (headerLen hasLength + body.length), inspected3⟩ hpos
    htotal
  simp only [Format.getSized, h1, h2, h3, hgood2, hgood3, hrange, Format.checkTotalLen,
    not_true_eq_false, if_false]
  cases hasLength <;> simp

/-! ## Lists, sets and maps -/

section
variable {elem : Format α} {encode : α → List UInt8} {valid : α → Prop} {l : List α} {v : α}

theorem length_le_flatMap (h : v ∈ l) : (encode v).length ≤ (l.flatMap encode).length := by
  obtain ⟨l1, l2, rfl⟩ := List.append_of_mem h
  simp only [List.flatMap_append, flatMap_cons, length_append]
  omega

/-- Without it the count would not be bounded by the size. -/
theorem count_le_flatMap (h : ∀ v ∈ l, encode v ≠ []) : l.length ≤ (l.flatMap encode).length := by
  induction l with
  | nil => exact Nat.zero_le _
  | cons v l ih =>
    have hv := List.length_pos_of_ne_nil (h v mem_cons_self)
    have hl := ih fun w hw => h w (mem_cons_of_mem _ hw)
    simp only [flatMap_cons, length_append, List.length_cons]
    omega

def encodeCollection (hasLength : Bool) (encode : α → List UInt8) (l : List α) : List UInt8 :=
  encodeSized hasLength l.length (l.flatMap encode)

theorem foldl_concat : l.foldl (fun l v => l ++ [v]) [] = l := by
  rw [List.foldl_append_eq_append, List.nil_append, ← List.flatMap_def, List.flatMap_singleton']

section
variable (h : RoundTrips elem encode valid)
include h

theorem RoundTrips.putCollection (hl : ∀ v ∈ l, valid v)
    (hlen : (encodeCollection hasLength encode l).length < 4294967296) :
    Writes (Format.putCollection hasLength elem.put l) (encodeCollection hasLength encode l) := by
  refine writes_putCollection (fun v hv => h.writes v (hl v hv) ?_) hlen
  have hv' := @length_le_flatMap _ encode _ _ hv
  rw [encodeCollection, length_encodeSized] at hlen
  omega

theorem RoundTrips.getCollection (hne : ∀ v, valid v → encode v ≠ [])
    {hasLength : Bool} {empty : γ} {insert : γ → α → γ} (hl : ∀ v ∈ l, valid v)
    (hlen : (encodeCollection hasLength encode l).length < 4294967296) :
    Reads (Format.getCollection hasLength elem.get empty insert) (l.foldl insert empty)
      (encodeCollection hasLength encode l) := by
  have hcount := count_le_flatMap fun v hv => hne v (hl v hv)
  have hbody := hlen
  rw [encodeCollection, length_encodeSized] at hbody
  refine reads_getSized (reads_getItems (fun v hv => h.reads v (hl v hv) ?_) empty) (by omega) hlen
  have hv' := @length_le_flatMap _ encode _ _ hv
  omega

theorem list_roundTrips (hne : ∀ v, valid v → encode v ≠ [])
    (hasLength : Bool) : RoundTrips (Format.list hasLength elem) (encodeCollection hasLength encode)
      fun l => ∀ v ∈ l, valid v where
  writes _ hl hlen := h.putCollection hl hlen
  reads l hl hlen := by
    have hreads := @RoundTrips.getCollection _ _ _ _ _ _ h hne _ [] (fun l v => l ++ [v]) hl hlen
    rwa [foldl_concat] at hreads

variable {lt : α → α → Prop} [DecidableRel lt] [IsStrictOrder α lt]

theorem set_roundTrips (hne : ∀ v, valid v → encode v ≠ [])
    (hasLength : Bool) : RoundTrips (Format.set hasLength elem)
      (fun s : StdSet lt => encodeCollection hasLength encode s.toList)
      fun s => ∀ v ∈ s.toList, valid v where
  writes _ hs hlen := h.putCollection hs hlen
  reads s hs hlen := by
    have hreads := @RoundTrips.getCollection _ _ _ _ _ _ h hne _ (∅ : StdSet lt)
      (fun s v => s.insert v) hs hlen
    rwa [@StdSet.foldl_insert _ lt _ _ ∅ s.toList s rfl] at hreads

variable {mapped : Format β} {encode' : β → List UInt8} {valid' : β → Prop}

omit h in
theorem reads_getEntries {key : Deserializer → α × Deserializer}
    {mapped : Deserializer → β × Deserializer} {l : List (α × β)}
    (h : ∀ e ∈ l, Reads key e.1 (encode e.1)) (h' : ∀ e ∈ l, Reads mapped e.2 (encode' e.2))
    (value : StdMap β lt) :
    Reads (Format.getEntries key mapped l.length value)
      (l.foldl (fun m e => m.assign e.1 e.2) value) (l.flatMap fun e => encode e.1 ++
      encode' e.2) := by
  induction l generalizing value with
  | nil => exact pure value
  | cons e l ih =>
    rw [flatMap_cons, append_assoc]
    have hrest := ih (fun w hw => h w (mem_cons_of_mem _ hw))
      (fun w hw => h' w (mem_cons_of_mem _ hw)) (value.assign e.1 e.2)
    have hmapped := @bindGood _ _ _ _ mapped e.2 (h' e mem_cons_self)
      (fun v des => (value.assign e.1 v, des))
      (fun v => Format.getEntries key mapped l.length (value.assign e.1 v)) _ hrest
    exact @bindGood _ _ _ _ key e.1 (h e mem_cons_self) (fun _ des => (value, des))
      (fun k des => if ¬(mapped des).2.good then (value.assign k (mapped des).1, (mapped des).2)
        else Format.getEntries key mapped l.length (value.assign k (mapped des).1) (mapped des).2) _
      hmapped

theorem map_roundTrips (h' : RoundTrips mapped encode' valid')
    (hne : ∀ v, valid v → encode v ≠ []) (hasLength : Bool) :
    RoundTrips (Format.map hasLength elem mapped) (fun m : StdMap β lt =>
        encodeCollection hasLength (fun e => encode e.1 ++ encode' e.2) m.toList)
      fun m => ∀ e ∈ m.toList, valid e.1 ∧ valid' e.2 where
  writes m hm hlen := (pair_roundTrips h h').putCollection hm hlen
  reads m hm hlen := by
    have hcount := @count_le_flatMap _ (fun e : α × β => encode e.1 ++ encode' e.2) m.toList
      fun e he => List.append_ne_nil_of_left_ne_nil (hne e.1 (hm e he).1) _
    have hbody := hlen
    rw [encodeCollection, length_encodeSized] at hbody
    have hentry : ∀ e ∈ m.toList, (encode e.1).length < 4294967296 ∧
        (encode' e.2).length < 4294967296 := by
      intro e he
      have he' := @length_le_flatMap _ (fun e : α × β => encode e.1 ++ encode' e.2) _ _ he
      rw [length_append] at he'
      omega
    have hloop := @reads_getEntries _ _ encode lt _ _ encode' elem.get mapped.get m.toList
      (fun e he => h.reads _ (hm e he).1 (hentry e he).1)
      (fun e he => h'.reads _ (hm e he).2 (hentry e he).2) ∅
    rw [@StdMap.foldl_assign _ _ lt _ _ m.toList ∅ m rfl] at hloop
    exact @reads_getSized _ _ (fun size => Format.getEntries elem.get mapped.get size ∅)
      _ _ _ _ hloop (by omega) hlen

end

end

/-! ## Collections of strings -/

def encodeCString (str : List UInt8) : List UInt8 := str ++ [0]

theorem writes_serializeStringCollection
    (hlen : (encodeCollection true encodeCString l).length < 4294967296) :
    Writes (Format.serializeStringCollection l) (encodeCollection true encodeCString l) :=
  @writes_putCollection _ Format.putCString encodeCString l true
    (fun str _ => (putBlock str).comp (putBlock [0])) hlen

/-- Without a zero in it a string ends where it was ended. -/
theorem takeWhile_encodeCString (h : 0 ∉ str) :
    (encodeCString str ++ rest).takeWhile (· ≠ 0) = str := by
  have hpos : ∀ b ∈ str, decide (b ≠ 0) := fun b hb => by
    simpa using fun (h0 : b = 0) => h (h0 ▸ hb)
  rw [encodeCString, append_assoc, List.takeWhile_append_of_pos hpos]
  simp

/-- The buffer has been skipped already, so only what was inspected changes. -/
theorem getCStrings_eq {insert : γ → List UInt8 → γ} {l : List (List UInt8)}
    (hbuf : buffer = before ++ l.flatMap encodeCString ++ after) (hl : ∀ str ∈ l, 0 ∉ str)
    (hlen : (l.flatMap encodeCString).length < 4294967296) (value : γ) (inspected : List ℕ) :
    ∃ inspected',
      Format.getCStrings insert l.length (l.flatMap encodeCString).length before.length value
        ⟨buffer, size, offset, inspected⟩ =
        (l.foldl insert value, ⟨buffer, size, offset, inspected'⟩) := by
  induction l generalizing before value inspected with
  | nil => exact ⟨inspected, rfl⟩
  | cons str l ih =>
    rw [flatMap_cons] at hbuf
    have hitem : (buffer.drop before.length).takeWhile (· ≠ 0) = str := by
      rw [hbuf, append_assoc, append_assoc, List.drop_left]
      exact takeWhile_encodeCString (hl str mem_cons_self)
    have hcons : ((str :: l).flatMap encodeCString).length =
        str.length + 1 + (l.flatMap encodeCString).length := by
      simp [encodeCString]
      omega
    rw [hcons] at hlen
    have hrest : sub32 (str.length + 1 + (l.flatMap encodeCString).length) (str.length + 1) =
        (l.flatMap encodeCString).length := sub32_add hlen
    have hnext : before.length + (str.length + 1) = (before ++ encodeCString str).length := by
      simp [encodeCString]
    simp only [List.length_cons, Format.getCStrings, hcons, Format.getCString, hitem, hrest, hnext,
      Deserializer.inspect,
      if_pos (show str.length + 1 + (l.flatMap encodeCString).length > 0 by omega)]
    exact ih (by rw [hbuf]; simp) (fun str' h' => hl str' (mem_cons_of_mem _ h')) (by omega) _ _

theorem flatMap_encodeCString_concat (h : l ≠ []) :
    ∃ rest, l.flatMap encodeCString = rest ++ [0] := by
  obtain hnil | ⟨l', str, rfl⟩ := List.eq_nil_or_concat' l
  · exact absurd hnil h
  · exact ⟨l'.flatMap encodeCString ++ str, by simp [encodeCString]⟩

section
variable {empty : γ} {insert : γ → List UInt8 → γ} {l : List (List UInt8)}

theorem reads_getRawStrings
    (hl : ∀ str ∈ l, 0 ∉ str) (hlen : (l.flatMap encodeCString).length < 4294967296) :
    Reads (Format.getRawStrings empty insert l.length (l.flatMap encodeCString).length)
      (l.foldl insert empty) (l.flatMap encodeCString) := by
  intro buffer before after inspected hbuf hne hsize
  by_cases hnil : l = []
  · subst hnil
    exact ⟨inspected, rfl⟩
  have hpos : buffer.length ≠ 0 := fun h => hne (List.length_eq_zero_iff.mp h)
  obtain ⟨rest, hrest⟩ := flatMap_encodeCString_concat hnil
  have hlast : slice buffer (before.length + ((l.flatMap encodeCString).length - 1)) 1 = [0] :=
    @slice_middle _ buffer _ _ (before ++ rest) [0] after (by rw [hbuf, hrest]; simp)
      (by rw [hrest]; simp) rfl
  have hfit : before.length + (l.flatMap encodeCString).length ≤ buffer.length := by
    rw [hbuf]
    simp
  have hgood :=
    @good_of_le ⟨buffer, buffer.length, before.length + (l.flatMap encodeCString).length,
    inspected⟩ hpos hfit
  have hbody : (l.flatMap encodeCString).length ≠ 0 := by
    rw [hrest]
    simp
  simp only [Format.getRawStrings, if_neg hbody, skip_of_le hfit hsize, hgood, not_true_eq_false,
    if_false, Deserializer.inspect, hlast, ne_eq]
  exact getCStrings_eq hbuf hl hlen empty _

theorem reads_deserializeStringCollection (hl : ∀ str ∈ l, 0 ∉ str)
    (hlen : (encodeCollection true encodeCString l).length < 4294967296) :
    Reads (Format.deserializeStringCollection empty insert) (l.foldl insert empty)
      (encodeCollection true encodeCString l) := by
  intro buffer before after inspected hbuf hne hsize
  rw [encodeCollection, encodeSized, encodeHeader, encodeTotalLen, if_pos rfl, headerLen,
    if_pos rfl] at hbuf
  rw [encodeCollection, length_encodeSized, headerLen, if_pos rfl] at hlen ⊢
  have hcount : l.length ≤ (l.flatMap encodeCString).length :=
    count_le_flatMap fun str _ => List.append_ne_nil_of_right_ne_nil _ (List.cons_ne_nil _ _)
  obtain ⟨inspected1, h1⟩ := getUInt32 hlen buffer before
    (bytes 4 l.length ++ l.flatMap encodeCString ++ after) inspected
    (by rw [hbuf]; simp) hne hsize
  obtain ⟨inspected2, h2⟩ := getUInt32 (show l.length < 4294967296 by omega) buffer
    (before ++ bytes 4 (8 + (l.flatMap encodeCString).length))
    (l.flatMap encodeCString ++ after) inspected1 (by rw [hbuf]; simp) hne hsize
  obtain ⟨inspected3, h3⟩ := @reads_getRawStrings _ empty insert l hl (by omega) buffer
    (before ++ bytes 4 (8 + (l.flatMap encodeCString).length) ++
      bytes 4 l.length) after inspected2 (by rw [hbuf]; simp) hne hsize
  simp only [length_append, length_bytes, Nat.add_assoc] at h1 h2 h3
  have htotal : before.length + (8 + (l.flatMap encodeCString).length) ≤ buffer.length := by
    rw [hbuf]
    simp
    omega
  have hheader : sub32 (before.length + (4 + 4)) before.length = 8 := sub32_add (by omega)
  have hremaining : sub32 (8 + (l.flatMap encodeCString).length) 8 =
    (l.flatMap encodeCString).length :=
    sub32_add hlen
  have hgood := @good_of_le ⟨buffer, buffer.length, before.length + (4 + 4), inspected2⟩
    (fun h => hne (List.length_eq_zero_iff.mp h)) (by simp only; omega)
  refine ⟨inspected3, ?_⟩
  simp only [Format.deserializeStringCollection, Deserializer.size, h1, h2, h3, hheader, hremaining,
    hgood, not_true_eq_false, if_false, ← Nat.add_assoc]

end

theorem stringList_roundTrips : RoundTrips Format.stringList (encodeCollection true encodeCString)
    fun l => ∀ str ∈ l, 0 ∉ str where
  writes _ _ hlen := writes_serializeStringCollection hlen
  reads l hl hlen := by
    have hreads := @reads_deserializeStringCollection _ [] (fun l str => l ++ [str]) l hl hlen
    rwa [foldl_concat] at hreads

theorem stringSet_roundTrips [DecidableRel lt]
    [IsStrictOrder (List UInt8) lt] : RoundTrips Format.stringSet
      (fun s : StdSet lt => encodeCollection true encodeCString s.toList)
      fun s => ∀ str ∈ s.toList, 0 ∉ str where
  writes _ _ hlen := writes_serializeStringCollection hlen
  reads s hs hlen := by
    have hreads := @reads_deserializeStringCollection _ (∅ : StdSet lt) (fun s str =>
      s.insert str) _
      hs hlen
    rwa [@StdSet.foldl_insert _ lt _ _ ∅ s.toList s rfl] at hreads

end Congfs.Serialization
