import Congfs.Serialization.Decoder
import Congfs.Serialization.RoundTrip

/-!
# Decoding stays inside the buffer

`Stays overlong des des'` is what every operator guarantees. It is a relation between the states
before and after, so that the operators compose without a look at what they decode.
-/

namespace Congfs.Serialization

open FlatFile LittleEndian Decoder Format

variable {α β γ : Type} {des des' des'' : Deserializer} {overlong overlong' : Prop}

/-- From `des` to `des'` the buffer stays, and so does an error; and only bytes of the buffer are
looked at, but for an overlong string. -/
structure Stays (overlong : Prop) (des des' : Deserializer) : Prop where
  buffer : des'.buffer = des.buffer
  size : des'.bufferSize = des.bufferSize ∨ des'.bufferSize = 0
  bad : des.good = false → des'.good = false
  inspected : des.bufferSize ≤ des.buffer.length → des.buffer.length < 4294967296 →
    ∃ new, des'.inspected = des.inspected ++ new ∧ ((∀ i ∈ new, i < des.buffer.length) ↔ ¬overlong)

namespace Stays

theorem congr (h : Stays overlong des des')
    (hiff : des.bufferSize ≤ des.buffer.length → des.buffer.length < 4294967296 →
      (overlong ↔ overlong')) : Stays overlong' des des' where
  buffer := h.buffer
  size := h.size
  bad := h.bad
  inspected hsize hlen := by
    rw [← hiff hsize hlen]
    exact h.inspected hsize hlen

theorem refl (des : Deserializer) : Stays False des des where
  buffer := rfl
  size := .inl rfl
  bad := id
  inspected _ _ := ⟨[], by simp, by simp⟩

theorem trans (h : Stays overlong des des') (h' : Stays overlong' des' des'') :
    Stays (overlong ∨ overlong') des des'' where
  buffer := h'.buffer.trans h.buffer
  size := by
    rcases h'.size with hs' | hs'
    · rw [hs']
      exact h.size
    · exact .inr hs'
  bad hbad := h'.bad (h.bad hbad)
  inspected hsize hlen := by
    have hsize' : des'.bufferSize ≤ des'.buffer.length := by
      rw [h.buffer]
      rcases h.size with hs | hs <;> omega
    obtain ⟨new, heq, hnew⟩ := h.inspected hsize hlen
    obtain ⟨new', heq', hnew'⟩ := h'.inspected hsize' (by rw [h.buffer]; exact hlen)
    rw [h.buffer] at hnew'
    refine ⟨new ++ new', by rw [heq', heq, List.append_assoc], ?_⟩
    rw [not_or, ← hnew, ← hnew', List.forall_mem_append]

theorem andThen (h : Stays overlong des des') (h' : Stays False des' des'') :
    Stays overlong des des'' :=
  (h.trans h').congr fun _ _ => by rw [or_false]

theorem thenStays (h : Stays False des des') (h' : Stays overlong des' des'') :
    Stays overlong des des'' :=
  (h.trans h').congr fun _ _ => by rw [false_or]

theorem setBad (des : Deserializer) : Stays False des des.setBad where
  buffer := rfl
  size := .inr rfl
  bad _ := by simp [Deserializer.good, Deserializer.setBad]
  inspected _ _ := ⟨[], by simp [Deserializer.setBad], by simp⟩

theorem setBadIf [Decidable p] : Stays False des (if p then des.setBad else des) := by
  split
  · exact setBad des
  · exact refl des

variable (des : Deserializer)

theorem inspect (start length : ℕ) :
    Stays (length ≠ 0 ∧ des.buffer.length < start + length) des (des.inspect start length).2 where
  buffer := rfl
  size := .inl rfl
  bad hbad := hbad
  inspected _ _ := by
    refine ⟨_, rfl, ?_⟩
    simp only [List.mem_map, List.mem_range]
    constructor
    · rintro h ⟨hne, hlt⟩
      have hlast := h (start + (length - 1)) ⟨length - 1, by omega, rfl⟩
      omega
    · rintro h i ⟨k, hk, rfl⟩
      by_contra hle
      exact h ⟨by omega, by omega⟩

theorem skip (length : ℕ) : Stays False des (des.skip length) := by
  simp only [Deserializer.skip]
  split_ifs with hfit
  · exact ⟨rfl, .inr rfl, fun _ => by simp [Deserializer.good, Deserializer.setBad],
      fun _ _ => ⟨[], by simp [Deserializer.setBad], by simp⟩⟩
  · refine ⟨rfl, .inl rfl, fun hbad => ?_, fun _ _ => ⟨[], by simp, by simp⟩⟩
    simp only [Deserializer.good, decide_eq_false_iff_not] at hbad ⊢
    omega

theorem padFieldTo (start padding : ℕ) :
    Stays False des (des.padFieldTo start padding) := by
  simp only [Deserializer.padFieldTo]
  split
  · exact skip ..
  · exact refl des

theorem getBlock (length : ℕ) : Stays False des (des.getBlock length).2 := by
  simp only [Deserializer.getBlock]
  split_ifs with hfit
  · have hinspect := inspect des des.bufferOffset length
    refine ⟨rfl, .inl rfl, fun hbad => ?_, fun hsize hlen => ?_⟩
    · have hzero : des.bufferSize = 0 := by
        simp only [Deserializer.good, decide_eq_false_iff_not] at hbad
        omega
      simp [Deserializer.inspect, Deserializer.good, hzero]
    · obtain ⟨new, heq, hnew⟩ := hinspect.inspected hsize hlen
      refine ⟨new, heq, hnew.trans ?_⟩
      simp only [not_and, not_false_eq_true, iff_true]
      omega
  · exact ⟨rfl, .inr rfl, fun _ => by simp [Deserializer.good, Deserializer.setBad],
      fun _ _ => ⟨[], by simp [Deserializer.setBad], by simp⟩⟩

theorem getUInt32 : Stays False des des.getUInt32.2 := getBlock des 4

end Stays

/-! ## Strings -/

theorem skip_good_iff :
    (des.skip length).good ↔ des.bufferSize ≠ 0 ∧ des.bufferOffset + length ≤ des.bufferSize := by
  have hwrap : wrap32 (des.bufferOffset + length) ≤ des.bufferOffset + length := Nat.mod_le _ _
  simp only [Deserializer.skip]
  split_ifs with hout
  · simp [Deserializer.good, Deserializer.setBad]
    omega
  · simp only [Deserializer.good, decide_eq_true_eq]
    omega

theorem getUInt32_of_le (h : des.bufferOffset + 4 ≤ des.bufferSize) :
    des.getUInt32.1 = value (slice des.buffer des.bufferOffset 4) ∧
      des.getUInt32.2.bufferOffset = wrap32 (des.bufferOffset + 4) ∧
      des.getUInt32.2.bufferSize = des.bufferSize := by
  simp [Deserializer.getUInt32, Deserializer.getBlock, Deserializer.inspect, h]

theorem getUInt32_of_not_le (h : ¬des.bufferOffset + 4 ≤ des.bufferSize) :
    des.getUInt32.2.good = false := by
  simp [Deserializer.getUInt32, Deserializer.getBlock, Deserializer.setBad, h, Deserializer.good]

theorem value_slice_lt (des : Deserializer) (start : ℕ) :
    value (slice des.buffer start 4) < 4294967296 := by
  have hlt := value_lt (slice des.buffer start 4)
  have hlen : (slice des.buffer start 4).length ≤ 4 := by
    rw [length_slice]
    omega
  exact Nat.lt_of_lt_of_le hlt (Nat.pow_le_pow_right (by decide) hlen)

/-- The bytes of the string, the terminator included, are in the buffer exactly if the sum of the
length and 1 was not cut to 32 bits. -/
theorem rawString_bounds (hsize : des.bufferSize ≤ des.buffer.length)
    (hlen : des.buffer.length < 4294967296) (hgood : des.getUInt32.2.good)
    (hskip : (des.getUInt32.2.skip (wrap32 (des.getUInt32.1 + 1))).good) :
    des.buffer.length < des.getUInt32.2.bufferOffset + des.getUInt32.1 + 1 ↔
      stringOverlong des := by
  have hfit : des.bufferOffset + 4 ≤ des.bufferSize := by
    by_contra hfit
    rw [getUInt32_of_not_le hfit] at hgood
    cases hgood
  obtain ⟨hval, hoff, hsame⟩ := getUInt32_of_le hfit
  have hlt := value_slice_lt des des.bufferOffset
  rw [wrap32_of_lt (by omega)] at hoff
  rw [skip_good_iff, hoff, hsame, hval] at hskip
  rw [hoff, hval, stringOverlong]
  generalize value (slice des.buffer des.bufferOffset 4) = length at *
  constructor
  · intro hout
    refine ⟨hfit, ?_⟩
    by_contra hne
    rw [wrap32_of_lt (by omega)] at hskip
    omega
  · rintro ⟨-, rfl⟩
    omega

theorem skip_good_of_overlong (hsize : des.bufferSize ≤ des.buffer.length)
    (hlen : des.buffer.length < 4294967296) (h : stringOverlong des) :
    des.getUInt32.2.good ∧ (des.getUInt32.2.skip (wrap32 (des.getUInt32.1 + 1))).good := by
  obtain ⟨hfit, hmax⟩ := h
  obtain ⟨hval, hoff, hsame⟩ := getUInt32_of_le hfit
  have hzero : wrap32 (4294967295 + 1) = 0 := rfl
  rw [wrap32_of_lt (by omega)] at hoff
  rw [skip_good_iff, hoff, hsame, hval, hmax, hzero]
  refine ⟨good_of_le ?_ ?_, ?_⟩ <;> omega

open Stays

theorem Stays.getRawString (align : ℕ) (des : Deserializer) :
    Stays (stringOverlong des) des (des.getRawString align).2 := by
  have hlength := getUInt32 des
  have hover := fun hsize hlen => @skip_good_of_overlong des hsize hlen
  have hbounds := fun hsize hlen => @rawString_bounds des hsize hlen
  simp only [Deserializer.getRawString]
  split
  · rename_i hbad
    refine (hlength.andThen (.padFieldTo ..)).congr fun hsize hlen => ?_
    exact iff_of_false id fun h => hbad (hover hsize hlen h).1
  · rename_i hgood
    have hskip := hlength.andThen (.skip _ (wrap32 (des.getUInt32.1 + 1)))
    split
    · rename_i hbad
      refine (hskip.andThen (.padFieldTo ..)).congr fun hsize hlen => ?_
      exact iff_of_false id fun h => hbad (hover hsize hlen h).2
    · rename_i hgood'
      have hterm := hskip.thenStays (.inspect _ (des.getUInt32.2.bufferOffset + des.getUInt32.1) 1)
      refine ((hterm.andThen (.setBadIf)).andThen (.padFieldTo ..)).congr fun hsize hlen => ?_
      rw [hskip.buffer]
      exact (and_iff_right (by decide)).trans
        (hbounds hsize hlen (not_not.mp hgood) (not_not.mp hgood'))

theorem getRawString_of_good (h : (des.getRawString align).2.good) : des.getUInt32.2.good ∧
      slice des.buffer (des.getUInt32.2.bufferOffset + des.getUInt32.1) 1 = [0] ∧
      des.getRawString align = ((des.getUInt32.2.bufferOffset, des.getUInt32.1),
        ((des.getUInt32.2.skip (wrap32 (des.getUInt32.1 + 1))).inspect
          (des.getUInt32.2.bufferOffset + des.getUInt32.1) 1).2.padFieldTo des.size align) := by
  have hpad : ∀ des : Deserializer, ∀ start, des.good = false →
      (des.padFieldTo start align).good → False := by
    intro des start hbad hgood
    rw [(padFieldTo des start align).bad hbad] at hgood
    cases hgood
  have hskip := (getUInt32 des).andThen (.skip _ (wrap32 (des.getUInt32.1 + 1)))
  revert h
  simp only [Deserializer.getRawString]
  split
  · rename_i hbad
    exact fun h => (hpad _ _ (Bool.eq_false_iff.mpr hbad) h).elim
  rename_i hgood
  split
  · rename_i hbad
    exact fun h => (hpad _ _ (Bool.eq_false_iff.mpr hbad) h).elim
  intro h
  have hterm : (Deserializer.inspect (des.getUInt32.2.skip (wrap32 (des.getUInt32.1 + 1)))
      (des.getUInt32.2.bufferOffset + des.getUInt32.1) 1).1 = [0] := by
    by_contra hne
    rw [if_pos hne] at h
    refine hpad _ _ ?_ h
    simp [Deserializer.good, Deserializer.setBad]
  rw [if_neg (not_not.mpr hterm)]
  simp only [Deserializer.inspect, hskip.buffer] at hterm
  exact ⟨not_not.mp hgood, hterm, rfl⟩

theorem getRawString_lt (h : (des.getRawString align).2.good) :
    (des.getRawString align).1.1 + (des.getRawString align).1.2 < des.buffer.length := by
  obtain ⟨-, hterm, heq⟩ := getRawString_of_good h
  rw [heq]
  have hlen := congrArg List.length hterm
  rw [length_slice, List.length_singleton] at hlen
  dsimp only
  omega

theorem Stays.string (align : ℕ) (des : Deserializer) :
    Stays (stringOverlong des) des ((Format.string align).get des).2 := by
  have hraw := getRawString align des
  simp only [Format.string]
  split_ifs with hgood
  · refine (hraw.trans (.inspect _ (des.getRawString align).1.1 (des.getRawString align).1.2)).congr
      fun _ _ => ?_
    have hlt := getRawString_lt hgood
    rw [hraw.buffer]
    refine or_iff_left ?_
    omega
  · exact hraw

/-! ## Collections -/

section
variable {get : Deserializer → α × Deserializer} {get' : Deserializer → β × Deserializer}
  {overlong overlong' : Deserializer → Prop}

theorem Stays.getItems {insert : γ → α → γ} (h : ∀ des, Stays (overlong des) des (get des).2)
    (size : ℕ) (value : γ) (des : Deserializer) :
    Stays (itemsOverlong get overlong size des) des
      (getItems get insert size value des).2 := by
  induction size generalizing value des with
  | zero => exact .refl des
  | succ size ih =>
    simp only [Format.getItems, itemsOverlong]
    split
    · rename_i hbad
      exact (h des).congr fun _ _ => (or_iff_left fun hand => hbad hand.1).symm
    · rename_i hgood
      refine ((h des).trans (ih _ _)).congr fun _ _ => ?_
      rw [not_not.mp hgood]
      simp

theorem Stays.getEntries {lt : α → α → Prop} [DecidableRel lt] [IsStrictOrder α lt]
    (h : ∀ des, Stays (overlong des) des (get des).2)
    (h' : ∀ des, Stays (overlong' des) des (get' des).2) (size : ℕ) (value : StdMap β lt)
    (des : Deserializer) :
    Stays (entriesOverlong get get' overlong overlong' size des) des
      (getEntries get get' size value des).2 := by
  induction size generalizing value des with
  | zero => exact .refl des
  | succ size ih =>
    simp only [Format.getEntries, entriesOverlong]
    split
    · rename_i hbad
      exact (h des).congr fun _ _ => (or_iff_left fun hand => hbad hand.1).symm
    rename_i hgood
    have hkey := h des
    split
    · rename_i hbad
      refine (hkey.trans (h' _)).congr fun _ _ => ?_
      rw [not_not.mp hgood, Bool.eq_false_iff.mpr hbad]
      simp
    · rename_i hgood'
      refine (hkey.trans ((h' _).trans (ih _ _))).congr fun _ _ => ?_
      rw [not_not.mp hgood, not_not.mp hgood']
      simp

theorem Stays.checkTotalLen :
    Stays False result.2 (Format.checkTotalLen hasLength totalLen start result).2 := by
  simp only [Format.checkTotalLen]
  split
  · exact .refl _
  split
  · exact .setBad _
  · exact .refl _

theorem Stays.getTotalLen (hasLength : Bool) (des : Deserializer) :
    Stays False des (getTotalLen hasLength des).2 := by
  cases hasLength
  · exact .refl des
  · exact .getUInt32 des

theorem Stays.getSized {hasLength : Bool} {overlong : ℕ → Deserializer → Prop} {empty : γ}
    (h : ∀ size des, Stays (overlong size des) des (loop size des).2) (des : Deserializer) :
    Stays (sizedOverlong hasLength overlong des) des
      (getSized hasLength loop empty des).2 := by
  have hheader := (getTotalLen hasLength des).andThen (.getUInt32 _)
  simp only [Format.getSized, sizedOverlong]
  split
  · rename_i hbad
    exact hheader.congr fun _ _ => (iff_of_false id fun hand => hbad hand.1)
  · rename_i hgood
    refine ((hheader.thenStays (h _ _)).andThen .checkTotalLen).congr fun _ _ => ?_
    rw [not_not.mp hgood]
    simp

end

/-! ## Collections of strings -/

/-- What remains ends in a zero, so that no string ends behind it. -/
theorem Stays.getCStrings {insert : γ → List UInt8 → γ} {size remaining array : ℕ}
    {value : γ} (hlt : remaining < 4294967296)
    (hlast : remaining ≠ 0 →
      slice des.buffer (array + (remaining - 1)) 1 = [0]) :
    Stays False des (getCStrings insert size remaining array value des).2 := by
  induction size generalizing remaining array value des with
  | zero => exact .setBadIf
  | succ size ih =>
    simp only [getCStrings]
    split_ifs with hpos
    · have hzero := hlast (by omega)
      have hlen := congrArg List.length hzero
      have hitem := @length_takeWhile_le _ _ _ _ (fun b => decide (b ≠ 0)) 0 hzero rfl
      rw [length_slice, List.length_singleton] at hlen
      generalize hstr : (des.buffer.drop array).takeWhile (· ≠ 0) = item at hitem
      have hget : getCString des array =
          (item, (des.inspect array (item.length + 1)).2) := by
        rw [getCString, hstr]
      obtain ⟨rest, hrest⟩ : ∃ rest, remaining = item.length + 1 + rest :=
        ⟨remaining - (item.length + 1), by omega⟩
      have hsub : sub32 remaining (item.length + 1) = rest := by
        rw [hrest]
        exact sub32_add (by omega)
      rw [hget, hsub]
      refine thenStays ((inspect des array (item.length + 1)).congr fun _ _ => ?_)
        (ih (by omega) fun hne => ?_)
      · refine iff_of_false ?_ id
        omega
      · have hpos' : array + (item.length + 1) + (rest - 1) =
            array + (remaining - 1) := by omega
        rw [hpos']
        exact hzero
    · exact .setBad des

theorem Stays.getRawStrings {insert : γ → List UInt8 → γ} {size remaining : ℕ}
    (hlt : remaining < 4294967296) :
    Stays False des (getRawStrings empty insert size remaining des).2 := by
  simp only [Format.getRawStrings]
  split
  · exact .getCStrings (by decide) fun h => absurd rfl h
  have hskip := skip des remaining
  split
  · exact hskip
  rename_i hne hgood
  have hfit := skip_good_iff.mp (not_not.mp hgood)
  have hinspect : Stays False des
      ((des.skip remaining).inspect (des.bufferOffset + (remaining - 1)) 1).2 := by
    refine (hskip.thenStays (.inspect _ _ 1)).congr fun hsize _ => ?_
    rw [hskip.buffer]
    refine iff_of_false ?_ id
    omega
  split_ifs with hlast
  · exact hinspect.andThen (.setBad _)
  · refine hinspect.andThen (.getCStrings hlt fun _ => ?_)
    exact not_not.mp hlast

theorem Stays.deserializeStringCollection {insert : γ → List UInt8 → γ} :
    Stays False des (Format.deserializeStringCollection empty insert des).2 := by
  have hheader := (getUInt32 des).andThen (.getUInt32 _)
  simp only [Format.deserializeStringCollection]
  split
  · exact hheader
  · exact hheader.andThen (.getRawStrings (UInt32.toNat_lt _))

/-! ## Programs -/

theorem Decoder.stays (d : Decoder α) (des : Deserializer) :
    Stays (d.Overlong des) des (d.run des).2 := by
  induction d generalizing des with
  | pure => exact .refl des
  | bind first next ih ih' => exact (ih des).trans (ih' _ _)
  | ifGood yes no ih ih' =>
    simp only [Decoder.run, Decoder.Overlong]
    split
    · exact ih des
    · exact ih' des
  | setBad => exact .setBad des
  | int width ofNat => exact .getBlock des width
  | string align => exact .string align des
  | rawString align => exact .getRawString align des
  | rawBlock size => exact .skip des size
  | collection hasLength elem empty insert ih =>
    exact .getSized (fun size des => .getItems ih size empty des) des
  | map lt hasLength key mapped ih ih' =>
    exact .getSized (fun size des => .getEntries ih ih' size ∅ des) des
  | stringCollection empty insert => exact .deserializeStringCollection

theorem decoder_safe_iff (d : Decoder α) {buffer : List UInt8} (hlen : buffer.length < 4294967296) :
    (∀ i ∈ (d.run (.ofBuffer buffer)).2.inspected, i < buffer.length) ∧
        (∀ des : Deserializer, des.good = false → (d.run des).2.good = false) ↔
      ¬d.Overlong (.ofBuffer buffer) := by
  obtain ⟨new, heq, hnew⟩ :=
    (Decoder.stays d (.ofBuffer buffer)).inspected (le_refl buffer.length) hlen
  have hins : (d.run (.ofBuffer buffer)).2.inspected = new := heq
  rw [hins, ← hnew]
  exact and_iff_left fun des hbad => (Decoder.stays d des).bad hbad

def nodeDecoder : Decoder (List UInt8 × ℕ) :=
  .bind (.string 4) fun str => .bind (.int 2 id) fun n => .pure (str, n)

theorem decoder_safe_nodeDecoder :
    ¬nodeDecoder.Overlong (.ofBuffer [1, 0, 0, 0, 97, 0, 0, 0, 5, 0]) ∧
      ∀ i ∈ (nodeDecoder.run (.ofBuffer [1, 0, 0, 0, 97, 0, 0, 0, 5, 0])).2.inspected, i < 10 := by
  have hshort : ¬nodeDecoder.Overlong (.ofBuffer [1, 0, 0, 0, 97, 0, 0, 0, 5, 0]) := by
    rintro (⟨-, hmax⟩ | h | h)
    · exact absurd hmax (by decide)
    · exact h
    · exact h
  exact ⟨hshort, ((decoder_safe_iff nodeDecoder (by decide)).mpr hshort).1⟩

/-- The byte behind the longest string is looked for in the rest of the address space. -/
theorem string_inspects_outside :
    4 + 4294967295 ∈ ((Decoder.string 1).run (.ofBuffer [255, 255, 255, 255])).2.inspected ∧
      ¬4 + 4294967295 < [255, 255, 255, 255].length := by
  decide

end Congfs.Serialization
