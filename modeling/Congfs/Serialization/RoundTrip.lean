import Congfs.Serialization.Fields
import Congfs.Serialization.Formats

/-!
# What was written is read back

One lemma for each format, then every type that is built from them.
-/

namespace Congfs.Serialization

open List Serializer LittleEndian
open Format (string)

variable {α β : Type} {bytes : List UInt8}

/-- `encode` is what a format writes for the values in `valid`, and it reads it back if it has fewer
than 2³² bytes. -/
structure RoundTrips (fmt : Format α) (encode : α → List UInt8) (valid : α → Prop) : Prop where
  writes : ∀ v, valid v → (encode v).length < 4294967296 → Writes (fmt.put v) (encode v)
  reads : ∀ v, valid v → (encode v).length < 4294967296 → Reads fmt.get v (encode v)

theorem RoundTrips.of_forall (h : RoundTrips fmt encode valid) (hvalid : ∀ v, valid v) :
    RoundTrips fmt encode fun _ => True where
  writes v _ hlen := h.writes v (hvalid v) hlen
  reads v _ hlen := h.reads v (hvalid v) hlen

/-! ## Integers -/

theorem Writes.putUInt32 (n : ℕ) : Writes (·.putUInt32 n) (LittleEndian.bytes 4 n) :=
  Writes.putBlock _

theorem Reads.map {get : Deserializer → α × Deserializer} (h : Reads get v bytes) (f : α → β) :
    Reads (fun des => (f (get des).1, (get des).2)) (f v) bytes := by
  have hpure : Reads (fun des => (f v, des)) (f v) [] := Reads.pure (f v)
  have hbind := @Reads.bind α β bytes [] get v h (fun a des => (f a, des)) (f v) hpure
  rwa [append_nil] at hbind

theorem reads_getBlock (h : bytes.length = width) :
    Reads (fun des => des.getBlock width) bytes bytes := by
  subst h
  exact Reads.getBlock bytes

theorem Reads.getUInt32 (h : n < 4294967296) :
    Reads Deserializer.getUInt32 n (LittleEndian.bytes 4 n) := by
  have hmap := (reads_getBlock (length_bytes 4 n)).map value
  rw [value_bytes_of_lt (show n < Nat.pow 256 4 from h)] at hmap
  exact hmap

theorem int_roundTrips {width : ℕ} {toNat : α → ℕ} {ofNat : ℕ → α}
    (hlt : ∀ v, toNat v < Nat.pow 256 width) (hinv : ∀ v, ofNat (toNat v) = v) :
    RoundTrips (Format.int width toNat ofNat) (fun v => LittleEndian.bytes width (toNat v))
      fun _ => True where
  writes v _ _ := Writes.putBlock _
  reads v _ _ := by
    have hmap := (reads_getBlock (length_bytes width (toNat v))).map
      fun bytes => ofNat (value bytes)
    rw [value_bytes_of_lt (hlt v), hinv] at hmap
    exact hmap

/-! ## Pairs and tuples -/

theorem pair_roundTrips {valid : α → Prop} {valid' : β → Prop} (h : RoundTrips first encode valid)
    (h' : RoundTrips second encode' valid') :
    RoundTrips (first.pair second) (fun v => encode v.1 ++ encode' v.2)
      fun v => valid v.1 ∧ valid' v.2 where
  writes v hv hlen := by
    rw [length_append] at hlen
    exact (h.writes v.1 hv.1 (by omega)).comp (h'.writes v.2 hv.2 (by omega))
  reads v hv hlen := by
    rw [length_append] at hlen
    have hsecond := (h'.reads v.2 hv.2 (by omega)).map fun b => (v.1, b)
    exact @Reads.bind _ _ _ _ first.get v.1 (h.reads v.1 hv.1 (by omega))
      (fun a des => ((a, (second.get des).1), (second.get des).2)) v hsecond

theorem emptyTuple_roundTrips : RoundTrips Format.emptyTuple (fun _ => []) fun _ => True where
  writes _ _ _ := Writes.nil
  reads _ _ _ := Reads.pure ()

/-! ## Padding -/

/-- The induction over the blocks of a padding. -/
theorem skip_induct {P : (Serializer → Serializer) → ℕ → Prop} (zero : P id 0)
    (block : ∀ put n m, P put m → P (fun ser => put (ser.putBlock (replicate n 0))) (n + m))
    (size : ℕ) : P (·.skip size) size := by
  induction size using Nat.strongRecOn with
  | ind size ih =>
    by_cases hpos : 0 < size
    · have hblock := block _ (min size 8) _ (ih (size - min size 8) (by omega))
      rw [show min size 8 + (size - min size 8) = size by omega] at hblock
      have heq : (fun ser : Serializer => ser.skip size) = fun ser : Serializer =>
          (ser.putBlock (replicate (min size 8) 0)).skip (size - min size 8) := by
        funext ser
        rw [skip, dif_pos hpos]
      rw [heq]
      exact hblock
    · have hzero : size = 0 := by omega
      have heq : (fun ser : Serializer => ser.skip size) = id := by
        funext ser
        rw [skip, dif_neg hpos]
        rfl
      rw [heq, hzero]
      exact zero

theorem Writes.skip (size : ℕ) : Writes (·.skip size) (replicate size 0) := by
  apply skip_induct (P := fun put n => Writes put (replicate n 0)) Writes.nil
  intro put n m h
  rw [← replicate_append_replicate]
  exact (Writes.putBlock _).comp h

/-- How many bytes a field of `n` bytes is padded by. -/
def padLen (align n : ℕ) : ℕ := if n % align ≠ 0 then align - n % align else 0

/-- The number of bytes since `offset`, also if the offset has wrapped around. -/
theorem sub32_wrap32_add (offset n : ℕ) : sub32 (wrap32 (offset + n)) offset = wrap32 n := by
  have hwrap : UInt32.ofNat (wrap32 (offset + n)) = UInt32.ofNat offset + UInt32.ofNat n := by
    rw [← UInt32.ofNat_add]
    exact UInt32.ofNat_mod_size
  rw [sub32, hwrap, UInt32.add_comm, UInt32.add_sub_cancel]
  rfl

theorem wrap32_mod (h : align ∣ 4294967296) : wrap32 n % align = n % align :=
  Nat.mod_mod_of_dvd n h

/-- The number of zeros is known before, so this is one operation after the other. -/
theorem padFieldTo_eq (halign : align ∣ 4294967296) {ser : Serializer}
    (hoff : ser.bufferOffset = wrap32 (offset + n)) :
    ser.padFieldTo offset align = ser.skip (padLen align n) := by
  have hrange : sub32 ser.size offset % align = n % align := by
    rw [size, hoff, sub32_wrap32_add, wrap32_mod halign]
  simp only [padFieldTo, hrange, padLen]
  split
  · rfl
  · rw [skip, dif_neg (lt_irrefl 0)]

theorem Writes.padded (halign : align ∣ 4294967296) (h : Writes put bytes) :
    Writes (fun ser => (put ser).padFieldTo ser.size align)
      (bytes ++ replicate (padLen align bytes.length) 0) := by
  have hcomp := h.comp (Writes.skip (padLen align bytes.length))
  constructor
  · intro ser hnone hlt
    obtain ⟨-, hoff⟩ := h.dry ser hnone hlt
    have hdry := hcomp.dry ser hnone hlt
    rw [size, padFieldTo_eq halign hoff]
    exact hdry
  · intro buffer offset hfit hsize
    have hwet := hcomp.wet buffer offset hfit hsize
    rw [length_append] at hfit
    have hput := h.wet buffer offset (by omega) hsize
    have hoff : (put ⟨some buffer, buffer.length, offset⟩).bufferOffset =
        wrap32 (offset + bytes.length) := by
      rw [hput, wrap32_of_lt (by omega)]
    rw [size, padFieldTo_eq halign hoff]
    exact hwet

theorem sub32_add (h : offset + n < 4294967296) : sub32 (offset + n) offset = n := by
  have hrange := sub32_wrap32_add offset n
  rwa [wrap32_of_lt h, wrap32_of_lt (by omega)] at hrange

section
variable {buffer : List UInt8} {inspected : List ℕ} {size offset n align : ℕ}

theorem skip_of_le (hfit : offset + n ≤ size) (hsize : size < 4294967296) :
    Deserializer.skip ⟨buffer, size, offset, inspected⟩ n =
    ⟨buffer, size, offset + n, inspected⟩ := by
  simp only [Deserializer.skip, if_neg (not_lt.mpr hfit),
    wrap32_of_lt (lt_of_le_of_lt hfit hsize)]

theorem padFieldTo_of_le (hfit : offset + n + padLen align n ≤ size) (hsize : size < 4294967296) :
    Deserializer.padFieldTo ⟨buffer, size, offset + n, inspected⟩ offset align =
      ⟨buffer, size, offset + n + padLen align n, inspected⟩ := by
  have hrange : sub32 (offset + n) offset = n := sub32_add (by omega)
  simp only [Deserializer.padFieldTo, Deserializer.size, hrange]
  split_ifs with h
  · rw [padLen, if_pos h] at hfit ⊢
    exact skip_of_le hfit hsize
  · rw [padLen, if_neg h]
    rfl

end

/-! ## Strings -/

def encodeString (align : ℕ) (str : List UInt8) : List UInt8 :=
  LittleEndian.bytes 4 str.length ++ str ++ [0] ++ replicate (padLen align (4 + str.length + 1)) 0

theorem length_encodeString (align : ℕ) (str : List UInt8) :
    (encodeString align str).length = 4 + str.length + 1 + padLen align (4 + str.length + 1) := by
  simp only [encodeString, length_append, length_bytes, length_singleton,
    length_replicate]

theorem writes_string {align : ℕ} (halign : align ∣ 4294967296) {str : List UInt8}
    (hlen : (encodeString align str).length < 4294967296) :
    Writes ((string align).put str) (encodeString align str) := by
  have h := (((Writes.putUInt32 str.length).comp (Writes.putBlock str)).comp
    (Writes.putBlock [0])).padded halign
  have hbytes : (LittleEndian.bytes 4 str.length ++ str ++ [0]).length = 4 + str.length + 1 := by
    simp only [length_append, length_bytes, length_singleton]
  rw [length_encodeString] at hlen
  have hsize : wrap32 str.length = str.length := wrap32_of_lt (by omega)
  rw [hbytes] at h
  simp only [string, hsize, take_length]
  exact h

/-- Nobody looks at the padding. -/
theorem reads_padded_string (hpad : padding.length = padLen align (4 + str.length + 1)) :
    Reads (string align).get str (LittleEndian.bytes 4 str.length ++ str ++ [0] ++ padding) := by
  intro buffer before after inspected hbuf hne hsize
  have hpos : buffer.length ≠ 0 := fun h => hne (length_eq_zero_iff.mp h)
  have hlength : (LittleEndian.bytes 4 str.length ++ str ++ [0] ++ padding).length =
      4 + str.length + 1 + padLen align (4 + str.length + 1) := by
    simp only [length_append, length_bytes, length_singleton, hpad]
  have htotal : before.length + (4 + str.length + 1) + padLen align (4 + str.length + 1) ≤
      buffer.length := by
    rw [hbuf, length_append, length_append, hlength]
    omega
  obtain ⟨inspected1, h1⟩ := Reads.getUInt32 (show str.length < 4294967296 by omega) buffer before
    (str ++ [0] ++ padding ++ after) inspected (by rw [hbuf]; simp) hne hsize
  rw [length_bytes] at h1
  have hbody : FlatFile.slice buffer (before.length + 4) str.length = str :=
    @FlatFile.slice_middle _ buffer _ _ (before ++ LittleEndian.bytes 4 str.length) str
      ([0] ++ padding ++ after) (by rw [hbuf]; simp) (by simp) rfl
  have hterm : FlatFile.slice buffer (before.length + 4 + str.length) 1 = [0] :=
    @FlatFile.slice_middle _ buffer _ _ (before ++ LittleEndian.bytes 4 str.length ++ str) [0]
      (padding ++ after) (by rw [hbuf]; simp) (by simp [Nat.add_assoc]) rfl
  have hgood : ∀ offset inspected', offset ≤ buffer.length →
      (Deserializer.mk buffer buffer.length offset inspected').good :=
    fun offset inspected' hle => good_of_le hpos hle
  have hskip : ∀ inspected', Deserializer.skip ⟨buffer, buffer.length,
      before.length + 4, inspected'⟩ (wrap32 (str.length + 1)) =
        ⟨buffer, buffer.length, before.length + (4 + str.length + 1), inspected'⟩ := by
    intro inspected'
    rw [wrap32_of_lt (by omega), skip_of_le (by omega) hsize]
    simp only [Nat.add_assoc]
  rw [hlength, ← Nat.add_assoc before.length]
  simp only [string, Deserializer.getRawString, Deserializer.size, h1, hskip,
    Deserializer.inspect, hterm, hgood _ _ (show before.length + 4 ≤ buffer.length by omega),
    hgood _ _ (show before.length + (4 + str.length + 1) ≤ buffer.length by omega),
    not_true_eq_false, if_false, ne_eq, padFieldTo_of_le htotal hsize, hgood _ _ htotal, hbody,
    if_true]
  exact ⟨_, rfl⟩

theorem reads_string : Reads (string align).get str (encodeString align str) :=
  reads_padded_string (length_replicate ..)

theorem string_roundTrips (halign : align ∣ 4294967296) :
    RoundTrips (string align) (encodeString align) fun _ => True where
  writes _ _ hlen := writes_string halign hlen
  reads _ _ _ := reads_string

end Congfs.Serialization
