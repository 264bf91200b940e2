import Congfs.Serialization.Wire

/-!
# A writer that ends well has written everything

The offset of a serializer counts the bytes whether they find room or not, and the size of the
buffer is what it was, or 0 after an error. So if there is no error in the end, all bytes found
room.
-/

namespace Congfs.Serialization

variable {put put' : Serializer → Serializer} {n n' : ℕ} {bytes buffer : List UInt8}

/-- `put` counts `n` bytes, in any state. -/
structure Counts (put : Serializer → Serializer) (n : ℕ) : Prop where
  offset : ∀ ser : Serializer, ser.bufferOffset < 4294967296 →
    (put ser).bufferOffset = wrap32 (ser.bufferOffset + n)
  size : ∀ ser : Serializer, (put ser).bufferSize = ser.bufferSize ∨ (put ser).bufferSize = 0

theorem Counts.putBlock (bytes : List UInt8) : Counts (·.putBlock bytes) bytes.length where
  offset ser _ := by
    rw [Serializer.putBlock]
    split
    · split <;> rfl
    · rfl
  size ser := by
    rw [Serializer.putBlock]
    split
    · split
      · exact .inl rfl
      · exact .inr rfl
    · exact .inr rfl

theorem Counts.nil : Counts id 0 where
  offset _ h := (wrap32_of_lt h).symm
  size _ := .inl rfl

theorem Counts.comp (h : Counts put n) (h' : Counts put' n') :
    Counts (fun ser => put' (put ser)) (n + n') where
  offset ser hlt := by
    have hoff := h.offset ser hlt
    rw [h'.offset (put ser) (hoff ▸ wrap32_lt), hoff, wrap32_wrap32_add, Nat.add_assoc]
  size ser := by
    rcases h'.size (put ser) with hsize | hsize
    · rw [hsize]
      exact h.size ser
    · exact .inr hsize

theorem Counts.of_eq (h : Counts put n) (heq : n = n') : Counts put n' := heq ▸ h

open Counts

theorem Counts.skip (size : ℕ) : Counts (·.skip size) size := by
  apply skip_induct nil
  intro put n m h
  exact ((putBlock _).comp h).of_eq (by rw [List.length_replicate])

theorem Counts.padded (halign : align ∣ 4294967296) (h : Counts put n) :
    Counts (fun ser => (put ser).padFieldTo ser.size align) (n + padLen align n) where
  offset ser hlt := by
    have hcomp := (h.comp (skip (padLen align n))).offset ser hlt
    rw [Serializer.size, padFieldTo_eq halign (h.offset ser hlt)]
    exact hcomp
  size ser := by
    rw [Serializer.padFieldTo]
    split
    · exact (h.comp (skip _)).size ser
    · exact h.size ser

theorem Counts.putUInt32 (v : ℕ) : Counts (·.putUInt32 v) 4 :=
  (putBlock _).of_eq (LittleEndian.length_bytes ..)

theorem counts_string (halign : align ∣ 4294967296)
    (hlen : (encodeString align str).length < 4294967296) :
    Counts ((Format.string align).put str) (encodeString align str).length := by
  have h := (((putUInt32 str.length).comp (putBlock str)).comp (putBlock [0])).padded halign
  rw [length_encodeString] at hlen ⊢
  have hsize : wrap32 str.length = str.length := wrap32_of_lt (by omega)
  simp only [Format.string, hsize, List.take_length]
  exact h

section
variable {α : Type} {encode : α → List UInt8} {l : List α}

theorem counts_putAll {put : α → Serializer → Serializer}
    (h : ∀ v ∈ l, Counts (put v) (encode v).length) :
    Counts (Format.putAll put l) (l.flatMap encode).length := by
  induction l with
  | nil => exact nil
  | cons v l ih =>
    rw [List.flatMap_cons, List.length_append]
    exact (h v List.mem_cons_self).comp (ih fun w hw => h w (List.mem_cons_of_mem _ hw))

theorem counts_putCollection {put : α → Serializer → Serializer}
    (hlen : (encodeCollection hasLength encode l).length < 4294967296)
    (h : ∀ v ∈ l, (encode v).length < 4294967296 → Counts (put v) (encode v).length) :
    Counts (Format.putCollection hasLength put l) (encodeCollection hasLength encode l).length := by
  have hheader : Counts (fun ser => (if hasLength then ser.putUInt32 0 else ser).putUInt32 0)
      (headerLen hasLength) := by
    cases hasLength with
    | false => exact putUInt32 0
    | true => exact (putUInt32 0).comp (putUInt32 0)
  rw [encodeCollection, length_encodeSized] at hlen ⊢
  have hbody := hheader.comp (counts_putAll fun v hv => h v hv (by
    have hle := @length_le_flatMap _ encode _ _ hv
    omega))
  -- what is written at the mark is not counted again
  exact ⟨hbody.offset, hbody.size⟩

theorem counts_putCString : Counts (Format.putCString str) (encodeCString str).length :=
  ((putBlock str).comp (putBlock [0])).of_eq (List.length_append ..).symm

theorem Wire.counts {fmt : Format α} {valid : α → Prop} (h : Wire fmt encode valid) {v : α}
    (hv : valid v)
    (hlen : (encode v).length < 4294967296) : Counts (fmt.put v) (encode v).length := by
  induction h with
  | bool | uint8 | uint16 | uint32 | uint64 | int16 | int32 | int64 => exact putBlock _
  | string => exact counts_string (by decide) hlen
  | stringAlign4 => exact counts_string (by decide) hlen
  | pair _ _ ih ih' =>
    rw [List.length_append] at hlen ⊢
    exact (ih hv.1 (by omega)).comp (ih' hv.2 (by omega))
  | lastOfTuple _ ih =>
    rw [List.length_append] at hlen ⊢
    exact (ih hv.1 (by omega)).comp nil
  | list hasLength _ ih => exact counts_putCollection hlen fun w hw => ih (hv w hw)
  | set lt hasLength _ ih => exact counts_putCollection hlen fun w hw => ih (hv w hw)
  | map lt hasLength _ _ ih ih' =>
    refine counts_putCollection hlen fun e he hle => ?_
    rw [List.length_append] at hle ⊢
    exact (ih (hv e he).1 (by omega)).comp (ih' (hv e he).2 (by omega))
  | stringList => exact counts_putCollection hlen fun str _ _ => counts_putCString
  | stringSet lt => exact counts_putCollection hlen fun str _ _ => counts_putCString

end

theorem Writes.put_of_good (h : Writes put bytes) (hcounts : Counts put bytes.length)
    (hlen : bytes.length < 4294967296) (hbuf : buffer.length < 4294967296)
    (hgood : (put (.ofBuffer buffer)).good) :
    put (.ofBuffer buffer) =
      ⟨some (FlatFile.overwrite 0 buffer 0 bytes), buffer.length, bytes.length⟩ := by
  have hoff := hcounts.offset (.ofBuffer buffer) (by simp [Serializer.ofBuffer])
  rw [Serializer.ofBuffer, Nat.zero_add, wrap32_of_lt hlen] at hoff
  simp only [Serializer.good, decide_eq_true_eq] at hgood
  have hsize := (hcounts.size (.ofBuffer buffer)).resolve_right hgood.1
  have hfit : bytes.length ≤ buffer.length := by
    have hle := hgood.2
    rw [hsize] at hle
    exact hoff ▸ hle
  have hwet := h.wet buffer 0 (by omega) hbuf
  rw [Nat.zero_add] at hwet
  exact hwet

end Congfs.Serialization
