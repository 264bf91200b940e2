import Congfs.Serialization.Collections

/-!
# The types that can be sent

Everything that `operator%` makes out of the integers and the strings is read back as it was
written.
-/

namespace Congfs.Serialization

open Format

def encodeInt {α : Type} (width : ℕ) (toNat : α → ℕ) (v : α) : List UInt8 :=
  LittleEndian.bytes width (toNat v)

/-- `Wire fmt encode valid`: there is a type with the format `fmt`, whose values are sent as
`encode` says. In the collections of strings, which are separated by zeros, there is no zero in a
string.

A tuple is the pair of its first element and the others, and ends in the empty tuple. The tuple
without elements is no such type, as it would be sent as nothing. Whether a collection starts with
its length depends on a trait of the type of its elements. -/
inductive Wire : {α : Type} → Format α → (α → List UInt8) → (α → Prop) → Prop
  | bool : Wire bool (encodeInt 1 fun b => if b then 1 else 0) fun _ => True
  | uint8 : Wire uint8 (encodeInt 1 UInt8.toNat) fun _ => True
  | uint16 : Wire uint16 (encodeInt 2 UInt16.toNat) fun _ => True
  | uint32 : Wire uint32 (encodeInt 4 UInt32.toNat) fun _ => True
  | uint64 : Wire uint64 (encodeInt 8 UInt64.toNat) fun _ => True
  | int16 : Wire int16 (encodeInt 2 fun v => v.toUInt16.toNat) fun _ => True
  | int32 : Wire int32 (encodeInt 4 fun v => v.toUInt32.toNat) fun _ => True
  | int64 : Wire int64 (encodeInt 8 fun v => v.toUInt64.toNat) fun _ => True
  | string : Wire (string 1) (encodeString 1) fun _ => True
  | stringAlign4 : Wire (string 4) (encodeString 4) fun _ => True
  | pair {α β : Type} {first : Format α} {second : Format β} {encode encode' valid valid'} :
    Wire first encode valid → Wire second encode' valid' →
    Wire (first.pair second) (fun v => encode v.1 ++ encode' v.2) fun v => valid v.1 ∧ valid' v.2
  | lastOfTuple {α : Type} {last : Format α} {encode valid} : Wire last encode valid →
    Wire (last.pair emptyTuple) (fun v => encode v.1 ++ []) fun v => valid v.1 ∧ True
  | list {α : Type} {elem : Format α} {encode valid} (hasLength : Bool) : Wire elem encode valid →
    Wire (list hasLength elem) (encodeCollection hasLength encode) fun l => ∀ v ∈ l, valid v
  | set {α : Type} {elem : Format α} {encode valid} (lt : α → α → Prop) [DecidableRel lt]
    [IsStrictOrder α lt] (hasLength : Bool) : Wire elem encode valid →
    Wire (set hasLength elem)
      (fun s : StdSet lt => encodeCollection hasLength encode s.toList) fun s =>
      ∀ v ∈ s.toList, valid v
  | map {α β : Type} {key : Format α} {mapped : Format β} {encode encode' valid valid'}
    (lt : α → α → Prop) [DecidableRel lt] [IsStrictOrder α lt] (hasLength : Bool) :
    Wire key encode valid → Wire mapped encode' valid' →
    Wire (map hasLength key mapped)
      (fun m : StdMap β lt => encodeCollection hasLength (fun e => encode e.1 ++
      encode' e.2) m.toList) fun m => ∀ e ∈ m.toList, valid e.1 ∧ valid' e.2
  | stringList : Wire stringList (encodeCollection true encodeCString) fun l => ∀ str ∈ l, 0 ∉ str
  | stringSet (lt : List UInt8 → List UInt8 → Prop) [DecidableRel lt]
    [IsStrictOrder (List UInt8) lt] :
    Wire stringSet (fun s : StdSet lt => encodeCollection true encodeCString s.toList)
      fun s => ∀ str ∈ s.toList, 0 ∉ str

variable {α : Type} {fmt : Format α} {encode : α → List UInt8} {valid : α → Prop}

theorem encodeInt_ne_nil {toNat : α → ℕ} (h : width ≠ 0) (v : α) :
    encodeInt width toNat v ≠ [] := by
  intro hnil
  have hlen := LittleEndian.length_bytes width (toNat v)
  rw [encodeInt] at hnil
  rw [hnil] at hlen
  exact h hlen.symm

theorem encodeCollection_ne_nil : encodeCollection hasLength encode l ≠ [] := by
  intro hnil
  have hlen := length_encodeSized hasLength l.length (l.flatMap encode)
  rw [← encodeCollection, hnil] at hlen
  cases hasLength <;> simp [headerLen] at hlen <;> omega

theorem encodeString_ne_nil : encodeString align str ≠ [] := by
  intro hnil
  have hlen := length_encodeString align str
  rw [hnil, List.length_nil] at hlen
  omega

section
variable (h : Wire fmt encode valid)
include h

theorem Wire.encode_ne_nil (v : α) : encode v ≠ [] := by
  induction h with
  | bool | uint8 | uint16 | uint32 | uint64 | int16 | int32 | int64 =>
    exact encodeInt_ne_nil (by decide) v
  | string | stringAlign4 => exact encodeString_ne_nil
  | pair _ _ ih _ => exact List.append_ne_nil_of_left_ne_nil (ih v.1) _
  | lastOfTuple _ ih => exact List.append_ne_nil_of_left_ne_nil (ih v.1) _
  | list | set | map | stringList | stringSet => exact encodeCollection_ne_nil

/-- What a format for a type does, one case for each way a type is built. -/
theorem Wire.roundTrips : RoundTrips fmt encode valid := by
  induction h with
  | bool =>
    exact int_roundTrips (fun v => by cases v <;> decide) (fun v => by cases v <;> rfl)
  | uint8 => exact int_roundTrips UInt8.toNat_lt fun _ => UInt8.ofNat_toNat
  | uint16 => exact int_roundTrips UInt16.toNat_lt fun _ => UInt16.ofNat_toNat
  | uint32 => exact int_roundTrips UInt32.toNat_lt fun _ => UInt32.ofNat_toNat
  | uint64 => exact int_roundTrips UInt64.toNat_lt fun _ => UInt64.ofNat_toNat
  | int16 =>
    exact int_roundTrips (fun v => UInt16.toNat_lt v.toUInt16) fun v => by
      rw [UInt16.ofNat_toNat]
      rfl
  | int32 =>
    exact int_roundTrips (fun v => UInt32.toNat_lt v.toUInt32) fun v => by
      rw [UInt32.ofNat_toNat]
      rfl
  | int64 =>
    exact int_roundTrips (fun v => UInt64.toNat_lt v.toUInt64) fun v => by
      rw [UInt64.ofNat_toNat]
      rfl
  | string => exact string_roundTrips (by decide)
  | stringAlign4 => exact string_roundTrips (by decide)
  | pair _ _ ih ih' => exact pair_roundTrips ih ih'
  | lastOfTuple _ ih => exact pair_roundTrips ih emptyTuple_roundTrips
  | list hasLength h ih => exact list_roundTrips ih (fun v _ => h.encode_ne_nil v) hasLength
  | set lt hasLength h ih => exact set_roundTrips ih (fun v _ => h.encode_ne_nil v) hasLength
  | map lt hasLength h _ ih ih' =>
    exact map_roundTrips ih ih' (fun v _ => h.encode_ne_nil v) hasLength
  | stringList => exact stringList_roundTrips
  | stringSet lt => exact stringSet_roundTrips

theorem Wire.size_dryRun (hv : valid v) (hsize : (encode v).length < 4294967296) :
    (fmt.put v Serializer.dryRun).size = (encode v).length :=
  (h.roundTrips.writes v hv hsize).size_dryRun hsize

theorem Wire.put_ofBuffer (hv : valid v)
    (hsize : (encode v).length < 4294967296) (hbuf : buffer.length = (encode v).length) :
    fmt.put v (.ofBuffer buffer) = ⟨some (encode v), (encode v).length, (encode v).length⟩ :=
  (h.roundTrips.writes v hv hsize).put_ofBuffer (h.encode_ne_nil v) hsize hbuf

end

theorem roundTrip_of_wire (h : Wire fmt encode valid) {v : α} (hv : valid v)
    (hsize : (encode v).length < 4294967296) {buffer : List UInt8}
    (hbuf : buffer.length = (fmt.put v Serializer.dryRun).size) :
    ∃ bytes, (fmt.put v (.ofBuffer buffer)).buffer = some bytes ∧ bytes.length = buffer.length ∧
      (fmt.put v (.ofBuffer buffer)).good ∧
      (fmt.put v (.ofBuffer buffer)).size = buffer.length ∧
      ∀ after, (bytes ++ after).length < 4294967296 → ∃ des,
        fmt.get (.ofBuffer (bytes ++ after)) = (v, des) ∧ des.good ∧ des.size = buffer.length := by
  have hne := h.encode_ne_nil v
  rw [h.size_dryRun hv hsize] at hbuf
  rw [h.put_ofBuffer hv hsize hbuf]
  refine ⟨encode v, rfl, hbuf.symm, ?_, hbuf.symm, fun after hafter => ?_⟩
  · simp [Serializer.good, hne]
  · rw [hbuf]
    exact (h.roundTrips.reads v hv hsize).get_ofBuffer hne hafter

/-- A number and two names. -/
def namedPair : Format (UInt32 × List (List UInt8)) := uint32.pair stringList

theorem roundTrip_of_wire_namedPair : ∃ bytes,
    (namedPair.put (7, [[97], [98, 99]]) (.ofBuffer (List.replicate 17 0))).buffer = some bytes ∧
      ∃ des, namedPair.get (.ofBuffer (bytes ++ [1, 2, 3])) = ((7, [[97], [98, 99]]), des) ∧
        des.good ∧ des.size = 17 := by
  obtain ⟨bytes, hbytes, hlen, -, -, hget⟩ := @roundTrip_of_wire _ namedPair _ _
    (Wire.pair Wire.uint32 Wire.stringList) (7, [[97], [98, 99]]) ⟨trivial, by decide⟩ (by decide)
    (List.replicate 17 0) (by decide)
  refine ⟨bytes, hbytes, hget [1, 2, 3] ?_⟩
  rw [List.length_append, hlen]
  decide

/-- The buffer of a tuple without elements is empty, and that is an error. -/
theorem emptyTuple_not_good : (emptyTuple.put () .dryRun).size = 0 ∧
    (emptyTuple.put () (.ofBuffer [])).good = false := by
  decide

end Congfs.Serialization
