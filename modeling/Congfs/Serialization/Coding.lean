import Congfs.Serialization.Grammar
import Congfs.Serialization.Overflow

/-!
# Writing what is read

`Encodes put bytes` says that `put` writes and counts the bytes, and `Codes put grammar v bytes`
that they are a word of the grammar for `v` as well. Both are put together from field to field, like
the writer and the grammar. The size of everything is an `unsigned`.
-/

namespace Congfs.Serialization

open Grammar
open Writer (write)

variable {α β : Type} {put put' : StateM Serializer Unit} {grammar : Grammar α} {v w : α}
  {bytes bytes' : List UInt8}

structure Encodes (put : StateM Serializer Unit) (bytes : List UInt8) : Prop where
  writes : bytes.length < 4294967296 → Writes (fun ser => (put ser).2) bytes
  counts : bytes.length < 4294967296 → Counts (fun ser => (put ser).2) bytes.length

theorem Encodes.bind (h : Encodes put bytes) (h' : Encodes put' bytes') :
    Encodes (put >>= fun _ => put') (bytes ++ bytes') where
  writes hlen := by
    rw [List.length_append] at hlen
    exact (h.writes (by omega)).comp (h'.writes (by omega))
  counts hlen := by
    rw [List.length_append] at hlen ⊢
    exact (h.counts (by omega)).comp (h'.counts (by omega))

structure Codes (put : StateM Serializer Unit) (grammar : Grammar α) (v : α) (bytes : List UInt8) :
    Prop where
  encodes : Encodes put bytes
  word : bytes.length < 4294967296 → grammar.Word v bytes

namespace Codes

theorem of_wire {fmt : Format α} {encode : α → List UInt8} {valid : α → Prop}
    (h : Wire fmt encode valid) (hparses : Parses (Reader.read fmt) grammar) (hv : valid v) :
    Codes (write fmt v) grammar v (encode v) where
  encodes := ⟨h.roundTrips.writes v hv, h.counts hv⟩
  word hlen := hparses.word_of_reads (h.roundTrips.reads v hv hlen) ⟨h.encode_ne_nil v, hlen⟩

section
variable (h : Codes put grammar v bytes)
include h

theorem bind {next : α → Grammar β} {w : β} (h' : Codes put' (next v) w bytes') :
    Codes (put >>= fun _ => put') (grammar >>= next) w (bytes ++ bytes') where
  encodes := h.encodes.bind h'.encodes
  word hlen := by
    rw [List.length_append] at hlen
    exact (h.word (by omega)).bind (h'.word (by omega))

theorem of_eq (heq : v = w) : Codes put grammar w bytes := heq ▸ h

/-- Behind the last field nothing is written. -/
theorem map (f : α → β) : Codes put (grammar >>= fun v => pure (f v)) (f v) bytes where
  encodes := h.encodes
  word hlen := ⟨v, bytes, [], h.word hlen, ⟨rfl, rfl⟩, (List.append_nil _).symm⟩

end

theorem nil (v : α) : Codes (pure ()) (pure v) v [] where
  encodes := ⟨fun _ => Writes.nil, fun _ => Counts.nil⟩
  word _ := Grammar.Word.pure v

/-- Writer and reader need not look at the same condition, as long as it has the same value. -/
theorem writeIf [Decidable p] [Decidable q] (hiff : p ↔ q)
    (h : p → Codes (write fmt w) grammar w bytes) (v : α) :
    Codes (Writer.writeIf p fmt w) (readIf q grammar v) (if p then w else v)
      (if p then bytes else []) := by
  by_cases hp : p
  · rw [Writer.writeIf, readIf, if_pos hp, if_pos hp, if_pos hp, if_pos (hiff.mp hp)]
    exact h hp
  · rw [Writer.writeIf, readIf, if_neg hp, if_neg hp, if_neg hp, if_neg fun hq => hp (hiff.mpr hq)]
    exact nil v

theorem skip (length : ℕ) :
    Codes (Writer.skip length) (unused length) () (List.replicate length 0) where
  encodes := ⟨fun _ => Writes.skip length,
    fun _ => (Counts.skip length).of_eq List.length_replicate.symm⟩
  word _ := List.length_replicate

theorem uint8 (v : UInt8) : Codes (write Format.uint8 v) uint8 v (encodeInt 1 UInt8.toNat v) :=
  of_wire Wire.uint8 Parses.uint8 trivial

theorem uint16 (v : UInt16) : Codes (write Format.uint16 v) uint16 v (encodeInt 2 UInt16.toNat v) :=
  of_wire Wire.uint16 Parses.uint16 trivial

theorem uint32 (v : UInt32) : Codes (write Format.uint32 v) uint32 v (encodeInt 4 UInt32.toNat v) :=
  of_wire Wire.uint32 Parses.uint32 trivial

theorem uint64 (v : UInt64) : Codes (write Format.uint64 v) uint64 v (encodeInt 8 UInt64.toNat v) :=
  of_wire Wire.uint64 Parses.uint64 trivial

theorem int32 (v : Int32) :
    Codes (write Format.int32 v) int32 v (encodeInt 4 (fun v => v.toUInt32.toNat) v) :=
  of_wire Wire.int32 Parses.int32 trivial

theorem int64 (v : Int64) :
    Codes (write Format.int64 v) int64 v (encodeInt 8 (fun v => v.toUInt64.toNat) v) :=
  of_wire Wire.int64 Parses.int64 trivial

end Codes

theorem word_uint16 (v : UInt16) : uint16.Word v (encodeInt 2 UInt16.toNat v) :=
  (Codes.uint16 v).word (by simp [encodeInt])

theorem word_uint32 (v : UInt32) : uint32.Word v (encodeInt 4 UInt32.toNat v) :=
  (Codes.uint32 v).word (by simp [encodeInt])

end Congfs.Serialization
