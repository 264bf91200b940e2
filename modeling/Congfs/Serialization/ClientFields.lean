import Mathlib.Data.List.GetD
import Congfs.Serialization.Client
import Congfs.Serialization.Collections

/-!
# What the client reads

`Takes get v bytes` says that the client's `get` takes `bytes` from the message and gives `v`,
whatever stands before and behind them.
-/

namespace Congfs.ClientSerialization

open Serialization LittleEndian

variable {α β : Type} {mem before bytes bytes' after : List UInt8} {inspected : List ℕ} {length : ℕ}

theorem load_middle (h : mem = before ++ bytes ++ after) :
    load mem before.length bytes.length = bytes := by
  refine List.ext_getElem (by simp [load]) fun i hi hi' => ?_
  have hget : mem.getD (before.length + i) 0 = bytes[i] := by
    rw [h, List.append_assoc, List.getD_append_right _ _ _ _ (by omega), Nat.add_sub_cancel_left,
      List.getD_append _ _ _ _ hi', List.getD_eq_getElem _ _ hi']
  simpa [load] using hget

theorem sub64_of_le (h : b ≤ a) : sub64 a b = a - b := if_pos h

theorem andThen_assoc {γ : Type} (result : Option α × DeserializeCtx)
    (next : α → DeserializeCtx → Option β × DeserializeCtx)
    (next' : β → DeserializeCtx → Option γ × DeserializeCtx) :
    andThen (andThen result next) next' = andThen result fun v ctx =>
    andThen (next v ctx) next' := by
  obtain ⟨_ | v, ctx⟩ := result
  · rfl
  · rfl

def Takes (get : List UInt8 → DeserializeCtx → Option α × DeserializeCtx) (v : α)
    (bytes : List UInt8) : Prop :=
  ∀ mem before after inspected length, mem = before ++ bytes ++ after → bytes.length ≤ length →
    ∃ inspected', get mem ⟨before.length, length, inspected⟩ =
      (some v, ⟨before.length + bytes.length, length - bytes.length, inspected'⟩)

theorem Takes.pure (v : α) : Takes (fun _ ctx => (some v, ctx)) v [] := by
  intro mem before after inspected length _ _
  exact ⟨inspected, rfl⟩

theorem Takes.andThen {get : List UInt8 → DeserializeCtx → Option α × DeserializeCtx} {v : α}
    (h : Takes get v bytes) {get' : α → List UInt8 → DeserializeCtx → Option β × DeserializeCtx}
    {w : β} (h' : Takes (get' v) w bytes') :
    Takes (fun mem ctx => ClientSerialization.andThen (get mem ctx) fun v ctx => get' v mem ctx) w
      (bytes ++ bytes') := by
  intro mem before after inspected length hmem hlen
  rw [List.length_append] at hlen ⊢
  obtain ⟨inspected1, h1⟩ := h mem before (bytes' ++ after) inspected length
    (by simp [hmem]) (by omega)
  obtain ⟨inspected2, h2⟩ := h' mem (before ++ bytes) after inspected1 (length - bytes.length)
    (by simp [hmem]) (by omega)
  rw [List.length_append] at h2
  refine ⟨inspected2, ?_⟩
  simp only [h1, h2, ClientSerialization.andThen, Nat.add_assoc, Nat.sub_sub]

open Takes

theorem Takes.map {get : List UInt8 → DeserializeCtx → Option α × DeserializeCtx}
    (h : Takes get v bytes) (f : α → β) :
    Takes (fun mem ctx => ClientSerialization.andThen (get mem ctx) fun v ctx =>
    (some (f v), ctx)) (f v)
      bytes := by
  have hmap := @andThen _ _ _ [] _ _ h (fun v _ ctx => (some (f v), ctx)) _ (pure (f v))
  rwa [List.append_nil] at hmap

theorem Takes.raw (hn : n < Nat.pow 256 width) :
    Takes (fun mem => deserializeRaw mem width) n (LittleEndian.bytes width n) := by
  intro mem before after inspected length hmem hlen
  have hload := load_middle hmem
  rw [length_bytes] at hlen hload ⊢
  simp only [deserializeRaw, if_pos hlen, DeserializeCtx.inspect, hload,
    value_bytes_of_lt hn, DeserializeCtx.advance, sub64_of_le hlen]
  exact ⟨_, rfl⟩

theorem Takes.uint {n : ℕ} (hn : n < 4294967296) :
    Takes deserializeUInt n (LittleEndian.bytes 4 n) :=
  raw hn

theorem Takes.ushort (hn : n < 65536) : Takes deserializeUShort n (LittleEndian.bytes 2 n) :=
  raw hn

/-! ## Lists of numbers -/

theorem Takes.ushorts {values : List ℕ} (h : ∀ v ∈ values, v < 65536) :
    Takes (fun mem => deserializeUShorts mem values.length) values
      (values.flatMap (LittleEndian.bytes 2)) := by
  induction values with
  | nil => exact pure []
  | cons v values ih =>
    have hrest := (ih fun w hw => h w (List.mem_cons_of_mem _ hw)).map (v :: ·)
    exact @andThen _ _ _ _ _ _ (ushort (h v List.mem_cons_self))
      (fun v mem ctx => ClientSerialization.andThen (deserializeUShorts mem values.length ctx)
        fun values ctx => (some (v :: values), ctx)) _ hrest

theorem deserializeUInt16ListPreprocess_at (hbytes : bytes.length = count * 2)
    (hsize : 8 + bytes.length < 4294967296)
    (h : mem = before ++ encodeSized true count bytes ++ after) (hlen : 8 + bytes.length ≤ length) :
    ∃ inspected', deserializeUInt16ListPreprocess mem ⟨before.length, length, inspected⟩ =
      (some ⟨before.length + 8, bytes.length, count⟩,
        ⟨before.length + (8 + bytes.length), length - (8 + bytes.length), inspected'⟩) := by
  have hmem : mem = before ++ (LittleEndian.bytes 4 (8 + bytes.length) ++
      LittleEndian.bytes 4 count ++ bytes) ++ after := h
  obtain ⟨inspected1, h1⟩ := uint hsize mem before
    (LittleEndian.bytes 4 count ++ bytes ++ after) inspected length (by simp [hmem])
    (by rw [length_bytes]; omega)
  obtain ⟨inspected2, h2⟩ := uint (show count < 4294967296 by omega) mem
    (before ++ LittleEndian.bytes 4 (8 + bytes.length)) (bytes ++ after) inspected1
    (4 + bytes.length) (by simp [hmem]) (by rw [length_bytes]; omega)
  have hfield : sub32 (8 + bytes.length) 4 = 4 + bytes.length := by
    rw [show 8 + bytes.length = 4 + (4 + bytes.length) by omega]
    exact sub32_add (by omega)
  have hfit : ¬length - 4 < 4 + bytes.length := by omega
  simp only [List.length_append, length_bytes, Nat.add_sub_cancel_left] at h1 h2
  have hnested : deserializeNestedField mem ⟨before.length, length, inspected⟩ =
      (some ⟨before.length + 4, 4 + bytes.length, inspected1⟩,
        ⟨before.length + (8 + bytes.length), length - (8 + bytes.length), inspected1⟩) := by
    simp only [deserializeNestedField, h1, ClientSerialization.andThen, hfield, if_neg hfit,
      DeserializeCtx.advance, sub64_of_le (show 4 + bytes.length ≤ length - 4 by omega)]
    rw [show before.length + 4 + (4 + bytes.length) = before.length + (8 + bytes.length) by omega,
      show length - 4 - (4 + bytes.length) = length - (8 + bytes.length) by omega]
  have hcheck : wrap32 (count * 2) = bytes.length := by rw [wrap32_of_lt (by omega), hbytes]
  refine ⟨inspected2, ?_⟩
  simp only [deserializeUInt16ListPreprocess, deserializeCounted, hnested, h2,
    ClientSerialization.andThen, checkUInt16List, hcheck, decide_true, if_true, Nat.add_assoc]

theorem deserializeUInt16List_at (hvalues : ∀ v ∈ values, v < 65536)
    (hsize : (encodeCollection true (LittleEndian.bytes 2) values).length < 4294967296) :
    Takes (fun mem ctx => ClientSerialization.andThen (deserializeUInt16ListPreprocess mem ctx)
      fun inList ctx => deserializeUInt16List mem inList ctx) values
      (encodeCollection true (LittleEndian.bytes 2) values) := by
  intro mem before after inspected length hmem hlen
  have hcount : (values.flatMap (LittleEndian.bytes 2)).length = values.length * 2 := by
    simp [List.length_flatMap]
  rw [encodeCollection, length_encodeSized, headerLen, if_pos rfl] at hsize hlen ⊢
  obtain ⟨inspected1, h1⟩ := @deserializeUInt16ListPreprocess_at mem before _ after
    inspected length _ hcount hsize hmem hlen
  obtain ⟨inspected2, h2⟩ := ushorts hvalues mem
    (before ++ encodeHeader true (8 + (values.flatMap (LittleEndian.bytes 2)).length) values.length)
    after inspected1 (values.flatMap (LittleEndian.bytes 2)).length
    (by rw [hmem]; simp [encodeCollection, encodeSized, headerLen]) (Nat.le_refl _)
  rw [List.length_append, length_encodeHeader, headerLen, if_pos rfl] at h2
  refine ⟨inspected2, ?_⟩
  simp only [h1, ClientSerialization.andThen, deserializeUInt16List, h2]

end Congfs.ClientSerialization
