import Congfs.Serialization.ClientFields
import Congfs.Serialization.Wire

/-!
# Aligned strings between servers and clients

Both sides write the same bytes for a string that is padded to a multiple of four. The client does
not read all of them back.
-/

namespace Congfs.ClientSerialization

open Serialization DeserializeCtx

/-! ## What is written -/

def serverStrAlign4 (str : List UInt8) : List UInt8 :=
  let size := ((Format.string 4).put str .dryRun).size
  ((Format.string 4).put str (.ofBuffer (List.replicate size 0))).buffer.getD []

def clientStrAlign4 (str : List UInt8) : List UInt8 :=
  let length := (serializeStrAlign4 ⟨none, 0⟩ str).length
  (serializeStrAlign4 ⟨some (List.replicate length 0), 0⟩ str).data.getD []

/-- The fields in front are as long as one word, so it plays no role for the padding. -/
theorem padLen_four (n : ℕ) :
    padLen 4 (4 + n + 1) = if (n + 1) % 4 ≠ 0 then 4 - (n + 1) % 4 else 0 := by
  have hmod : (4 + n + 1) % 4 = (n + 1) % 4 := by omega
  rw [padLen, hmod]

theorem length_encodeString_lt (h : str.length < 2147483648) :
    (encodeString 4 str).length < 4294967296 := by
  have hpad := padLen_four str.length
  rw [length_encodeString, hpad]
  split <;> omega

theorem serverStrAlign4_eq (h : str.length < 2147483648) :
    serverStrAlign4 str = encodeString 4 str := by
  have hsize := length_encodeString_lt h
  rw [serverStrAlign4, Wire.size_dryRun Wire.stringAlign4 trivial hsize,
    Wire.put_ofBuffer Wire.stringAlign4 trivial hsize List.length_replicate]
  rfl

/-- `write` appends `bytes`, and counts them if there is no buffer. -/
def Appends (write : SerializeCtx → SerializeCtx) (bytes : List UInt8) : Prop :=
  ∀ ctx : SerializeCtx, ctx.length + bytes.length < 4294967296 → write ctx =
    ⟨ctx.data.map (FlatFile.overwrite 0 · ctx.length bytes), ctx.length + bytes.length⟩

theorem Appends.block (bytes : List UInt8) : Appends (serializeBlock · bytes) bytes := by
  intro ctx h
  simp only [serializeBlock, wrap32_of_lt h]

theorem Appends.nil : Appends id [] := by
  intro ctx _
  simp

theorem Appends.comp (h : Appends write bytes) (h' : Appends write' bytes') :
    Appends (fun ctx => write' (write ctx)) (bytes ++ bytes') := by
  intro ctx hlt
  rw [List.length_append] at hlt
  simp only [h ctx (by omega)]
  rw [h' _ (by simp only; omega)]
  simp [Function.comp_def, FlatFile.overwrite_append, Nat.add_assoc]

theorem appends_serializeStrAlign4 : Appends (serializeStrAlign4 · str) (encodeString 4 str) := by
  have hfields := ((Appends.block (LittleEndian.bytes 4 str.length)).comp (.block str)).comp
    (.block [0])
  rw [encodeString, padLen_four]
  simp only [serializeStrAlign4]
  split
  · exact hfields.comp (.block _)
  · exact hfields.comp .nil

theorem clientStrAlign4_eq (h : str.length < 2147483648) :
    clientStrAlign4 str = encodeString 4 str := by
  have hsize := length_encodeString_lt h
  have happ : ∀ data, serializeStrAlign4 ⟨data, 0⟩ str =
      ⟨data.map (FlatFile.overwrite 0 · 0 (encodeString 4 str)), 0 + (encodeString 4 str).length⟩ :=
    fun data => appends_serializeStrAlign4 ⟨data, 0⟩ (by simp only; omega)
  simp only [clientStrAlign4, happ, Option.map_some, Option.getD_some]
  rw [FlatFile.overwrite_of_ne_nil encodeString_ne_nil, FlatFile.padded, Nat.zero_add,
    List.drop_eq_nil_of_le (by simp)]
  simp

/-! ## What is read -/

variable {mem before bytes after str : List UInt8} {inspected : List ℕ} {length : ℕ}

theorem deserializeStr_at (hstr : str.length + 1 < 4294967296)
    (h : mem = before ++ (LittleEndian.bytes 4 str.length ++ str ++ [0]) ++ after)
    (hlen : 4 + str.length + 1 ≤ length) : ∃ inspected',
      deserializeStr mem ⟨before.length, length, inspected⟩ = (some (str.length, before.length + 4),
          ⟨before.length + 4 + (str.length + 1), length - 4 - (str.length + 1), inspected'⟩) := by
  obtain ⟨inspected1, hsize⟩ := Takes.uint (show str.length < 4294967296 by omega) mem before
    (str ++ [0] ++ after) inspected length (by rw [h]; simp)
    (by rw [LittleEndian.length_bytes]; omega)
  rw [LittleEndian.length_bytes] at hsize
  have hterm : load mem (before.length + 4 + str.length) 1 = [0] := by
    have hload := @load_middle mem (before ++ LittleEndian.bytes 4 str.length ++ str) [0] after
      (by rw [h]; simp)
    simpa [Nat.add_assoc] using hload
  have hfit : ¬length - 4 < str.length + 1 := by omega
  have hsub : sub64 (length - 4) (str.length + 1) = length - 4 - (str.length + 1) :=
    sub64_of_le (by omega)
  simp only [deserializeStr, hsize, andThen, wrap32_of_lt hstr, if_neg hfit, inspect,
    hterm, ne_eq, not_true_eq_false, if_false, advance, hsub]
  exact ⟨_, rfl⟩

/-- The client asks for as many bytes as are used in the last word and not for those that are
left. -/
theorem deserializeStrAlign4_at (hstr : str.length < 2147483648) : ∃ inspected',
    deserializeStrAlign4 (before ++ encodeString 4 str ++ after)
        ⟨before.length, (encodeString 4 str ++ after).length, inspected⟩ =
      if str.length % 4 = 2 ∧ after.length < 2 then
        (none, ⟨before.length + (4 + str.length + 1), 1 + after.length, inspected'⟩)
      else
        (some (str.length, before.length + 4),
          ⟨before.length + (encodeString 4 str).length, after.length, inspected'⟩) := by
  have hpad := padLen_four str.length
  have htotal : (encodeString 4 str ++ after).length =
      4 + str.length + 1 + padLen 4 (4 + str.length + 1) + after.length := by
    rw [List.length_append, length_encodeString]
  obtain ⟨inspected', hget⟩ := @deserializeStr_at (before ++ encodeString 4 str ++ after) before
    (List.replicate (padLen 4 (4 + str.length + 1)) 0 ++ after) str inspected
    (encodeString 4 str ++ after).length (by omega) (by simp [encodeString]) (by omega)
  refine ⟨inspected', ?_⟩
  have hused : before.length + 4 + (str.length + 1) - before.length =
    4 + (str.length + 1) := by omega
  have hleft : (encodeString 4 str ++ after).length - 4 - (str.length + 1) =
      padLen 4 (4 + str.length + 1) + after.length := by omega
  simp only [deserializeStrAlign4, hget, andThen, hused, hleft]
  rw [length_encodeString, hpad]
  have hmod : (4 + (str.length + 1)) % 4 = (str.length + 1) % 4 := by omega
  rw [hmod]
  split
  · split
    · rw [if_pos (by omega), show 4 - (str.length + 1) % 4 = 1 by omega]
      simp only [Nat.add_assoc, Nat.add_comm 1]
    · rw [if_neg (by omega), advance, sub64_of_le (by simp only; omega)]
      simp only [Prod.mk.injEq, mk.injEq, true_and, and_true]
      omega
  · rw [if_neg (by omega)]
    simp only [Prod.mk.injEq, mk.injEq, true_and, and_true]
    omega

theorem deserializeStrAlign4_iff (hstr : str.length < 2147483648)
    (hbytes : bytes = serverStrAlign4 str ∨ bytes = clientStrAlign4 str) :
    (∃ ctx, deserializeStrAlign4 (before ++ bytes ++ after)
          ⟨before.length, (bytes ++ after).length, inspected⟩ =
            (some (str.length, before.length + 4), ctx) ∧
        load (before ++ bytes ++ after) (before.length + 4) str.length = str ∧
        ctx.data = before.length + bytes.length ∧ ctx.length = after.length) ↔
      ¬(str.length % 4 = 2 ∧ after.length < 2) := by
  rw [serverStrAlign4_eq hstr, clientStrAlign4_eq hstr, or_self] at hbytes
  subst hbytes
  have hload : load (before ++ encodeString 4 str ++ after) (before.length + 4)
    str.length = str := by
    have h := @load_middle (before ++ encodeString 4 str ++ after)
      (before ++ LittleEndian.bytes 4 str.length) str
      ([0] ++ List.replicate (padLen 4 (4 + str.length + 1)) 0 ++ after) (by simp [encodeString])
    rwa [List.length_append, LittleEndian.length_bytes] at h
  obtain ⟨inspected', hget⟩ := @deserializeStrAlign4_at before after str inspected hstr
  rw [hget]
  by_cases hshort : str.length % 4 = 2 ∧ after.length < 2
  · rw [if_pos hshort]
    refine iff_of_false ?_ (not_not.mpr hshort)
    rintro ⟨ctx, heq, -⟩
    cases heq
  · rw [if_neg hshort]
    exact iff_of_true ⟨_, rfl, hload, rfl, rfl⟩ hshort

/-- The string `a`, and nothing behind it. -/
theorem deserializeStrAlign4_single :
    ∃ ctx, deserializeStrAlign4 (serverStrAlign4 [97]) ⟨0, (serverStrAlign4 [97]).length, []⟩ =
      (some (1, 4), ctx) ∧ ctx.length = 0 := by
  obtain ⟨ctx, hget, -, -, hlen⟩ := (@deserializeStrAlign4_iff [] (serverStrAlign4 [97]) [] [97] []
    (by decide) (.inl rfl)).mpr (by decide)
  simp only [List.nil_append, List.append_nil] at hget
  exact ⟨ctx, hget, hlen⟩

/-- The string `ab` at the end of a message is refused. -/
theorem deserializeStrAlign4_refused :
    (deserializeStrAlign4 (serverStrAlign4 [97, 98]) ⟨0, (serverStrAlign4 [97, 98]).length, []⟩).1 =
      none := by
  rw [serverStrAlign4_eq (by decide)]
  decide

end Congfs.ClientSerialization
