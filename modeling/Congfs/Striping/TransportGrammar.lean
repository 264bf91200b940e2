import Congfs.Serialization.Grammar
import Congfs.Striping.Transport

/-!
# The words a server reads as a pattern

There are two ways for a server to end well: there was a pattern, or there was a header with a type
that is none of the enumeration, and then a null pointer is used.
-/

namespace Congfs.Transport

open Serialization StripePatternType Grammar
open Parses (fail ite uint16 uint32)

namespace StripePatternHeader

/-- The length is not looked at. A pool is left out if none is expected, or if a flag says so. -/
def grammar (hasPoolId : Bool) : Grammar StripePatternHeader := do
  let length ← uint32
  let typeWithFlags ← uint32
  let chunkSize ← uint32
  let type := typeWithFlags &&& ~~~hasNoPoolFlag
  if hasPoolId ∧ typeWithFlags &&& hasNoPoolFlag = 0 then do
    let storagePoolId ← uint16
    return ⟨length, type, chunkSize, storagePoolId, true⟩
  else return ⟨length, type, chunkSize, if hasPoolId then 0 else defaultPoolId, false⟩

theorem length_grammar_poolless (h : (grammar false).Word header bytes) : bytes.length = 12 := by
  obtain ⟨length, b1, _, ⟨h1, -⟩, ⟨typeWithFlags, b2, _, ⟨h2, -⟩,
    ⟨chunkSize, b3, b4, ⟨h3, -⟩, h4, rfl⟩, rfl⟩, rfl⟩ := h
  rw [h4.2]
  simp only [List.length_append, h1, h2, h3, List.length_nil]

theorem parses_getPoolId (hasPoolId : Bool) (length typeWithFlags chunkSize : UInt32) :
    Parses ((forReading hasPoolId).setFields length typeWithFlags chunkSize).getPoolId
      (if hasPoolId ∧ typeWithFlags &&& hasNoPoolFlag = 0 then do
        let storagePoolId ← uint16
        return ⟨length, typeWithFlags &&& ~~~hasNoPoolFlag, chunkSize, storagePoolId, true⟩
      else return ⟨length, typeWithFlags &&& ~~~hasNoPoolFlag, chunkSize,
        if hasPoolId then 0 else defaultPoolId, false⟩) := by
  split
  · rename_i h
    obtain ⟨rfl, hflag⟩ := h
    have hread := uint16.bind fun storagePoolId => Parses.pure (⟨length,
      typeWithFlags &&& ~~~hasNoPoolFlag, chunkSize, storagePoolId, true⟩ : StripePatternHeader)
    refine hread.of_eq ?_
    simp only [setFields, forReading, hflag, beq_self_eq_true, Bool.true_and, if_true]
    rfl
  · rename_i h
    refine (Parses.pure _).of_eq ?_
    have hno : (hasPoolId && typeWithFlags &&& hasNoPoolFlag == 0) = false := by
      rw [Bool.eq_false_iff, Ne, Bool.and_eq_true, beq_iff_eq]
      exact h
    simp only [setFields, forReading, hno]
    rfl

theorem parses_get (hasPoolId : Bool) : Parses (forReading hasPoolId).get (grammar hasPoolId) :=
  uint32.bind fun length => uint32.bind fun typeWithFlags =>
    uint32.bind fun chunkSize => parses_getPoolId hasPoolId length typeWithFlags chunkSize

end StripePatternHeader

/-- `UInt16Vector` -/
def targetIDsGrammar : Grammar (List UInt16) := list true uint16

theorem parses_targetIDs : Parses (Reader.read targetIDs) targetIDsGrammar := by
  refine uint16.list ?_ true
  rintro v _ ⟨hlen, -⟩ rfl
  cases hlen

/-- The number of targets new files have by default, and the targets. -/
def targetsGrammar : Grammar (UInt32 × List UInt16) := uint32.pair targetIDsGrammar

def mirroredGrammar : Grammar (UInt32 × List UInt16 × List UInt16) :=
  uint32.pair (targetIDsGrammar.pair targetIDsGrammar)

theorem parses_targets : Parses targetsContent.get targetsGrammar :=
  uint32.pair parses_targetIDs

theorem parses_mirrored : Parses mirroredContent.get mirroredGrammar :=
  uint32.pair (parses_targetIDs.pair parses_targetIDs)

theorem length_targetIDs (h : targetIDsGrammar.Word ids bytes) :
    bytes.length = 8 + 2 * ids.length := by
  obtain ⟨body, hbody, rfl⟩ := h
  have hsize : ∀ v bytes, uint16.Word v bytes → bytes.length = 2 := fun _ _ h => h.1
  rw [length_encodeSized, Grammar.Items.length_eq hsize hbody]
  rfl

namespace Content

def storedSize : Content → ℕ
  | raid0 _ ids => 12 + 2 * ids.length
  | raid10 _ ids mirrorIDs => 20 + 2 * ids.length + 2 * mirrorIDs.length
  | buddyMirror _ ids => 12 + 2 * ids.length

def grammar : StripePatternType → Grammar Content
  | .raid0 => do
    let v ← targetsGrammar
    return raid0 v.1 v.2
  | .raid10 => do
    let v ← mirroredGrammar
    return raid10 v.1 v.2.1 v.2.2
  | .buddyMirror => do
    let v ← targetsGrammar
    return buddyMirror v.1 v.2

theorem length_targets (h : targetsGrammar.Word v bytes) : bytes.length = 12 + 2 * v.2.length := by
  obtain ⟨n, b, _, ⟨hn, -⟩, ⟨ids, c, _, hids, ⟨rfl, rfl⟩, rfl⟩, rfl⟩ := h
  simp only [List.length_append, hn, length_targetIDs hids, List.length_nil]
  omega

theorem length_mirrored (h : mirroredGrammar.Word v bytes) :
    bytes.length = 20 + 2 * v.2.1.length + 2 * v.2.2.length := by
  obtain ⟨n, b, _, ⟨hn, -⟩,
    ⟨_, c, _, ⟨ids, d, _, hids, ⟨mirrorIDs, e, _, hmirror, ⟨rfl, rfl⟩, rfl⟩, rfl⟩,
    ⟨rfl, rfl⟩, rfl⟩, rfl⟩ := h
  simp only [List.length_append, hn, length_targetIDs hids, length_targetIDs hmirror,
    List.length_nil]
  omega

theorem length_word {type : StripePatternType} (h : (grammar type).Word content bytes) :
    bytes.length = content.storedSize := by
  cases type with
  | raid0 =>
    obtain ⟨v, b, _, hv, ⟨rfl, rfl⟩, rfl⟩ := h
    rw [List.append_nil]
    exact length_targets hv
  | raid10 =>
    obtain ⟨v, b, _, hv, ⟨rfl, rfl⟩, rfl⟩ := h
    rw [List.append_nil]
    exact length_mirrored hv
  | buddyMirror =>
    obtain ⟨v, b, _, hv, ⟨rfl, rfl⟩, rfl⟩ := h
    rw [List.append_nil]
    exact length_targets hv

theorem parses_deserialize (type : StripePatternType) : Parses (deserialize type)
    (grammar type) := by
  cases type with
  | raid0 => exact parses_targets.map fun v => raid0 v.1 v.2
  | raid10 => exact parses_mirrored.map fun v => raid10 v.1 v.2.1 v.2.2
  | buddyMirror => exact parses_targets.map fun v => buddyMirror v.1 v.2

end Content

namespace StripePattern

/-- A header with a chunk size and a type of the enumeration, and the fields of that type. -/
def grammar (hasPoolId : Bool) : Grammar StripePattern := do
  let header ← StripePatternHeader.grammar hasPoolId
  only (header.chunkSize ≠ 0)
  match ofCode? header.type with
  | none => empty
  | some type => do
    let content ← Content.grammar type
    return construct header.chunkSize (if hasPoolId then some header.storagePoolId
      else none) content

theorem length_grammar_poolless (h : (grammar false).Word p bytes) :
    bytes.length = 12 + p.content.storedSize := by
  obtain ⟨header, b, b', hheader, hrest, rfl⟩ := h
  rw [word_only_bind] at hrest
  rw [List.length_append, StripePatternHeader.length_grammar_poolless hheader]
  cases htype : ofCode? header.type with
  | none =>
    rw [htype] at hrest
    exact hrest.2.elim
  | some type =>
    rw [htype] at hrest
    obtain ⟨content, c, _, hcontent, ⟨rfl, rfl⟩, rfl⟩ := hrest.2
    rw [List.append_nil, Content.length_word hcontent]
    rfl

/-- A header with a type that is neither the invalid one nor one of a pattern. -/
def unknownType (hasPoolId : Bool) : Grammar Unit := do
  let header ← StripePatternHeader.grammar hasPoolId
  only (header.chunkSize ≠ 0 ∧ header.type ≠ 0 ∧ ofCode? header.type = none)

/-- What stands for each end of `deserialize`; no pattern is never read. -/
def results (hasPoolId : Bool) : Grammar Deserialized where
  Word
    | .pattern pattern => (grammar hasPoolId).Word pattern
    | .null => fun _ => False
    | .nullDereferenced => (unknownType hasPoolId).Word ()

def contentResults (header : StripePatternHeader) (poolId : Option UInt16) : Grammar Deserialized :=
  if header.type = 0 then empty
  else
    match ofCode? header.type with
    | none => pure .nullDereferenced
    | some type => do
      let content ← Content.grammar type
      return .pattern (construct header.chunkSize poolId content)

theorem deserializeContent_eq (header : StripePatternHeader) : deserializeContent header poolId =
      if header.type = 0 then Reader.fail .null
      else match ofCode? header.type with
        | none => (pure .nullDereferenced : StateM Deserializer Deserialized)
        | some type => Bind.bind (m := StateM Deserializer) (Content.deserialize type)
          fun content =>
          failIfBad .null (pure (.pattern (construct header.chunkSize poolId content))) := by
  funext des
  rw [deserializeContent]
  split
  · rfl
  · cases ofCode? header.type <;> rfl

open Deserialized

theorem parses_deserializeContent (header : StripePatternHeader) :
    Parses (deserializeContent header poolId) (contentResults header poolId) := by
  rw [deserializeContent_eq, contentResults]
  refine ite (fun _ => fail null) fun _ => ?_
  cases ofCode? header.type with
  | none => exact Parses.pure nullDereferenced
  | some type =>
    exact (Content.parses_deserialize type).bind fun content =>
      (Parses.pure (pattern (construct header.chunkSize poolId content))).failIfBad null

theorem deserialize_eq (hasPoolId : Bool) : deserialize hasPoolId =
    Bind.bind (m := StateM Deserializer) (StripePatternHeader.forReading hasPoolId).get
    fun header =>
      failIfBad .null (if header.chunkSize = 0 then Reader.fail .null
        else deserializeContent header (if hasPoolId then some header.storagePoolId
        else none)) := by
  funext des
  rw [deserialize, bind_apply]
  dsimp only
  rw [ite_or, failIfBad]
  split
  · rfl
  · split <;> rfl

theorem contentResults_pattern {header : StripePatternHeader} :
    (contentResults header poolId).Word (.pattern p) bytes ↔ (match ofCode? header.type with
        | none => empty
        | some type => do
          let content ← Content.grammar type
          return construct header.chunkSize poolId content).Word p bytes := by
  rw [contentResults]
  split
  · rename_i hzero
    rw [hzero]
    exact Iff.rfl
  cases ofCode? header.type with
  | none => exact iff_of_false (fun h => by cases h.1) id
  | some type =>
    constructor
    · rintro ⟨content, b, b', hcontent, ⟨heq, rfl⟩, rfl⟩
      cases heq
      exact ⟨content, b, [], hcontent, ⟨rfl, rfl⟩, rfl⟩
    · rintro ⟨content, b, b', hcontent, ⟨rfl, rfl⟩, rfl⟩
      exact ⟨content, b, [], hcontent, ⟨rfl, rfl⟩, rfl⟩

theorem not_contentResults_null {header : StripePatternHeader} :
    ¬(contentResults header poolId).Word .null bytes := by
  rw [contentResults]
  split
  · exact id
  cases ofCode? header.type with
  | none => exact fun h => by cases h.1
  | some type =>
    rintro ⟨content, b, b', -, ⟨heq, -⟩, -⟩
    cases heq

theorem contentResults_nullDereferenced {header : StripePatternHeader} :
    (contentResults header poolId).Word .nullDereferenced bytes ↔
      (header.type ≠ 0 ∧ ofCode? header.type = none) ∧ bytes = [] := by
  rw [contentResults]
  split
  · rename_i hzero
    exact iff_of_false id fun h => h.1.1 hzero
  rename_i hne
  cases ofCode? header.type with
  | none => exact ⟨fun h => ⟨⟨hne, rfl⟩, h.2⟩, fun h => ⟨rfl, h.2⟩⟩
  | some type =>
    refine iff_of_false ?_ fun h => by cases h.1.2
    rintro ⟨content, b, b', -, ⟨heq, -⟩, -⟩
    cases heq

theorem parses_deserialize (hasPoolId : Bool) : Parses (deserialize hasPoolId)
    (results hasPoolId) := by
  rw [deserialize_eq]
  refine Parses.congr ((StripePatternHeader.parses_get hasPoolId).bind fun header =>
    (ite (fun _ => fail null) fun _ =>
      parses_deserializeContent header).failIfBad .null) fun result bytes => ?_
  cases result with
  | pattern p =>
    refine exists_congr fun header => exists_congr fun b => exists_congr fun b' => and_congr_right
      fun _ => and_congr_left fun _ => ?_
    rw [word_only_bind]
    dsimp only
    by_cases hzero : header.chunkSize = 0
    · rw [if_pos hzero]
      exact iff_of_false id fun h => h.1 hzero
    · rw [if_neg hzero]
      exact contentResults_pattern.trans (and_iff_right hzero).symm
  | null =>
    refine iff_of_false ?_ id
    rintro ⟨header, b, b', -, hcontent, -⟩
    dsimp only at hcontent
    by_cases hzero : header.chunkSize = 0
    · rw [if_pos hzero] at hcontent
      exact hcontent
    · rw [if_neg hzero] at hcontent
      exact not_contentResults_null hcontent
  | nullDereferenced =>
    refine exists_congr fun header => exists_congr fun b => exists_congr fun b' => and_congr_right
      fun _ => and_congr_left fun _ => ?_
    dsimp only
    by_cases hzero : header.chunkSize = 0
    · rw [if_pos hzero]
      exact iff_of_false id fun h => h.1.1 hzero
    · rw [if_neg hzero]
      refine contentResults_nullDereferenced.trans (and_congr_left fun _ => ?_)
      exact (and_iff_right hzero).symm

end StripePattern

end Congfs.Transport
