import Congfs.Serialization.ClientFields
import Congfs.Serialization.Coding
import Congfs.Striping.TransportGrammar

/-!
# Stripe patterns are read back

By servers, if they have a storage pool: in a pattern without one a server puts the pool 0, which is
not the default pool. By clients, who do not keep the pool, in any case.
-/

namespace Congfs

open LittleEndian List StripePatternType

theorem StripePatternType.ofCode?_code : ofCode? type.code = some type := by
  cases type <;> decide

namespace Transport

open Serialization

/-! ## The header -/

namespace StripePatternHeader

variable {header : StripePatternHeader} {type : StripePatternType}

/-- What follows the length. -/
def encodeFields (header : StripePatternHeader) : List UInt8 :=
  bytes 4 header.typeWithFlags.toNat ++ bytes 4 header.chunkSize.toNat ++
    if header.hasPoolId then bytes 2 header.storagePoolId.toNat else []

theorem writes_put (header : StripePatternHeader) :
    Writes header.put (bytes 4 header.length.toNat ++ header.encodeFields) := by
  have hfields := ((Writes.putBlock (bytes 4 header.length.toNat)).comp
    (.putBlock (bytes 4 header.typeWithFlags.toNat))).comp
    (.putBlock (bytes 4 header.chunkSize.toNat))
  rw [encodeFields, ← append_assoc, ← append_assoc]
  by_cases hpool : header.hasPoolId
  · rw [if_pos hpool]
    have hput := hfields.comp (.putBlock (bytes 2 header.storagePoolId.toNat))
    convert hput using 2
    exact if_pos hpool
  · rw [if_neg hpool]
    have hput := hfields.comp .nil
    convert hput using 2
    exact if_neg hpool

theorem counts_put (header : StripePatternHeader) :
    Counts header.put (4 + header.encodeFields.length) := by
  have hfields := ((Counts.putBlock (bytes 4 header.length.toNat)).comp
    (.putBlock (bytes 4 header.typeWithFlags.toNat))).comp
    (.putBlock (bytes 4 header.chunkSize.toNat))
  have hpool : Counts (fun ser => if header.hasPoolId then
        ser.putBlock (bytes 2 header.storagePoolId.toNat) else ser)
      (if header.hasPoolId then bytes 2 header.storagePoolId.toNat else []).length := by
    cases header.hasPoolId with
    | true => exact .putBlock _
    | false => exact .nil
  refine (hfields.comp hpool).of_eq ?_
  simp only [encodeFields, length_append, length_bytes, ← Nat.add_assoc]

/-- The header as it is read by somebody who expects a pool. -/
def received (header : StripePatternHeader) (length : UInt32) : StripePatternHeader :=
  { header with
    length := length
    storagePoolId := if header.hasPoolId then header.storagePoolId else 0 }

section
variable (h : header.type = type.code)
include h

theorem type_of_typeWithFlags : header.typeWithFlags &&& ~~~hasNoPoolFlag = header.type := by
  rw [typeWithFlags, h]
  cases header.hasPoolId <;> cases type <;> decide

theorem flag_of_typeWithFlags : header.typeWithFlags &&& hasNoPoolFlag = 0 ↔ header.hasPoolId := by
  rw [typeWithFlags, h]
  cases header.hasPoolId <;> cases type <;> decide

theorem word_grammar (length : UInt32) : (grammar true).Word (header.received length)
      (encodeInt 4 UInt32.toNat length ++ header.encodeFields) := by
  refine (word_uint32 length).bind ((word_uint32 header.typeWithFlags).bind
    ((word_uint32 header.chunkSize).bind ?_))
  have hflag := flag_of_typeWithFlags h
  rw [type_of_typeWithFlags h]
  obtain ⟨_, type, chunkSize, storagePoolId, hasPoolId⟩ := header
  cases hasPoolId with
  | true =>
    rw [if_pos ⟨rfl, hflag.mpr rfl⟩]
    exact ⟨storagePoolId, _, [], word_uint16 storagePoolId, ⟨rfl, rfl⟩, (append_nil _).symm⟩
  | false =>
    rw [if_neg fun h => Bool.false_ne_true (hflag.mp h.2)]
    exact Grammar.Word.pure _

/-- Somebody who expects no pool gets along with a header that has none. -/
theorem word_grammar_poolless (hpool : header.hasPoolId = false) (length : UInt32) :
    (grammar false).Word ⟨length, header.type, header.chunkSize, defaultPoolId, false⟩
      (encodeInt 4 UInt32.toNat length ++ header.encodeFields) := by
  rw [encodeFields, append_assoc, hpool]
  refine (word_uint32 length).bind ((word_uint32 header.typeWithFlags).bind
    ((word_uint32 header.chunkSize).bind ?_))
  rw [type_of_typeWithFlags h, if_neg fun h => Bool.false_ne_true h.1]
  exact Grammar.Word.pure _

end

end StripePatternHeader

/-! ## What a pattern is sent as -/

def encodeTargetIDs : List UInt16 → List UInt8 := encodeCollection true (encodeInt 2 UInt16.toNat)

open Wire

theorem wire_targetIDs : Wire targetIDs encodeTargetIDs fun ids => ∀ v ∈ ids, True :=
  list true uint16

namespace Content

def encode : Content → List UInt8
  | raid0 n ids => encodeInt 4 UInt32.toNat n ++ encodeTargetIDs ids
  | raid10 n ids mirrorIDs =>
    encodeInt 4 UInt32.toNat n ++ (encodeTargetIDs ids ++ encodeTargetIDs mirrorIDs)
  | buddyMirror n ids => encodeInt 4 UInt32.toNat n ++ encodeTargetIDs ids

theorem targetsContent_roundTrips : RoundTrips targetsContent
    (fun v => encodeInt 4 UInt32.toNat v.1 ++ encodeTargetIDs v.2) fun _ => True :=
  (pair uint32 wire_targetIDs).roundTrips.of_forall (by simp)

theorem mirroredContent_roundTrips : RoundTrips mirroredContent
    (fun v => encodeInt 4 UInt32.toNat v.1 ++ (encodeTargetIDs v.2.1 ++ encodeTargetIDs v.2.2))
    fun _ => True :=
  (pair uint32 (pair wire_targetIDs wire_targetIDs)).roundTrips.of_forall (by simp)

section
variable (content : Content) (h : content.encode.length < 4294967296)
include h

theorem writes_serialize : Writes content.serialize content.encode := by
  cases content with
  | raid0 n ids => exact targetsContent_roundTrips.writes (n, ids) trivial h
  | raid10 n ids mirrorIDs =>
    exact mirroredContent_roundTrips.writes (n, ids, mirrorIDs) trivial h
  | buddyMirror n ids => exact targetsContent_roundTrips.writes (n, ids) trivial h

theorem counts_serialize : Counts content.serialize content.encode.length := by
  cases content with
  | raid0 n ids =>
    exact @counts _ _ _ _ (pair uint32 wire_targetIDs) (n, ids) (by simp) h
  | raid10 n ids mirrorIDs =>
    exact @counts _ _ _ _ (pair uint32 (pair wire_targetIDs wire_targetIDs))
      (n, ids, mirrorIDs) (by simp) h
  | buddyMirror n ids =>
    exact @counts _ _ _ _ (pair uint32 wire_targetIDs) (n, ids) (by simp) h

theorem word_encode : (grammar content.type).Word content content.encode := by
  cases content with
  | raid0 n ids =>
    have hword := (@Codes.of_wire _ _ (n, ids) _ _ _ (pair uint32 wire_targetIDs)
      parses_targets (by simp)).map fun v => raid0 v.1 v.2
    exact hword.word h
  | raid10 n ids mirrorIDs =>
    have hword := (@Codes.of_wire _ _ (n, ids, mirrorIDs) _ _ _
      (pair uint32 (pair wire_targetIDs wire_targetIDs)) parses_mirrored (by simp)).map
      fun v => raid10 v.1 v.2.1 v.2.2
    exact hword.word h
  | buddyMirror n ids =>
    have hword := (@Codes.of_wire _ _ (n, ids) _ _ _ (pair uint32 wire_targetIDs)
      parses_targets (by simp)).map fun v => buddyMirror v.1 v.2
    exact hword.word h

end

theorem patternEquals_self (content : Content) : content.patternEquals content := by
  cases content <;> simp [patternEquals]

end Content

namespace StripePattern

variable (p : StripePattern)

/-- What follows the length. -/
def encodeBody : List UInt8 := p.header.encodeFields ++ p.content.encode

/-- The length of everything, and the rest. -/
def encode : List UInt8 := bytes 4 (4 + p.encodeBody.length) ++ p.encodeBody

theorem length_encode : p.encode.length = 4 + p.encodeBody.length := by
  simp [encode]

theorem encode_ne_nil : p.encode ≠ [] := by
  intro hnil
  have hlen := p.length_encode
  rw [hnil, length_nil] at hlen
  omega

theorem length_content_lt (h : p.encode.length < 4294967296) :
    p.content.encode.length < 4294967296 := by
  rw [length_encode, encodeBody, length_append] at h
  omega

open StripePatternHeader

theorem length_encode_pooled (hpool : p.header.hasPoolId) (h : p.encode.length < 4294967296) :
    p.encode.length = 14 + p.content.storedSize := by
  have hcontent := Content.length_word (p.content.word_encode (p.length_content_lt h))
  rw [length_encode, encodeBody, length_append, hcontent, encodeFields, hpool]
  simp only [length_append, length_bytes, if_true]
  omega

/-- What a server makes of a pattern: without a pool there was nothing to read, and it stays 0. -/
def received : StripePattern :=
  construct p.header.chunkSize (some (if p.header.hasPoolId then p.header.storagePoolId else 0))
    p.content

theorem word_content {header : StripePatternHeader} (hasPoolId : Bool)
    (htype : header.type = p.content.type.code) (hchunk : header.chunkSize = p.header.chunkSize)
    (h : p.encode.length < 4294967296) :
    (do Grammar.only (header.chunkSize ≠ 0)
        match ofCode? header.type with
        | none => Grammar.empty
        | some type => do
          let content ← Content.grammar type
          return construct header.chunkSize (if hasPoolId then some header.storagePoolId else none)
            content).Word
      (construct p.header.chunkSize (if hasPoolId then some header.storagePoolId
        else none) p.content)
      p.content.encode := by
  rw [Grammar.word_only_bind, htype, ofCode?_code, hchunk]
  exact ⟨p.chunkSize_ne, p.content, _, [], p.content.word_encode
    (p.length_content_lt h), ⟨rfl, rfl⟩, (append_nil _).symm⟩

section
variable (h : p.encode.length < 4294967296)
include h

theorem writes_serialize : Writes p.serialize p.encode := by
  have hbody := p.header.writes_put.comp (p.content.writes_serialize (p.length_content_lt h))
  rw [append_assoc] at hbody
  have hpatched := @Writes.patched _ (fun length ser => ser.putUInt32 length) _ _ _ hbody
    (Writes.putUInt32 _) (by simp)
  rw [length_append, length_bytes, ← encodeBody, ← length_encode,
    wrap32_of_lt h, length_encode] at hpatched
  exact hpatched

theorem counts_serialize : Counts p.serialize p.encode.length := by
  have hbody := p.header.counts_put.comp (p.content.counts_serialize (p.length_content_lt h))
  rw [length_encode, encodeBody, length_append, ← Nat.add_assoc]
  exact ⟨hbody.offset, hbody.size⟩

theorem toNat_ofNat_length :
    (UInt32.ofNat (4 + p.encodeBody.length)).toNat = 4 + p.encodeBody.length := by
  rw [length_encode] at h
  exact UInt32.toNat_ofNat_of_lt' h

theorem encode_eq : p.encode =
    encodeInt 4 UInt32.toNat (UInt32.ofNat (4 + p.encodeBody.length)) ++ p.header.encodeFields ++
      p.content.encode := by
  rw [encodeInt, p.toNat_ofNat_length h, encode, encodeBody, append_assoc]

theorem word_encode : (grammar true).Word p.received p.encode := by
  rw [p.encode_eq h]
  exact (word_grammar p.type_eq _).bind (p.word_content true p.type_eq rfl h)

omit h in
/-- A pattern without a pool is read back by somebody who expects none. -/
theorem word_encode_poolless (hpool : p.header.hasPoolId = false)
    (h : p.encode.length < 4294967296) :
    (grammar false).Word (construct p.header.chunkSize none p.content) p.encode := by
  rw [p.encode_eq h]
  exact (word_grammar_poolless p.type_eq hpool _).bind (p.word_content false p.type_eq rfl h)

theorem reads_deserialize : Reads (deserialize true) (.pattern p.received) p.encode :=
  (parses_deserialize true).reads (.pattern p.received) p.encode (p.word_encode h)

end

/-- The pool 0 is not the default pool. -/
theorem stripePatternEquals_received : p.stripePatternEquals p.received = p.header.hasPoolId := by
  have htype := p.type_eq
  have hchunk := p.chunkSize_ne
  have hcontent := p.content.patternEquals_self
  cases hpool : p.header.hasPoolId with
  | true => simp [stripePatternEquals, received, construct, hpool, htype, hchunk, hcontent]
  | false =>
    have hdefault := p.pool_eq hpool
    simp [stripePatternEquals, received, construct, hpool, hdefault, defaultPoolId]

theorem stripePatternEquals_poolless (hpool : p.header.hasPoolId = false) :
    p.stripePatternEquals (construct p.header.chunkSize none p.content) := by
  have hdefault := p.pool_eq hpool
  simp [stripePatternEquals, construct, p.type_eq, p.chunkSize_ne,
    p.content.patternEquals_self, hdefault]

end StripePattern

/-! ## Clients -/

section
open ClientSerialization

theorem takes_deserializeUInt16Vec (h : (encodeTargetIDs ids).length < 4294967296) :
    Takes deserializeUInt16Vec ids (encodeTargetIDs ids) := by
  have hbytes : encodeCollection true (bytes 2) (ids.map UInt16.toNat) = encodeTargetIDs ids := by
    rw [encodeCollection, encodeTargetIDs, encodeCollection, length_map, flatMap_map]
    rfl
  have hvalues : ∀ v ∈ ids.map UInt16.toNat, v < 65536 := by
    intro v hv
    obtain ⟨id, -, rfl⟩ := mem_map.mp hv
    exact id.toNat_lt
  have hvec := (deserializeUInt16List_at hvalues (hbytes ▸ h)).map (map UInt16.ofNat)
  have hids : (ids.map UInt16.toNat).map UInt16.ofNat = ids := by
    simp [map_map, Function.comp_def]
  simp only [andThen_assoc, hbytes, hids] at hvec
  exact hvec

theorem takes_uint32 : Takes deserializeUInt n.toNat (encodeInt 4 UInt32.toNat n) :=
  Takes.uint n.toNat_lt

theorem takes_deserializeTargets (hids : ids ≠ []) (h : (encodeTargetIDs ids).length < 4294967296) :
    Takes (fun mem => deserializeTargets mem type chunkSize) ⟨type.code, chunkSize, n, ids, []⟩
      (encodeInt 4 UInt32.toNat n ++ encodeTargetIDs ids) := by
  have hsome : Takes (fun _ ctx => if ids.length = 0 then (none, ctx)
      else (some ⟨type.code, chunkSize, UInt32.ofNat n.toNat, ids, []⟩, ctx))
      (⟨type.code, chunkSize, n, ids, []⟩ : ClientPattern) [] := by
    simp only [if_neg (fun hnil => hids (length_eq_zero_iff.mp hnil)), UInt32.ofNat_toNat]
    exact Takes.pure _
  have hvec := @Takes.andThen _ ClientPattern _ _ _ _ (takes_deserializeUInt16Vec h)
    (fun ids _ ctx =>
    if ids.length = 0 then (none, ctx)
    else (some ⟨type.code, chunkSize, UInt32.ofNat n.toNat, ids, []⟩, ctx)) _ hsome
  rw [append_nil] at hvec
  exact @Takes.andThen _ ClientPattern _ _ _ _ takes_uint32 (fun n mem ctx =>
    andThen (deserializeUInt16Vec mem ctx) fun ids ctx => if ids.length = 0 then (none, ctx)
      else (some ⟨type.code, chunkSize, UInt32.ofNat n, ids, []⟩, ctx)) _ hvec

theorem takes_deserializeRaid10 (h : (encodeTargetIDs ids).length < 4294967296)
    (h' : (encodeTargetIDs mirrorIDs).length < 4294967296) :
    Takes (fun mem => Raid10Pattern.deserializePattern mem chunkSize)
      ⟨StripePatternType.raid10.code, chunkSize, n, ids, mirrorIDs⟩
      (encodeInt 4 UInt32.toNat n ++ (encodeTargetIDs ids ++ encodeTargetIDs mirrorIDs)) := by
  have hmirror := (takes_deserializeUInt16Vec h').map fun mirrorIDs =>
    (⟨StripePatternType.raid10.code,
    chunkSize, UInt32.ofNat n.toNat, ids, mirrorIDs⟩ : ClientPattern)
  have hvec := @Takes.andThen _ ClientPattern _ _ _ _ (takes_deserializeUInt16Vec h)
    (fun ids mem ctx =>
    andThen (deserializeUInt16Vec mem ctx) fun mirrorIDs ctx =>
      (some ⟨StripePatternType.raid10.code,
      chunkSize, UInt32.ofNat n.toNat, ids, mirrorIDs⟩, ctx)) _ hmirror
  have hpattern := @Takes.andThen _ ClientPattern _ _ _ _ takes_uint32 (fun n mem ctx =>
    andThen (deserializeUInt16Vec mem ctx) fun ids ctx =>
      andThen (deserializeUInt16Vec mem ctx) fun mirrorIDs ctx =>
        (some ⟨StripePatternType.raid10.code,
        chunkSize, UInt32.ofNat n, ids, mirrorIDs⟩, ctx)) _ hvec
  rw [UInt32.ofNat_toNat] at hpattern
  exact hpattern

def Content.clientPattern (chunkSize : UInt32) : Content → ClientPattern
  | .raid0 n ids => ⟨StripePatternType.raid0.code, chunkSize, n, ids, []⟩
  | .raid10 n ids mirrorIDs => ⟨StripePatternType.raid10.code, chunkSize, n, ids, mirrorIDs⟩
  | .buddyMirror n ids => ⟨StripePatternType.buddyMirror.code, chunkSize, n, ids, []⟩

theorem takes_deserializePattern {content : Content} {chunkSize : UInt32}
    (hids : content.getStripeTargetIDs ≠ []) (h : content.encode.length < 4294967296) :
    Takes (fun mem => deserializePattern mem content.type chunkSize)
      (content.clientPattern chunkSize) content.encode := by
  cases content with
  | raid0 n ids =>
    rw [Content.encode, length_append] at h
    exact takes_deserializeTargets hids (by omega)
  | raid10 n ids mirrorIDs =>
    rw [Content.encode, length_append, length_append] at h
    exact takes_deserializeRaid10 (by omega) (by omega)
  | buddyMirror n ids =>
    rw [Content.encode, length_append] at h
    exact takes_deserializeTargets hids (by omega)

namespace StripePattern
variable (p : StripePattern)

theorem takes_deserializePoolId {header : StripePatternHeader} {type : StripePatternType}
    (h : header.type = type.code) :
    ∃ poolId, Takes (fun mem => deserializePoolId mem header.typeWithFlags) poolId
      (if header.hasPoolId then bytes 2 header.storagePoolId.toNat else []) := by
  have hflag := StripePatternHeader.flag_of_typeWithFlags h
  by_cases hpool : header.hasPoolId
  · have heq : (fun mem => deserializePoolId mem header.typeWithFlags) = deserializeUShort := by
      funext mem ctx
      rw [deserializePoolId, if_pos (hflag.mpr hpool)]
    rw [heq, if_pos hpool]
    exact ⟨_, Takes.ushort header.storagePoolId.toNat_lt⟩
  · have heq : (fun mem => deserializePoolId mem header.typeWithFlags) =
        fun _ ctx => (some 0, ctx) := by
      funext mem ctx
      rw [deserializePoolId, if_neg fun h => hpool (hflag.mp h)]
    rw [heq, if_neg hpool]
    exact ⟨0, Takes.pure 0⟩

theorem takes_deserializeHeader (h : p.encode.length < 4294967296) :
    ∃ length poolId, Takes deserializeHeader ⟨length, p.header.type, p.header.chunkSize, poolId⟩
      (bytes 4 (4 + p.encodeBody.length) ++ p.header.encodeFields) := by
  obtain ⟨poolId, hpool⟩ := takes_deserializePoolId p.type_eq
  refine ⟨UInt32.ofNat (4 + p.encodeBody.length), UInt16.ofNat poolId, ?_⟩
  have hsize : 4 + p.encodeBody.length < 4294967296 := p.length_encode ▸ h
  have hlong : ¬UInt32.ofNat (4 + p.encodeBody.length) < headerLength := by
    rw [UInt32.lt_iff_toNat_lt, p.toNat_ofNat_length h]
    simp only [encodeBody, StripePatternHeader.encodeFields, length_append,
      length_bytes, headerLength]
    simp
    omega
  intro mem before after inspected length hmem hlen
  rw [StripePatternHeader.encodeFields] at hmem hlen ⊢
  simp only [length_append, length_bytes] at hlen
  obtain ⟨inspected1, h1⟩ := Takes.uint hsize mem before _ inspected length
    (by rw [hmem]; simp only [append_assoc]; rfl) (by rw [length_bytes]; omega)
  obtain ⟨inspected2, h2⟩ := Takes.uint p.header.typeWithFlags.toNat_lt mem
    (before ++ bytes 4 (4 + p.encodeBody.length)) _ inspected1 (length - 4)
    (by rw [hmem]; simp only [append_assoc]; rfl) (by rw [length_bytes]; omega)
  obtain ⟨inspected3, h3⟩ := Takes.uint p.header.chunkSize.toNat_lt mem
    (before ++ bytes 4 (4 + p.encodeBody.length) ++
      bytes 4 p.header.typeWithFlags.toNat) _ inspected2 (length - 4 - 4)
    (by rw [hmem]; simp only [append_assoc]; rfl) (by rw [length_bytes]; omega)
  obtain ⟨inspected4, h4⟩ := hpool mem (before ++ bytes 4 (4 + p.encodeBody.length) ++
      bytes 4 p.header.typeWithFlags.toNat ++
      bytes 4 p.header.chunkSize.toNat) after inspected3 (length - 4 - 4 - 4)
    (by rw [hmem]; simp only [append_assoc]) (by omega)
  simp only [length_append, length_bytes, Nat.add_assoc, Nat.sub_sub] at h1 h2 h3 h4 ⊢
  refine ⟨inspected4, ?_⟩
  simp only [deserializeHeader, h1, h2, h3, UInt32.ofNat_toNat, h4, andThen,
    StripePatternHeader.type_of_typeWithFlags p.type_eq, hlong, p.chunkSize_ne, or_self, if_false]

theorem createFromBuf_eq (h : p.encode.length < 4294967296)
    (hids : p.content.getStripeTargetIDs ≠ []) (before after : List UInt8) :
    createFromBuf (before ++ p.encode ++ after) before.length p.encode.length =
      p.content.clientPattern p.header.chunkSize := by
  obtain ⟨length, poolId, hheader⟩ := p.takes_deserializeHeader h
  have hcontent := @takes_deserializePattern p.content p.header.chunkSize hids
    (p.length_content_lt h)
  have hencode : p.encode = bytes 4 (4 + p.encodeBody.length) ++ p.header.encodeFields ++
      p.content.encode := (append_assoc ..).symm
  generalize bytes 4 (4 + p.encodeBody.length) ++ p.header.encodeFields = fields at hheader hencode
  obtain ⟨inspected1, h1⟩ := hheader (before ++ p.encode ++ after) before
    (p.content.encode ++ after) [] p.encode.length (by simp [hencode]) (by simp [hencode])
  obtain ⟨inspected2, h2⟩ := hcontent (before ++ p.encode ++ after) (before ++ fields)
    after inspected1 (p.encode.length - fields.length) (by simp [hencode]) (by simp [hencode])
  rw [length_append] at h2
  simp only [createFromBuf, h1, p.type_eq, ofCode?_code, h2, Option.getD_some]

theorem clientPattern_fields (content : Content) (chunkSize : UInt32) :
    (content.clientPattern chunkSize).patternType = content.type.code ∧
      (content.clientPattern chunkSize).chunkSize = chunkSize ∧
      (content.clientPattern chunkSize).stripeTargetIDs = content.getStripeTargetIDs := by
  cases content <;> exact ⟨rfl, rfl, rfl⟩

theorem transport_iff (hsize : p.encode.length < 4294967296) {buffer : List UInt8}
    (hbuf : buffer.length = (p.serialize .dryRun).size) :
    (∃ bytes, (p.serialize (.ofBuffer buffer)).buffer = some bytes ∧ bytes.length = buffer.length ∧
      (p.serialize (.ofBuffer buffer)).good ∧
      (∀ after, (bytes ++ after).length < 4294967296 → ∃ q des,
        deserialize true (.ofBuffer (bytes ++ after)) = (.pattern q, des) ∧
          p.stripePatternEquals q ∧ des.good ∧ des.size = bytes.length) ∧
      (p.content.getStripeTargetIDs ≠ [] → ∀ before after,
        let pattern := createFromBuf (before ++ bytes ++ after) before.length bytes.length
        pattern.patternType = p.header.type ∧ pattern.chunkSize = p.header.chunkSize ∧
          pattern.stripeTargetIDs = p.content.getStripeTargetIDs)) ↔
      p.header.hasPoolId := by
  have hwrites := p.writes_serialize hsize
  have hreads := p.reads_deserialize hsize
  rw [hwrites.size_dryRun hsize] at hbuf
  rw [hwrites.put_ofBuffer p.encode_ne_nil hsize hbuf, ← p.stripePatternEquals_received]
  constructor
  · rintro ⟨bytes, hbytes, -, -, hget, -⟩
    cases hbytes
    obtain ⟨q, des, hq, hequals, -⟩ := hget [] (by rwa [append_nil])
    obtain ⟨des', hget', -⟩ := hreads.get_ofBuffer p.encode_ne_nil (by rwa [append_nil])
    rw [hget'] at hq
    cases hq
    exact hequals
  · intro hequals
    refine ⟨p.encode, rfl, hbuf.symm, by simp [Serializer.good, p.encode_ne_nil], ?_, ?_⟩
    · intro after hafter
      obtain ⟨des, hget, hgood, hused⟩ := hreads.get_ofBuffer p.encode_ne_nil hafter
      exact ⟨p.received, des, hget, hequals, hgood, hused⟩
    · intro hids before after
      rw [p.createFromBuf_eq hsize hids, p.type_eq]
      exact clientPattern_fields p.content p.header.chunkSize

/-- Two targets in the pool 7. -/
theorem transport_pooled :
    let p := construct 524288 (some 7) (.raid0 4 [1, 2])
    ∃ bytes, (p.serialize (.ofBuffer (replicate 30 0))).buffer = some bytes ∧
      ∃ q des, deserialize true (.ofBuffer (bytes ++ [9])) = (.pattern q, des) ∧
        p.stripePatternEquals q := by
  obtain ⟨bytes, hbytes, hlen, -, hget, -⟩ :=
    (@transport_iff (construct 524288 (some 7) (.raid0 4 [1, 2])) (by decide) (replicate 30 0)
      (by decide)).mpr rfl
  obtain ⟨q, des, hq, hequals, -⟩ := hget [9] (by rw [length_append, hlen]; decide)
  exact ⟨bytes, hbytes, q, des, hq, hequals⟩

/-- The pattern of an inode without a pool: two targets, and a chunk size of 512 KiB. -/
def oldInode : List UInt8 :=
  [28, 0, 0, 0, 1, 0, 0, 0, 0, 0, 8, 0, 4, 0, 0, 0, 12, 0, 0, 0, 2, 0, 0, 0, 1, 0, 2, 0]

def oldPattern : StripePattern := construct 524288 none (.raid0 4 [1, 2])

theorem transport_poolless :
    (∃ des, deserialize false (.ofBuffer oldInode) = (.pattern oldPattern, des)) ∧
      ∃ bytes,
      (oldPattern.serialize (.ofBuffer (replicate (oldPattern.serialize .dryRun).size 0))).buffer =
        some bytes ∧
        ∃ q des, deserialize true (.ofBuffer bytes) = (.pattern q, des) ∧
          oldPattern.header.storagePoolId = 1 ∧ q.header.storagePoolId = 0 ∧
          oldPattern.stripePatternEquals q = false := by
  have hsize : oldPattern.encode.length < 4294967296 := by decide
  obtain ⟨des, hget, -⟩ := (oldPattern.reads_deserialize hsize).get_ofBuffer
    oldPattern.encode_ne_nil (show (oldPattern.encode ++ []).length < 4294967296 by decide)
  exact ⟨⟨_, rfl⟩, _, rfl, _, _, hget, rfl, rfl, rfl⟩

end StripePattern
end

end Transport
end Congfs
