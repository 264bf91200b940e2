import Congfs.Serialization.Client
import Congfs.Serialization.Formats
import Congfs.Striping.ClientPattern

/-!
# Stripe patterns on the wire

A server sends a pattern as a header and what its type has of its own; servers and clients read it.
The pattern of an old inode has no storage pool. It is sent without one, which a flag in the type
says, so that a reader who expects a pool leaves it out.
-/

namespace Congfs

open Format StripePatternType

/-- The values of the enumeration; 0 is the invalid pattern. -/
def StripePatternType.code : StripePatternType → UInt32
  | .raid0 => 1
  | .raid10 => 2
  | .buddyMirror => 3

def StripePatternType.ofCode? (code : UInt32) : Option StripePatternType :=
  if code = 1 then some .raid0
  else if code = 2 then some .raid10
  else if code = 3 then some .buddyMirror
  else none

namespace Transport

/-- `StoragePoolStore::DEFAULT_POOL_ID` -/
def defaultPoolId : UInt16 := 1

/-- `STRIPEPATTERN_DEFAULT_CHUNKSIZE` -/
def defaultChunkSize : UInt32 := 524288

/-- `HasNoPoolFlag`, and `HAS_NO_POOL_FLAG` of the client. -/
def hasNoPoolFlag : UInt32 := 16777216

/-! ## Servers -/

structure StripePatternHeader where
  length : UInt32
  type : UInt32
  chunkSize : UInt32
  storagePoolId : UInt16
  hasPoolId : Bool

namespace StripePatternHeader

/-- The constructor for reading. A pool that is expected is 0 until it was read. -/
def forReading (hasPoolId : Bool) : StripePatternHeader :=
  ⟨0, 0, 0, if hasPoolId then 0 else defaultPoolId, hasPoolId⟩

def typeWithFlags (header : StripePatternHeader) : UInt32 :=
  header.type ||| if header.hasPoolId then 0 else hasNoPoolFlag

def put (header : StripePatternHeader) (ser : Serializer) : Serializer :=
  let ser := uint32.put header.length ser
  let ser := uint32.put header.typeWithFlags ser
  let ser := uint32.put header.chunkSize ser
  if header.hasPoolId then uint16.put header.storagePoolId ser else ser

def getPoolId (header : StripePatternHeader) (des : Deserializer) :
    StripePatternHeader × Deserializer :=
  if header.hasPoolId then
    let (storagePoolId, des) := uint16.get des
    ({ header with storagePoolId := storagePoolId }, des)
  else (header, des)

def setFields (header : StripePatternHeader) (length typeWithFlags chunkSize : UInt32) :
    StripePatternHeader :=
  { header with
    length := length
    type := typeWithFlags &&& ~~~hasNoPoolFlag
    chunkSize := chunkSize
    hasPoolId := header.hasPoolId && typeWithFlags &&& hasNoPoolFlag == 0 }

def get (header : StripePatternHeader) (des : Deserializer) : StripePatternHeader × Deserializer :=
  let (length, des) := uint32.get des
  let (typeWithFlags, des) := uint32.get des
  let (chunkSize, des) := uint32.get des
  (header.setFields length typeWithFlags chunkSize).getPoolId des

end StripePatternHeader

/-- The fields of the derived classes. -/
inductive Content
  | raid0 (defaultNumTargets : UInt32) (stripeTargetIDs : List UInt16)
  | raid10 (defaultNumTargets : UInt32) (stripeTargetIDs mirrorTargetIDs : List UInt16)
  | buddyMirror (defaultNumTargets : UInt32) (mirrorBuddyGroupIDs : List UInt16)
  deriving DecidableEq, Repr

/-- `UInt16Vector` -/
def targetIDs : Format (List UInt16) := list true uint16

/-- `serializeContent` of `Raid0Pattern` and `BuddyMirrorPattern`, for both directions. -/
def targetsContent : Format (UInt32 × List UInt16) := uint32.pair targetIDs

/-- `serializeContent` of `Raid10Pattern` -/
def mirroredContent : Format (UInt32 × List UInt16 × List UInt16) :=
  uint32.pair (targetIDs.pair targetIDs)

namespace Content

def type : Content → StripePatternType
  | raid0 .. => .raid0
  | raid10 .. => .raid10
  | buddyMirror .. => .buddyMirror

def getStripeTargetIDs : Content → List UInt16
  | raid0 _ stripeTargetIDs => stripeTargetIDs
  | raid10 _ stripeTargetIDs _ => stripeTargetIDs
  | buddyMirror _ mirrorBuddyGroupIDs => mirrorBuddyGroupIDs

def serialize : Content → Serializer → Serializer
  | raid0 n ids, ser => targetsContent.put (n, ids) ser
  | raid10 n ids mirrorIDs, ser => mirroredContent.put (n, ids, mirrorIDs) ser
  | buddyMirror n ids, ser => targetsContent.put (n, ids) ser

def deserialize (type : StripePatternType) (des : Deserializer) : Content × Deserializer :=
  match type with
  | .raid0 =>
    let result := targetsContent.get des
    (raid0 result.1.1 result.1.2, result.2)
  | .raid10 =>
    let result := mirroredContent.get des
    (raid10 result.1.1 result.1.2.1 result.1.2.2, result.2)
  | .buddyMirror =>
    let result := targetsContent.get des
    (buddyMirror result.1.1 result.1.2, result.2)

/-- The other pattern is cast without a check; it is only asked for one of the same type. -/
def patternEquals : Content → Content → Bool
  | raid0 n ids, raid0 n' ids' => n = n' ∧ ids = ids'
  | raid10 n ids mirrorIDs, raid10 n' ids' mirrorIDs' => n = n' ∧ ids = ids' ∧
    mirrorIDs = mirrorIDs'
  | buddyMirror n ids, buddyMirror n' ids' => n = n' ∧ ids = ids'
  | _, _ => false

end Content

/-- A pattern. One without a pool, which is one that was read from an old inode, is in the default
pool. -/
structure StripePattern where
  header : StripePatternHeader
  content : Content
  type_eq : header.type = content.type.code
  chunkSize_ne : header.chunkSize ≠ 0
  pool_eq : header.hasPoolId = false → header.storagePoolId = defaultPoolId

namespace StripePattern

/-- The constructor, where 0 stands for the default chunk size. -/
def construct (chunkSize : UInt32) (storagePoolId : Option UInt16) (content : Content) :
    StripePattern where
  header :=
    { length := 0
      type := content.type.code
      chunkSize := if chunkSize ≠ 0 then chunkSize else defaultChunkSize
      storagePoolId := storagePoolId.getD defaultPoolId
      hasPoolId := storagePoolId.isSome }
  content := content
  type_eq := rfl
  chunkSize_ne := by
    dsimp only
    split
    · assumption
    · decide
  pool_eq h := by
    cases storagePoolId with
    | none => rfl
    | some _ => cases h

/-- `operator%`: the length is written when it is known. -/
def serialize (pattern : StripePattern) (ser : Serializer) : Serializer :=
  let lengthPos := ser
  let lengthAtStart := ser.size
  let ser := pattern.content.serialize (pattern.header.put ser)
  ser.writeAt lengthPos fun lengthPos => lengthPos.putUInt32 (sub32 ser.size lengthAtStart)

/-- What `deserialize` ends with. There is no case for a type that is none of the enumeration: no
pattern is made, and the null pointer is used. -/
inductive Deserialized
  | pattern (pattern : StripePattern)
  | null
  | nullDereferenced

/-- Makes a pattern of the type and lets it read its fields. -/
def deserializeContent (header : StripePatternHeader) (poolId : Option UInt16)
    (des : Deserializer) : Deserialized × Deserializer :=
  if header.type = 0 then (.null, des.setBad)
  else
    match ofCode? header.type with
    | none => (.nullDereferenced, des)
    | some type =>
      let (content, des) := Content.deserialize type des
      if ¬des.good then (.null, des.setBad)
      else (.pattern (construct header.chunkSize poolId content), des)

/-- The pool goes into the pattern if one was expected, not if there was one. -/
def deserialize (hasPoolId : Bool) (des : Deserializer) : Deserialized × Deserializer :=
  let (header, des) := (StripePatternHeader.forReading hasPoolId).get des
  if ¬des.good ∨ header.chunkSize = 0 then (.null, des.setBad)
  else deserializeContent header (if hasPoolId then some header.storagePoolId else none) des

def stripePatternEquals (pattern second : StripePattern) : Bool :=
  pattern.header.type = second.header.type ∧ pattern.header.chunkSize = second.header.chunkSize ∧
    pattern.header.storagePoolId = second.header.storagePoolId ∧
    pattern.content.patternEquals second.content

end StripePattern

/-! ## Clients -/

open ClientSerialization

/-- The pool is read, and not kept in a pattern. -/
structure ClientHeader where
  patternLength : UInt32
  patternType : UInt32
  chunkSize : UInt32
  storagePoolId : UInt16

/-- `STRIPEPATTERN_HEADER_LENGTH` -/
def headerLength : UInt32 := 12

/-- The pattern of a client; only that of `Raid10Pattern` has mirror targets. -/
structure ClientPattern where
  patternType : UInt32
  chunkSize : UInt32
  defaultNumTargets : UInt32
  stripeTargetIDs : List UInt16
  mirrorTargetIDs : List UInt16

/-- `SimplePattern_construct(STRIPEPATTERN_Invalid, 0)` -/
def ClientPattern.invalid : ClientPattern := ⟨0, 0, 0, [], []⟩

variable (mem : List UInt8)

def deserializePoolId (patternType : UInt32) (ctx : DeserializeCtx) : Option ℕ × DeserializeCtx :=
  if patternType &&& hasNoPoolFlag = 0 then deserializeUShort mem ctx else (some 0, ctx)

def deserializeHeader (ctx : DeserializeCtx) : Option ClientHeader × DeserializeCtx :=
  andThen (deserializeUInt mem ctx) fun patternLength ctx =>
    andThen (deserializeUInt mem ctx) fun patternType ctx =>
      andThen (deserializeUInt mem ctx) fun chunkSize ctx =>
        andThen (deserializePoolId mem (UInt32.ofNat patternType) ctx) fun storagePoolId ctx =>
          let header : ClientHeader :=
            ⟨UInt32.ofNat patternLength, UInt32.ofNat patternType &&& ~~~hasNoPoolFlag,
              UInt32.ofNat chunkSize, UInt16.ofNat storagePoolId⟩
          if header.patternLength < headerLength ∨ header.chunkSize = 0 then (none, ctx)
          else (some header, ctx)

/-- `Serialization_deserializeUInt16VecPreprocess` and `Serialization_deserializeUInt16Vec`, which
do what the functions for lists do. -/
def deserializeUInt16Vec (ctx : DeserializeCtx) : Option (List UInt16) × DeserializeCtx :=
  andThen (deserializeUInt16ListPreprocess mem ctx) fun inList ctx =>
    andThen (deserializeUInt16List mem inList ctx) fun values ctx =>
      (some (values.map UInt16.ofNat), ctx)

/-- A pattern without mirror targets; one without targets is refused. -/
def deserializeTargets (type : StripePatternType) (chunkSize : UInt32) (ctx : DeserializeCtx) :
    Option ClientPattern × DeserializeCtx :=
  andThen (deserializeUInt mem ctx) fun defaultNumTargets ctx =>
    andThen (deserializeUInt16Vec mem ctx) fun stripeTargetIDs ctx =>
      if stripeTargetIDs.length = 0 then (none, ctx)
      else (some ⟨type.code, chunkSize, UInt32.ofNat defaultNumTargets, stripeTargetIDs, []⟩, ctx)

def Raid0Pattern.deserializePattern : UInt32 → DeserializeCtx →
    Option ClientPattern × DeserializeCtx :=
  deserializeTargets mem .raid0

def BuddyMirrorPattern.deserializePattern :
    UInt32 → DeserializeCtx → Option ClientPattern × DeserializeCtx :=
  deserializeTargets mem .buddyMirror

/-- Here no target is required. -/
def Raid10Pattern.deserializePattern (chunkSize : UInt32) (ctx : DeserializeCtx) :
    Option ClientPattern × DeserializeCtx :=
  andThen (deserializeUInt mem ctx) fun defaultNumTargets ctx =>
    andThen (deserializeUInt16Vec mem ctx) fun stripeTargetIDs ctx =>
      andThen (deserializeUInt16Vec mem ctx) fun mirrorTargetIDs ctx =>
        (some ⟨raid10.code, chunkSize, UInt32.ofNat defaultNumTargets,
          stripeTargetIDs, mirrorTargetIDs⟩, ctx)

/-- The virtual method. -/
def deserializePattern : StripePatternType → UInt32 → DeserializeCtx →
    Option ClientPattern × DeserializeCtx
  | .raid0 => Raid0Pattern.deserializePattern mem
  | .raid10 => Raid10Pattern.deserializePattern mem
  | .buddyMirror => BuddyMirrorPattern.deserializePattern mem

def createFromBuf (patternStart patternLength : ℕ) : ClientPattern :=
  match deserializeHeader mem ⟨patternStart, patternLength, []⟩ with
  | (none, _) => .invalid
  | (some header, ctx) =>
    match ofCode? header.patternType with
    | none => .invalid
    | some type => (deserializePattern mem type header.chunkSize ctx).1.getD .invalid

end Transport
end Congfs
