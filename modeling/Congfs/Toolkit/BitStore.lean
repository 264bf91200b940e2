import Congfs.Lib.Run
import Congfs.Serialization.Client
import Congfs.Serialization.Formats

/-!
# Vectors of bits

A bit store has a first block of its own and an array for the other ones. The blocks are 32 bits on
the servers and an `unsigned long` on the client, which may have 64. Both sides have their own code;
they share a format, which is made of 64-bit blocks.
-/

namespace Congfs

/-- With blocks of `w` bytes. -/
structure BitStore (w : ℕ) where
  /-- How many bits the blocks have. -/
  numBits : ℕ
  lowerBits : BitVec (8 * w)
  /-- There is an array only if there are other blocks. -/
  higherBits : List (BitVec (8 * w))

namespace BitStore

variable {w : ℕ}

/-- The first block keeps what was in the memory if it is not set to zero. -/
def init (lowerBits : BitVec (8 * w)) : BitStore w := ⟨8 * w, lowerBits, []⟩

def changeBit (block : BitVec (8 * w)) (indexInBitBlock : ℕ) (isSet : Bool) : BitVec (8 * w) :=
  let mask := 1#(8 * w) <<< indexInBitBlock
  if isSet then block ||| mask else block &&& ~~~mask

def setBit (bitIndex : ℕ) (isSet : Bool) (s : BitStore w) : BitStore w :=
  let index := bitIndex / (8 * w)
  let indexInBitBlock := bitIndex % (8 * w)
  if bitIndex ≥ s.numBits then s
  else if index = 0 then { s with lowerBits := changeBit s.lowerBits indexInBitBlock isSet }
  else
    { s with higherBits := s.higherBits.modify (index - 1) (changeBit · indexInBitBlock isSet) }

section
-- how many blocks a number of bits needs, which each side calculates in its own way
variable (calculateBitBlockCount : ℕ → ℕ)

/-- `fresh` is what the new memory holds. -/
def setSizeWith (fresh : ℕ → BitVec (8 * w)) (newSize : ℕ) (s : BitStore w) : BitStore w :=
  let oldBitBlockCount := calculateBitBlockCount s.numBits
  let newBitBlockCount := calculateBitBlockCount newSize
  if newBitBlockCount ≠ oldBitBlockCount then
    { s with
      higherBits := (List.range (newBitBlockCount - 1)).map fresh
      numBits := wrap32 (newBitBlockCount * (8 * w)) }
  else s

variable (s : BitStore w)

def clearBitsWith : BitStore w :=
  let bitBlockCount := calculateBitBlockCount s.numBits
  { s with
    lowerBits := 0
    higherBits := if s.higherBits ≠ [] then List.replicate (bitBlockCount - 1) 0 else [] }

inductive Op (w : ℕ)
  | setSize (fresh : ℕ → BitVec (8 * w)) (newSize : ℕ)
  | clearBits
  | setBit (bitIndex : ℕ) (isSet : Bool)

def step : Op w → BitStore w
  | .setSize fresh newSize => s.setSizeWith calculateBitBlockCount fresh newSize
  | .clearBits => s.clearBitsWith calculateBitBlockCount
  | .setBit bitIndex isSet => s.setBit bitIndex isSet

def Op.Small : Op w → Prop
  | .setSize _ newSize => newSize < 2147483648
  | _ => True

/-- Constructed and changed, with sizes below 2³¹. The constructor with a size is a `setSize` and a
`clearBits` after `init`. -/
def Built : Prop :=
  ∃ lowerBits, Reachable (step calculateBitBlockCount) Op.Small (init lowerBits) s

end

/-! ## The servers -/

namespace Server

def calculateBitBlockCount (size : ℕ) : ℕ := if size < 32 then 1 else wrap32 (size + 32 - 1) / 32

def setSize : (ℕ → BitVec (8 * 4)) → ℕ → BitStore 4 → BitStore 4 :=
  setSizeWith calculateBitBlockCount

def clearBits : BitStore 4 → BitStore 4 := clearBitsWith calculateBitBlockCount

variable (s : BitStore 4)

def getBitNonAtomic (bitIndex : ℕ) : Bool :=
  if bitIndex ≥ s.numBits then false
  else
    let index := bitIndex / 32
    let indexInBitBlock := bitIndex % 32
    let mask := 1#(8 * 4) <<< indexInBitBlock
    if index = 0 then s.lowerBits &&& mask ≠ 0 else s.higherBits.getD (index - 1) 0 &&& mask ≠ 0

/-- `limb_type` is a `uint32_t`. -/
def limb : Format (BitVec (8 * 4)) := .int 4 BitVec.toNat (BitVec.ofNat _)

def serialize (ser : Serializer) : Serializer :=
  let ser := ser.putUInt32 s.numBits
  let ser := ser.putUInt32 0
  let ser := limb.put s.lowerBits ser
  let blockCount := calculateBitBlockCount s.numBits
  let ser := Format.putAll limb.put ((List.range (blockCount - 1)).map (s.higherBits.getD · 0)) ser
  if blockCount % 2 = 1 then ser.putUInt32 0 else ser

def getLimbs : ℕ → Deserializer → List (BitVec (8 * 4)) × Deserializer
  | 0, des => ([], des)
  | n + 1, des =>
    let (x, des) := limb.get des
    let (limbs, des) := getLimbs n des
    (x :: limbs, des)

/-- The array and the padding, after the size is set. -/
def deserializeHigher (des : Deserializer) : BitStore 4 × Deserializer :=
  let blockCount := calculateBitBlockCount s.numBits
  let (limbs, des) := getLimbs (blockCount - 1) des
  let s := { s with higherBits := limbs ++ s.higherBits.drop limbs.length }
  (s, if blockCount % 2 = 1 then des.getUInt32.2 else des)

def deserialize (fresh : ℕ → BitVec (8 * 4)) (s : BitStore 4) (des : Deserializer) :
    BitStore 4 × Deserializer :=
  let (numBits, des) := des.getUInt32
  let (_, des) := des.getUInt32
  let (lowerBits, des) := limb.get des
  deserializeHigher (setSize fresh numBits { s with lowerBits }) des

end Server

/-! ## The client -/

/-- The size of an `unsigned long`. -/
inductive Arch
  | bits32
  | bits64
  deriving DecidableEq

/-- `BITSTORE_BLOCK_SIZE` -/
def Arch.blockSize : Arch → ℕ
  | bits32 => 4
  | bits64 => 8

namespace Client
open ClientSerialization

/-- `BITSTORE_BLOCK_BIT_COUNT` -/
def blockBitCount (arch : Arch) : ℕ := 8 * arch.blockSize

variable (arch : Arch)

def calculateBitBlockCount (size : ℕ) : ℕ :=
  if size ≤ blockBitCount arch then 1
  else
    let retVal := size / blockBitCount arch
    if size % blockBitCount arch ≠ 0 then retVal + 1 else retVal

def setSize : (ℕ → BitVec (8 * arch.blockSize)) → ℕ → BitStore arch.blockSize →
    BitStore arch.blockSize :=
  setSizeWith (calculateBitBlockCount arch)

def clearBits : BitStore arch.blockSize → BitStore arch.blockSize :=
  clearBitsWith (calculateBitBlockCount arch)

section
variable (ctx : SerializeCtx) (s : BitStore arch.blockSize)

def getBit (bitIndex : ℕ) : Bool :=
  if bitIndex ≥ s.numBits then false
  else
    let index := bitIndex / blockBitCount arch
    let indexInBitBlock := bitIndex % blockBitCount arch
    if index = 0 then s.lowerBits.getLsbD indexInBitBlock
    else (s.higherBits.getD (index - 1) 0).getLsbD indexInBitBlock

/-- `Serialization_serializeUInt64` or `Serialization_serializeUInt` -/
def serializeBits (block : BitVec (8 * arch.blockSize)) : SerializeCtx :=
  serializeBlock ctx (LittleEndian.bytes arch.blockSize block.toNat)

def serialize : SerializeCtx :=
  let blockCount := calculateBitBlockCount arch s.numBits
  let ctx := serializeUInt ctx s.numBits
  let ctx := serializeUInt ctx 0
  let ctx := serializeBits arch ctx s.lowerBits
  let ctx := ((List.range (blockCount - 1)).map (s.higherBits.getD · 0)).foldl
    (serializeBits arch) ctx
  if arch = .bits32 ∧ blockCount % 2 = 1 then serializeUInt ctx 0 else ctx

end

variable (mem : List UInt8)

/-- Where the bit store starts. -/
def deserializePreprocess (ctx : DeserializeCtx) : Option ℕ × DeserializeCtx :=
  let outBitStoreStart := ctx.data
  andThen (deserializeUInt mem ctx) fun tmpSize ctx =>
    andThen (deserializeUInt mem ctx) fun _ ctx =>
      let blockCount := calculateBitBlockCount arch tmpSize
      let blockCount := if arch = .bits32 ∧ blockCount % 2 = 1 then blockCount + 1 else blockCount
      -- the product is an `unsigned`
      let blocksLen := wrap32 (arch.blockSize * blockCount)
      if blocksLen > ctx.length then (none, ctx)
      else (some outBitStoreStart, ctx.advance blocksLen)

/-- A block that cannot be read keeps its value. -/
def deserializeBits (old : BitVec (8 * arch.blockSize)) (ctx : DeserializeCtx) :
    BitVec (8 * arch.blockSize) × DeserializeCtx :=
  let (value, ctx) := deserializeRaw mem arch.blockSize ctx
  ((value.map (BitVec.ofNat _)).getD old, ctx)

def deserializeBlocks : List (BitVec (8 * arch.blockSize)) → DeserializeCtx →
    List (BitVec (8 * arch.blockSize)) × DeserializeCtx
  | [], ctx => ([], ctx)
  | old :: rest, ctx =>
    let (block, ctx) := deserializeBits arch mem old ctx
    let (blocks, ctx) := deserializeBlocks rest ctx
    (block :: blocks, ctx)

/-- The array and the padding. -/
def deserializeHigher (s : BitStore arch.blockSize) (ctx : DeserializeCtx) :
    BitStore arch.blockSize × DeserializeCtx :=
  let blockCount := calculateBitBlockCount arch s.numBits
  let (blocks, ctx) := deserializeBlocks arch mem (s.higherBits.take (blockCount - 1)) ctx
  let s := { s with higherBits := blocks ++ s.higherBits.drop (blockCount - 1) }
  (s, if arch = .bits32 ∧ blockCount % 2 = 1 then (deserializeUInt mem ctx).2 else ctx)

def deserialize (fresh : ℕ → BitVec (8 * arch.blockSize)) (s : BitStore arch.blockSize)
    (ctx : DeserializeCtx) : BitStore arch.blockSize × DeserializeCtx :=
  let (bitCount, ctx) := deserializeUInt mem ctx
  let (_, ctx) := deserializeUInt mem ctx
  let s := setSize arch fresh (bitCount.getD 0) s
  let (lowerBits, ctx) := deserializeBits arch mem s.lowerBits ctx
  deserializeHigher arch mem { s with lowerBits } ctx

end Client
end BitStore
end Congfs
