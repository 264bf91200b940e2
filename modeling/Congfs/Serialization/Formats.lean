import Congfs.Lib.LittleEndian
import Congfs.Lib.StdMap
import Congfs.Serialization.Serdes

/-!
# The formats of the servers

The overloads of `operator%`: integers, strings, pairs and tuples, lists, sets, maps, and
collections of strings, which have a format of their own.
-/

namespace Congfs

open LittleEndian

/-- The two directions of `operator%` for a type. -/
structure Format (α : Type) where
  put : α → Serializer → Serializer
  get : Deserializer → α × Deserializer

namespace Serializer

/-- Zeros, in blocks of at most eight bytes. -/
def skip (ser : Serializer) (size : ℕ) : Serializer :=
  if _h : 0 < size then
    skip (ser.putBlock (List.replicate (min size 8) 0)) (size - min size 8)
  else ser
termination_by size

def putUInt32 (ser : Serializer) (n : ℕ) : Serializer := ser.putBlock (bytes 4 n)

/-- Writes with a serializer that was marked before, which has the same buffer. -/
def writeAt (ser atStart : Serializer) (write : Serializer → Serializer) : Serializer :=
  { ser with buffer := (write { atStart with buffer := ser.buffer }).buffer }

/-- The destructor of `PadFieldTo`. -/
def padFieldTo (ser : Serializer) (offsetAtStart padding : ℕ) : Serializer :=
  let rangeSize := sub32 ser.size offsetAtStart
  if rangeSize % padding ≠ 0 then ser.skip (padding - rangeSize % padding) else ser

end Serializer

namespace Deserializer

def getUInt32 (des : Deserializer) : ℕ × Deserializer :=
  let (bytes, des) := des.getBlock 4
  (value bytes, des)

def padFieldTo (des : Deserializer) (offsetAtStart padding : ℕ) : Deserializer :=
  let rangeSize := sub32 des.size offsetAtStart
  if rangeSize % padding ≠ 0 then des.skip (padding - rangeSize % padding) else des

/-- `RawStringDes`: where a string is, and how long it is. -/
def getRawString (align : ℕ) (des : Deserializer) : (ℕ × ℕ) × Deserializer :=
  let offsetAtStart := des.size
  let (length, des) := des.getUInt32
  if ¬des.good then ((0, 0), des.padFieldTo offsetAtStart align)
  else
    let start := des.bufferOffset
    -- the sum is a `uint32_t`
    let des := des.skip (wrap32 (length + 1))
    if ¬des.good then ((start, length), des.padFieldTo offsetAtStart align)
    else
      let (terminator, des) := des.inspect (start + length) 1
      let des := if terminator ≠ [0] then des.setBad else des
      ((start, length), des.padFieldTo offsetAtStart align)

end Deserializer

namespace Format

/-- Integers of a number of bytes. -/
def int {α : Type} (width : ℕ) (toNat : α → ℕ) (ofNat : ℕ → α) : Format α where
  put v ser := ser.putBlock (bytes width (toNat v))
  get des :=
    let (bytes, des) := des.getBlock width
    (ofNat (value bytes), des)

def bool : Format Bool := int 1 (fun b => if b then 1 else 0) fun n => n ≠ 0

/-- Also for `char`. -/
def uint8 : Format UInt8 := int 1 UInt8.toNat UInt8.ofNat

def uint16 : Format UInt16 := int 2 UInt16.toNat UInt16.ofNat

def uint32 : Format UInt32 := int 4 UInt32.toNat UInt32.ofNat

def uint64 : Format UInt64 := int 8 UInt64.toNat UInt64.ofNat

def int16 : Format Int16 := int 2 (fun v => v.toUInt16.toNat) fun n => (UInt16.ofNat n).toInt16

def int32 : Format Int32 := int 4 (fun v => v.toUInt32.toNat) fun n => (UInt32.ofNat n).toInt32

def int64 : Format Int64 := int 8 (fun v => v.toUInt64.toNat) fun n => (UInt64.ofNat n).toInt64

/-- `RawStringSer` and `StdString`. The size of a string is passed on as an `unsigned`. -/
def string (align : ℕ) : Format (List UInt8) where
  put str ser :=
    let offsetAtStart := ser.size
    let size := wrap32 str.length
    let ser := ser.putUInt32 size
    let ser := ser.putBlock (str.take size)
    let ser := ser.putBlock [0]
    ser.padFieldTo offsetAtStart align
  get des :=
    let ((start, length), des) := des.getRawString align
    if des.good then des.inspect start length else ([], des)

def pair {α β : Type} (first : Format α) (second : Format β) : Format (α × β) where
  put v ser := second.put v.2 (first.put v.1 ser)
  get des :=
    let (a, des) := first.get des
    let (b, des) := second.get des
    ((a, b), des)

/-- The end of the recursion over the elements of a tuple. -/
def emptyTuple : Format Unit where
  put _ ser := ser
  get des := ((), des)

/-- Elements one after the other. -/
def putAll {α : Type} (put : α → Serializer → Serializer) : List α → Serializer → Serializer
  | [], ser => ser
  | v :: l, ser => putAll put l (put v ser)

def putCollection {α : Type} (hasLength : Bool) (put : α → Serializer → Serializer) (l : List α)
    (ser : Serializer) : Serializer :=
  let atStart := ser
  let ser := if hasLength then ser.putUInt32 0 else ser
  let ser := ser.putUInt32 0
  let ser := putAll put l ser
  let totalLen := sub32 ser.bufferOffset atStart.bufferOffset
  ser.writeAt atStart fun atStart =>
    (if hasLength then atStart.putUInt32 totalLen else atStart).putUInt32 l.length

variable {γ : Type}

/-- The end of `getCollection` and `getMap`. -/
def checkTotalLen (hasLength : Bool) (totalLen offsetAtStart : ℕ)
    (result : γ × Deserializer) : γ × Deserializer :=
  let (value, des) := result
  if ¬des.good then (value, des)
  else if hasLength ∧ totalLen ≠ sub32 des.bufferOffset offsetAtStart then (value, des.setBad)
  else (value, des)

def getItems {α γ : Type} (get : Deserializer → α × Deserializer) (insert : γ → α → γ) :
    ℕ → γ → Deserializer → γ × Deserializer
  | 0, value, des => (value, des)
  | size + 1, value, des =>
    let (item, des) := get des
    if ¬des.good then (value, des) else getItems get insert size (insert value item) des

/-- The length of everything, which some collections start with. -/
def getTotalLen (hasLength : Bool) (des : Deserializer) : ℕ × Deserializer :=
  if hasLength then des.getUInt32 else (0, des)

/-- `getCollection` and `getMap` are the same up to their loops. -/
def getSized (hasLength : Bool) (loop : ℕ → Deserializer → γ × Deserializer) (empty : γ)
    (des : Deserializer) : γ × Deserializer :=
  let offsetAtStart := des.bufferOffset
  let (totalLen, des) := getTotalLen hasLength des
  let (size, des) := des.getUInt32
  if ¬des.good then (empty, des)
  else checkTotalLen hasLength totalLen offsetAtStart (loop size des)

def getCollection {α γ : Type} (hasLength : Bool) (get : Deserializer → α × Deserializer)
    (empty : γ) (insert : γ → α → γ) : Deserializer → γ × Deserializer :=
  getSized hasLength (fun size => getItems get insert size empty) empty

/-- `std::list` and `std::vector`. Whether there is a length depends on the type of the elements. -/
def list {α : Type} (hasLength : Bool) (elem : Format α) : Format (List α) where
  put := putCollection hasLength elem.put
  get := getCollection hasLength elem.get [] fun value item => value ++ [item]

section
variable {α β : Type} {lt : α → α → Prop} [DecidableRel lt] [IsStrictOrder α lt]

def set (hasLength : Bool) (elem : Format α) : Format (StdSet lt) where
  put s := putCollection hasLength elem.put s.toList
  get := getCollection hasLength elem.get ∅ fun value item => value.insert item

/-- The value is stored also if it could not be read, as it is read into its place in the map. -/
def getEntries (key : Deserializer → α × Deserializer) (mapped : Deserializer → β × Deserializer) :
    ℕ → StdMap β lt → Deserializer → StdMap β lt × Deserializer
  | 0, value, des => (value, des)
  | size + 1, value, des =>
    let (k, des) := key des
    if ¬des.good then (value, des)
    else
      let (v, des) := mapped des
      let value := value.assign k v
      if ¬des.good then (value, des) else getEntries key mapped size value des

def getMap (hasLength : Bool) (key : Deserializer → α × Deserializer)
    (mapped : Deserializer → β × Deserializer) : Deserializer → StdMap β lt × Deserializer :=
  getSized hasLength (fun size => getEntries key mapped size ∅) ∅

def map (hasLength : Bool) (key : Format α) (mapped : Format β) : Format (StdMap β lt) where
  put m := putCollection hasLength (key.pair mapped).put m.toList
  get := getMap hasLength key.get mapped.get

end

/-! ## Collections of strings -/

def putCString (str : List UInt8) (ser : Serializer) : Serializer :=
  (ser.putBlock str).putBlock [0]

/-- It is the same as for other elements, with the strings up to a zero. -/
def serializeStringCollection (l : List (List UInt8)) (ser : Serializer) : Serializer :=
  let atStart := ser
  let sizeAtStart := ser.size
  let ser := (ser.putUInt32 0).putUInt32 0
  let ser := putAll putCString l ser
  let totalLen := sub32 ser.size sizeAtStart
  ser.writeAt atStart fun atStart => (atStart.putUInt32 totalLen).putUInt32 l.length

variable (empty : γ) (insert : γ → List UInt8 → γ) (des : Deserializer)

/-- The string at a position, up to the next zero, which is looked at as well. -/
def getCString (start : ℕ) : List UInt8 × Deserializer :=
  let item := (des.buffer.drop start).takeWhile (· ≠ 0)
  (item, (des.inspect start (item.length + 1)).2)

def getCStrings {γ : Type} (insert : γ → List UInt8 → γ) :
    ℕ → ℕ → ℕ → γ → Deserializer → γ × Deserializer
  | 0, lengthRemaining, _, value, des =>
    (value, if lengthRemaining > 0 then des.setBad else des)
  | size + 1, lengthRemaining, rawStringArray, value, des =>
    if lengthRemaining > 0 then
      let (item, des) := getCString des rawStringArray
      getCStrings insert size (sub32 lengthRemaining (item.length + 1))
        (rawStringArray + (item.length + 1)) (insert value item) des
    else (value, des.setBad)

/-- What follows the two fields of `deserializeStringCollection`. -/
def getRawStrings (size lengthRemaining : ℕ) (des : Deserializer) : γ × Deserializer :=
  let rawStringArray := des.bufferOffset
  if lengthRemaining = 0 then getCStrings insert size 0 rawStringArray empty des
  else
    let des := des.skip lengthRemaining
    if ¬des.good then (empty, des)
    else
      let (last, des) := des.inspect (rawStringArray + (lengthRemaining - 1)) 1
      if last ≠ [0] then (empty, des.setBad)
      else getCStrings insert size lengthRemaining rawStringArray empty des

def deserializeStringCollection : γ × Deserializer :=
  let sizeAtStart := des.size
  let (totalLen, des) := des.getUInt32
  let (size, des) := des.getUInt32
  if ¬des.good then (empty, des)
  else
    let lengthRemaining := sub32 totalLen (sub32 des.size sizeAtStart)
    getRawStrings empty insert size lengthRemaining des

def stringList : Format (List (List UInt8)) where
  put := serializeStringCollection
  get := deserializeStringCollection [] fun value item => value ++ [item]

def stringSet {lt : List UInt8 → List UInt8 → Prop} [DecidableRel lt]
    [IsStrictOrder (List UInt8) lt] : Format (StdSet lt) where
  put s := serializeStringCollection s.toList
  get := deserializeStringCollection ∅ fun value item => value.insert item

end Format

/-! ## Writing and reading one after the other -/

namespace Writer

variable {α : Type}

/-- `ser % v` -/
def write (fmt : Format α) (v : α) : StateM Serializer Unit := modify (fmt.put v)

def writeIf (p : Prop) [Decidable p] (fmt : Format α) (v : α) : StateM Serializer Unit :=
  if p then write fmt v else pure ()

def skip (size : ℕ) : StateM Serializer Unit := modify (·.skip size)

end Writer

namespace Reader

variable {α : Type}

/-- `des % v` -/
def read (fmt : Format α) : StateM Deserializer α := fmt.get

def readIf (p : Prop) [Decidable p] (fmt : Format α) (v : α) : StateM Deserializer α :=
  if p then read fmt else pure v

def skip (length : ℕ) : StateM Deserializer Unit := modify (·.skip length)

/-- `if (!des.good() ) return v;` -/
def returnIfBad (v : α) (next : StateM Deserializer α) : StateM Deserializer α := do
  if (← get).good then next else return v

/-- `des.setBad(); return v;` -/
def fail (v : α) : StateM Deserializer α := do
  modify Deserializer.setBad
  return v

end Reader
end Congfs
