import Congfs.Lib.LittleEndian
import Congfs.Serialization.Serdes

/-!
# The deserialization of the client

The kernel module has its own functions. They work on a position in the message and the number of
bytes from there on, which is a `size_t`, and check the lengths themselves. What stands behind the
message is the memory of somebody else.
-/

namespace Congfs.ClientSerialization

/-- The difference of two `size_t`. -/
def sub64 (a b : ℕ) : ℕ := if b ≤ a then a - b else a + 18446744073709551616 - b

structure SerializeCtx where
  /-- `none` to find out the length. -/
  data : Option (List UInt8)
  length : ℕ

structure DeserializeCtx where
  data : ℕ
  length : ℕ
  /-- The positions whose bytes were read. -/
  inspected : List ℕ

structure RawList where
  data : ℕ
  length : ℕ
  elemCount : ℕ

/-! ## Writing -/

section

variable (ctx : SerializeCtx)

def serializeBlock (value : List UInt8) : SerializeCtx :=
  ⟨ctx.data.map (FlatFile.overwrite 0 · ctx.length value), wrap32 (ctx.length + value.length)⟩

def serializeUInt (value : ℕ) : SerializeCtx :=
  serializeBlock ctx (LittleEndian.bytes 4 value)

def serializeChar (value : UInt8) : SerializeCtx := serializeBlock ctx [value]

def serializeStrAlign4 (str : List UInt8) : SerializeCtx :=
  let ctx := serializeUInt ctx str.length
  let ctx := serializeBlock ctx str
  let ctx := serializeChar ctx 0
  if (str.length + 1) % 4 ≠ 0 then
    serializeBlock ctx (List.replicate (4 - (str.length + 1) % 4) 0)
  else ctx

end

/-! ## Reading -/

variable (mem : List UInt8)

def load (start size : ℕ) : List UInt8 := (List.range size).map fun i => mem.getD (start + i) 0

variable (ctx : DeserializeCtx)

def DeserializeCtx.inspect (start size : ℕ) : List UInt8 × DeserializeCtx :=
  (load mem start size,
    { ctx with inspected := ctx.inspected ++ (List.range size).map (start + ·) })

def DeserializeCtx.advance (size : ℕ) : DeserializeCtx :=
  { ctx with data := ctx.data + size, length := sub64 ctx.length size }

/-- `if(!result) return false;` -/
def andThen {α β : Type} (result : Option α × DeserializeCtx)
    (next : α → DeserializeCtx → Option β × DeserializeCtx) : Option β × DeserializeCtx :=
  match result with
  | (none, ctx) => (none, ctx)
  | (some v, ctx) => next v ctx

def deserializeRaw (size : ℕ) (ctx : DeserializeCtx) : Option ℕ × DeserializeCtx :=
  if size ≤ ctx.length then
    let (bytes, ctx) := ctx.inspect mem ctx.data size
    (some (LittleEndian.value bytes), ctx.advance size)
  else (none, ctx)

def deserializeChar : DeserializeCtx → Option ℕ × DeserializeCtx := deserializeRaw mem 1

def deserializeUShort : DeserializeCtx → Option ℕ × DeserializeCtx := deserializeRaw mem 2

def deserializeUInt : DeserializeCtx → Option ℕ × DeserializeCtx := deserializeRaw mem 4

/-- The length of a string and where it starts. The sum with the terminating zero is an
`unsigned`. -/
def deserializeStr : Option (ℕ × ℕ) × DeserializeCtx :=
  andThen (deserializeUInt mem ctx) fun strLen ctx =>
    if ctx.length < wrap32 (strLen + 1) then (none, ctx)
    else
      let (terminator, ctx) := ctx.inspect mem (ctx.data + strLen) 1
      if terminator ≠ [0] then (none, ctx)
      else (some (strLen, ctx.data), ctx.advance (wrap32 (strLen + 1)))

/-- The padding is 4 - `padding` bytes, but `padding` bytes are asked for. -/
def deserializeStrAlign4 : Option (ℕ × ℕ) × DeserializeCtx :=
  let bufAtStart := ctx.data
  andThen (deserializeStr mem ctx) fun str ctx =>
    let padding := (ctx.data - bufAtStart) % 4
    if padding ≠ 0 then
      if ctx.length < padding then (none, ctx) else (some str, ctx.advance (4 - padding))
    else (some str, ctx)

/-! ### Network interfaces -/

structure NicAddress where
  ipAddr : List UInt8
  name : List UInt8
  nicType : List UInt8

/-- `SERIALIZATION_NICLISTELEM_SIZE` -/
def nicListElemSize : ℕ := 24

/-- `SERIALIZATION_NICLISTELEM_NAME_SIZE`, which is also the size of the name of an interface. -/
def nicListElemNameSize : ℕ := 16

def deserializeNicListPreprocess : Option RawList × DeserializeCtx :=
  andThen (deserializeUInt mem ctx) fun elemCount ctx =>
    let outList : RawList := ⟨ctx.data, wrap32 (elemCount * nicListElemSize), elemCount⟩
    if ctx.length < outList.length then (none, ctx) else (some outList, ctx.advance outList.length)

/-- The three bytes behind the type are padding. -/
def deserializeNics : ℕ → ℕ → DeserializeCtx → List NicAddress × DeserializeCtx
  | 0, _, ctx => ([], ctx)
  | elemCount + 1, pos, ctx =>
    let (ipAddr, ctx) := ctx.inspect mem pos 4
    let (name, ctx) := ctx.inspect mem (pos + 4) nicListElemNameSize
    let (nicType, ctx) := ctx.inspect mem (pos + 4 + nicListElemNameSize) 1
    let (nics, ctx) := deserializeNics elemCount (pos + nicListElemSize) ctx
    (⟨ipAddr, name.set (nicListElemNameSize - 1) 0, nicType⟩ :: nics, ctx)

variable (inList : RawList) (ctx : DeserializeCtx)

def deserializeNicList : List NicAddress × DeserializeCtx :=
  deserializeNics mem inList.elemCount inList.data ctx

/-! ### Nodes -/

/-- The body of the loop: name, interfaces, number, the two ports and the type. -/
def deserializeNode : Option ℕ × DeserializeCtx :=
  andThen (deserializeStr mem ctx) fun _ ctx =>
    andThen (deserializeNicListPreprocess mem ctx) fun _ ctx =>
      andThen (deserializeUInt mem ctx) fun _ ctx =>
        andThen (deserializeUShort mem ctx) fun _ ctx =>
          andThen (deserializeUShort mem ctx) fun _ ctx => deserializeChar mem ctx

def deserializeNodes : ℕ → DeserializeCtx → Option Unit × DeserializeCtx
  | 0, ctx => (some (), ctx)
  | elemCount + 1, ctx => andThen (deserializeNode mem ctx) fun _ ctx =>
    deserializeNodes elemCount ctx

/-- The length of the raw list is not set. -/
def deserializeNodeListPreprocess : Option (ℕ × ℕ) × DeserializeCtx :=
  andThen (deserializeUInt mem ctx) fun elemCount ctx =>
    let start := ctx.data
    andThen (deserializeNodes mem elemCount ctx) fun _ ctx => (some (start, elemCount), ctx)

/-! ### Nested fields -/

/-- `__Serialization_deserializeNestedField`: the field is a part of the message of its own. -/
def deserializeNestedField : Option DeserializeCtx × DeserializeCtx :=
  andThen (deserializeUInt mem ctx) fun length ctx =>
    let length := sub32 length 4
    if ctx.length < length then (none, ctx)
    else (some { ctx with length := length }, ctx.advance length)

/-- A field with a count in front, and a check of what follows it. -/
def deserializeCounted (check : ℕ → DeserializeCtx → Bool × DeserializeCtx) (ctx : DeserializeCtx) :
    Option RawList × DeserializeCtx :=
  andThen (deserializeNestedField mem ctx) fun outCtx ctx =>
    match deserializeUInt mem outCtx with
    | (none, outCtx) => (none, { ctx with inspected := outCtx.inspected })
    | (some elemCount, outCtx) =>
      let (ok, outCtx) := check elemCount outCtx
      (if ok then some ⟨outCtx.data, outCtx.length, elemCount⟩ else none,
        { ctx with inspected := outCtx.inspected })

variable (elemCount : ℕ) (outCtx : DeserializeCtx)

/-- If there is a string, the field ends in a zero. The last byte of an empty field is that of the
count. -/
def checkStrCpyList : Bool × DeserializeCtx :=
  if elemCount ≠ 0 then
    let (last, outCtx) := outCtx.inspect mem (outCtx.data + outCtx.length - 1) 1
    (last = [0], outCtx)
  else (true, outCtx)

def deserializeStrCpyListPreprocess : DeserializeCtx → Option RawList × DeserializeCtx :=
  deserializeCounted mem (checkStrCpyList mem)

def strlen (start : ℕ) : ℕ := ((mem.drop start).takeWhile (· ≠ 0)).length

def deserializeStrs : ℕ → ℕ → ℕ → DeserializeCtx → Option (List (List UInt8)) × DeserializeCtx
  | 0, _, _, ctx => (some [], ctx)
  | elemCount + 1, listStart, listBufLen, ctx =>
    if listBufLen > 0 then
      let elemLen := strlen mem listStart
      let (str, ctx) := ctx.inspect mem listStart (elemLen + 1)
      let (strs, ctx) := deserializeStrs elemCount (listStart + (elemLen + 1))
        (sub32 listBufLen (elemLen + 1)) ctx
      (strs.map (str.dropLast :: ·), ctx)
    else (none, ctx)

def deserializeStrCpyList : Option (List (List UInt8)) × DeserializeCtx :=
  deserializeStrs mem inList.elemCount inList.data inList.length ctx

def checkUInt16List : Bool × DeserializeCtx :=
  (outCtx.length = wrap32 (elemCount * 2), outCtx)

def deserializeUInt16ListPreprocess : DeserializeCtx → Option RawList × DeserializeCtx :=
  deserializeCounted mem checkUInt16List

def deserializeUShorts : ℕ → DeserializeCtx → Option (List ℕ) × DeserializeCtx
  | 0, ctx => (some [], ctx)
  | elemCount + 1, ctx =>
    andThen (deserializeUShort mem ctx) fun value ctx =>
      andThen (deserializeUShorts elemCount ctx) fun values ctx => (some (value :: values), ctx)

/-- The list is read with a context of its own. -/
def deserializeUInt16List : Option (List ℕ) × DeserializeCtx :=
  let (values, listCtx) :=
    deserializeUShorts mem inList.elemCount
      { ctx with data := inList.data, length := inList.length }
  (values, { ctx with inspected := listCtx.inspected })

end Congfs.ClientSerialization
