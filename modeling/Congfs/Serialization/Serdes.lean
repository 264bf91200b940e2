import Congfs.Lib.FlatFile

/-!
# The serializer and the deserializer of the servers

Both walk over a buffer. The offset is an `unsigned` and goes on counting after an error; an error
is kept as a buffer size of 0. A serializer without a buffer only counts, which is how the size of a
message is found out.

The deserializer remembers which bytes of the buffer it has looked at.
-/

namespace Congfs

/-- `unsigned` and `uint32_t`. -/
def wrap32 (n : ℕ) : ℕ := n % 4294967296

/-- The difference of two `unsigned`. -/
def sub32 (a b : ℕ) : ℕ := (UInt32.ofNat a - UInt32.ofNat b).toNat

structure Serializer where
  /-- `none` for a dry run. -/
  buffer : Option (List UInt8)
  bufferSize : ℕ
  bufferOffset : ℕ

namespace Serializer

def dryRun : Serializer := ⟨none, 4294967295, 0⟩

def ofBuffer (buffer : List UInt8) : Serializer := ⟨some buffer, buffer.length, 0⟩

variable (ser : Serializer)

def size : ℕ := ser.bufferOffset

def good : Bool := ser.bufferSize ≠ 0 ∧ ser.bufferOffset ≤ ser.bufferSize

def putBlock (source : List UInt8) : Serializer :=
  match ser.buffer with
  | some buffer =>
    if ser.bufferOffset + source.length ≤ ser.bufferSize then
      { ser with
        buffer := some (FlatFile.overwrite 0 buffer ser.bufferOffset source)
        bufferOffset := wrap32 (ser.bufferOffset + source.length) }
    else { ser with bufferSize := 0, bufferOffset := wrap32 (ser.bufferOffset + source.length) }
  | none => { ser with bufferSize := 0, bufferOffset := wrap32 (ser.bufferOffset + source.length) }

end Serializer

structure Deserializer where
  buffer : List UInt8
  bufferSize : ℕ
  bufferOffset : ℕ
  /-- The positions of the buffer whose bytes were looked at. -/
  inspected : List ℕ

namespace Deserializer

def ofBuffer (buffer : List UInt8) : Deserializer := ⟨buffer, buffer.length, 0, []⟩

variable (des : Deserializer)

def size : ℕ := des.bufferOffset

def good : Bool := des.bufferSize ≠ 0 ∧ des.bufferOffset ≤ des.bufferSize

def setBad : Deserializer := { des with bufferSize := 0 }

/-- Looks at the bytes from `start` on. -/
def inspect (start length : ℕ) : List UInt8 × Deserializer :=
  (FlatFile.slice des.buffer start length,
    { des with inspected := des.inspected ++ (List.range length).map (start + ·) })

def skip (length : ℕ) : Deserializer :=
  let des := if des.bufferOffset + length > des.bufferSize then des.setBad else des
  { des with bufferOffset := wrap32 (des.bufferOffset + length) }

/-- The destination keeps its zeros if the block is not there. -/
def getBlock (length : ℕ) : List UInt8 × Deserializer :=
  if des.bufferOffset + length ≤ des.bufferSize then
    let (bytes, des) := des.inspect des.bufferOffset length
    (bytes, { des with bufferOffset := wrap32 (des.bufferOffset + length) })
  else
    (List.replicate length 0,
      { des.setBad with bufferOffset := wrap32 (des.bufferOffset + length) })

end Deserializer
end Congfs
