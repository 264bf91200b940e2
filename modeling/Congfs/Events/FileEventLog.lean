import Congfs.Serialization.Formats
import Mathlib.Algebra.GroupWithZero.Nat

/-!
# File events

The metadata server sends a packet for each file event to a listener, over a socket that keeps the
packets apart. The listener has its own parser, which shares no code with the server and throws when
it comes to the end of what was received.

Both are on a little-endian host with 64-bit addresses, so that a length of 32 bits never takes a
pointer around the end of the memory.
-/

namespace Congfs.Events

open Format

/-! ## The server -/

structure FileEventData where
  /-- The number of a `FileEventType`, which comes from a client and may be any. -/
  type : UInt32
  entryId : List UInt8
  parentId : List UInt8
  path : List UInt8
  targetPath : List UInt8
  targetParentId : List UInt8

structure FileEventLogItem where
  droppedEventsSeq : UInt64
  missedEventsSeq : UInt64
  event : FileEventData

def FileEventLogItem.formatVersionMajor : UInt16 := 1
def FileEventLogItem.formatVersionMinor : UInt16 := 0

def FileEventData.serialize (obj : FileEventData) (ctx : Serializer) : Serializer :=
  let ctx := uint32.put obj.type ctx
  let ctx := (string 1).put obj.entryId ctx
  let ctx := (string 1).put obj.parentId ctx
  let ctx := (string 1).put obj.path ctx
  let ctx := (string 1).put obj.targetPath ctx
  (string 1).put obj.targetParentId ctx

def FileEventLogItem.putVersion (ctx : Serializer) : Serializer :=
  uint16.put formatVersionMinor (uint16.put formatVersionMajor ctx)

variable (obj : FileEventLogItem)

/-- The size, for which there are zeros at first, and what follows it. -/
def FileEventLogItem.putBody (ctx : Serializer) : Serializer :=
  let ctx := uint32.put 0 ctx
  let ctx := uint64.put obj.droppedEventsSeq ctx
  let ctx := uint64.put obj.missedEventsSeq ctx
  obj.event.serialize ctx

def FileEventLogItem.serialize (ctx : Serializer) : Serializer :=
  let startOffset := ctx.size
  let sizeMarker := putVersion ctx
  let ctx := obj.putBody sizeMarker
  ctx.writeAt sizeMarker (uint32.put (UInt32.ofNat (sub32 ctx.size startOffset)))

/-- What is sent: as much of the buffer as was written. -/
def FileEventLogItem.packet (buffer : List UInt8) : List UInt8 :=
  let ser := obj.serialize (.ofBuffer buffer)
  (ser.buffer.getD []).take ser.size

/-! ## The listener -/

structure Packet where
  formatVersionMajor : UInt16
  formatVersionMinor : UInt16
  size : UInt32
  droppedSeq : UInt64
  missedSeq : UInt64
  type : UInt32
  path : List UInt8
  entryId : List UInt8
  parentEntryId : List UInt8
  targetPath : List UInt8
  targetParentId : List UInt8
  deriving DecidableEq

/-- `{}` -/
def Packet.empty : Packet := ⟨0, 0, 0, 0, 0, 0, [], [], [], [], []⟩

structure Reader where
  data : List UInt8
  /-- How far the pointer is behind the first of them. -/
  position : ℕ
  /-- Where they end according to the size the reader was made with, which may be negative. -/
  bufEnd : ℤ
  /-- The positions whose bytes were looked at. -/
  inspected : List ℕ

/-- The exception is a `std::out_of_range`. -/
abbrev Parse (α : Type) : Type := ExceptT String (StateM Reader) α

namespace Reader

def ofData (data : List UInt8) (size : ℤ) : Reader := ⟨data, 0, size, []⟩

/-- Looks at the next `length` bytes and moves on by `step`. -/
def take (r : Reader) (length step : ℕ) : List UInt8 × Reader :=
  (FlatFile.slice r.data r.position length, { r with
      position := r.position + step
      inspected := r.inspected ++ (List.range length).map (r.position + ·) })

/-- Also throws if the value would end with the buffer. -/
def readRaw (width : ℕ) : Parse (List UInt8) := fun r =>
  if r.position + width ≥ r.bufEnd then (.error "Read past buffer end", r)
  else (.ok (r.take width width).1, (r.take width width).2)

def readInt {α : Type} (width : ℕ) (ofNat : ℕ → α) : Parse α :=
  return ofNat (LittleEndian.value (← readRaw width))

def readUInt16 : Parse UInt16 := readInt 2 UInt16.ofNat
def readUInt32 : Parse UInt32 := readInt 4 UInt32.ofNat
def readUInt64 : Parse UInt64 := readInt 8 UInt64.ofNat

/-- A string of a known length; the sum is a `uint32_t`. -/
def readChars (len : UInt32) : Parse (List UInt8) := fun r =>
  if r.position + len.toNat > r.bufEnd then (.error "Read past buffer end", r)
  else (.ok (r.take len.toNat (len + 1).toNat).1, (r.take len.toNat (len + 1).toNat).2)

def readString : Parse (List UInt8) := do
  readChars (← readUInt32)

end Reader

inductive ReadErrorCode
  | success
  | readFailed
  | versionMismatch
  | invalidSize
  deriving DecidableEq

inductive Recv
  | failed
  | received (bytes : List UInt8)
  deriving DecidableEq

namespace Recv

/-- A message is cut off at the end of the buffer. -/
def ofMessage (message : List UInt8) : Recv := .received (message.take 65536)

def bytesRead : Recv → ℤ
  | failed => -1
  | received bytes => bytes.length

def data : Recv → List UInt8
  | failed => []
  | received bytes => bytes

end Recv

namespace FileEventReceiver

def readEvent (res : Packet) : Parse Packet := do
  let droppedSeq ← Reader.readUInt64
  let missedSeq ← Reader.readUInt64
  let type ← Reader.readUInt32
  let entryId ← Reader.readString
  let parentEntryId ← Reader.readString
  let path ← Reader.readString
  let targetPath ← Reader.readString
  let targetParentId ← Reader.readString
  return { res with
    droppedSeq, missedSeq, type, entryId, parentEntryId, path, targetPath, targetParentId }

def readFields (bytesRead : ℤ) : Parse (ReadErrorCode × Packet) := do
  let formatVersionMajor ← Reader.readUInt16
  let formatVersionMinor ← Reader.readUInt16
  if formatVersionMajor ≠ 1 ∨ formatVersionMinor < 0 then
    return (.versionMismatch, .empty)
  else
    let size ← Reader.readUInt32
    if (size.toNat : ℤ) ≠ bytesRead then
      return (.invalidSize, .empty)
    else
      let res ← readEvent { Packet.empty with formatVersionMajor, formatVersionMinor, size }
      return (.success, res)

def headerSize : ℕ := 2 + 2 + 4

/-- What it returns or throws, and what its reader has looked at. -/
def readPacket (recv : Recv) : Except String (ReadErrorCode × Packet) × Reader :=
  let reader := Reader.ofData recv.data recv.bytesRead
  -- `headerSize` is a `size_t`, so the `ssize_t` it is compared with is taken for one as well
  if (recv.bytesRead % 18446744073709551616).toNat < headerSize then
    (.ok (.readFailed, .empty), reader)
  else readFields recv.bytesRead reader

end FileEventReceiver
end Congfs.Events
