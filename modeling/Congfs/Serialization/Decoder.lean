import Congfs.Serialization.Formats

/-!
# What is decoded with the operators

A program that decodes something with the operators of the deserializer, and may look at what it has
decoded and whether everything went well so far. Pairs and tuples are two operators in a row.
-/

namespace Congfs

inductive Decoder : Type → Type 1
  | pure {α : Type} (v : α) : Decoder α
  | bind {α β : Type} (first : Decoder α) (next : α → Decoder β) : Decoder β
  | ifGood {α : Type} (yes no : Decoder α) : Decoder α
  | setBad : Decoder Unit
  /-- A number of `width` bytes. -/
  | int {α : Type} (width : ℕ) (ofNat : ℕ → α) : Decoder α
  | string (align : ℕ) : Decoder (List UInt8)
  | rawString (align : ℕ) : Decoder (ℕ × ℕ)
  /-- A block of bytes, of which only the position is taken. -/
  | rawBlock (size : ℕ) : Decoder ℕ
  | collection {α γ : Type} (hasLength : Bool) (elem : Decoder α) (empty : γ) (insert : γ → α → γ) :
    Decoder γ
  | map {α β : Type} (lt : α → α → Prop) [DecidableRel lt] [IsStrictOrder α lt] (hasLength : Bool)
    (key : Decoder α) (mapped : Decoder β) : Decoder (StdMap β lt)
  | stringCollection {γ : Type} (empty : γ) (insert : γ → List UInt8 → γ) : Decoder γ

namespace Decoder

def run : {α : Type} → Decoder α → Deserializer → α × Deserializer
  | _, pure v, des => (v, des)
  | _, bind first next, des =>
    let (v, des) := first.run des
    (next v).run des
  | _, ifGood yes no, des => if des.good then yes.run des else no.run des
  | _, setBad, des => ((), des.setBad)
  | _, int width ofNat, des =>
    let (bytes, des) := des.getBlock width
    (ofNat (LittleEndian.value bytes), des)
  | _, string align, des => (Format.string align).get des
  | _, rawString align, des => des.getRawString align
  | _, rawBlock size, des => (des.bufferOffset, des.skip size)
  | _, collection hasLength elem empty insert, des =>
    Format.getCollection hasLength elem.run empty insert des
  | _, map _ hasLength key mapped, des => Format.getMap hasLength key.run mapped.run des
  | _, stringCollection empty insert, des => Format.deserializeStringCollection empty insert des

/-! ## The longest string

`Overlong` says that an operator for strings is reached where the next length field is 2³² - 1. -/

def stringOverlong (des : Deserializer) : Prop :=
  des.bufferOffset + 4 ≤ des.bufferSize ∧
    LittleEndian.value (FlatFile.slice des.buffer des.bufferOffset 4) = 4294967295

def itemsOverlong {α : Type} (get : Deserializer → α × Deserializer)
    (overlong : Deserializer → Prop) : ℕ → Deserializer → Prop
  | 0, _ => False
  | size + 1, des =>
    overlong des ∨ (get des).2.good ∧ itemsOverlong get overlong size (get des).2

def entriesOverlong {α β : Type} (key : Deserializer → α × Deserializer)
    (mapped : Deserializer → β × Deserializer) (overlong overlong' : Deserializer → Prop) :
    ℕ → Deserializer → Prop
  | 0, _ => False
  | size + 1, des =>
    overlong des ∨ (key des).2.good ∧ (overlong' (key des).2 ∨ (mapped (key des).2).2.good ∧
        entriesOverlong key mapped overlong overlong' size (mapped (key des).2).2)

/-- Behind the fields a collection starts with. -/
def sizedOverlong (hasLength : Bool) (loop : ℕ → Deserializer → Prop) (des : Deserializer) : Prop :=
  let (size, des) := (Format.getTotalLen hasLength des).2.getUInt32
  des.good ∧ loop size des

def Overlong : {α : Type} → Decoder α → Deserializer → Prop
  | _, pure _, _ => False
  | _, bind first next, des =>
    first.Overlong des ∨ (next (first.run des).1).Overlong (first.run des).2
  | _, ifGood yes no, des => if des.good then yes.Overlong des else no.Overlong des
  | _, setBad, _ => False
  | _, int _ _, _ => False
  | _, string _, des => stringOverlong des
  | _, rawString _, des => stringOverlong des
  | _, rawBlock _, _ => False
  | _, collection hasLength elem _ _, des =>
    sizedOverlong hasLength (itemsOverlong elem.run elem.Overlong) des
  | _, map _ hasLength key mapped, des =>
    sizedOverlong hasLength (entriesOverlong key.run mapped.run key.Overlong mapped.Overlong) des
  | _, stringCollection _ _, _ => False

end Decoder
end Congfs
