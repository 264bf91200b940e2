import Congfs.Events.FileEventLog
import Congfs.Serialization.Collections

/-!
# The listener understands the packets

`Takes get v bytes` says that a part of the parser takes `bytes` from what was received and gives
`v`. An integer is only taken if something follows it; this is never wanted for the last field of a
packet, which is a string and ends with a zero that belongs to no integer.
-/

namespace Congfs.Events
open Serialization LittleEndian FileEventReceiver FileEventData Events.Reader Writes
open List (cons_ne_nil length_append)

/-! ## The layout of a packet -/

/-- What is sent of a string, as its size is passed on as an `unsigned`. -/
def truncate (str : List UInt8) : List UInt8 := str.take (wrap32 str.length)

theorem length_truncate : (truncate str).length = wrap32 str.length := by
  rw [truncate, List.length_take]
  exact Nat.min_eq_left (Nat.mod_le _ _)

theorem truncate_eq_self_iff : truncate str = str ↔ str.length < 4294967296 := by
  constructor
  · intro h
    rw [← h, length_truncate]
    exact wrap32_lt
  · intro h
    rw [truncate, wrap32_of_lt h, List.take_length]

theorem put_truncate : (Format.string 1).put (truncate str) = (Format.string 1).put str := by
  have hlen : wrap32 (truncate str).length = wrap32 str.length := by
    rw [length_truncate, wrap32_of_lt wrap32_lt]
  have htake : (truncate str).take (wrap32 str.length) = str.take (wrap32 str.length) := by
    rw [truncate, List.take_take, min_self]
  simp only [Format.string, hlen, htake]

def FileEventData.strings (obj : FileEventData) : List (List UInt8) :=
  [obj.entryId, obj.parentId, obj.path, obj.targetPath, obj.targetParentId]

def FileEventData.truncated (obj : FileEventData) : FileEventData :=
  { obj with
    entryId := truncate obj.entryId
    parentId := truncate obj.parentId
    path := truncate obj.path
    targetPath := truncate obj.targetPath
    targetParentId := truncate obj.targetParentId }

section

variable (obj : FileEventLogItem)

def FileEventLogItem.truncated : FileEventLogItem :=
  { obj with event := obj.event.truncated }

theorem serialize_truncated : obj.truncated.serialize = obj.serialize := by
  have hevent : obj.event.truncated.serialize = obj.event.serialize := by
    funext ctx
    simp only [serialize, truncated, put_truncate]
  funext ctx
  simp only [FileEventLogItem.serialize, FileEventLogItem.putBody,
    FileEventLogItem.truncated, hevent]

def FileEventLogItem.packetSize : ℕ :=
  28 + (obj.event.strings.map fun str => 4 + wrap32 str.length + 1).sum

def FileEventData.encode (obj : FileEventData) : List UInt8 :=
  bytes 4 obj.type.toNat ++ (encodeString 1 obj.entryId ++ (encodeString 1 obj.parentId ++
    (encodeString 1 obj.path ++ (encodeString 1 obj.targetPath ++ encodeString 1
    obj.targetParentId))))

def FileEventLogItem.encodeBody : List UInt8 :=
  bytes 8 obj.droppedEventsSeq.toNat ++ (bytes 8 obj.missedEventsSeq.toNat ++ obj.event.encode)

def encodeVersion : List UInt8 := bytes 2 1 ++ bytes 2 0

def FileEventLogItem.encode : List UInt8 :=
  encodeVersion ++ (bytes 4 (8 + obj.encodeBody.length) ++ obj.encodeBody)

end

theorem length_encodeString_one : (encodeString 1 str).length = 4 + str.length + 1 := by
  rw [length_encodeString, padLen, if_neg (by simp [Nat.mod_one])]

theorem writes_event (obj : FileEventData) (hlen : obj.encode.length < 4294967296) :
    Writes obj.serialize obj.encode := by
  simp only [encode, length_append] at hlen
  have hstring (str : List UInt8) (h : (encodeString 1 str).length < 4294967296) :=
    @writes_string 1 (by decide) str h
  have htarget := (hstring obj.targetPath (by omega)).comp (hstring obj.targetParentId (by omega))
  have hids := (hstring obj.entryId (by omega)).comp ((hstring obj.parentId (by omega)).comp
    ((hstring obj.path (by omega)).comp htarget))
  exact (putBlock (bytes 4 obj.type.toNat)).comp hids

theorem writes_version : Writes FileEventLogItem.putVersion encodeVersion :=
  (putBlock (bytes 2 1)).comp (putBlock (bytes 2 0))

section
variable (obj : FileEventLogItem)
include obj

theorem length_encode : obj.encode.length = 8 + obj.encodeBody.length := by
  simp only [FileEventLogItem.encode, encodeVersion, length_append, length_bytes]
  omega

theorem length_encode_truncated : obj.truncated.encode.length = obj.packetSize := by
  rw [length_encode]
  simp only [FileEventLogItem.truncated, FileEventLogItem.encodeBody, encode,
    truncated, length_append, length_bytes, length_encodeString_one,
    length_truncate, FileEventLogItem.packetSize, strings, List.map_cons, List.map_nil,
    List.sum_cons, List.sum_nil]
  omega

/-! ## Writing -/

theorem writes_body (hlen : obj.encodeBody.length < 4294967296) :
    Writes obj.putBody (bytes 4 0 ++ obj.encodeBody) := by
  simp only [FileEventLogItem.encodeBody, length_append] at hlen
  exact (putBlock (bytes 4 0)).comp ((putBlock (bytes 8 obj.droppedEventsSeq.toNat)).comp
      ((putBlock (bytes 8 obj.missedEventsSeq.toNat)).comp (writes_event obj.event (by omega))))

/-- The size counts from the start of the packet, though it is written behind the version. -/
theorem writes_serialize (hlen : obj.encode.length < 4294967296) :
    Writes obj.serialize obj.encode := by
  rw [length_encode] at hlen
  have hall : (encodeVersion ++ (bytes 4 0 ++ obj.encodeBody)).length =
      8 + obj.encodeBody.length := by
    simp only [encodeVersion, length_append, length_bytes]
    omega
  have hsize : Writes (Format.uint32.put (UInt32.ofNat (wrap32
      (encodeVersion ++ (bytes 4 0 ++ obj.encodeBody)).length)))
      (bytes 4 (8 + obj.encodeBody.length)) := by
    have hnat : (UInt32.ofNat (8 + obj.encodeBody.length)).toNat = 8 + obj.encodeBody.length :=
      UInt32.toNat_ofNat_of_lt' hlen
    have hput : Writes (Format.uint32.put (UInt32.ofNat (8 + obj.encodeBody.length)))
        (bytes 4 (UInt32.ofNat (8 + obj.encodeBody.length)).toNat) := putBlock _
    rw [hnat] at hput
    rw [hall, wrap32_of_lt hlen]
    exact hput
  exact @patchedBehind _ _ (fun n => Format.uint32.put (UInt32.ofNat n)) _ _ _ _ writes_version
    (writes_body obj (by omega)) hsize (by simp only [length_bytes])

/-- With enough room the packet is written, up to what is cut off from the strings. -/
theorem packet_eq (hroom : obj.packetSize ≤ buffer.length) (hbuf : buffer.length < 4294967296) :
    obj.packet buffer = obj.truncated.encode := by
  have hlen := length_encode_truncated obj
  have hwet := (writes_serialize obj.truncated (by omega)).wet buffer 0 (by omega) hbuf
  rw [serialize_truncated, zero_add] at hwet
  have hser : obj.serialize (.ofBuffer buffer) = _ := hwet
  have htake := @FlatFile.take_overwrite _ 0 buffer obj.truncated.encode 0 (Nat.zero_le _)
  rw [zero_add, List.take_zero, List.nil_append] at htake
  simp only [FileEventLogItem.packet, hser, Serializer.size, Option.getD_some, htake]

end

/-! ## Parsing -/

section
variable {α β : Type} {get : Parse α} {get' : α → Parse β} {v : α} {w : β}
    {bytes bytes' : List UInt8}

theorem bind_eq : (get >>= get') r = ExceptT.bindCont get' (get r).1 (get r).2 := rfl

theorem bind_eq_of_ok (h : get r = (.ok v, r')) : (get >>= get') r = get' v r' := by
  rw [bind_eq, h]
  rfl

/-- If something satisfying `Behind` follows them. -/
def TakesBefore (Behind : List UInt8 → Prop) (get : Parse α) (v : α) (bytes : List UInt8) : Prop :=
  ∀ data before after inspected, data = before ++ bytes ++ after → Behind after → ∃ inspected',
    get ⟨data, before.length, data.length, inspected⟩ =
      (.ok v, ⟨data, before.length + bytes.length, data.length, inspected'⟩)

def Takes : Parse α → α → List UInt8 → Prop := TakesBefore fun _ => True

theorem TakesBefore.bind {Behind : List UInt8 → Prop} (h : TakesBefore Behind get v bytes)
    (h' : Takes (get' v) w bytes') (hbehind : ∀ after, Behind (bytes' ++ after)) :
    Takes (get >>= get') w (bytes ++ bytes') := by
  intro data before after inspected hdata _
  obtain ⟨inspected1, h1⟩ := h data before (bytes' ++ after) inspected (by simp [hdata])
    (hbehind after)
  obtain ⟨inspected2, h2⟩ := h' data (before ++ bytes) after inspected1 (by simp [hdata]) trivial
  rw [length_append] at h2
  refine ⟨inspected2, ?_⟩
  rw [bind_eq_of_ok h1, h2, length_append, add_assoc]

theorem Takes.pure (v : α) : Takes (Pure.pure v) v [] := by
  intro data before after inspected _ _
  exact ⟨inspected, rfl⟩

theorem Takes.bind (h : Takes get v bytes) (h' : Takes (get' v) w bytes') :
    Takes (get >>= get') w (bytes ++ bytes') :=
  TakesBefore.bind h h' fun _ => trivial

theorem Takes.map (h : Takes get v bytes) (f : α → β) :
    Takes (get >>= fun a => Pure.pure (f a)) (f v) bytes := by
  have hbind := @Takes.bind α β get (fun a => Pure.pure (f a)) v (f v) bytes [] h (Takes.pure (f v))
  rwa [List.append_nil] at hbind

end

/-- The end of the buffer may not be reached. -/
theorem takes_readInt {α : Type} {width n : ℕ} {ofNat : ℕ → α} (hn : n < Nat.pow 256 width) :
    TakesBefore (· ≠ []) (readInt width ofNat) (ofNat n) (bytes width n) := by
  intro data before after inspected hdata hafter
  have hlen := congrArg List.length hdata
  simp only [length_append, length_bytes] at hlen
  have hpos := List.length_pos_of_ne_nil hafter
  have hslice : FlatFile.slice data before.length width = bytes width n :=
    FlatFile.slice_middle hdata rfl (length_bytes ..)
  have hraw : readRaw width ⟨data, before.length, data.length, inspected⟩ =
      (.ok (bytes width n), ⟨data, before.length + width, data.length,
        inspected ++ (List.range width).map (before.length + ·)⟩) := by
    rw [readRaw, if_neg (by simp only; omega)]
    simp only [take, hslice]
  refine ⟨inspected ++ (List.range width).map (before.length + ·), ?_⟩
  rw [readInt, bind_eq_of_ok hraw, value_bytes_of_lt hn, length_bytes]
  rfl

theorem takes_readChars (hstr : str.length < 4294967295) :
    Takes (readChars (UInt32.ofNat str.length)) str (str ++ [0]) := by
  intro data before after inspected hdata _
  have hlen := congrArg List.length hdata
  simp only [length_append, List.length_singleton] at hlen
  have hnat : (UInt32.ofNat str.length).toNat = str.length := UInt32.toNat_ofNat_of_lt'
    (by change str.length < 4294967296; omega)
  have hnext : (UInt32.ofNat str.length + 1).toNat = str.length + 1 := by
    rw [UInt32.toNat_add, hnat]
    exact Nat.mod_eq_of_lt (by change str.length + 1 < 4294967296; omega)
  have hslice : FlatFile.slice data before.length str.length = str :=
    FlatFile.slice_middle (c := [0] ++ after) (by simp [hdata]) rfl rfl
  refine ⟨inspected ++ (List.range str.length).map (before.length + ·), ?_⟩
  rw [readChars, if_neg (by simp only [hnat]; omega)]
  simp only [take, hnat, hnext, hslice, length_append, List.length_singleton]

/-- The zero behind a string is what the length of an empty one is followed by. -/
theorem takes_readString (hstr : str.length < 4294967295) :
    Takes readString str (encodeString 1 str) := by
  have hint : TakesBefore (· ≠ []) readUInt32 (UInt32.ofNat str.length) (bytes 4 str.length) :=
    takes_readInt (show str.length < 4294967296 by omega)
  have hpad : padLen 1 (4 + str.length + 1) = 0 := if_neg (by simp [Nat.mod_one])
  have h := hint.bind (takes_readChars hstr) fun after => by simp
  rw [encodeString, hpad, List.replicate_zero, List.append_nil, List.append_assoc]
  exact h

/-- What the listener should understand of an item. -/
def FileEventLogItem.received (obj : FileEventLogItem) (size : UInt32) : Packet where
  formatVersionMajor := FileEventLogItem.formatVersionMajor
  formatVersionMinor := FileEventLogItem.formatVersionMinor
  size := size
  droppedSeq := obj.droppedEventsSeq
  missedSeq := obj.missedEventsSeq
  type := obj.event.type
  path := obj.event.path
  entryId := obj.event.entryId
  parentEntryId := obj.event.parentId
  targetPath := obj.event.targetPath
  targetParentId := obj.event.targetParentId

theorem takes_readUInt16 (v : UInt16) : TakesBefore (· ≠ []) readUInt16 v (bytes 2 v.toNat) := by
  have h := @takes_readInt UInt16 2 v.toNat UInt16.ofNat v.toNat_lt
  rwa [UInt16.ofNat_toNat] at h

theorem takes_readUInt32 (v : UInt32) : TakesBefore (· ≠ []) readUInt32 v (bytes 4 v.toNat) := by
  have h := @takes_readInt UInt32 4 v.toNat UInt32.ofNat v.toNat_lt
  rwa [UInt32.ofNat_toNat] at h

theorem takes_readUInt64 : TakesBefore (· ≠ []) readUInt64 v (bytes 8 v.toNat) := by
  have h := @takes_readInt UInt64 8 v.toNat UInt64.ofNat v.toNat_lt
  rwa [UInt64.ofNat_toNat] at h

section
variable {obj : FileEventLogItem}

theorem takes_string_of_mem (hlen : obj.encodeBody.length < 4294967296)
    (h : str ∈ obj.event.strings) : Takes readString str (encodeString 1 str) := by
  have hle : (encodeString 1 str).length ≤ obj.encodeBody.length := by
    simp only [strings, List.mem_cons, List.not_mem_nil, or_false] at h
    simp only [FileEventLogItem.encodeBody, encode, length_append]
    rcases h with rfl | rfl | rfl | rfl | rfl <;> omega
  rw [length_encodeString_one] at hle
  exact takes_readString (by omega)

def Packet.header (size : UInt32) : Packet :=
  { Packet.empty with
    formatVersionMajor := FileEventLogItem.formatVersionMajor
    formatVersionMinor := FileEventLogItem.formatVersionMinor
    size := size }

theorem takes_readEvent (hlen : obj.encodeBody.length < 4294967296) (size : UInt32) :
    Takes (readEvent (.header size)) (obj.received size) obj.encodeBody := by
  have hstring (str : List UInt8) (h : str ∈ obj.event.strings) := takes_string_of_mem hlen h
  refine takes_readUInt64.bind ?_ fun _ => cons_ne_nil _ _
  refine takes_readUInt64.bind ?_ fun _ => cons_ne_nil _ _
  refine (takes_readUInt32 obj.event.type).bind ?_ fun _ => cons_ne_nil _ _
  refine (hstring obj.event.entryId (by simp [strings])).bind ?_
  refine (hstring obj.event.parentId (by simp [strings])).bind ?_
  refine (hstring obj.event.path (by simp [strings])).bind ?_
  refine (hstring obj.event.targetPath (by simp [strings])).bind ?_
  exact (hstring obj.event.targetParentId (by simp [strings])).map _

theorem takes_readFields (hn : obj.encode.length = n) (hlen : n < 4294967296) :
    Takes (readFields n) (.success, obj.received (UInt32.ofNat n)) obj.encode := by
  have hnat : (UInt32.ofNat n).toNat = n := UInt32.toNat_ofNat_of_lt' hlen
  have hbody : 8 + obj.encodeBody.length = n := (length_encode obj).symm.trans hn
  have hsize := takes_readUInt32 (UInt32.ofNat n)
  rw [hnat] at hsize
  rw [FileEventLogItem.encode, encodeVersion, List.append_assoc, hbody]
  refine (takes_readUInt16 FileEventLogItem.formatVersionMajor).bind ?_ fun _ => cons_ne_nil _ _
  refine (takes_readUInt16 FileEventLogItem.formatVersionMinor).bind ?_ fun _ => cons_ne_nil _ _
  refine hsize.bind ?_ fun _ => cons_ne_nil _ _
  rw [if_neg (by rw [hnat]; exact not_not_intro rfl)]
  exact (takes_readEvent (by omega) _).map _

theorem readPacket_encode (hlen : obj.encode.length < 4294967296) :
    (readPacket (.received obj.encode)).1 =
      .ok (.success, obj.received (UInt32.ofNat obj.encode.length)) := by
  have hpos := length_encode obj
  obtain ⟨inspected, h⟩ := takes_readFields rfl hlen obj.encode [] [] [] (by simp) trivial
  have hcheck : ¬(Recv.bytesRead (.received obj.encode) % 18446744073709551616).toNat <
      headerSize := by
    simp only [Recv.bytesRead, headerSize]
    omega
  rw [readPacket, if_neg hcheck]
  exact congrArg Prod.fst h

end

/-! ## Nothing else is looked at -/

/-- The reader of the received bytes has looked at no other ones. -/
structure Contained (bytes : List UInt8) (r : Reader) : Prop where
  data : r.data = bytes
  bufEnd : r.bufEnd = bytes.length
  inspected : ∀ i ∈ r.inspected, i < bytes.length

/-- Whether it throws or not. -/
def Keeps {α : Type} (bytes : List UInt8) (get : Parse α) : Prop :=
  ∀ r, Contained bytes r → Contained bytes (get r).2

section
variable {α β : Type} {bytes : List UInt8}

theorem Contained.take (h : Contained bytes r) (hlen : r.position + length ≤ bytes.length)
    (step : ℕ) :
    Contained bytes (r.take length step).2 where
  data := h.data
  bufEnd := h.bufEnd
  inspected i hi := by
    rcases List.mem_append.mp hi with hold | hnew
    · exact h.inspected i hold
    · obtain ⟨k, hk, rfl⟩ := List.mem_map.mp hnew
      have hlt := List.mem_range.mp hk
      omega

theorem Keeps.pure (v : α) : Keeps bytes (Pure.pure v) := fun _ h => h

theorem Keeps.bind {get : Parse α} {get' : α → Parse β} (h : Keeps bytes get)
    (h' : ∀ v, Keeps bytes (get' v)) : Keeps bytes (get >>= get') := by
  intro r hr
  have hget := h r hr
  rw [bind_eq]
  cases hres : (get r).1 with
  | error e => exact hget
  | ok v => exact h' v _ hget

theorem Keeps.ite {p : Prop} [Decidable p] {get get' : Parse α} (h : Keeps bytes get)
    (h' : Keeps bytes get') : Keeps bytes (if p then get else get') := by
  split
  · exact h
  · exact h'

theorem keeps_readRaw : Keeps bytes (readRaw width) := by
  intro r h
  rw [readRaw]
  split_ifs with hlt
  · exact h
  · rw [h.bufEnd] at hlt
    exact h.take (by omega) width

theorem keeps_readInt (width : ℕ) (ofNat : ℕ → α) : Keeps bytes (readInt width ofNat) :=
  keeps_readRaw.bind fun _ => Keeps.pure _

theorem keeps_readChars (len : UInt32) : Keeps bytes (readChars len) := by
  intro r h
  rw [readChars]
  split_ifs with hle
  · exact h
  · rw [h.bufEnd] at hle
    exact h.take (by omega) _

theorem keeps_readString : Keeps bytes readString :=
  (keeps_readInt 4 _).bind keeps_readChars

theorem keeps_readEvent (res : Packet) : Keeps bytes (readEvent res) := by
  refine (keeps_readInt 8 _).bind fun _ => ?_
  refine (keeps_readInt 8 _).bind fun _ => ?_
  refine (keeps_readInt 4 _).bind fun _ => ?_
  refine keeps_readString.bind fun _ => ?_
  refine keeps_readString.bind fun _ => ?_
  refine keeps_readString.bind fun _ => ?_
  refine keeps_readString.bind fun _ => ?_
  exact keeps_readString.bind fun _ => Keeps.pure _

theorem keeps_readFields : Keeps bytes (readFields bytesRead) := by
  refine (keeps_readInt 2 _).bind fun _ => ?_
  refine (keeps_readInt 2 _).bind fun _ => ?_
  refine (Keeps.pure _).ite ?_
  refine (keeps_readInt 4 _).bind fun _ => ?_
  exact (Keeps.pure _).ite ((keeps_readEvent _).bind fun _ => Keeps.pure _)

end

open FileEventReceiver in
/-- Of a failed `recv` there is nothing to look at: the reader ends before it starts. -/
theorem inspected_lt : ∀ i ∈ (readPacket recv).2.inspected, i < recv.data.length := by
  cases recv with
  | failed => exact fun i hi => absurd hi (List.not_mem_nil)
  | received bytes =>
    have hstart : Contained bytes (.ofData bytes bytes.length) := ⟨rfl, rfl, List.forall_mem_nil _⟩
    rw [readPacket]
    split
    · exact hstart.inspected
    · exact (keeps_readFields _ hstart).inspected

/-! ## What the listener understands -/

/-- What the listener understands is what was sent of the strings. -/
theorem received_truncated_eq_iff {obj : FileEventLogItem} {size : UInt32} :
    (∃ size', obj.truncated.received size = obj.received size') ↔
      ∀ str ∈ obj.event.strings, str.length < 4294967296 := by
  simp only [strings, List.forall_mem_cons, ← truncate_eq_self_iff]
  constructor
  · rintro ⟨size', h⟩
    obtain ⟨-, -, -, -, -, -, hpath, hentry, hparent, htarget, htargetParent⟩ := Packet.mk.inj h
    exact ⟨hentry, hparent, hpath, htarget, htargetParent, List.forall_mem_nil _⟩
  · rintro ⟨hentry, hparent, hpath, htarget, htargetParent, -⟩
    refine ⟨size, ?_⟩
    simp only [FileEventLogItem.received, FileEventLogItem.truncated, truncated, hentry,
      hparent, hpath, htarget, htargetParent]

section
variable (obj : FileEventLogItem) {buffer : List UInt8} (hroom : obj.packetSize ≤ buffer.length)
  (hbuf : buffer.length < 4294967296) (hsize : (obj.packet buffer).length ≤ 65536)
include hroom hbuf hsize

theorem readPacket_packet :
    (readPacket (.ofMessage (obj.packet buffer))).1 =
      .ok (.success, obj.truncated.received (UInt32.ofNat obj.packetSize)) := by
  have hlen := length_encode_truncated obj
  have hread := @readPacket_encode obj.truncated (by omega)
  rw [Recv.ofMessage, List.take_of_length_le hsize, packet_eq obj hroom hbuf, hread, hlen]

/-- A file event is understood unless a string has 2³² bytes or more and is cut off, and of what was
received nothing else is looked at. Only a failed `recv` is not told apart: its −1 is no less than
the size of the header. -/
theorem readPacket_understands_iff (recv : Recv) :
    ((∃ size, (readPacket (.ofMessage (obj.packet buffer))).1 =
          .ok (.success, obj.received size)) ∧
        (∀ i ∈ (readPacket recv).2.inspected, i < recv.data.length) ∧
        (recv = .failed → ∃ res, (readPacket recv).1 = .ok (.readFailed, res))) ↔
      (∀ str ∈ obj.event.strings, str.length < 4294967296) ∧ recv ≠ .failed := by
  have hread := readPacket_packet obj hroom hbuf hsize
  rw [← @received_truncated_eq_iff obj (UInt32.ofNat obj.packetSize), hread]
  constructor
  · rintro ⟨⟨size, hok⟩, -, hfailed⟩
    refine ⟨⟨size, congrArg Prod.snd (Except.ok.inj hok)⟩, ?_⟩
    rintro rfl
    obtain ⟨res, hres⟩ := hfailed rfl
    cases hres
  · rintro ⟨⟨size, heq⟩, hrecv⟩
    exact ⟨⟨size, by rw [heq]⟩, inspected_lt, fun h => absurd h hrecv⟩

end

def createdItem : FileEventLogItem where
  droppedEventsSeq := 0
  missedEventsSeq := 3
  event := { type := 4, entryId := [48], parentId := [49, 50], path := [47, 102], targetPath := [],
             targetParentId := [] }

theorem readPacket_understands_created : (∃ size, (readPacket
        (.ofMessage (createdItem.packet (List.replicate 64 0)))).1 =
          .ok (.success, createdItem.received size)) ∧
      (∀ i ∈ (readPacket (.received [1, 0, 0, 0, 9, 0, 0, 0, 7])).2.inspected, i < 9) ∧
      (Recv.received [1, 0, 0, 0, 9, 0, 0, 0, 7] = .failed →
        ∃ res, (readPacket (.received [1, 0, 0, 0, 9, 0, 0, 0, 7])).1 =
          .ok (.readFailed, res)) :=
  (readPacket_understands_iff createdItem (by decide) (by decide) (by decide +kernel)
    (.received [1, 0, 0, 0, 9, 0, 0, 0, 7])).mpr ⟨by decide, fun h => by cases h⟩

theorem readPacket_failed_throws : (readPacket .failed).1 = .error "Read past buffer end" ∧
      ¬∃ res, (readPacket .failed).1 = .ok (.readFailed, res) := by
  refine ⟨rfl, ?_⟩
  rintro ⟨res, h⟩
  cases h

end Congfs.Events
