import Congfs.Lib.WordList
import Congfs.Serialization.ClientStrings
import Congfs.Toolkit.BitStore

/-!
# Bits keep their places on the wire

The blocks of a store are one number, and its bits are the bits of the store. On the wire stand the
bytes of this number, filled up with zeros to 64-bit blocks; whatever blocks the receiver reads them
as, it gets the same number.
-/

namespace Congfs.BitStore
open Serialization LittleEndian
open List (append_nil length_append length_cons length_drop length_replicate length_take
  take_append_drop)

variable {w w' : ℕ} {count count' : ℕ → ℕ} {s r : BitStore w}

/-! ## Stores that were built -/

def BlockSize (w : ℕ) : Prop := w = 4 ∨ w = 8

/-- The block count is what the number of bits needs, but at least one. -/
def RoundsUp (w : ℕ) (count : ℕ → ℕ) : Prop :=
  ∀ n ≤ 2147483648, count n = max 1 ((n + (8 * w - 1)) / (8 * w))

theorem Server.roundsUp : RoundsUp 4 Server.calculateBitBlockCount := by
  intro n hn
  rw [Server.calculateBitBlockCount]
  split
  · omega
  · rw [wrap32_of_lt (by omega)]
    omega

theorem Arch.blockSize_cases (arch : Arch) : BlockSize arch.blockSize := by
  cases arch with
  | bits32 => exact .inl rfl
  | bits64 => exact .inr rfl

theorem Arch.eq_bits32_iff (arch : Arch) : arch = .bits32 ↔ arch.blockSize = 4 := by
  cases arch <;> decide

theorem Client.roundsUp (arch : Arch) :
    RoundsUp arch.blockSize (Client.calculateBitBlockCount arch) := by
  intro n hn
  cases arch with
  | bits32 =>
    change (if n ≤ 32 then 1 else if n % 32 ≠ 0 then n / 32 + 1 else n / 32) = max 1 ((n + 31) / 32)
    split
    · omega
    · split <;> omega
  | bits64 =>
    change (if n ≤ 64 then 1 else if n % 64 ≠ 0 then n / 64 + 1 else n / 64) = max 1 ((n + 63) / 64)
    split
    · omega
    · split <;> omega

/-- The array has one block less than the number of bits says. -/
structure Valid (s : BitStore w) : Prop where
  numBits : s.numBits = 8 * w * (1 + s.higherBits.length)
  small : s.numBits ≤ 2147483648

theorem Valid.count_eq (h : Valid s) (hw : BlockSize w) (hcount : RoundsUp w count) :
    count s.numBits = 1 + s.higherBits.length := by
  have hnum := h.numBits
  rw [hcount _ h.small, hnum]
  rcases hw with rfl | rfl <;> omega

/-- What `setSize` leaves behind, whether the array was there or is new. -/
theorem setSize_spec (h : Valid s) (hw : BlockSize w) (hcount : RoundsUp w count)
    (hn : n ≤ 2147483648) :
    Valid (s.setSizeWith count fresh n) ∧
      1 + (s.setSizeWith count fresh n).higherBits.length = count n ∧
      (s.setSizeWith count fresh n).lowerBits = s.lowerBits := by
  have hold := h.count_eq hw hcount
  have hnew := hcount n hn
  rw [setSizeWith]
  split
  · have hbits : count n * (8 * w) ≤ 2147483648 := by
      rcases hw with rfl | rfl <;> omega
    have hlen : 1 + ((List.range (count n - 1)).map fresh).length = count n := by
      rw [List.length_map, List.length_range]
      omega
    refine ⟨⟨?_, ?_⟩, hlen, rfl⟩
    · simp only [hlen]
      rw [wrap32_of_lt (by omega), Nat.mul_comm]
    · rwa [wrap32_of_lt (by omega)]
  · exact ⟨h, by omega, rfl⟩

theorem Valid.step (h : Valid s) (hw : BlockSize w) (hcount : RoundsUp w count) (hop : op.Small) :
    Valid (s.step count op) := by
  cases op with
  | setSize fresh newSize => exact (setSize_spec h hw hcount (Nat.le_of_lt hop)).1
  | clearBits =>
    have hlen : (s.clearBitsWith count).higherBits.length = s.higherBits.length := by
      rw [clearBitsWith, h.count_eq hw hcount]
      split_ifs with hnil
      · rw [length_replicate]
        omega
      · rw [not_not] at hnil
        rw [hnil]
    exact ⟨hlen ▸ h.numBits, h.small⟩
  | setBit bitIndex isSet =>
    change Valid (s.setBit bitIndex isSet)
    simp only [setBit]
    split
    · exact h
    · split
      · exact ⟨h.numBits, h.small⟩
      · refine ⟨?_, h.small⟩
        simp only [List.length_modify]
        exact h.numBits

theorem Built.valid (h : Built count s) (hw : BlockSize w) (hcount : RoundsUp w count) :
    Valid s := by
  obtain ⟨lowerBits, hreach⟩ := h
  refine hreach.inv ?_ fun t op hop ht => ht.step hw hcount hop
  refine ⟨(Nat.mul_one _).symm, ?_⟩
  change 8 * w ≤ 2147483648
  rcases hw with rfl | rfl <;> decide

/-! ## A store is a number -/

def blocks (s : BitStore w) : List (BitVec (8 * w)) := s.lowerBits :: s.higherBits

def number (s : BitStore w) : ℕ := value (ofWords w s.blocks)

theorem Valid.length_blocks (h : Valid s) : s.numBits = 8 * w * s.blocks.length := by
  rw [h.numBits, blocks, length_cons, Nat.add_comm]

theorem BlockSize.pos (hw : BlockSize w) : 0 < w := by
  rcases hw with rfl | rfl <;> decide

theorem Valid.testBit_number (h : Valid s) (hw : BlockSize w) :
    s.number.testBit i = if i ≥ s.numBits then false
      else if i / (8 * w) = 0 then s.lowerBits.getLsbD (i % (8 * w))
      else (s.higherBits.getD (i / (8 * w) - 1) 0).getLsbD (i % (8 * w)) := by
  have hpos := hw.pos
  rw [number, testBit_value_ofWords hpos]
  split
  · rename_i hi
    rw [h.length_blocks] at hi
    have hlen : s.blocks.length ≤ i / (8 * w) := (Nat.le_div_iff_mul_le (by omega)).mpr (by
      rw [Nat.mul_comm]
      exact hi)
    rw [List.getD_eq_default _ _ hlen]
    simp
  · split_ifs with hc
    · rw [hc]
      rfl
    · obtain ⟨k, hk⟩ := Nat.exists_eq_succ_of_ne_zero hc
      rw [hk]
      rfl

theorem and_mask_ne_zero (hk : k < n) : decide (x &&& 1#n <<< k ≠ 0) = x.getLsbD k := by
  have hpow : 1#n <<< k = BitVec.twoPow n k := rfl
  have hne : BitVec.twoPow n k ≠ 0 := by
    intro hzero
    have hbit := congrArg (BitVec.getLsbD · k) hzero
    simp [hk] at hbit
  rw [hpow, BitVec.and_twoPow]
  cases hx : x.getLsbD k with
  | false => simp
  | true => simpa using hne

theorem Server.getBit_eq {s : BitStore 4} (h : Valid s) (i : ℕ) :
    Server.getBitNonAtomic s i = s.number.testBit i := by
  have hlt : i % (8 * 4) < 8 * 4 := Nat.mod_lt _ (by decide)
  rw [h.testBit_number (.inl rfl), Server.getBitNonAtomic]
  simp only [← and_mask_ne_zero hlt]

theorem Client.getBit_eq {s : BitStore arch.blockSize} (h : Valid s) (i : ℕ) :
    Client.getBit arch s i = s.number.testBit i := by
  rw [h.testBit_number arch.blockSize_cases]
  rfl

/-! ## The format -/

/-- Zeros behind an odd number of 32-bit blocks. -/
def padding (w k : ℕ) : List UInt8 := List.replicate (if w = 4 ∧ k % 2 = 1 then 4 else 0) 0

/-- The blocks in 64-bit blocks. -/
def body (s : BitStore w) : List UInt8 := ofWords w s.blocks ++ padding w s.blocks.length

def encode (s : BitStore w) : List UInt8 := bytes 4 s.numBits ++ (bytes 4 0 ++ s.body)

theorem value_body : value s.body = s.number := value_append_zeros

theorem length_body (h : Valid s) (hw : BlockSize w) (hw' : BlockSize w')
    (hcount : RoundsUp w' count') :
    s.body.length = w' * count' s.numBits + (padding w' (count' s.numBits)).length ∧
      w * s.blocks.length ≤ w' * count' s.numBits := by
  have hcard : 1 ≤ s.blocks.length := Nat.succ_pos _
  have hbits := h.length_blocks
  rw [hcount _ h.small, hbits]
  simp only [body, padding, length_append, length_ofWords, length_replicate]
  generalize s.blocks.length = k at hcard
  rcases hw with rfl | rfl
  · rcases hw' with rfl | rfl
    · have hk : (8 * 4 * k + (8 * 4 - 1)) / (8 * 4) = k := by omega
      rw [hk, Nat.max_eq_right hcard]
      exact ⟨rfl, Nat.le_refl _⟩
    · split <;> split <;> omega
  · rcases hw' with rfl | rfl
    · split <;> split <;> omega
    · split <;> split <;> omega

theorem length_encode (h : Valid s) (hw : BlockSize w) : s.encode.length <
    4294967296 - 2147483648 := by
  have hbits := h.length_blocks
  have hsmall := h.small
  simp only [encode, body, padding, length_append, length_bytes, length_ofWords, length_replicate]
  rcases hw with rfl | rfl
  · split <;> omega
  · split <;> omega

theorem map_getD_range {α : Type*} (l : List α) (d : α) (h : n = l.length) :
    (List.range n).map (l.getD · d) = l := by
  subst h
  refine List.ext_getElem (by simp) fun i _ hi => ?_
  rw [List.getElem_map, List.getElem_range]
  exact List.getD_eq_getElem _ _ hi

theorem writes_limbs (limbs : List (BitVec (8 * 4))) :
    Writes (Format.putAll Server.limb.put limbs) (ofWords 4 limbs) :=
  writes_putAll fun _ _ => Writes.putBlock _

theorem Server.writes_serialize {s : BitStore 4} (h : Valid s) :
    Writes (Server.serialize s) s.encode := by
  have hcount := h.count_eq (.inl rfl) Server.roundsUp
  have hlen : s.blocks.length = Server.calculateBitBlockCount s.numBits := by
    rw [hcount, blocks, length_cons, Nat.add_comm]
  have hloop := map_getD_range s.higherBits 0
    (show Server.calculateBitBlockCount s.numBits - 1 = s.higherBits.length by omega)
  have hblocks : Writes (fun ser => Format.putAll Server.limb.put s.higherBits
      (Server.limb.put s.lowerBits ser)) (ofWords 4 s.blocks) :=
    (Writes.putBlock (bytes 4 s.lowerBits.toNat)).comp (writes_limbs s.higherBits)
  have hpad : Writes (fun ser => if Server.calculateBitBlockCount s.numBits % 2 = 1 then
      ser.putUInt32 0 else ser) (padding 4 s.blocks.length) := by
    rw [padding, hlen]
    by_cases hodd : Server.calculateBitBlockCount s.numBits % 2 = 1
    · simp only [hodd, and_self, if_true]
      exact Writes.putUInt32 0
    · simp only [hodd, and_false, if_false]
      exact Writes.nil
  have hall : Writes _ s.encode :=
    (Writes.putUInt32 s.numBits).comp ((Writes.putUInt32 0).comp (hblocks.comp hpad))
  convert hall using 1
  funext ser
  simp only [Server.serialize, hloop]

section
open ClientSerialization
variable {arch : Arch}

theorem appends_blocks (blocks : List (BitVec (8 * arch.blockSize))) :
    Appends (fun ctx => blocks.foldl (Client.serializeBits arch) ctx)
    (ofWords arch.blockSize blocks) := by
  induction blocks with
  | nil => exact Appends.nil
  | cons block blocks ih => exact (Appends.block (bytes arch.blockSize block.toNat)).comp ih

theorem Client.appends_serialize {s : BitStore arch.blockSize} (h : Valid s) :
    Appends (Client.serialize arch · s) s.encode := by
  have hcount := h.count_eq arch.blockSize_cases (Client.roundsUp arch)
  have hlen : s.blocks.length = Client.calculateBitBlockCount arch s.numBits := by
    rw [hcount, blocks, length_cons, Nat.add_comm]
  have hloop := map_getD_range s.higherBits 0
    (show Client.calculateBitBlockCount arch s.numBits - 1 = s.higherBits.length by omega)
  have hpad : Appends (fun ctx => if arch = .bits32 ∧
      Client.calculateBitBlockCount arch s.numBits % 2 = 1 then serializeUInt ctx 0 else ctx)
      (padding arch.blockSize s.blocks.length) := by
    simp only [padding, hlen, ← arch.eq_bits32_iff]
    split
    · exact Appends.block (bytes 4 0)
    · exact Appends.nil
  have hall : Appends _ s.encode := (Appends.block (bytes 4 s.numBits)).comp
    ((Appends.block (bytes 4 0)).comp ((appends_blocks s.blocks).comp hpad))
  convert hall using 1
  simp only [Client.serialize, hloop]
  rfl

end

/-! ## Reading on a server -/

theorem Server.reads_limb (h : l.length = 4) :
    Reads Server.limb.get (BitVec.ofNat (8 * 4) (value l)) l :=
  (reads_getBlock h).map fun bytes => BitVec.ofNat (8 * 4) (value bytes)

theorem Server.reads_getLimbs (h : l.length = 4 * n) :
    Reads (Server.getLimbs n) (toWords 4 n l) l := by
  induction n generalizing l with
  | zero =>
    rw [List.length_eq_zero_iff.mp h]
    exact Reads.pure []
  | succ n ih =>
    have hfirst := Server.reads_limb (show (l.take 4).length = 4 by rw [length_take]; omega)
    have hrest := (@ih (l.drop 4) (by rw [length_drop]; omega)).map
      (BitVec.ofNat (8 * 4) (value (l.take 4)) :: ·)
    have hboth := @Reads.bind _ _ _ _ _ _ hfirst
      (fun x des => (x :: (Server.getLimbs n des).1, (Server.getLimbs n des).2)) _ hrest
    rw [take_append_drop] at hboth
    exact hboth

theorem Server.reads_padding {α : Type} (v : α) (h : l.length = (padding 4 k).length) :
    Reads (fun des => (v, if k % 2 = 1 then des.getUInt32.2 else des)) v l := by
  rw [padding, length_replicate] at h
  by_cases hodd : k % 2 = 1
  · simp only [if_pos hodd]
    rw [if_pos ⟨rfl, hodd⟩] at h
    exact (reads_getBlock h).map fun _ => v
  · simp only [if_neg hodd]
    rw [if_neg fun h => hodd h.2] at h
    rw [List.length_eq_zero_iff.mp h]
    exact Reads.pure v

section
variable {sender : BitStore w} (hs : Valid sender) (hw : BlockSize w)
include hs hw

theorem body_split (hw' : BlockSize w') (hcount : RoundsUp w' count') :
    ∃ first rest pad, sender.body = first ++ (rest ++ pad) ∧ first.length = w' ∧
      rest.length = w' * (count' sender.numBits - 1) ∧
      pad.length = (padding w' (count' sender.numBits)).length ∧
      value (first ++ rest) = sender.number := by
  obtain ⟨hlen, hle⟩ := length_body hs hw hw' hcount
  have hpos : 1 ≤ count' sender.numBits := by
    rw [hcount _ hs.small]
    exact Nat.le_max_left _ _
  obtain ⟨m, hm⟩ := Nat.exists_eq_add_of_le' hpos
  rw [hm, Nat.mul_succ] at hlen hle
  rw [hm, Nat.add_sub_cancel]
  refine ⟨sender.body.take w', (sender.body.drop w').take (w' * m),
    (sender.body.drop w').drop (w' * m), ?_, ?_, ?_, ?_, ?_⟩
  · rw [take_append_drop, take_append_drop]
  · rw [length_take]
    omega
  · rw [length_take, length_drop]
    omega
  · rw [length_drop, length_drop]
    omega
  · -- what is left out are zeros of the sender's padding
    have hzeros : sender.body.drop (w' + w' * m) = List.replicate
        ((padding w sender.blocks.length).length - (w' + w' * m - w * sender.blocks.length)) 0 := by
      rw [body, List.drop_append, List.drop_eq_nil_of_le (by rw [length_ofWords]; omega),
        length_ofWords, List.nil_append, padding, List.drop_replicate, length_replicate]
    have hsplit := take_append_drop (w' + w' * m) sender.body
    rw [hzeros] at hsplit
    rw [← List.take_add, ← value_body, ← hsplit, value_append_zeros, hsplit]

end

theorem Valid.of_words (ht : Valid t) (hfirst : first.length = w')
    (hrest : rest.length = w' * t.higherBits.length)
    (hlower : t.lowerBits = BitVec.ofNat (8 * w') (value first)) :
    Valid { t with higherBits := toWords w' t.higherBits.length rest } ∧
      number { t with higherBits := toWords w' t.higherBits.length rest } =
      value (first ++ rest) := by
  constructor
  · refine ⟨?_, ht.small⟩
    rw [length_toWords]
    exact ht.numBits
  · have hwords := ofWords_toWords (Nat.le_of_eq hrest.symm)
    rw [← hrest, List.take_length] at hwords
    rw [number, blocks, ofWords, List.flatMap_cons, hlower, bytes_ofNat_value hfirst]
    exact congrArg (fun l => value (first ++ l)) hwords

theorem Server.reads_deserializeHigher (ht : Valid t)
    (hrest : rest.length = 4 * t.higherBits.length)
    (hpad : pad.length = (padding 4 (1 + t.higherBits.length)).length) :
    Reads (Server.deserializeHigher t)
      { t with higherBits := toWords 4 t.higherBits.length rest } (rest ++ pad) := by
  have hcount := ht.count_eq (.inl rfl) Server.roundsUp
  have hlimbs := Server.reads_getLimbs hrest
  have hlast := Server.reads_padding { t with higherBits := toWords 4 t.higherBits.length rest }
    hpad
  have hdrop : toWords 4 t.higherBits.length rest ++
      t.higherBits.drop (toWords 4 t.higherBits.length rest).length =
        toWords 4 t.higherBits.length rest := by
    rw [length_toWords, List.drop_length, append_nil]
  have hboth := @Reads.bind _ _ _ _ _ _ hlimbs (fun limbs des =>
    (({ t with higherBits := limbs ++ t.higherBits.drop limbs.length } : BitStore 4),
      if (1 + t.higherBits.length) % 2 = 1 then des.getUInt32.2 else des)) _ (by
        simp only [hdrop]
        exact hlast)
  convert hboth using 1
  funext des
  simp only [Server.deserializeHigher, hcount, Nat.add_sub_cancel_left]

theorem Server.reads_deserialize (hs : Valid s) (hw : BlockSize w) (hr : Valid receiver)
    (fresh : ℕ → BitVec (8 * 4)) :
    ∃ result, Reads (Server.deserialize fresh receiver) result s.encode ∧ Valid result ∧
      result.number = s.number := by
  obtain ⟨first, rest, pad, hbody, hfirst, hrest, hpad, hvalue⟩ :=
    body_split hs hw (.inl rfl) Server.roundsUp
  have hsmall := hs.small
  have hstart : Valid { receiver with lowerBits := BitVec.ofNat (8 * 4) (value first) } :=
    ⟨hr.numBits, hr.small⟩
  obtain ⟨ht, hlen, hlower⟩ := setSize_spec hstart (.inl rfl) Server.roundsUp hsmall
  generalize htdef : setSizeWith Server.calculateBitBlockCount fresh s.numBits
    { receiver with lowerBits := BitVec.ofNat (8 * 4) (value first) } = t at ht hlen hlower
  rw [← hlen, Nat.add_sub_cancel_left] at hrest
  rw [← hlen] at hpad
  obtain ⟨hvalid, hnumber⟩ := ht.of_words hfirst hrest hlower
  refine ⟨_, ?_, hvalid, hnumber.trans hvalue⟩
  have hhigher := Server.reads_deserializeHigher ht hrest hpad
  rw [← htdef] at hhigher
  have hfields := @Reads.bind _ _ _ _ _ _ (Server.reads_limb hfirst) (fun lowerBits =>
    Server.deserializeHigher (Server.setSize fresh s.numBits { receiver with lowerBits })) _ hhigher
  have hsecond := @Reads.bind _ _ _ _ _ _ (Reads.getUInt32 (show 0 < 4294967296 by decide))
    (fun _ des => Server.deserializeHigher (Server.setSize fresh s.numBits
      { receiver with lowerBits := (Server.limb.get des).1 }) (Server.limb.get des).2) _ hfields
  have hall := @Reads.bind _ _ _ _ _ _ (Reads.getUInt32 (show s.numBits < 4294967296 by omega))
    (fun numBits des => Server.deserializeHigher (Server.setSize fresh numBits
      { receiver with lowerBits := (Server.limb.get des.getUInt32.2).1 })
      (Server.limb.get des.getUInt32.2).2) _ hsecond
  rw [encode, hbody]
  exact htdef ▸ hall

/-! ## Reading on a client -/

section
open ClientSerialization
variable {α β : Type} {arch : Arch}

/-- As `Takes`, for functions that have nothing to report. -/
def Moves (get : List UInt8 → DeserializeCtx → α × DeserializeCtx) (v : α)
    (l : List UInt8) : Prop :=
  ∀ mem before after inspected length, mem = before ++ l ++ after → l.length ≤ length →
    ∃ inspected', get mem ⟨before.length, length, inspected⟩ =
      (v, ⟨before.length + l.length, length - l.length, inspected'⟩)

theorem Moves.pure (v : α) : Moves (fun _ ctx => (v, ctx)) v [] := by
  intro mem before after inspected length _ _
  exact ⟨inspected, rfl⟩

theorem Moves.bind {get : List UInt8 → DeserializeCtx → α × DeserializeCtx} {v : α}
    {l l' : List UInt8}
    (h : Moves get v l) {get' : α → List UInt8 → DeserializeCtx → β × DeserializeCtx} {u : β}
    (h' : Moves (get' v) u l') :
    Moves (fun mem ctx => get' (get mem ctx).1 mem (get mem ctx).2) u (l ++ l') := by
  intro mem before after inspected length hmem hlen
  rw [length_append] at hlen ⊢
  obtain ⟨inspected1, h1⟩ := h mem before (l' ++ after) inspected length (by simp [hmem]) (by omega)
  obtain ⟨inspected2, h2⟩ := h' mem (before ++ l) after inspected1 (length - l.length)
    (by simp [hmem]) (by omega)
  rw [length_append] at h2
  refine ⟨inspected2, ?_⟩
  simp only [h1, h2, Nat.add_assoc, Nat.sub_sub]

theorem Moves.map {get : List UInt8 → DeserializeCtx → α × DeserializeCtx} (h : Moves get v l)
    (f : α → β) : Moves (fun mem ctx => (f (get mem ctx).1, (get mem ctx).2)) (f v) l := by
  have hbind := @Moves.bind _ _ _ _ _ [] h (fun a _ ctx => (f a, ctx)) (f v) (Moves.pure (f v))
  rwa [append_nil] at hbind

theorem moves_raw (h : l.length = n) :
    Moves (fun mem => deserializeRaw mem n) (some (value l)) l := by
  have htakes := Takes.raw (value_lt l)
  rw [bytes_value, h] at htakes
  exact htakes

theorem Client.moves_bits (old : BitVec (8 * arch.blockSize)) {l : List UInt8}
    (h : l.length = arch.blockSize) :
    Moves (fun mem => Client.deserializeBits arch mem old) (BitVec.ofNat _ (value l)) l :=
  (moves_raw h).map fun v => (v.map (BitVec.ofNat _)).getD old

theorem Client.moves_blocks (h : l.length = arch.blockSize * olds.length) :
    Moves (fun mem => Client.deserializeBlocks arch mem olds)
    (toWords arch.blockSize olds.length l) l := by
  induction olds generalizing l with
  | nil =>
    rw [List.length_eq_zero_iff.mp h]
    exact Moves.pure []
  | cons old olds ih =>
    rw [length_cons, Nat.mul_succ] at h
    have hfirst := @Client.moves_bits arch old (l.take arch.blockSize) (by rw [length_take]; omega)
    have hrest := (@ih (l.drop arch.blockSize) (by rw [length_drop]; omega)).map
      (BitVec.ofNat (8 * arch.blockSize) (value (l.take arch.blockSize)) :: ·)
    have hboth := @Moves.bind _ _ _ _ _ _ hfirst (fun x mem ctx =>
      (x :: (Client.deserializeBlocks arch mem olds ctx).1,
        (Client.deserializeBlocks arch mem olds ctx).2)) _ hrest
    rw [take_append_drop] at hboth
    exact hboth

theorem Client.moves_padding (v : α) (h : l.length = (padding arch.blockSize k).length) :
    Moves (fun mem ctx =>
    (v, if arch = .bits32 ∧ k % 2 = 1 then (deserializeUInt mem ctx).2 else ctx))
      v l := by
  simp only [padding, length_replicate, ← arch.eq_bits32_iff] at h
  by_cases hodd : arch = .bits32 ∧ k % 2 = 1
  · simp only [if_pos hodd]
    rw [if_pos hodd] at h
    exact (moves_raw h).map fun _ => v
  · simp only [if_neg hodd]
    rw [if_neg hodd] at h
    rw [List.length_eq_zero_iff.mp h]
    exact Moves.pure v

theorem Client.moves_deserializeHigher (ht : Valid t)
    (hrest : rest.length = arch.blockSize * t.higherBits.length)
    (hpad : pad.length = (padding arch.blockSize (1 + t.higherBits.length)).length) :
    Moves (fun mem => Client.deserializeHigher arch mem t)
      { t with higherBits := toWords arch.blockSize t.higherBits.length rest } (rest ++ pad) := by
  have hcount := ht.count_eq arch.blockSize_cases (Client.roundsUp arch)
  have hblocks := Client.moves_blocks hrest
  have hlast := Client.moves_padding
    { t with higherBits := toWords arch.blockSize t.higherBits.length rest } hpad
  have hboth := @Moves.bind _ _ _ _ _ _ hblocks (fun blocks mem ctx =>
    (({ t with higherBits := blocks } : BitStore arch.blockSize),
      if arch = .bits32 ∧ (1 + t.higherBits.length) % 2 = 1 then
      (deserializeUInt mem ctx).2 else ctx))
    _ hlast
  convert hboth using 1
  funext mem ctx
  simp only [Client.deserializeHigher, hcount, Nat.add_sub_cancel_left, List.take_length,
    List.drop_length, append_nil]

theorem Client.moves_deserialize (hs : Valid s) (hw : BlockSize w) (hr : Valid receiver) :
    ∃ result, Moves (fun mem => Client.deserialize arch mem fresh receiver) result s.encode ∧
      Valid result ∧ result.number = s.number := by
  obtain ⟨first, rest, pad, hbody, hfirst, hrest, hpad, hvalue⟩ :=
    body_split hs hw arch.blockSize_cases (Client.roundsUp arch)
  have hsmall := hs.small
  obtain ⟨hset, hlen, -⟩ := setSize_spec hr arch.blockSize_cases (Client.roundsUp arch) hsmall
  generalize htdef : setSizeWith (Client.calculateBitBlockCount arch) fresh s.numBits receiver = t
    at hset hlen
  rw [← hlen, Nat.add_sub_cancel_left] at hrest
  rw [← hlen] at hpad
  have ht : Valid { t with lowerBits := BitVec.ofNat _ (value first) } := ⟨hset.numBits, hset.small⟩
  obtain ⟨hvalid, hnumber⟩ := ht.of_words hfirst hrest rfl
  refine ⟨_, ?_, hvalid, hnumber.trans hvalue⟩
  have hfields := @Moves.bind _ _ _ _ _ _ (Client.moves_bits t.lowerBits hfirst)
    (fun lowerBits mem =>
    Client.deserializeHigher arch mem { t with lowerBits }) _ (Client.moves_deserializeHigher
      ht hrest hpad)
  have hsecond := @Moves.bind _ _ _ _ _ _ (moves_raw (length_bytes 4 0)) (fun _ mem ctx =>
    Client.deserializeHigher arch mem { t with
      lowerBits := (Client.deserializeBits arch mem t.lowerBits ctx).1 }
      (Client.deserializeBits arch mem t.lowerBits ctx).2) _ hfields
  rw [← htdef] at hsecond
  have hall := @Moves.bind _ _ _ (some s.numBits) _ _
    (Takes.uint (show s.numBits < 4294967296 by omega)) (fun bitCount mem ctx =>
      let ctx := (deserializeUInt mem ctx).2
      let t := Client.setSize arch fresh (bitCount.getD 0) receiver
      Client.deserializeHigher arch mem { t with
        lowerBits := (Client.deserializeBits arch mem t.lowerBits ctx).1 }
        (Client.deserializeBits arch mem t.lowerBits ctx).2) _ hsecond
  rw [encode, hbody]
  exact htdef ▸ hall

theorem Client.deserializePreprocess_at (hs : Valid s) (hw : BlockSize w)
    (hmem : mem = before ++ s.encode ++ after) (hlen : s.encode.length ≤ length) :
    ∃ inspected', Client.deserializePreprocess arch mem ⟨before.length, length, inspected⟩ =
      (some before.length, ⟨before.length + s.encode.length, length - s.encode.length,
      inspected'⟩) := by
  have hsmall := hs.small
  have hbody := (length_body hs hw arch.blockSize_cases (Client.roundsUp arch)).1
  have hbound := length_encode hs hw
  have henc : s.encode.length = 4 + (4 + s.body.length) := by
    simp only [encode, length_append, length_bytes]
  rw [henc] at hlen hbound ⊢
  obtain ⟨inspected1, h1⟩ := Takes.uint (show s.numBits < 4294967296 by omega) mem before
    (bytes 4 0 ++ s.body ++ after) inspected length (by simp [hmem, encode])
    (by rw [length_bytes]; omega)
  obtain ⟨inspected2, h2⟩ := Takes.uint (show 0 < 4294967296 by decide) mem
    (before ++ bytes 4 s.numBits) (s.body ++ after) inspected1 (length - 4) (by simp [hmem, encode])
    (by rw [length_bytes]; omega)
  simp only [length_append, length_bytes] at h1 h2
  have hblocks : arch.blockSize * (if arch = .bits32 ∧
      Client.calculateBitBlockCount arch s.numBits % 2 = 1 then
        Client.calculateBitBlockCount arch s.numBits + 1
      else Client.calculateBitBlockCount arch s.numBits) = s.body.length := by
    simp only [hbody, padding, length_replicate, ← arch.eq_bits32_iff]
    split_ifs with h
    · rw [arch.eq_bits32_iff.mp h.1, Nat.mul_succ]
    · rfl
  refine ⟨inspected2, ?_⟩
  simp only [Client.deserializePreprocess, h1, h2, andThen, hblocks,
    wrap32_of_lt (show s.body.length < 4294967296 by omega),
    if_neg (show ¬s.body.length > length - 4 - 4 by omega),
    DeserializeCtx.advance, sub64_of_le (show s.body.length ≤ length - 4 - 4 by omega)]
  rw [show before.length + 4 + 4 + s.body.length =
    before.length + (4 + (4 + s.body.length)) by omega,
    show length - 4 - 4 - s.body.length = length - (4 + (4 + s.body.length)) by omega]

end

/-! ## From one side to the other -/

/-- A client takes what stands between two positions for a bit store, whatever its own one was, and
then has these bits. -/
def ClientReceives (arch : Arch) (mem : List UInt8) (start stop : ℕ) (bits : ℕ → Bool) : Prop :=
  ∀ r, Built (Client.calculateBitBlockCount arch) r → ∀ fresh inspected length,
    stop - start ≤ length →
    (∃ inspected', Client.deserializePreprocess arch mem ⟨start, length, inspected⟩ =
      (some start, ⟨stop, length - (stop - start), inspected'⟩)) ∧
    ∃ result inspected', Client.deserialize arch mem fresh r ⟨start, length, inspected⟩ =
      (result, ⟨stop, length - (stop - start), inspected'⟩) ∧
      ∀ i, Client.getBit arch result i = bits i

/-- The same for a server. -/
def ServerReceives (buffer : List UInt8) (start stop : ℕ) (bits : ℕ → Bool) : Prop :=
  ∀ r, Built Server.calculateBitBlockCount r → ∀ fresh inspected, ∃ result inspected',
    Server.deserialize fresh r ⟨buffer, buffer.length, start, inspected⟩ =
      (result, ⟨buffer, buffer.length, stop, inspected'⟩) ∧ stop ≤ buffer.length ∧
      ∀ i, Server.getBitNonAtomic result i = bits i

section
variable {buffer before after : List UInt8}

theorem clientReceives (hs : Valid s) (hw : BlockSize w)
    (hbuf : buffer = before ++ s.encode ++ after) :
    ClientReceives arch buffer before.length (before.length + s.encode.length)
    s.number.testBit := by
  intro r hr fresh inspected length hlen
  rw [Nat.add_sub_cancel_left] at hlen ⊢
  refine ⟨Client.deserializePreprocess_at hs hw hbuf hlen, ?_⟩
  have hvalid := hr.valid arch.blockSize_cases (Client.roundsUp arch)
  obtain ⟨result, hmoves, hresult, hnumber⟩ := Client.moves_deserialize hs hw hvalid
  obtain ⟨inspected', h⟩ := hmoves buffer before after inspected length hbuf hlen
  refine ⟨result, inspected', h, fun i => ?_⟩
  rw [Client.getBit_eq hresult, hnumber]

theorem serverReceives (hs : Valid s) (hw : BlockSize w)
    (hbuf : buffer = before ++ s.encode ++ after) (hsize : buffer.length < 4294967296) :
    ServerReceives buffer before.length (before.length + s.encode.length) s.number.testBit := by
  intro r hr fresh inspected
  have hvalid := hr.valid (.inl rfl) Server.roundsUp
  obtain ⟨result, hreads, hresult, hnumber⟩ := Server.reads_deserialize hs hw hvalid fresh
  have hne : buffer ≠ [] := by
    rw [hbuf, encode, bytes]
    simp
  obtain ⟨inspected', h⟩ := hreads buffer before after inspected hbuf hne hsize
  refine ⟨result, inspected', h, ?_, fun i => ?_⟩
  · rw [hbuf]
    simp only [length_append]
    omega
  · rw [Server.getBit_eq hresult, hnumber]

end

theorem exists_overwrite_eq (file : List UInt8) (offset : ℕ) (hd : data ≠ []) :
    ∃ before after, before.length = offset ∧
      FlatFile.overwrite 0 file offset data = before ++ data ++ after :=
  ⟨FlatFile.padded 0 file offset, file.drop (offset + data.length), FlatFile.length_padded,
    FlatFile.overwrite_of_ne_nil hd⟩

theorem encode_ne_nil (s : BitStore w) : s.encode ≠ [] := List.cons_ne_nil _ _

/-- From a server to a client and to a server, and from a client to a server: exactly what was
written is read, and every bit is where it was. -/
theorem bits_kept : (∀ s, Built Server.calculateBitBlockCount s → ∀ buffer offset,
      offset + (Server.serialize s .dryRun).size ≤ buffer.length → buffer.length < 4294967296 →
      ∃ written, Server.serialize s ⟨some buffer, buffer.length, offset⟩ =
          ⟨some written, buffer.length, offset + (Server.serialize s .dryRun).size⟩ ∧
        (∀ arch, ClientReceives arch written offset (offset + (Server.serialize s .dryRun).size)
          (Server.getBitNonAtomic s)) ∧
        ServerReceives written offset (offset + (Server.serialize s .dryRun).size)
          (Server.getBitNonAtomic s)) ∧
      ∀ arch s, Built (Client.calculateBitBlockCount arch) s → ∀ buffer offset,
        offset + (Client.serialize arch ⟨none, 0⟩ s).length ≤ buffer.length →
        buffer.length < 4294967296 →
        ∃ written, Client.serialize arch ⟨some buffer, offset⟩ s =
            ⟨some written, offset + (Client.serialize arch ⟨none, 0⟩ s).length⟩ ∧
          ServerReceives written offset (offset + (Client.serialize arch ⟨none, 0⟩ s).length)
            (Client.getBit arch s) := by
  constructor
  · intro s hs buffer offset hroom hbuf
    have hvalid := hs.valid (.inl rfl) Server.roundsUp
    have hwrites := Server.writes_serialize hvalid
    have hbound := length_encode hvalid (.inl rfl)
    have hbits : Server.getBitNonAtomic s = s.number.testBit := funext (Server.getBit_eq hvalid)
    rw [hwrites.size_dryRun (by omega)] at hroom ⊢
    have hwet := hwrites.wet buffer offset hroom hbuf
    have hlen := length_overwrite hroom
    obtain ⟨before, after, hbefore, hover⟩ := exists_overwrite_eq buffer offset (encode_ne_nil s)
    subst hbefore
    refine ⟨_, hwet, fun arch => ?_, ?_⟩
    · rw [hbits]
      exact clientReceives hvalid (.inl rfl) hover
    · rw [hbits]
      exact serverReceives hvalid (.inl rfl) hover (by omega)
  · intro arch s hs buffer offset hroom hbuf
    have hvalid := hs.valid arch.blockSize_cases (Client.roundsUp arch)
    have happends := Client.appends_serialize hvalid
    have hbound := length_encode hvalid arch.blockSize_cases
    have hbits : Client.getBit arch s = s.number.testBit := funext (Client.getBit_eq hvalid)
    have hdry : (Client.serialize arch ⟨none, 0⟩ s).length = s.encode.length :=
      (congrArg ClientSerialization.SerializeCtx.length
        (happends ⟨none, 0⟩ (by simp only; omega))).trans (Nat.zero_add _)
    rw [hdry] at hroom ⊢
    have hwet : Client.serialize arch ⟨some buffer, offset⟩ s =
        ⟨some (FlatFile.overwrite 0 buffer offset s.encode), offset + s.encode.length⟩ :=
      happends ⟨some buffer, offset⟩ (by simp only; omega)
    have hlen := length_overwrite hroom
    obtain ⟨before, after, hbefore, hover⟩ := exists_overwrite_eq buffer offset (encode_ne_nil s)
    subst hbefore
    refine ⟨_, hwet, ?_⟩
    rw [hbits]
    exact serverReceives hvalid arch.blockSize_cases hover (by omega)

/-- 40 bits on a server, in memory that was not cleared. -/
def sampleStore : BitStore 4 :=
  setBit 33 true (Server.setSize (fun _ => 12) 40 (init 5))

theorem sampleStore_built : Built Server.calculateBitBlockCount sampleStore :=
  ⟨5, (Reachable.init.step (show (Op.setSize (fun _ => 12) 40 : Op 4).Small from show 40 <
    2147483648 by decide)).step (show (Op.setBit 33 true : Op 4).Small from trivial)⟩

theorem bits_kept_sample :
    ∃ written, Server.serialize sampleStore ⟨some (List.replicate 20 9), 20, 4⟩ =
        ⟨some written, 20, 4 + (Server.serialize sampleStore .dryRun).size⟩ ∧
      ClientReceives .bits64 written 4 (4 + (Server.serialize sampleStore .dryRun).size)
        (Server.getBitNonAtomic sampleStore) := by
  obtain ⟨written, hser, hclient, -⟩ := bits_kept.1 sampleStore sampleStore_built
    (List.replicate 20 9) 4 (by decide +kernel) (by decide)
  exact ⟨written, hser, hclient .bits64⟩

end Congfs.BitStore
