import Mathlib.Data.Int.Notation
import Mathlib.Data.List.Basic

/-!
# Network filters

The servers and the client read a filter file into entries and look addresses up in them. Each side
has its own way to cut a line and its own functions to read the parts, of which only the result for
decimal numbers is used. Addresses are in host byte order, and allocation does not fail.
-/

namespace Congfs.NetFilter

open List

def decimal (n : ℕ) : List Char := Nat.toDigits 10 n

def dotted (address : BitVec 32) : List Char :=
  let part (shift : ℕ) := decimal ((address >>> shift).toNat % 256)
  part 24 ++ '.' :: part 16 ++ '.' :: part 8 ++ '.' :: part 0

/-- `inet_addr` and `sscanf` on a server, `in4_pton` and `simple_strtoul` in the kernel. -/
structure Parser where
  addr : List Char → BitVec 32
  strToUInt : List Char → ℕ
  addr_dotted : addr (dotted address) = address
  strToUInt_decimal : n ≤ 32 → strToUInt (decimal n) = n

/-- `>>` for 32 bits, of which nothing is known if the number of bits is too large. -/
structure ShiftRight where
  shift : BitVec 32 → ℤ → BitVec 32
  shift_eq {n : ℕ} : n < 32 → shift x n = x >>> n

structure NetFilterEntry where
  netAddressShifted : BitVec 32
  shiftBitsNum : ℤ

variable (cpu : ShiftRight) (parser : Parser)

def entry (entryAddr : BitVec 32) (significantBitsNum : ℕ) : NetFilterEntry :=
  let shiftBitsNum : ℤ := 32 - significantBitsNum
  ⟨cpu.shift entryAddr shiftBitsNum, shiftBitsNum⟩

/-- Empty parts are left out. -/
def explode (s : List Char) (delimiter : Char) : List (List Char) :=
  (s.splitOn delimiter).filter (· ≠ [])

def Server.prepareArray (filterList : List (List Char)) : List NetFilterEntry :=
  filterList.filterMap fun line =>
    match explode line '/' with
    | [addr, bits] => some (entry cpu (parser.addr addr) (parser.strToUInt bits))
    | _ => none

def Client.prepareArray (filterList : List (List Char)) : List NetFilterEntry :=
  filterList.filterMap fun line =>
    if '/' ∈ line then
      some (entry cpu (parser.addr (line.takeWhile (· ≠ '/')))
        (parser.strToUInt ((line.dropWhile (· ≠ '/')).drop 1)))
    else none

def loopback : BitVec 32 := 0x7f000001

variable (ipAddr : BitVec 32) (filterArray : List NetFilterEntry)

def Server.isContained : Bool :=
  ipAddr = loopback || filterArray.any fun entry =>
    entry.shiftBitsNum = 32 || entry.netAddressShifted = cpu.shift ipAddr entry.shiftBitsNum

def Client.isContained : Bool :=
  ipAddr = loopback || filterArray.any fun entry =>
    entry.netAddressShifted = cpu.shift ipAddr entry.shiftBitsNum

def Server.isAllowed : Bool :=
  filterArray.isEmpty || Server.isContained cpu ipAddr filterArray

def Client.isAllowed : Bool :=
  filterArray.isEmpty || Client.isContained cpu ipAddr filterArray

/-! ## What the lines say -/

structure Network where
  address : BitVec 32
  bits : ℕ
  bits_le : bits ≤ 32

inductive Line
  | network (net : Network)
  | withoutSlash (text : List Char) (h : '/' ∉ text)

def Line.text : Line → List Char
  | network net => dotted net.address ++ '/' :: decimal net.bits
  | withoutSlash text _ => text

def Line.entry : Line → Option NetFilterEntry
  | network net => some (NetFilter.entry cpu net.address net.bits)
  | withoutSlash _ _ => none

def Network.Has (net : Network) : Prop := ∀ i < net.bits, net.address.getMsbD i = ipAddr.getMsbD i

/-- The address is that of this host, or starts as that of a line does. -/
def Admits (lines : List Line) : Prop := ipAddr = loopback ∨ ∃ net, .network net ∈ lines ∧
    net.Has ipAddr

variable {net : Network} {lines : List Line}

theorem slash_not_mem_decimal : '/' ∉ decimal n :=
  fun h => absurd (Nat.isDigit_of_mem_toDigits (by decide) (by decide) h) (by decide)

theorem slash_not_mem_dotted (address : BitVec 32) : '/' ∉ dotted address := by
  simp [dotted, slash_not_mem_decimal]

theorem splitOn_of_not_mem {s : List Char} (h : '/' ∉ s) : s.splitOn '/' = [s] :=
  splitOnP_eq_singleton fun _ hc => beq_false_of_ne fun heq => h (heq ▸ hc)

theorem explode_network (net : Network) :
    explode (Line.network net).text '/' = [dotted net.address, decimal net.bits] := by
  have hsplit : (Line.network net).text.splitOn '/' = [dotted net.address, decimal net.bits] := by
    have hfirst := splitOn_of_not_mem (slash_not_mem_dotted net.address)
    have hlast := splitOn_of_not_mem (@slash_not_mem_decimal net.bits)
    rw [splitOn] at hfirst hlast ⊢
    rw [Line.text, splitOnP_append_cons _ _ rfl, hfirst, hlast]
    rfl
  simp [explode, hsplit, dotted, decimal]

theorem Server.prepareArray_eq (lines : List Line) :
    Server.prepareArray cpu parser (lines.map Line.text) = lines.filterMap (Line.entry cpu) := by
  rw [prepareArray, filterMap_map]
  refine filterMap_congr fun line _ => ?_
  cases line with
  | network net =>
    simp only [Function.comp_apply, explode_network, parser.addr_dotted,
      parser.strToUInt_decimal net.bits_le]
    rfl
  | withoutSlash text h =>
    simp only [Function.comp_apply, Line.text, explode, splitOn_of_not_mem h]
    by_cases hnil : text = [] <;> simp [hnil, Line.entry]

theorem Client.prepareArray_eq (lines : List Line) :
    Client.prepareArray cpu parser (lines.map Line.text) = lines.filterMap (Line.entry cpu) := by
  rw [prepareArray, filterMap_map]
  refine filterMap_congr fun line _ => ?_
  cases line with
  | network net =>
    have hfirst : ∀ c ∈ dotted net.address, decide (c ≠ '/') := fun c hc =>
      decide_eq_true fun heq => slash_not_mem_dotted net.address (heq ▸ hc)
    simp only [Function.comp_apply, Line.text, mem_append, mem_cons_self,
      or_true, if_true, takeWhile_append_of_pos hfirst, dropWhile_append_of_pos hfirst]
    simp [parser.addr_dotted, parser.strToUInt_decimal net.bits_le, Line.entry]
  | withoutSlash text h => exact if_neg h

theorem shift_eq_iff {net : Network} (hpos : 0 < net.bits) :
    cpu.shift net.address (32 - net.bits) = cpu.shift ipAddr (32 - net.bits) ↔ net.Has ipAddr := by
  obtain ⟨address, n, hn⟩ := net
  dsimp only [Network.Has] at hpos ⊢
  rw [show (32 : ℤ) - n = (32 - n : ℕ) by omega, cpu.shift_eq (by omega), cpu.shift_eq (by omega)]
  constructor
  · intro h i hi
    have hbit := congrArg (BitVec.getMsbD · (i + (32 - n))) h
    simpa [show i + (32 - n) < 32 by omega, show ¬i + (32 - n) < 32 - n by omega] using hbit
  · intro h
    refine BitVec.eq_of_getMsbD_eq fun i hi => ?_
    simp only [BitVec.getMsbD_ushiftRight]
    by_cases hlow : i < 32 - n
    · simp [hlow]
    · rw [h (i - (32 - n)) (by omega)]

theorem any_entries (p : NetFilterEntry → Bool) : (lines.filterMap (Line.entry cpu)).any p ↔
      ∃ net, .network net ∈ lines ∧ p (entry cpu net.address net.bits) := by
  simp only [any_filterMap, any_eq_true]
  constructor
  · rintro ⟨_ | _, hmem, hp⟩
    · exact ⟨_, hmem, hp⟩
    · cases hp
  · rintro ⟨net, hmem, hp⟩
    exact ⟨.network net, hmem, hp⟩

theorem entries_ne_nil (hsome : .network net ∈ lines) :
    (lines.filterMap (Line.entry cpu)).isEmpty = false := by
  rw [← Bool.not_eq_true, List.isEmpty_iff]
  intro hnil
  have h := (any_entries cpu fun _ => true).mpr ⟨net, hsome, rfl⟩
  rw [hnil] at h
  cases h

/-- A server lets the addresses through that the lines say, and so does a client unless only a line
about all addresses would do and the shift by 32 bits tells it from the address. -/
theorem isAllowed_iff (server client : Parser) (lines : List Line) (hsome : .network net ∈ lines) :
    (Server.isAllowed cpu ipAddr (Server.prepareArray cpu server (lines.map Line.text)) ↔
      Admits ipAddr lines) ∧
    ((Client.isAllowed cpu ipAddr (Client.prepareArray cpu client (lines.map Line.text)) ↔
        Admits ipAddr lines) ↔
      (∀ net, .network net ∈ lines → net.bits ≠ 0) ∨ ipAddr = loopback ∨
        ∃ net, .network net ∈ lines ∧ if net.bits = 0
          then cpu.shift net.address 32 = cpu.shift ipAddr 32 else net.Has ipAddr) := by
  have hany := @any_entries cpu lines
  simp only [Server.isAllowed, Client.isAllowed, Server.isContained, Client.isContained,
    Server.prepareArray_eq, Client.prepareArray_eq, entries_ne_nil cpu hsome, Bool.false_or,
    Bool.or_eq_true, decide_eq_true_eq, hany, Admits]
  dsimp only [entry]
  have hzero : ∀ {net : Network}, net.bits = 0 → net.Has ipAddr := fun h i hi => by omega
  have hclient : ∀ net : Network, cpu.shift net.address (32 - net.bits) = cpu.shift ipAddr
    (32 - net.bits) ↔
      if net.bits = 0 then cpu.shift net.address 32 = cpu.shift ipAddr 32 else net.Has ipAddr := by
    intro net
    split_ifs with h
    · rw [h]
      rfl
    · exact shift_eq_iff cpu ipAddr (Nat.pos_of_ne_zero h)
  constructor
  · refine or_congr_right (exists_congr fun net => and_congr_right fun _ => ?_)
    obtain h | hpos := net.bits.eq_zero_or_pos
    · exact iff_of_true (.inl (by rw [h]; rfl)) (hzero h)
    · rw [shift_eq_iff cpu ipAddr hpos, or_iff_right (by omega)]
  · simp only [hclient]
    constructor
    · intro h
      by_contra hnot
      obtain ⟨hall, hlocal, hnone⟩ := not_or.mp hnot |>.imp_right not_or.mp
      refine hall fun net hnet h0 => ?_
      exact (h.mpr (.inr ⟨net, hnet, hzero h0⟩)).elim hlocal hnone
    · rintro (hall | hyes)
      · refine or_congr_right (exists_congr fun net => and_congr_right fun hnet => ?_)
        rw [if_neg (hall net hnet)]
      · refine iff_of_true hyes (hyes.imp_right ?_)
        rintro ⟨net, hnet, h⟩
        refine ⟨net, hnet, ?_⟩
        split_ifs at h with h0
        · exact hzero h0
        · exact h

/-- The shift of a processor that takes the number of bits modulo 32. -/
def maskedShift : ShiftRight where
  shift x n := x >>> (n.toNat % 32)
  shift_eq h := by rw [Int.toNat_natCast, Nat.mod_eq_of_lt h]

def decimalParser : Parser where
  addr s := .ofNat 32 (((s.splitOn '.').map fun part => Nat.ofDigitChars 10 part 0).foldl
    (256 * · + ·) 0)
  strToUInt s := Nat.ofDigitChars 10 s 0
  addr_dotted {address} := by
    have hsplit : ∀ n, (decimal n).splitOnP (· == '.') = [decimal n] := fun n =>
      splitOnP_eq_singleton fun _ hc => beq_false_of_ne fun heq =>
        absurd (Nat.isDigit_of_mem_toDigits (by decide) (by decide) (heq ▸ hc)) (by decide)
    simp only [dotted, splitOn, append_assoc, cons_append]
    simp only [splitOnP_append_cons (p := (· == '.')) _ _ (beq_self_eq_true '.'), hsplit]
    simp only [cons_append, nil_append, map_cons, map_nil, foldl_cons,
      foldl_nil, decimal, Nat.ofDigitChars_toDigits (by decide : 1 < 10) (by decide)]
    apply BitVec.eq_of_toNat_eq
    simp only [BitVec.toNat_ofNat, BitVec.toNat_ushiftRight, Nat.shiftRight_eq_div_pow]
    have := address.isLt
    omega
  strToUInt_decimal _ := Nat.ofDigitChars_toDigits (by decide) (by decide)

theorem isAllowed_iff_subnet : Client.isAllowed maskedShift 0x0b000000
      (Client.prepareArray maskedShift decimalParser
      [Line.text (.network ⟨0x0a000000, 8, by decide⟩)]) ↔
    Admits 0x0b000000 [.network ⟨0x0a000000, 8, by decide⟩] := by
  refine (isAllowed_iff _ _ decimalParser _ _ (mem_singleton_self _)).2.mpr (.inl ?_)
  rintro _ (_ | ⟨_, ⟨⟩⟩)
  decide

/-- `10.0.0.0/0` is a line about all addresses, but a client refuses `11.0.0.0`. -/
theorem Client.isAllowed_refuses :
    Client.isAllowed maskedShift 0x0b000000 (prepareArray maskedShift decimalParser
      [Line.text (.network ⟨0x0a000000, 0, by decide⟩)]) = false ∧
    Admits 0x0b000000 [.network ⟨0x0a000000, 0, by decide⟩] :=
  ⟨by decide, .inr ⟨_, mem_singleton_self _, fun _ h => by cases h⟩⟩

end Congfs.NetFilter
