import Congfs.Lib.LittleEndian
import Mathlib.Data.Int.Order.Basic

/-!
# Blocks behind their lengths

On a connection that is used for one message after the other the receiver has to know where a
message ends. Each block of data stands behind its length, a signed number of 64 bits, and a number
that is not positive stands at the end.
-/

namespace Congfs.Framing

open LittleEndian

def encode (v : ℤ) : List UInt8 := bytes 8 (v % 18446744073709551616).toNat

def decode (l : List UInt8) : ℤ := Int.bmod (value l) 18446744073709551616

@[simp] theorem length_encode (v : ℤ) : (encode v).length = 8 := length_bytes ..

theorem decode_encode (hlow : -9223372036854775808 ≤ v) (hhigh : v < 9223372036854775808) :
    decode (encode v) = v := by
  have hpow : Nat.pow 256 8 = 18446744073709551616 := by decide
  have hlt : (v % 18446744073709551616).toNat < Nat.pow 256 8 := by
    omega
  have hcast : ((v % 18446744073709551616).toNat : ℤ) = v % 18446744073709551616 := by omega
  unfold decode encode
  rw [value_bytes_of_lt hlt, Int.bmod_def, hcast]
  split <;> omega

/-- A message: its blocks and the number at its end. -/
structure Framed where
  blocks : List (List UInt8)
  blocks_ne_nil : ∀ block ∈ blocks, block ≠ []
  last : ℤ
  last_nonpos : last ≤ 0
  last_ge : -9223372036854775808 ≤ last

namespace Framed

def bytes (s : Framed) : List UInt8 :=
  s.blocks.flatMap (fun block => encode block.length ++ block) ++ encode s.last

def data (s : Framed) : List UInt8 := s.blocks.flatten

def final (last : ℤ) (hnonpos : last ≤ 0) (hge : -9223372036854775808 ≤ last) : Framed where
  blocks := []
  blocks_ne_nil := fun _ h => by cases h
  last := last
  last_nonpos := hnonpos
  last_ge := hge

def cons (block : List UInt8) (h : block ≠ []) (s : Framed) : Framed where
  blocks := block :: s.blocks
  blocks_ne_nil := List.forall_mem_cons.mpr ⟨h, s.blocks_ne_nil⟩
  last := s.last
  last_nonpos := s.last_nonpos
  last_ge := s.last_ge

variable {last : ℤ} {hnonpos : last ≤ 0} {hge : -9223372036854775808 ≤ last} {block : List UInt8}
  {h : block ≠ []} {s : Framed}

@[simp] theorem bytes_final : (final last hnonpos hge).bytes = encode last := List.nil_append _

@[simp] theorem data_final : (final last hnonpos hge).data = [] := rfl

@[simp] theorem bytes_cons : (cons block h s).bytes = encode block.length ++ block ++ s.bytes := by
  simp [bytes, cons]

@[simp] theorem data_cons : (cons block h s).data = block ++ s.data := rfl

theorem cases_on (s : Framed) :
    s = final s.last s.last_nonpos s.last_ge ∨ ∃ block h, ∃ s' : Framed, s = cons block h s' := by
  obtain ⟨blocks, hne, last, hnonpos, hge⟩ := s
  cases blocks with
  | nil => exact .inl rfl
  | cons block blocks =>
    obtain ⟨hblock, hne⟩ := List.forall_mem_cons.mp hne
    exact .inr ⟨block, hblock, ⟨blocks, hne, last, hnonpos, hge⟩, rfl⟩

end Framed
end Congfs.Framing
