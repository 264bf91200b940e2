import Congfs.Serialization.Serdes

/-!
# What an operation writes and reads

`Writes put bytes` says that `put` appends `bytes` to what was serialized, and counts them in a dry
run; `Reads get v bytes` that `get` takes `bytes` from the buffer and gives `v`, whatever stands
before and behind them. Operations that follow each other write and read what follows each other.
-/

namespace Congfs.Serialization

open FlatFile

variable {α β : Type*} {put put' : Serializer → Serializer} {bytes bytes' : List UInt8}

structure Writes (put : Serializer → Serializer) (bytes : List UInt8) : Prop where
  dry : ∀ ser : Serializer, ser.buffer = none → ser.bufferOffset < 4294967296 →
    (put ser).buffer = none ∧ (put ser).bufferOffset = wrap32 (ser.bufferOffset + bytes.length)
  wet : ∀ (buffer : List UInt8) (offset : ℕ), offset + bytes.length ≤ buffer.length →
    buffer.length < 4294967296 → put ⟨some buffer, buffer.length, offset⟩ =
      ⟨some (overwrite 0 buffer offset bytes), buffer.length, offset + bytes.length⟩

/-- The buffer is not empty, as an empty one counts as an error. -/
def Reads (get : Deserializer → α × Deserializer) (v : α) (bytes : List UInt8) : Prop :=
  ∀ buffer before after inspected, buffer = before ++ bytes ++ after → buffer ≠ [] →
    buffer.length < 4294967296 → ∃ inspected',
      get ⟨buffer, buffer.length, before.length, inspected⟩ =
        (v, ⟨buffer, buffer.length, before.length + bytes.length, inspected'⟩)

theorem wrap32_of_lt (h : n < 4294967296) : wrap32 n = n := Nat.mod_eq_of_lt h

theorem wrap32_lt : wrap32 n < 4294967296 := Nat.mod_lt _ (by decide)

theorem wrap32_wrap32_add : wrap32 (wrap32 n + m) = wrap32 (n + m) := by
  simp [wrap32, Nat.add_mod]

theorem length_overwrite (h : offset + bytes.length ≤ buffer.length) :
    (overwrite 0 buffer offset bytes).length = buffer.length := by
  by_cases hnil : bytes = []
  · simp [hnil]
  · rw [overwrite_of_ne_nil hnil]
    simp only [List.length_append, length_padded, List.length_drop]
    omega

/-! ## Writing -/

theorem Writes.putBlock (bytes : List UInt8) : Writes (·.putBlock bytes) bytes where
  dry ser h _ := by simp [Serializer.putBlock, h]
  wet buffer offset hfit hsize := by
    simp only [Serializer.putBlock, if_pos hfit, wrap32_of_lt (Nat.lt_of_le_of_lt hfit hsize)]

theorem Writes.nil : Writes id [] where
  dry ser h hlt := ⟨h, (wrap32_of_lt hlt).symm⟩
  wet buffer offset _ _ := by simp

theorem Writes.comp (h : Writes put bytes) (h' : Writes put' bytes') :
    Writes (fun ser => put' (put ser)) (bytes ++ bytes') where
  dry ser hser hlt := by
    obtain ⟨hnone, hoff⟩ := h.dry ser hser hlt
    obtain ⟨hnone', hoff'⟩ := h'.dry (put ser) hnone (hoff ▸ wrap32_lt)
    refine ⟨hnone', ?_⟩
    rw [hoff', hoff, wrap32_wrap32_add, List.length_append, Nat.add_assoc]
  wet buffer offset hfit hsize := by
    rw [List.length_append] at hfit
    have hlen : (overwrite 0 buffer offset bytes).length = buffer.length :=
      length_overwrite (by omega)
    have hwet' := h'.wet (overwrite 0 buffer offset bytes) (offset + bytes.length)
      (by omega) (by omega)
    rw [hlen] at hwet'
    rw [h.wet buffer offset (by omega) hsize, hwet', overwrite_append, List.length_append,
      Nat.add_assoc]

theorem Writes.size_dryRun (h : Writes put bytes) (hsize : bytes.length < 4294967296) :
    (put .dryRun).size = bytes.length := by
  obtain ⟨-, hoff⟩ := h.dry .dryRun rfl (by decide)
  rw [Serializer.size, hoff, Serializer.dryRun, Nat.zero_add, wrap32_of_lt hsize]

theorem Writes.put_ofBuffer (h : Writes put bytes) (hne : bytes ≠ [])
    (hsize : bytes.length < 4294967296) (hbuf : buffer.length = bytes.length) :
    put (.ofBuffer buffer) = ⟨some bytes, bytes.length, bytes.length⟩ := by
  have hwet := h.wet buffer 0 (by omega) (by omega)
  have hover : overwrite 0 buffer 0 bytes = bytes := by
    rw [overwrite_of_ne_nil hne, padded, Nat.zero_add, ← hbuf, List.drop_length]
    simp
  rw [hover, Nat.zero_add, hbuf] at hwet
  rw [Serializer.ofBuffer, hbuf]
  exact hwet

/-! ## Reading -/

theorem Reads.pure (v : α) : Reads (fun des => (v, des)) v [] := by
  intro buffer before after inspected _ _ _
  exact ⟨inspected, rfl⟩

variable {get : Deserializer → α × Deserializer}

theorem Reads.bind {v : α} (h : Reads get v bytes)
    {get' : α → Deserializer → β × Deserializer} {w : β} (h' : Reads (get' v) w bytes') :
    Reads (fun des => get' (get des).1 (get des).2) w (bytes ++ bytes') := by
  intro buffer before after inspected hbuf hne hsize
  obtain ⟨inspected1, h1⟩ := h buffer before (bytes' ++ after) inspected (by simp [hbuf]) hne hsize
  obtain ⟨inspected2, h2⟩ := h' buffer (before ++ bytes) after inspected1 (by simp [hbuf]) hne hsize
  rw [List.length_append] at h2
  refine ⟨inspected2, ?_⟩
  simp only [h1, h2, List.length_append, Nat.add_assoc]

theorem good_of_le {des : Deserializer} (hne : des.bufferSize ≠ 0)
    (hle : des.bufferOffset ≤ des.bufferSize) : des.good := by
  simp [Deserializer.good, hne, hle]

/-- What is left when the first operation failed plays no role. -/
theorem Reads.bindGood {v : α} (h : Reads get v bytes)
    {fail get' : α → Deserializer → β × Deserializer} {w : β} (h' : Reads (get' v) w bytes') :
    Reads (fun des => if ¬(get des).2.good then fail (get des).1 (get des).2
      else get' (get des).1 (get des).2) w (bytes ++ bytes') := by
  intro buffer before after inspected hbuf hne hsize
  obtain ⟨inspected', hget⟩ := h.bind h' buffer before after inspected hbuf hne hsize
  refine ⟨inspected', ?_⟩
  obtain ⟨inspected1, h1⟩ := h buffer before (bytes' ++ after) inspected (by simp [hbuf]) hne hsize
  have hgood : (get ⟨buffer, buffer.length, before.length, inspected⟩).2.good := by
    rw [h1]
    refine good_of_le (fun h => hne (List.length_eq_zero_iff.mp h)) ?_
    simp only [hbuf, List.length_append]
    omega
  simp only [hgood, not_true_eq_false, if_false]
  exact hget

theorem Reads.get_ofBuffer {get : Deserializer → α × Deserializer} (h : Reads get v bytes)
    (hne : bytes ≠ []) (hafter : (bytes ++ after).length < 4294967296) :
    ∃ des, get (.ofBuffer (bytes ++ after)) = (v, des) ∧ des.good ∧ des.size = bytes.length := by
  have hpos := List.length_pos_of_ne_nil hne
  obtain ⟨inspected, hget⟩ := h (bytes ++ after) [] after [] rfl
    (List.append_ne_nil_of_left_ne_nil hne _) hafter
  refine ⟨_, hget, good_of_le ?_ ?_, ?_⟩
  · simp only [List.length_append]
    omega
  · simp
  · simp [Deserializer.size]

theorem Reads.getBlock (bytes : List UInt8) :
    Reads (fun des => des.getBlock bytes.length) bytes bytes := by
  intro buffer before after inspected hbuf _ hsize
  have hfit : before.length + bytes.length ≤ buffer.length := by
    rw [hbuf]
    simp
  have hslice : slice buffer before.length bytes.length = bytes := by
    simp [slice, hbuf]
  simp only [Deserializer.getBlock, if_pos hfit, Deserializer.inspect, hslice,
    wrap32_of_lt (Nat.lt_of_le_of_lt hfit hsize)]
  exact ⟨_, rfl⟩

end Congfs.Serialization
