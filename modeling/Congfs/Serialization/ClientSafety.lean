import Congfs.Lib.Run
import Congfs.Serialization.ClientStrings

/-!
# The client stays inside the message

`Keeps n risky ctx ctx'` is what the functions guarantee for a message of `n` bytes. The length of a
message is a field of 32 bits.
-/

namespace Congfs.ClientSerialization

open Serialization

variable {mem : List UInt8} {n : ℕ} {ctx ctx' ctx'' : DeserializeCtx} {risky risky' : Prop}

/-- What is left is in the message, and so is what was read. -/
structure Inside (n : ℕ) (ctx : DeserializeCtx) : Prop where
  fits : ctx.data + ctx.length ≤ n
  inspected : ∀ i ∈ ctx.inspected, i < n

/-- From `ctx` to `ctx'` we stay inside, but read a byte outside if `risky` holds. -/
structure Keeps (n : ℕ) (risky : Prop) (ctx ctx' : DeserializeCtx) : Prop where
  grows : ctx.inspected <+: ctx'.inspected
  inside : Inside n ctx → ¬risky → Inside n ctx'
  outside : Inside n ctx → risky → ∃ i ∈ ctx'.inspected, n ≤ i

namespace Keeps

theorem congr (h : Keeps n risky ctx ctx') (hiff : Inside n ctx → (risky ↔ risky')) :
    Keeps n risky' ctx ctx' where
  grows := h.grows
  inside hin hnot := h.inside hin fun hr => hnot ((hiff hin).mp hr)
  outside hin hr := h.outside hin ((hiff hin).mpr hr)

theorem refl : Keeps n False ctx ctx where
  grows := List.prefix_refl _
  inside hin _ := hin
  outside _ h := h.elim

theorem of_not (h : ¬risky) : Keeps n risky ctx ctx := refl.congr fun _ => iff_of_false id h

theorem trans (h : Keeps n risky ctx ctx') (h' : Keeps n risky' ctx' ctx'') :
    Keeps n (risky ∨ risky') ctx ctx'' where
  grows := h.grows.trans h'.grows
  inside hin hnot := h'.inside (h.inside hin fun hr => hnot (.inl hr)) fun hr => hnot (.inr hr)
  outside hin hr := by
    by_cases hr1 : risky
    · obtain ⟨i, hi, hni⟩ := h.outside hin hr1
      exact ⟨i, h'.grows.subset hi, hni⟩
    · exact h'.outside (h.inside hin hr1) (hr.resolve_left hr1)

theorem andThenSafe (h : Keeps n risky ctx ctx') (h' : Keeps n False ctx' ctx'') :
    Keeps n risky ctx ctx'' :=
  (h.trans h').congr fun _ => by rw [or_false]

theorem safeThen (h : Keeps n False ctx ctx') (h' : Keeps n risky ctx' ctx'') :
    Keeps n risky ctx ctx'' :=
  (h.trans h').congr fun _ => by rw [false_or]

theorem inspect (mem : List UInt8) (start size : ℕ) :
    Keeps n (size ≠ 0 ∧ n < start + size) ctx (ctx.inspect mem start size).2 where
  grows := List.prefix_append _ _
  inside hin hnot := by
    refine ⟨hin.fits, fun i hi => ?_⟩
    rcases List.mem_append.mp hi with hi | hi
    · exact hin.inspected i hi
    · obtain ⟨k, hk, rfl⟩ := List.mem_map.mp hi
      have hk := List.mem_range.mp hk
      omega
  outside _ hr := by
    refine ⟨start + (size - 1), List.mem_append_right _ (List.mem_map.mpr ⟨size - 1, ?_, rfl⟩), ?_⟩
    · exact List.mem_range.mpr (by omega)
    · omega

theorem advance (h : size ≤ ctx.length) : Keeps n False ctx (ctx.advance size) where
  grows := List.prefix_refl _
  inside hin _ := by
    refine ⟨?_, hin.inspected⟩
    have hfits := hin.fits
    simp only [DeserializeCtx.advance, sub64_of_le h]
    omega
  outside _ h := h.elim

theorem raw (size : ℕ) : Keeps n False ctx (deserializeRaw mem size ctx).2 := by
  simp only [deserializeRaw]
  split_ifs with hfit
  · refine ((inspect mem ctx.data size).andThenSafe (advance hfit)).congr fun hin => ?_
    have hfits := hin.fits
    refine iff_of_false ?_ id
    omega
  · exact refl

theorem uint : Keeps n False ctx (deserializeUInt mem ctx).2 := raw 4

theorem andThen {α β : Type} {result : Option α × DeserializeCtx}
    {next : α → DeserializeCtx → Option β × DeserializeCtx} (h : Keeps n risky ctx result.2)
    (h' : ∀ v, result.1 = some v → Keeps n False result.2 (next v result.2).2) :
    Keeps n risky ctx (andThen result next).2 := by
  obtain ⟨_ | v, ctx'⟩ := result
  · exact h
  · exact h.andThenSafe (h' v rfl)

end Keeps

/-! ## Strings -/

def nextUInt (mem : List UInt8) (ctx : DeserializeCtx) :
    ℕ := LittleEndian.value (load mem ctx.data 4)

theorem nextUInt_lt (mem : List UInt8) (ctx : DeserializeCtx) : nextUInt mem ctx < 4294967296 := by
  have hlt := LittleEndian.value_lt (load mem ctx.data 4)
  rw [load, List.length_map, List.length_range] at hlt
  exact hlt

theorem deserializeUInt_of_le (h : 4 ≤ ctx.length) : ∃ inspected,
    deserializeUInt mem ctx = (some (nextUInt mem ctx),
    ⟨ctx.data + 4, ctx.length - 4, inspected⟩) := by
  simp only [deserializeUInt, deserializeRaw, if_pos h, DeserializeCtx.inspect,
    DeserializeCtx.advance, sub64_of_le h]
  exact ⟨_, rfl⟩

theorem deserializeUInt_of_lt (h : ¬4 ≤ ctx.length) : deserializeUInt mem ctx = (none, ctx) := by
  simp only [deserializeUInt, deserializeRaw, if_neg h]

/-- A string whose length field is 2³² - 1. -/
def strOverlong (mem : List UInt8) (ctx : DeserializeCtx) : Prop :=
  4 ≤ ctx.length ∧ nextUInt mem ctx = 4294967295

/-- The zero behind a string is in the message exactly if the sum of the length and 1 was not
cut. -/
theorem terminator_outside_iff (hn : n < 4294967296) (hin : Inside n ctx) (h4 : 4 ≤ ctx.length)
    (hfit : wrap32 (nextUInt mem ctx + 1) ≤ ctx.length - 4) :
    n < ctx.data + 4 + nextUInt mem ctx + 1 ↔ strOverlong mem ctx := by
  have hlt := nextUInt_lt mem ctx
  have hfits := hin.fits
  constructor
  · intro hout
    refine ⟨h4, ?_⟩
    by_contra hne
    rw [wrap32_of_lt (by omega)] at hfit
    omega
  · rintro ⟨-, hmax⟩
    omega

theorem wrap32_max : wrap32 (4294967295 + 1) = 0 := rfl

theorem Keeps.str (hn : n < 4294967296) :
    Keeps n (strOverlong mem ctx) ctx (deserializeStr mem ctx).2 := by
  by_cases h4 : 4 ≤ ctx.length
  · obtain ⟨inspected, huint⟩ := @deserializeUInt_of_le mem ctx h4
    have hlen := @Keeps.uint mem n ctx
    rw [huint] at hlen
    simp only [deserializeStr, huint, ClientSerialization.andThen]
    split
    · rename_i hshort
      refine hlen.congr fun _ => iff_of_false id ?_
      rintro ⟨-, hmax⟩
      rw [hmax, wrap32_max] at hshort
      omega
    · rename_i hfit
      have hterm := hlen.safeThen (.inspect mem (ctx.data + 4 + nextUInt mem ctx) 1)
      have hiff : Inside n ctx → (1 ≠ 0 ∧ n < ctx.data + 4 + nextUInt mem ctx + 1 ↔
          strOverlong mem ctx) := fun hin =>
        (and_iff_right Nat.one_ne_zero).trans (terminator_outside_iff hn hin h4 (by omega))
      split
      · exact hterm.congr hiff
      · exact (hterm.andThenSafe (.advance (by simp only [DeserializeCtx.inspect]; omega))).congr
          hiff
  · simp only [deserializeStr, deserializeUInt_of_lt h4, ClientSerialization.andThen]
    exact .of_not fun h => h4 h.1

/-! ## Network interfaces and nodes -/

theorem Keeps.nicListPreprocess : Keeps n False ctx (deserializeNicListPreprocess mem ctx).2 := by
  refine Keeps.uint.andThen fun elemCount _ => ?_
  dsimp only
  split_ifs with hfit
  · exact Keeps.refl
  · exact Keeps.advance (not_lt.mp hfit)

theorem Keeps.node (hn : n < 4294967296) :
    Keeps n (strOverlong mem ctx) ctx (deserializeNode mem ctx).2 :=
  (Keeps.str hn).andThen fun _ _ => Keeps.nicListPreprocess.andThen fun _ _ =>
    (Keeps.raw 4).andThen fun _ _ => (Keeps.raw 2).andThen fun _ _ =>
      (Keeps.raw 2).andThen fun _ _ => Keeps.raw 1

/-- The name of a node in the list is such a string. -/
def nodesOverlong (mem : List UInt8) : ℕ → DeserializeCtx → Prop
  | 0, _ => False
  | elemCount + 1, ctx => strOverlong mem ctx ∨ (deserializeNode mem ctx).1 ≠ none ∧
      nodesOverlong mem elemCount (deserializeNode mem ctx).2

theorem Keeps.nodes (hn : n < 4294967296) (elemCount : ℕ) :
    Keeps n (nodesOverlong mem elemCount ctx) ctx (deserializeNodes mem elemCount ctx).2 := by
  induction elemCount generalizing ctx with
  | zero => exact Keeps.refl
  | succ elemCount ih =>
    have hnode := @Keeps.node mem n ctx hn
    simp only [deserializeNodes, nodesOverlong]
    generalize deserializeNode mem ctx = result at hnode ⊢
    obtain ⟨_ | v, ctx'⟩ := result
    · exact hnode.congr fun _ => by simp
    · exact (hnode.trans ih).congr fun _ => by simp

def nodeListOverlong (mem : List UInt8) (ctx : DeserializeCtx) : Prop :=
  4 ≤ ctx.length ∧ nodesOverlong mem (nextUInt mem ctx) (deserializeUInt mem ctx).2

theorem Keeps.nodeListPreprocess (hn : n < 4294967296) :
    Keeps n (nodeListOverlong mem ctx) ctx (deserializeNodeListPreprocess mem ctx).2 := by
  have hlen := @Keeps.uint mem n ctx
  by_cases h4 : 4 ≤ ctx.length
  · obtain ⟨inspected, huint⟩ := @deserializeUInt_of_le mem ctx h4
    rw [huint] at hlen
    have hnodes := hlen.safeThen (@Keeps.nodes mem n _ hn (nextUInt mem ctx))
    have hiff : nodesOverlong mem (nextUInt mem ctx) (deserializeUInt mem ctx).2 ↔
        nodeListOverlong mem ctx := (and_iff_right h4).symm
    rw [huint] at hiff
    simp only [deserializeNodeListPreprocess, huint, ClientSerialization.andThen]
    generalize deserializeNodes mem (nextUInt mem ctx) _ = result at hnodes ⊢
    obtain ⟨_ | v, ctx'⟩ := result
    · exact hnodes.congr fun _ => hiff
    · exact hnodes.congr fun _ => hiff
  · simp only [deserializeNodeListPreprocess, deserializeUInt_of_lt h4, ClientSerialization.andThen]
    exact .of_not fun h => h4 h.1

/-- The last byte that is read is the type of the last interface. -/
theorem Keeps.nics (elemCount pos : ℕ) :
    Keeps n (0 < elemCount ∧ n ≤ pos + 24 * (elemCount - 1) + 20) ctx
      (deserializeNics mem elemCount pos ctx).2 := by
  induction elemCount generalizing pos ctx with
  | zero => exact .of_not (by simp)
  | succ elemCount ih =>
    have hnic := ((@Keeps.inspect n ctx mem pos 4).trans (.inspect mem (pos + 4) 16)).trans
      (.inspect mem (pos + 4 + 16) 1)
    refine (hnic.trans (ih (pos + 24))).congr fun _ => ?_
    omega

/-- The number of interfaces times their size does not fit into 32 bits, but what is left of the
product fits into the message. -/
def nicListWraps (mem : List UInt8) (ctx : DeserializeCtx) : Prop :=
  4 ≤ ctx.length ∧ 4294967296 ≤ nextUInt mem ctx * 24 ∧
    wrap32 (nextUInt mem ctx * 24) ≤ ctx.length - 4

/-- A list is read if the first function has found it. -/
def readList {α : Type} (preprocess : DeserializeCtx → Option RawList × DeserializeCtx)
    (read : RawList → DeserializeCtx → α × DeserializeCtx) (ctx : DeserializeCtx) :
    DeserializeCtx :=
  match preprocess ctx with
  | (none, ctx) => ctx
  | (some list, ctx) => (read list ctx).2

theorem Keeps.nicList (hn : n < 4294967296) : Keeps n (nicListWraps mem ctx) ctx
      (readList (deserializeNicListPreprocess mem) (deserializeNicList mem) ctx) := by
  by_cases h4 : 4 ≤ ctx.length
  · obtain ⟨inspected, huint⟩ := @deserializeUInt_of_le mem ctx h4
    have hlen := @Keeps.uint mem n ctx
    rw [huint] at hlen
    have hpre : deserializeNicListPreprocess mem ctx =
        if ctx.length - 4 < wrap32 (nextUInt mem ctx * 24) then
          (none, ⟨ctx.data + 4, ctx.length - 4, inspected⟩)
        else (some ⟨ctx.data + 4, wrap32 (nextUInt mem ctx * 24), nextUInt mem ctx⟩,
          DeserializeCtx.advance ⟨ctx.data + 4, ctx.length - 4, inspected⟩
            (wrap32 (nextUInt mem ctx * 24))) := by
      rw [deserializeNicListPreprocess, huint]
      rfl
    rw [readList, hpre]
    by_cases hfit : ctx.length - 4 < wrap32 (nextUInt mem ctx * 24)
    · rw [if_pos hfit]
      refine hlen.congr fun _ => iff_of_false id ?_
      rintro ⟨-, -, hle⟩
      omega
    · rw [if_neg hfit]
      have hadv := hlen.andThenSafe (.advance (not_lt.mp hfit))
      refine (hadv.safeThen (.nics (nextUInt mem ctx) (ctx.data + 4))).congr fun hin => ?_
      have hfits := hin.fits
      by_cases hwrap : 4294967296 ≤ nextUInt mem ctx * 24
      · refine iff_of_true ?_ ⟨h4, hwrap, not_lt.mp hfit⟩
        omega
      · rw [wrap32_of_lt (by omega)] at hfit
        refine iff_of_false ?_ fun h => hwrap h.2.1
        omega
  · simp only [readList, deserializeNicListPreprocess, deserializeUInt_of_lt h4,
      ClientSerialization.andThen]
    exact .of_not fun h => h4 h.1

/-! ## Nested fields -/

theorem Keeps.part {part part' : DeserializeCtx} (h : Keeps n False part part')
    (hsame : part.inspected = ctx.inspected) (hfit : Inside n ctx → part.data + part.length ≤ n) :
    Keeps n False ctx { ctx with inspected := part'.inspected } where
  grows := hsame ▸ h.grows
  inside hin _ := by
    have hpart := h.inside ⟨hfit hin, hsame ▸ hin.inspected⟩ id
    exact ⟨hin.fits, hpart.inspected⟩
  outside _ h := h.elim

theorem Keeps.nestedField : Keeps n False ctx (deserializeNestedField mem ctx).2 := by
  refine Keeps.uint.andThen fun length _ => ?_
  dsimp only
  split_ifs with hfit
  · exact Keeps.refl
  · exact Keeps.advance (not_lt.mp hfit)

theorem nestedField_some {outCtx : DeserializeCtx}
    (h : (deserializeNestedField mem ctx).1 = some outCtx) :
    outCtx.inspected = (deserializeNestedField mem ctx).2.inspected ∧
      outCtx.data + outCtx.length = (deserializeNestedField mem ctx).2.data ∧ 4 ≤ outCtx.data := by
  by_cases h4 : 4 ≤ ctx.length
  · obtain ⟨inspected, huint⟩ := @deserializeUInt_of_le mem ctx h4
    revert h
    by_cases hfit : ctx.length - 4 < sub32 (nextUInt mem ctx) 4
    · simp [deserializeNestedField, huint, andThen, if_pos hfit]
    · simp only [deserializeNestedField, huint, andThen, if_neg hfit, Option.some.injEq]
      rintro rfl
      exact ⟨rfl, rfl, Nat.le_add_left _ _⟩
  · simp [deserializeNestedField, deserializeUInt_of_lt h4, andThen] at h

section
variable {check : ℕ → DeserializeCtx → Bool × DeserializeCtx}

theorem Keeps.counted
    (hcheck : ∀ elemCount part, 4 ≤ part.data → Keeps n False part (check elemCount part).2) :
    Keeps n False ctx (deserializeCounted mem check ctx).2 := by
  refine Keeps.nestedField.andThen fun outCtx hsome => ?_
  obtain ⟨hsame, hdata, h4⟩ := nestedField_some hsome
  have hcount := @Keeps.uint mem n outCtx
  have hfit : Inside n (deserializeNestedField mem ctx).2 → outCtx.data + outCtx.length ≤ n := by
    intro hin
    have hfits := hin.fits
    omega
  by_cases hlen : 4 ≤ outCtx.length
  · obtain ⟨inspected, huint⟩ := @deserializeUInt_of_le mem outCtx hlen
    rw [huint] at hcount
    simp only [huint]
    exact (hcount.andThenSafe (hcheck _ _ (Nat.le_add_left _ _))).part hsame hfit
  · simp only [deserializeUInt_of_lt hlen]
    exact (Keeps.refl).part hsame hfit

theorem counted_some
    (hcheck : ∀ elemCount part, 4 ≤ part.data → Keeps n False part (check elemCount part).2)
    {list : RawList} (hin : Inside n ctx) (h : (deserializeCounted mem check ctx).1 = some list) :
    list.data + list.length ≤ n ∧ ∃ part, 4 ≤ part.data ∧ (check list.elemCount part).1 ∧
      list.data = (check list.elemCount part).2.data ∧
      list.length = (check list.elemCount part).2.length := by
  have hnested := (@Keeps.nestedField mem n ctx).inside hin id
  have hfield := @nestedField_some mem ctx
  revert h
  simp only [deserializeCounted]
  generalize deserializeNestedField mem ctx = field at hnested hfield ⊢
  obtain ⟨_ | outCtx, ctx'⟩ := field
  · intro h
    cases h
  · obtain ⟨hsame, hdata, h4⟩ := hfield rfl
    have hpart : Inside n outCtx := ⟨hdata ▸ Nat.le_of_add_right_le hnested.fits,
      hsame ▸ hnested.inspected⟩
    simp only [andThen]
    by_cases hlen : 4 ≤ outCtx.length
    · obtain ⟨inspected, huint⟩ := @deserializeUInt_of_le mem outCtx hlen
      have hcount := (@Keeps.uint mem n outCtx).inside hpart id
      rw [huint] at hcount ⊢
      have hchecked := (hcheck (nextUInt mem outCtx) _ (Nat.le_add_left _ _)).inside hcount id
      intro h
      simp only at h hchecked
      split at h
      · rename_i hok
        cases h
        exact ⟨hchecked.fits, _, Nat.le_add_left _ _, hok, rfl, rfl⟩
      · cases h
    · rw [deserializeUInt_of_lt hlen]
      intro h
      cases h

end

/-! ### Strings in a list -/

/-- The last byte of an empty field is that of the count in front of it. -/
theorem Keeps.checkStrCpyList (elemCount : ℕ) (part : DeserializeCtx) (h : 4 ≤ part.data) :
    Keeps n False part (checkStrCpyList mem elemCount part).2 := by
  simp only [ClientSerialization.checkStrCpyList]
  split
  · refine (Keeps.inspect mem (part.data + part.length - 1) 1).congr fun hin => ?_
    have hfits := hin.fits
    refine iff_of_false ?_ id
    omega
  · exact Keeps.refl

theorem strlen_le (h : load mem (start + k) 1 = [0]) : strlen mem start ≤ k := by
  by_cases hlt : start + k < mem.length
  · have hslice : FlatFile.slice mem (start + k) 1 = [0] := by
      rw [FlatFile.slice, List.drop_eq_getElem_cons hlt, List.take_succ_cons, List.take_zero]
      simpa [load, hlt] using h
    exact FlatFile.length_takeWhile_le hslice rfl
  · refine le_trans (List.takeWhile_prefix _).length_le ?_
    rw [List.length_drop]
    omega

/-- What is left of the list ends in a zero, so that no string ends behind it. -/
theorem Keeps.strs (hlt : listBufLen < 4294967296) (hfit : listStart + listBufLen ≤ n)
    (hlast : elemCount ≠ 0 → listBufLen ≠ 0 → load mem (listStart + (listBufLen - 1)) 1 = [0]) :
    Keeps n False ctx (deserializeStrs mem elemCount listStart listBufLen ctx).2 := by
  induction elemCount generalizing listStart listBufLen ctx with
  | zero => exact Keeps.refl
  | succ elemCount ih =>
    simp only [deserializeStrs]
    split_ifs with hpos
    · have hzero := hlast (Nat.succ_ne_zero _) (by omega)
      have hlen := strlen_le hzero
      obtain ⟨rest, hrest⟩ : ∃ rest, listBufLen = strlen mem listStart + 1 + rest :=
        ⟨listBufLen - (strlen mem listStart + 1), by omega⟩
      have hsub : sub32 listBufLen (strlen mem listStart + 1) = rest := by
        rw [hrest]
        exact sub32_add (by omega)
      rw [hsub]
      have hread : Keeps n False ctx (ctx.inspect mem listStart (strlen mem listStart + 1)).2 := by
        refine (Keeps.inspect mem listStart _).congr fun _ => iff_of_false ?_ id
        omega
      refine hread.andThenSafe (ih (by omega) (by omega) fun _ hne => ?_)
      rw [show listStart + (strlen mem listStart + 1) + (rest - 1) =
        listStart + (listBufLen - 1) by omega]
      exact hzero
    · exact Keeps.refl

theorem checkStrCpyList_some (hne : elemCount ≠ 0) (h : (checkStrCpyList mem elemCount part).1) :
    load mem ((checkStrCpyList mem elemCount part).2.data +
      (checkStrCpyList mem elemCount part).2.length - 1) 1 = [0] := by
  simp only [checkStrCpyList, if_pos hne, DeserializeCtx.inspect] at h ⊢
  exact of_decide_eq_true h

theorem inside_strCpyList (hn : n < 4294967296) (hin : Inside n ctx) :
    Inside n (readList (deserializeStrCpyListPreprocess mem) (deserializeStrCpyList mem) ctx) := by
  have hpre := (@Keeps.counted mem n ctx _ (@Keeps.checkStrCpyList mem n)).inside hin id
  have hlist := fun list => @counted_some mem n ctx _ (@Keeps.checkStrCpyList mem n) list hin
  simp only [readList, deserializeStrCpyListPreprocess]
  generalize deserializeCounted mem (checkStrCpyList mem) ctx = pre at hpre hlist ⊢
  obtain ⟨_ | list, ctx'⟩ := pre
  · exact hpre
  · obtain ⟨hfit, part, h4, hok, hdata, hlength⟩ := hlist list rfl
    refine (Keeps.strs (by omega) hfit fun hne hlen => ?_).inside hpre id
    have hzero := checkStrCpyList_some hne hok
    rwa [← hdata, ← hlength, Nat.add_sub_assoc (by omega)] at hzero

/-! ### Numbers in a list -/

theorem Keeps.ushorts (elemCount : ℕ) :
    Keeps n False ctx (deserializeUShorts mem elemCount ctx).2 := by
  induction elemCount generalizing ctx with
  | zero => exact Keeps.refl
  | succ elemCount ih =>
    exact (Keeps.raw 2).andThen fun _ _ => ih.andThen fun _ _ => Keeps.refl

theorem inside_uint16List (hin : Inside n ctx) :
    Inside n (readList (deserializeUInt16ListPreprocess mem) (deserializeUInt16List mem) ctx) := by
  have hcheck : ∀ elemCount part, 4 ≤ part.data →
      Keeps n False part (checkUInt16List elemCount part).2 := fun _ part _ => Keeps.refl
  have hpre := (@Keeps.counted mem n ctx _ hcheck).inside hin id
  have hlist := fun list => @counted_some mem n ctx _ hcheck list hin
  simp only [readList, deserializeUInt16ListPreprocess]
  generalize deserializeCounted mem checkUInt16List ctx = pre at hpre hlist ⊢
  obtain ⟨_ | list, ctx'⟩ := pre
  · exact hpre
  · obtain ⟨hfit, -⟩ := hlist list rfl
    have hvalues := @Keeps.ushorts mem n
      { ctx' with data := list.data, length := list.length } list.elemCount
    exact (@Keeps.part n ctx' _ _ hvalues rfl fun _ => hfit).inside hpre id

/-! ## Calls -/

inductive Call where
  /-- A number of so many bytes. -/
  | raw (size : ℕ)
  | str
  | strAlign4
  | nicList
  | nodeListPreprocess
  | strCpyList
  | uint16List

section
variable (mem : List UInt8) (ctx : DeserializeCtx)

/-- A caller may go on after an error. -/
def call : Call → DeserializeCtx
  | .raw size => (deserializeRaw mem size ctx).2
  | .str => (deserializeStr mem ctx).2
  | .strAlign4 => (deserializeStrAlign4 mem ctx).2
  | .nicList => readList (deserializeNicListPreprocess mem) (deserializeNicList mem) ctx
  | .nodeListPreprocess => (deserializeNodeListPreprocess mem ctx).2
  | .strCpyList => readList (deserializeStrCpyListPreprocess mem) (deserializeStrCpyList mem) ctx
  | .uint16List => readList (deserializeUInt16ListPreprocess mem) (deserializeUInt16List mem) ctx

/-- One byte is in use in the last word of a string, and of the three others one or two are
there. -/
def paddingUnderflows : Prop :=
  nextUInt mem ctx % 4 = 0 ∧ load mem (ctx.data + 4 + nextUInt mem ctx) 1 = [0] ∧
    (ctx.length = 4 + (nextUInt mem ctx + 1) + 1 ∨ ctx.length = 4 + (nextUInt mem ctx + 1) + 2)

/-- What must not stand where a call starts to read. -/
def Risky : Call → Prop
  | .raw _ => False
  | .str => strOverlong mem ctx
  | .strAlign4 => strOverlong mem ctx ∨ paddingUnderflows mem ctx
  | .nicList => nicListWraps mem ctx
  | .nodeListPreprocess => nodeListOverlong mem ctx
  | .strCpyList => False
  | .uint16List => False

end

theorem deserializeStr_cases (h : ¬strOverlong mem ctx) :
    ((deserializeStr mem ctx).1 = none ∧ ¬(4 + (nextUInt mem ctx + 1) ≤ ctx.length ∧
        load mem (ctx.data + 4 + nextUInt mem ctx) 1 = [0])) ∨
      4 + (nextUInt mem ctx + 1) ≤ ctx.length ∧
        load mem (ctx.data + 4 + nextUInt mem ctx) 1 = [0] ∧ ∃ inspected,
          deserializeStr mem ctx = (some (nextUInt mem ctx, ctx.data + 4),
            ⟨ctx.data + 4 + (nextUInt mem ctx + 1), ctx.length - 4 - (nextUInt mem ctx + 1),
              inspected⟩) := by
  by_cases h4 : 4 ≤ ctx.length
  · obtain ⟨inspected, huint⟩ := @deserializeUInt_of_le mem ctx h4
    have hlt := nextUInt_lt mem ctx
    have hmax : nextUInt mem ctx ≠ 4294967295 := fun hmax => h ⟨h4, hmax⟩
    have hwrap : wrap32 (nextUInt mem ctx + 1) = nextUInt mem ctx + 1 := wrap32_of_lt (by omega)
    simp only [deserializeStr, huint, andThen, hwrap, DeserializeCtx.inspect]
    split
    · exact .inl ⟨rfl, by omega⟩
    split
    · rename_i hterm
      exact .inl ⟨rfl, fun hand => hterm hand.2⟩
    · rename_i hfit hterm
      refine .inr ⟨by omega, not_not.mp hterm, ?_⟩
      simp only [DeserializeCtx.advance, sub64_of_le (not_lt.mp hfit)]
      exact ⟨_, rfl⟩
  · rw [deserializeStr, deserializeUInt_of_lt h4]
    exact .inl ⟨rfl, by omega⟩

/-- Skipping the padding looks at nothing. -/
theorem inspected_strAlign4 :
    (deserializeStrAlign4 mem ctx).2.inspected = (deserializeStr mem ctx).2.inspected := by
  simp only [deserializeStrAlign4]
  generalize deserializeStr mem ctx = result
  obtain ⟨_ | str, ctx'⟩ := result
  · rfl
  · simp only [andThen]
    split
    · split <;> rfl
    · rfl

theorem deserializeStrAlign4_of_none (h : (deserializeStr mem ctx).1 = none) :
    (deserializeStrAlign4 mem ctx).2 = (deserializeStr mem ctx).2 := by
  simp only [deserializeStrAlign4]
  generalize deserializeStr mem ctx = result at h ⊢
  obtain ⟨_ | str, ctx'⟩ := result
  · rfl
  · cases h

theorem inside_strAlign4_iff (hn : n < 4294967296) (hin : Inside n ctx) :
    Inside n (deserializeStrAlign4 mem ctx).2 ↔ ¬Risky mem ctx .strAlign4 := by
  have hstr := @Keeps.str mem n ctx hn
  by_cases hover : strOverlong mem ctx
  · refine iff_of_false (fun hin' => ?_) fun h => h (.inl hover)
    obtain ⟨i, hi, hni⟩ := hstr.outside hin hover
    exact not_lt.mpr hni (hin'.inspected i (inspected_strAlign4 ▸ hi))
  have hin' := hstr.inside hin hover
  rw [Risky, or_iff_right hover, paddingUnderflows]
  rcases deserializeStr_cases hover with ⟨hnone, hnot⟩ | ⟨hlen, hterm, inspected, hget⟩
  · rw [deserializeStrAlign4_of_none hnone]
    refine iff_of_true hin' ?_
    rintro ⟨_, hzero, hshort⟩
    exact hnot ⟨by omega, hzero⟩
  · rw [hget] at hin'
    simp only [deserializeStrAlign4, hget, andThen]
    generalize nextUInt mem ctx = len at *
    split
    · rename_i hpad
      split_ifs with hfit
      · exact iff_of_true hin' (by omega)
      · constructor
        · rintro hin'' ⟨hmod, -, hshort⟩
          have hout := hin''.fits
          simp only [DeserializeCtx.advance, sub64] at hout
          rw [if_neg (by omega)] at hout
          omega
        · intro hnot
          refine (Keeps.advance ?_).inside hin' id
          have hor : ¬(ctx.length = 4 + (len + 1) + 1 ∨ ctx.length = 4 + (len + 1) + 2) ∨
            len % 4 ≠ 0 := by
            by_contra hcon
            exact hnot ⟨by omega, hterm, by omega⟩
          simp only
          omega
    · exact iff_of_true hin' (by omega)

theorem Keeps.inside_iff (h : Keeps n risky ctx ctx') (hin : Inside n ctx) :
    Inside n ctx' ↔ ¬risky := by
  refine ⟨fun hin' hr => ?_, h.inside hin⟩
  obtain ⟨i, hi, hni⟩ := h.outside hin hr
  exact not_lt.mpr hni (hin'.inspected i hi)

theorem inside_call_iff (hn : n < 4294967296) (hin : Inside n ctx) :
    Inside n (call mem ctx c) ↔ ¬Risky mem ctx c := by
  cases c with
  | raw size => exact (Keeps.raw size).inside_iff hin
  | str => exact (Keeps.str hn).inside_iff hin
  | strAlign4 => exact inside_strAlign4_iff hn hin
  | nicList => exact (Keeps.nicList hn).inside_iff hin
  | nodeListPreprocess => exact (Keeps.nodeListPreprocess hn).inside_iff hin
  | strCpyList => exact iff_of_true (inside_strCpyList hn hin) id
  | uint16List => exact iff_of_true (inside_uint16List hin) id

theorem inside_start : Inside n ⟨0, n, []⟩ := ⟨by simp, by simp⟩

theorem calls_inside_iff {message : List UInt8} (hn : message.length < 4294967296)
    (behind : List UInt8) (calls : List Call) :
    EveryState (call (message ++ behind)) (Inside message.length) ⟨0, message.length, []⟩ calls ↔
      EveryStep (call (message ++ behind)) (fun ctx c => ¬Risky (message ++ behind) ctx c)
        ⟨0, message.length, []⟩ calls := by
  refine @everyState_iff_of_inv _ _ _ (Inside message.length) _ _ (fun _ hin => hin) ?_ ?_ _
    inside_start calls
  · exact fun ctx c hin hsafe => (inside_call_iff hn hin).mpr hsafe
  · exact fun ctx c hin hrisky hin' => hrisky ((inside_call_iff hn hin).mp hin')

theorem calls_inside_nameAndList :
    EveryState (call ([1, 0, 0, 0, 97, 0, 10, 0, 0, 0, 1, 0, 0, 0, 7, 0] ++ [1])) (Inside 16)
      ⟨0, 16, []⟩ [.str, .uint16List] := by
  refine (@calls_inside_iff [1, 0, 0, 0, 97, 0, 10, 0, 0, 0, 1, 0, 0, 0, 7, 0] (by decide) [1]
    [.str, .uint16List]).mpr ⟨fun h => ?_, id, trivial⟩
  exact absurd h.2 (by decide)

/-- A string of 2³² - 1 bytes is read outside, the padding of an empty string makes the length wrap,
and so many interfaces that 24 times their number wraps are all read. -/
theorem calls_leave_message : ¬Inside 4 (call [255, 255, 255, 255] ⟨0, 4, []⟩ .str) ∧
      ¬Inside 6 (call [0, 0, 0, 0, 0, 7] ⟨0, 6, []⟩ .strAlign4) ∧
      ¬Inside 12 (call [171, 170, 170, 10, 0, 0, 0, 0, 0, 0, 0, 0] ⟨0, 12, []⟩ .nicList) := by
  refine ⟨fun h => ?_, fun h => ?_, fun h => ?_⟩
  · exact absurd (h.inspected (4 + 4294967295) (by decide)) (by decide)
  · exact absurd h.fits (by decide)
  · exact (inside_call_iff (by decide) inside_start).mp h ⟨by decide, by decide, by decide⟩

end Congfs.ClientSerialization
