import Congfs.Lib.Fuel
import Congfs.Nodes.TargetCapacityPools

/-!
# Choosing the targets of a new file

A new file is given targets from the pools, if possible from those with enough free space, and if
possible those that its creator prefers. The pools are walked as rings, from a random element on. A
walk without preferences takes one target from each of as many parts of the ring as are wanted; one
with preferences walks the list of the preferred targets first, and then the pool until enough
targets were found that were not taken before.

The numbers that are drawn are an input. Callers pass an empty vector for the result.
-/

namespace Congfs

variable {α : Type}

/-- Why a call has no result. -/
inductive Fault
  | divisionByZero
  /-- A loop has not ended yet. -/
  | running
  deriving DecidableEq, Repr

/-- What `rand_r` gives from now on. -/
abbrev Random := ℕ → ℕ

abbrev Chooser := StateT Random (Except Fault)

namespace Random

def getNextInt : Chooser ℕ := fun random => .ok (random 0, fun i => random (i + 1))

/-- Both bounds are inclusive. -/
def getNextInRange (min max : ℕ) : Chooser ℕ := do
  let randVal ← getNextInt
  if max + 1 - min = 0 then throw .divisionByZero else return min + randVal % (max + 1 - min)

end Random

/-! ## Rings -/

/-- Behind the last element follows the first. -/
def moveIterToNextRingElem {collection : List α} (iter : Fin collection.length) :
    Fin collection.length :=
  if h : iter + 1 < collection.length then ⟨iter + 1, h⟩ else ⟨0, Nat.zero_lt_of_lt iter.isLt⟩

/-- The increments do not reach the end. -/
def moveIterToRandomElem (collection : List α) (h : collection ≠ []) :
    Chooser (Fin collection.length) :=
  let begin : Fin collection.length := ⟨0, List.length_pos_iff.mpr h⟩
  if collection.length < 2 then pure begin
  else do
    let randInt ← Random.getNextInRange 0 (collection.length - 1)
    return moveIterToNextRingElem^[randInt] begin

namespace TargetChooser

/-! ## Without preferred targets -/

/-- The loop over the parts, `k` of which are left. The last part has the remainder. -/
def chooseFromParts (activeTargets : List UInt16) (numTargets partSize : ℕ) :
    (k i : ℕ) → Fin activeTargets.length → List UInt16 → Chooser (List UInt16)
  | 0, _, _, outTargets => pure outTargets
  | k + 1, i, iter, outTargets => do
    let rangeMin := i * partSize
    let rangeMax := if i = numTargets - 1 then activeTargets.length - 1 else rangeMin + partSize - 1
    let next ← Random.getNextInRange rangeMin rangeMax
    let chosen := moveIterToNextRingElem^[next - rangeMin] iter
    chooseFromParts activeTargets numTargets partSize k (i + 1)
      (moveIterToNextRingElem^[rangeMax + 1 - next] chosen)
      (outTargets ++ [activeTargets.get chosen])

def chooseStorageNodesNoPref (activeTargets : UInt16Set) (numTargets : ℕ)
    (outTargets : List UInt16) : Chooser (List UInt16) :=
  if h : activeTargets.toList = [] then pure outTargets
  else
    let activeTargetsSize := activeTargets.toList.length
    let numTargets := if numTargets > activeTargetsSize then activeTargetsSize else numTargets
    if numTargets = 0 then throw .divisionByZero
    else do
      let iter ← moveIterToRandomElem activeTargets.toList h
      chooseFromParts activeTargets.toList numTargets (activeTargetsSize / numTargets)
        numTargets 0 iter outTargets

/-! ## With preferred targets -/

/-- The targets in the order they were chosen, and as a set. -/
structure Selection where
  outTargets : List UInt16
  chosenTargets : UInt16Set

def Selection.push (selection : Selection) (targetID : UInt16) : Selection :=
  ⟨selection.outTargets ++ [targetID], selection.chosenTargets.insert targetID⟩

/-- Stage 1: the preferred targets that are in the pool, with `k` to look at. The first result is
the number of targets that are still wanted. -/
def addPreferred (activeTargets : UInt16Set) {preferredTargets : List UInt16} :
    (k : ℕ) → Fin preferredTargets.length → (numTargets : ℕ) → Selection → ℕ × Selection
  | 0, _, numTargets, selection => (numTargets, selection)
  | k + 1, iter, numTargets, selection =>
    let targetID := preferredTargets.get iter
    if numTargets = 0 then (numTargets, selection)
    else if targetID ∈ activeTargets ∧ targetID ∉ selection.chosenTargets then
      addPreferred activeTargets k (moveIterToNextRingElem iter) (numTargets - 1)
        (selection.push targetID)
    else addPreferred activeTargets k (moveIterToNextRingElem iter) numTargets selection

/-- Stage 2: any targets of the pool. -/
def addActive {activeTargets : List UInt16} :
    (fuel : ℕ) → Fin activeTargets.length → (numTargets : ℕ) → Selection → Except Fault Selection
  | 0, _, _, _ => .error .running
  | fuel + 1, iter, numTargets, selection =>
    let targetID := activeTargets.get iter
    if numTargets = 0 then .ok selection
    else if targetID ∉ selection.chosenTargets then
      addActive fuel (moveIterToNextRingElem iter) (numTargets - 1) (selection.push targetID)
    else addActive fuel (moveIterToNextRingElem iter) numTargets selection

def chooseStorageNodesWithPref (fuel : ℕ) (activeTargets : UInt16Set) (numTargets : ℕ)
    (preferredTargets : List UInt16) (hpref : preferredTargets ≠ [])
    (allowNonPreferredTargets : Bool) (selection : Selection) : Chooser Selection :=
  if h : activeTargets.toList = [] then pure selection
  else do
    let activeTargetsSize := activeTargets.toList.length
    let numTargets := if numTargets > activeTargetsSize then activeTargetsSize else numTargets
    let preferredIter ← moveIterToRandomElem preferredTargets hpref
    let preferred := addPreferred activeTargets preferredTargets.length preferredIter
      numTargets selection
    if allowNonPreferredTargets ∧ preferred.1 ≠ 0 then
      let activeTargetsIter ← moveIterToRandomElem activeTargets.toList h
      liftM (addActive fuel activeTargetsIter preferred.1 preferred.2)
    else return preferred.2

end TargetChooser

open TargetChooser

/-! ## The two kinds of pools -/

section
variable (pools : CapacityPoolType → UInt16Set) (numTargets minNumRequiredTargets : UInt32)

/-- The first two pools are tried only if they are not empty. -/
def chooseStorageTargetsNoPref : Chooser (List UInt16) :=
  tryPool .normal [] fun outTargets =>
    tryPool .low outTargets fun outTargets =>
      chooseStorageNodesNoPref (pools .emergency) numTargets.toNat outTargets
where
  /-- The pool may have enough targets. -/
  tryPool (poolType : CapacityPoolType) (outTargets : List UInt16)
      (next : List UInt16 → Chooser (List UInt16)) : Chooser (List UInt16) :=
    if (pools poolType).toList = [] then next outTargets
    else do
      let outTargets ← chooseStorageNodesNoPref (pools poolType)
        (numTargets - UInt32.ofNat outTargets.length).toNat outTargets
      if minNumRequiredTargets.toNat ≤ outTargets.length then return outTargets else next outTargets

end

section
variable (fuel : ℕ) (pools : CapacityPoolType → UInt16Set)
    (numTargets minNumRequiredTargets : UInt32)
  (preferredTargets : List UInt16) (hpref : preferredTargets ≠ [])

/-- One of the calls of `chooseStorageNodesWithPref`. -/
def choosePool (poolType : CapacityPoolType) (numTargets : UInt32) (allowNonPreferredTargets : Bool)
    (selection : Selection) : Chooser Selection :=
  chooseStorageNodesWithPref fuel (pools poolType) numTargets.toNat preferredTargets hpref
    allowNonPreferredTargets selection

def remaining (numTargets : UInt32) (selection : Selection) : UInt32 :=
  numTargets - UInt32.ofNat selection.outTargets.length

/-- The emergency pool, first with preference and then without. -/
def chooseEmergency (selection : Selection) : Chooser (List UInt16) := do
  let selection ← choosePool fuel pools preferredTargets hpref .emergency numTargets false selection
  if ¬selection.outTargets.isEmpty then return selection.outTargets else
  let selection ← choosePool fuel pools preferredTargets hpref .emergency numTargets true selection
  return selection.outTargets

/-- The other two pools without preference. From here on both kinds of pools do the same. -/
def chooseNonPreferred (selection : Selection) : Chooser (List UInt16) := do
  let selection ← choosePool fuel pools preferredTargets hpref .normal numTargets true selection
  if minNumRequiredTargets.toNat ≤ selection.outTargets.length then return selection.outTargets else
  let selection ←
    choosePool fuel pools preferredTargets hpref .low (remaining numTargets selection)
      true selection
  if ¬selection.outTargets.isEmpty then return selection.outTargets else
  chooseEmergency fuel pools numTargets preferredTargets hpref selection

end

def TargetCapacityPools.chooseStorageTargets (fuel : ℕ) (s : TargetCapacityPools)
    (numTargets minNumRequiredTargets : UInt32) (preferredTargets : List UInt16) :
    Chooser (List UInt16) :=
  if hpref : preferredTargets = [] then
    chooseStorageTargetsNoPref s.pools numTargets minNumRequiredTargets
  else do
    let selection ← choosePool fuel s.pools preferredTargets hpref .normal numTargets false ⟨[], ∅⟩
    if minNumRequiredTargets.toNat ≤ selection.outTargets.length then
      return selection.outTargets else
    let selection ←
      choosePool fuel s.pools preferredTargets hpref .low (remaining numTargets selection)
        false selection
    -- The negation binds more tightly than the comparison.
    if minNumRequiredTargets.toNat ≤ (!selection.outTargets.isEmpty).toNat then
      return selection.outTargets else
    chooseNonPreferred fuel s.pools numTargets minNumRequiredTargets preferredTargets
      hpref selection

/-- Pools of metadata servers, and of buddy groups. -/
structure NodeCapacityPools where
  pools : CapacityPoolType → UInt16Set

def NodeCapacityPools.chooseStorageTargets (fuel : ℕ) (s : NodeCapacityPools)
    (numTargets minNumRequiredTargets : UInt32) (preferredTargets : List UInt16) :
    Chooser (List UInt16) :=
  if hpref : preferredTargets = [] then
    chooseStorageTargetsNoPref s.pools numTargets minNumRequiredTargets
  else do
    let selection ← choosePool fuel s.pools preferredTargets hpref .normal numTargets false ⟨[], ∅⟩
    if minNumRequiredTargets.toNat ≤ selection.outTargets.length then
      return selection.outTargets else
    let selection ←
      choosePool fuel s.pools preferredTargets hpref .low (remaining numTargets selection)
        false selection
    if ¬selection.outTargets.isEmpty then return selection.outTargets else
    chooseNonPreferred fuel s.pools numTargets minNumRequiredTargets preferredTargets
      hpref selection

end Congfs
