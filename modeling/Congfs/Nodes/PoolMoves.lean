import Congfs.Nodes.StoragePools
import Mathlib.Data.Finset.Max

/-!
# The mutexes of a pool move

`moveBuddyGroup` locks the mutex of the pool it takes the group from and then that of the pool it
moves the group to, in the order of the call. Mutexes are not recursive. The lock of the store is
shared by all of these calls, so that none of them waits for it. Calls that go around in a circle,
and calls from a pool to itself, wait forever.
-/

namespace Congfs.PoolMoves

/-- Where a call is. Pools are given by their ids until they are found. -/
inductive MoveCall
  | waiting (fromPoolId toPoolId : StoragePoolId)
  /-- The next mutex to lock is that of the first pool. -/
  | lockFrom (fromPool toPool : ℕ)
  | lockTo (fromPool toPool : ℕ)
  | moving (fromPool toPool : ℕ)
  /-- The guards unlock in reverse order. -/
  | unlockFrom (fromPool : ℕ)
  deriving DecidableEq

/-- The shared state are the mutexes that are locked. -/
def moveBuddyGroup (getPoolUnlocked : StoragePoolId → Option ℕ) :
    Program (Finset ℕ) MoveCall (StoragePoolId × StoragePoolId) Unit Unit where
  start request := .waiting request.1 request.2
  next locked call _ :=
    match call with
    | .waiting fromPoolId toPoolId =>
      match getPoolUnlocked fromPoolId, getPoolUnlocked toPoolId with
      | some fromPool, some toPool => (locked, .inl (.lockFrom fromPool toPool))
      | _, _ => (locked, .inr ())
    | .lockFrom fromPool toPool =>
      if fromPool ∈ locked then (locked, .inl call)
      else (insert fromPool locked, .inl (.lockTo fromPool toPool))
    | .lockTo fromPool toPool =>
      if toPool ∈ locked then (locked, .inl call)
      else (insert toPool locked, .inl (.moving fromPool toPool))
    | .moving fromPool toPool => (locked.erase toPool, .inl (.unlockFrom fromPool))
    | .unlockFrom fromPool => (locked.erase fromPool, .inr ())

namespace MoveCall

def held : MoveCall → List ℕ
  | .waiting .. | .lockFrom .. => []
  | .lockTo fromPool _ | .unlockFrom fromPool => [fromPool]
  | .moving fromPool toPool => [fromPool, toPool]

def wanted : MoveCall → Option ℕ
  | .lockFrom fromPool _ => some fromPool
  | .lockTo _ toPool => some toPool
  | _ => none

end MoveCall

/-- Each of some calls waits for a mutex that one of them holds. -/
def Deadlock (calls : List MoveCall) : Prop :=
  ∃ S ≠ [], S ⊆ calls ∧ ∀ call ∈ S, ∃ other ∈ S, ∃ pool ∈ other.held, call.wanted = some pool

variable {getPoolUnlocked : StoragePoolId → Option ℕ} {rank : ℕ → ℕ} {calls : List MoveCall}

/-- Where the pools of a call are found, the second one has the higher rank. -/
def Ascends (getPoolUnlocked : StoragePoolId → Option ℕ) (rank : ℕ → ℕ) : MoveCall → Prop
  | .waiting fromPoolId toPoolId => ∀ fromPool toPool, getPoolUnlocked fromPoolId = some fromPool →
      getPoolUnlocked toPoolId = some toPool → rank fromPool < rank toPool
  | _ => True

/-- The pools that were found are in order. -/
def Ranked (rank : ℕ → ℕ) : MoveCall → Prop
  | .lockFrom fromPool toPool | .lockTo fromPool toPool | .moving fromPool toPool =>
    rank fromPool < rank toPool
  | _ => True

theorem ranked_next (hcall : Ranked rank call) (hc : Ascends getPoolUnlocked rank call)
    (h : ((moveBuddyGroup getPoolUnlocked).next locked call ()).2 = .inl call') :
    Ranked rank call' := by
  cases call with
  | waiting fromPoolId toPoolId =>
    simp only [moveBuddyGroup] at h
    split at h
    · cases h
      exact hc _ _ ‹_› ‹_›
    · cases h
  | lockFrom fromPool toPool | lockTo fromPool toPool =>
    simp only [moveBuddyGroup] at h
    split at h <;> cases h <;> exact hcall
  | moving fromPool toPool =>
    cases h
    trivial
  | unlockFrom fromPool => cases h

theorem ranked_invariant :
    (moveBuddyGroup getPoolUnlocked).Invariant (fun _ call _ => Ascends getPoolUnlocked rank call)
      fun _ calls => ∀ call ∈ calls, Ranked rank call where
  perm _ _ _ hperm h call hmem := h call (hperm.mem_iff.mpr hmem)
  start _ _ _ h := List.forall_mem_cons.mpr ⟨trivial, h⟩
  next locked call _ calls hc h := by
    obtain ⟨hcall, hcalls⟩ := List.forall_mem_cons.mp h
    cases hnext : ((moveBuddyGroup getPoolUnlocked).next locked call ()).2 with
    | inl call' => exact List.forall_mem_cons.mpr ⟨ranked_next hcall hc hnext, hcalls⟩
    | inr _ => exact hcalls

/-- A call that waits and holds a mutex waits for one of a higher rank. -/
theorem not_deadlock_of_ranked (h : ∀ call ∈ calls, Ranked rank call) : ¬Deadlock calls := by
  rintro ⟨S, hne, hsub, hS⟩
  obtain ⟨first, hfirst⟩ := List.exists_mem_of_ne_nil S hne
  -- of the calls, one waits for a mutex of the highest rank
  obtain ⟨call, hcall, hmax⟩ := S.toFinset.exists_max_image (fun call =>
    (call.wanted.map rank).getD 0)
    ⟨first, List.mem_toFinset.mpr hfirst⟩
  obtain ⟨other, hother, pool, hpool, hwanted⟩ := hS call (List.mem_toFinset.mp hcall)
  have hle := hmax other (List.mem_toFinset.mpr hother)
  have hranked := h other (hsub hother)
  obtain ⟨-, -, pool', -, hwanted'⟩ := hS other hother
  rw [hwanted, hwanted'] at hle
  cases other with
  | waiting | lockFrom => cases hpool
  | lockTo fromPool toPool =>
    obtain rfl := List.mem_singleton.mp hpool
    cases hwanted'
    exact Nat.not_lt.mpr hle hranked
  | moving | unlockFrom => cases hwanted'

/-- In a run where the pools can be ranked such that every call goes up, the calls never wait for
each other. -/
theorem moveBuddyGroup_never_deadlocks (getPoolUnlocked : StoragePoolId → Option ℕ) (rank : ℕ → ℕ)
    (actions : List (Program.Action (StoragePoolId × StoragePoolId) Unit))
    (h : EveryStep (moveBuddyGroup getPoolUnlocked).step
      (Program.OfSection fun _ call _ => Ascends getPoolUnlocked rank call) ⟨∅, []⟩ actions) :
    EveryState (moveBuddyGroup getPoolUnlocked).step (fun s => ¬Deadlock s.calls) ⟨∅, []⟩ actions :=
  ranked_invariant.everyState (fun _ hcalls => not_deadlock_of_ranked hcalls) (by simp) h

/-- Two calls go from pool 1 to pool 2, and the second one waits for the first one. -/
theorem moveBuddyGroup_never_deadlocks_upward :
    EveryState (moveBuddyGroup fun id => some id.toNat).step (fun s => ¬Deadlock s.calls) ⟨∅, []⟩
      [.start (1, 2), .start (1, 2), .advance 0 (), .advance 1 (), .advance 0 (),
      .advance 1 ()] := by
  refine moveBuddyGroup_never_deadlocks _ id _ ⟨trivial, trivial, ?_, ?_, ?_, ?_, trivial⟩
  · rintro call ⟨⟩ _ _ ⟨⟩ ⟨⟩
    decide
  · rintro call ⟨⟩ _ _ ⟨⟩ ⟨⟩
    decide
  · rintro call ⟨⟩
    trivial
  · rintro call ⟨⟩
    trivial

/-- Calls in opposite directions, and a call from a pool to itself. -/
theorem moveBuddyGroup_deadlocks :
    Deadlock (run (moveBuddyGroup fun id => some id.toNat).step ⟨∅, []⟩ [.start (1, 2),
      .start (2, 1), .advance 0 (), .advance 1 (), .advance 0 (), .advance 1 ()]).calls ∧
    Deadlock (run (moveBuddyGroup fun id => some id.toNat).step ⟨∅, []⟩ [.start (1, 1),
      .advance 0 (), .advance 0 ()]).calls := by
  exact ⟨⟨[.lockTo 1 2, .lockTo 2 1], by decide, by decide, by decide⟩,
    [.lockTo 1 1], by decide, by decide, by decide⟩

end Congfs.PoolMoves
