import Congfs.Lib.Threads
import Congfs.Nodes.BuddyGroupMapper
import Mathlib.Data.Finset.Basic

/-!
# Storage pools

A storage pool is a set of targets and a set of buddy groups. `StoragePoolStore` holds the pools by
their ids under a read-write lock, and each pool has a mutex of its own. A call that only reads the
map of pools takes the read lock, so several of them change pools at the same time; `removePool`
empties a pool without the lock of the store.

Pools are objects behind shared pointers: a pool that was removed lives on as long as a call points
to it, and another one can have its id by then. A pointer is an index into `objects`.
-/

namespace Congfs

abbrev StoragePoolId := UInt16

inductive PoolMember
  | target (targetId : UInt16)
  | buddyGroup (buddyGroupId : UInt16)
  deriving DecidableEq, Repr

structure StoragePool where
  id : StoragePoolId
  targets : UInt16Set
  buddyGroups : UInt16Set

namespace StoragePool

variable (pool : StoragePool)

/-- `hasTarget`, `hasBuddyGroup` -/
def has : PoolMember → Bool
  | .target targetId => targetId ∈ pool.targets
  | .buddyGroup buddyGroupId => buddyGroupId ∈ pool.buddyGroups

/-- `addTarget`, `addBuddyGroup` -/
def add : PoolMember → StoragePool
  | .target targetId => { pool with targets := pool.targets.insert targetId }
  | .buddyGroup buddyGroupId => { pool with buddyGroups := pool.buddyGroups.insert buddyGroupId }

/-- What `removeTarget` and `removeBuddyGroup` leave. They return whether the member was there. -/
def remove : PoolMember → StoragePool
  | .target targetId => { pool with targets := pool.targets.erase targetId }
  | .buddyGroup buddyGroupId => { pool with buddyGroups := pool.buddyGroups.erase buddyGroupId }

/-- What `getAndRemoveTargets` leaves. It returns the targets. -/
def removeTargets : StoragePool := { pool with targets := ∅ }

def removeBuddyGroups : StoragePool := { pool with buddyGroups := ∅ }

end StoragePool

structure StoragePoolStore where
  objects : List StoragePool
  storagePools : UInt16Map ℕ
  readers : ℕ
  writer : Bool
  /-- The members that were added and not removed, for the specification. -/
  added : Finset PoolMember

namespace StoragePoolStore

def DEFAULT_POOL_ID : StoragePoolId := 1

def INVALID_POOL_ID : StoragePoolId := 0

def init : StoragePoolStore where
  objects := [⟨DEFAULT_POOL_ID, ∅, ∅⟩]
  storagePools := (∅ : UInt16Map ℕ).assign DEFAULT_POOL_ID 0
  readers := 0
  writer := false
  added := ∅

variable (m : StoragePoolStore)

section
variable (pool : ℕ) (x : PoolMember)

def has : Bool :=
  match m.objects[pool]? with
  | some p => p.has x
  | none => false

def modify (f : StoragePool → StoragePool) : StoragePoolStore :=
  { m with objects := m.objects.modify pool f }

def add : StoragePoolStore :=
  m.modify pool fun p => p.add x

def remove : StoragePoolStore :=
  m.modify pool fun p => p.remove x

end

/-! ## The lock of the store -/

inductive Lock
  | read
  | write
  deriving DecidableEq, Repr

def Lock.busy : Lock → Bool
  | read => m.writer
  | write => m.writer || m.readers != 0

def acquire : Lock → StoragePoolStore
  | .read => { m with readers := m.readers + 1 }
  | .write => { m with writer := true }

def release : Lock → StoragePoolStore
  | .read => { m with readers := m.readers - 1 }
  | .write => { m with writer := false }

/-! ## Parts of the operations -/

/-- The first id that is not in use, from 1 on. After the last one the counter is 0, and 0 is no
pool. -/
def findFreeID : StoragePoolId :=
  (((List.range 65535).map fun n => UInt16.ofNat (n + 1)).find? fun id =>
    (m.storagePools.find id).isNone).getD INVALID_POOL_ID

/-- Move a member from one pool to the other if it is there, with both pools locked. -/
def moveMember (fromPool toPool : ℕ) (x : PoolMember) : Bool × StoragePoolStore :=
  if m.has fromPool x then (true, (m.remove fromPool x).add toPool x) else (false, m)

/-- A group moves with its targets if there is a mapper. -/
def moveBuddyGroupUnlocked (buddyGroupMapper : Option (UInt16 → MirrorBuddyGroup))
    (m : StoragePoolStore) (fromPool toPool : ℕ) (buddyGroupId : UInt16) :
    Bool × StoragePoolStore :=
  match m.moveMember fromPool toPool (.buddyGroup buddyGroupId) with
  | (false, m) => (false, m)
  | (true, m) =>
    match buddyGroupMapper with
    | none => (true, m)
    | some getMirrorBuddyGroup =>
      let mbg := getMirrorBuddyGroup buddyGroupId
      let (rmPrimaryRes, m) := m.moveMember fromPool toPool (.target mbg.firstTargetID)
      let (rmSecondaryRes, m) := m.moveMember fromPool toPool (.target mbg.secondTargetID)
      (rmPrimaryRes && rmSecondaryRes, m)

/-! ## Calls -/

inductive PoolRequest
  | add (x : PoolMember) (poolId : StoragePoolId) (ignoreExisting : Bool)
  | remove (x : PoolMember)
  | moveTarget (fromPoolId toPoolId : StoragePoolId) (targetId : UInt16)
  | moveBuddyGroup (fromPoolId toPoolId : StoragePoolId) (buddyGroupId : UInt16)
  /-- A set that is not given is empty here. -/
  | createPool (poolId : StoragePoolId) (targets buddyGroups : UInt16Set)
  | removePool (poolId : StoragePoolId)

section
variable (buddyGroupId : UInt16) (targetId : UInt16) (poolId : StoragePoolId)
  (ignoreExisting : Bool)

def addTarget : PoolRequest :=
  .add (.target targetId) poolId ignoreExisting

def addBuddyGroup : PoolRequest :=
  .add (.buddyGroup buddyGroupId) poolId ignoreExisting

def removeTarget : PoolRequest := .remove (.target targetId)

def removeBuddyGroup : PoolRequest := .remove (.buddyGroup buddyGroupId)

end

/-- Where a call stands. Pools are pointers. -/
inductive PoolCall
  | waiting (req : PoolRequest)
  /-- `addTarget` and `addBuddyGroup` look for the member in the pools that are left. -/
  | adding (x : PoolMember) (poolId : StoragePoolId) (ignoreExisting : Bool) (pools : List ℕ)
  /-- `removeTarget` and `removeBuddyGroup` look for it. -/
  | removing (x : PoolMember) (pools : List ℕ)
  | movingFrom (fromPool toPool : ℕ) (targetId : UInt16)
  | movingTo (toPool : ℕ) (targetId : UInt16)
  | movingGroup (fromPool toPool : ℕ) (buddyGroupId : UInt16)
  /-- `createPool` goes through the members that it is given, the buddy groups first. -/
  | creating (poolId : StoragePoolId) (newPool : ℕ) (members : List PoolMember) (failedMoves : ℕ)
  /-- The default pool has the first member. -/
  | creatingFrom (poolId : StoragePoolId) (newPool : ℕ) (x : PoolMember)
      (members : List PoolMember) (failedMoves : ℕ)
  | creatingTo (poolId : StoragePoolId) (newPool : ℕ) (targetId : UInt16)
      (members : List PoolMember) (failedMoves : ℕ)
  /-- `removePool` has a pointer to the pool. -/
  | referencing (poolId : StoragePoolId) (rmPool : ℕ)
  | emptying (poolId : StoragePoolId) (rmPool defaultPool : ℕ)
  /-- Members that were in the pool are put into the default pool, the targets first. -/
  | refilling (poolId : StoragePoolId) (rmPool defaultPool : ℕ) (members : List PoolMember)
      (emptied : Bool)

inductive PoolResult
  | done (res : FhgfsOpsErr)
  | removedFrom (poolId : StoragePoolId)
  | created (res : FhgfsOpsErr) (poolId : StoragePoolId)
  /-- There is no default pool. -/
  | nullDereferenced

/-- Two calls that add a buddy group exclude each other. -/
def addLock : PoolMember → Lock
  | .target _ => .read
  | .buddyGroup _ => .write

def addRes : PoolMember → FhgfsOpsErr
  | .target _ => .success
  | .buddyGroup _ => .exists

def begin : PoolRequest → StoragePoolStore × (PoolCall ⊕ PoolResult)
  | .add x poolId ignoreExisting =>
    if (addLock x).busy m then (m, .inl (.waiting (.add x poolId ignoreExisting)))
    else (m.acquire (addLock x),
      .inl (.adding x poolId ignoreExisting (m.storagePools.toList.map (·.2))))
  | .remove x =>
    if Lock.read.busy m then (m, .inl (.waiting (.remove x)))
    else (m.acquire .read, .inl (.removing x (m.storagePools.toList.map (·.2))))
  | .moveTarget fromPoolId toPoolId targetId =>
    if Lock.read.busy m then (m, .inl (.waiting (.moveTarget fromPoolId toPoolId targetId)))
    else
      match m.storagePools.find fromPoolId, m.storagePools.find toPoolId with
      | some fromPool, some toPool =>
        (m.acquire .read, .inl (.movingFrom fromPool toPool targetId))
      | _, _ => (m, .inr (.done .unknownPool))
  | .moveBuddyGroup fromPoolId toPoolId buddyGroupId =>
    if Lock.read.busy m then
      (m, .inl (.waiting (.moveBuddyGroup fromPoolId toPoolId buddyGroupId)))
    else
      match m.storagePools.find fromPoolId, m.storagePools.find toPoolId with
      | some fromPool, some toPool =>
        (m.acquire .read, .inl (.movingGroup fromPool toPool buddyGroupId))
      | _, _ => (m, .inr (.done .unknownPool))
  | .createPool poolId targets buddyGroups =>
    if Lock.write.busy m then (m, .inl (.waiting (.createPool poolId targets buddyGroups)))
    else
      let newId := if poolId = INVALID_POOL_ID then m.findFreeID else poolId
      if newId = INVALID_POOL_ID then (m, .inr (.created .noSpace INVALID_POOL_ID))
      else
        match m.storagePools.find newId with
        | some _ => (m, .inr (.created .exists INVALID_POOL_ID))
        | none =>
          let newPool := m.objects.length
          ({ m.acquire .write with
              objects := m.objects ++ [⟨newId, ∅, ∅⟩]
              storagePools := m.storagePools.assign newId newPool },
            .inl (.creating newId newPool
              (buddyGroups.toList.map .buddyGroup ++ targets.toList.map .target) 0))
  | .removePool poolId =>
    if poolId = DEFAULT_POOL_ID then (m, .inr (.done .inval))
    else if Lock.read.busy m then (m, .inl (.waiting (.removePool poolId)))
    else
      match m.storagePools.find poolId with
      | none => (m, .inr (.done .unknownPool))
      | some rmPool => (m, .inl (.referencing poolId rmPool))

def poolId (pool : ℕ) : StoragePoolId :=
  ((m.objects[pool]?).map (·.id)).getD INVALID_POOL_ID

def next : PoolCall → Option (UInt16 → MirrorBuddyGroup) →
    StoragePoolStore × (PoolCall ⊕ PoolResult)
  | .waiting req, _ => m.begin req
  | .adding x poolId ignoreExisting (pool :: pools), _ =>
    if m.has pool x then
      (m.release (addLock x), .inr (.done (if ignoreExisting then .success else .exists)))
    else (m, .inl (.adding x poolId ignoreExisting pools))
  | .adding x poolId _ [], _ =>
    match m.storagePools.find poolId with
    | none => (m.release (addLock x), .inr (.done .unknownPool))
    | some pool =>
      ({ (m.add pool x).release (addLock x) with added := insert x m.added },
        .inr (.done (addRes x)))
  | .removing x (pool :: pools), _ =>
    if m.has pool x then
      ({ (m.remove pool x).release .read with added := m.added.erase x },
        .inr (.removedFrom (m.poolId pool)))
    else (m, .inl (.removing x pools))
  | .removing _ [], _ => (m.release .read, .inr (.removedFrom INVALID_POOL_ID))
  | .movingFrom fromPool toPool targetId, _ =>
    if m.has fromPool (.target targetId) then
      (m.remove fromPool (.target targetId), .inl (.movingTo toPool targetId))
    else (m.release .read, .inr (.done .unknownTarget))
  | .movingTo toPool targetId, _ =>
    ((m.add toPool (.target targetId)).release .read, .inr (.done .success))
  | .movingGroup fromPool toPool buddyGroupId, buddyGroupMapper =>
    -- the mutex of a pool is not recursive
    if fromPool = toPool then (m, .inl (.movingGroup fromPool toPool buddyGroupId))
    else
      let (mvRes, m) := moveBuddyGroupUnlocked buddyGroupMapper m fromPool toPool buddyGroupId
      (m.release .read, .inr (.done (if mvRes then .success else .unknownTarget)))
  | .creating poolId newPool (x :: members) failedMoves, _ =>
    match m.storagePools.find DEFAULT_POOL_ID with
    | none => (m, .inr .nullDereferenced)
    | some defaultPool =>
      if m.has defaultPool x then (m, .inl (.creatingFrom poolId newPool x members failedMoves))
      else (m, .inl (.creating poolId newPool members (failedMoves + 1)))
  | .creating poolId _ [] failedMoves, _ =>
    (m.release .write, .inr (.created (if 0 < failedMoves then .inval else .success) poolId))
  | .creatingFrom poolId newPool x members failedMoves, buddyGroupMapper =>
    match m.storagePools.find DEFAULT_POOL_ID with
    | none => (m, .inr .nullDereferenced)
    | some defaultPool =>
      match x with
      | .buddyGroup buddyGroupId =>
        if defaultPool = newPool then
          (m, .inl (.creatingFrom poolId newPool (.buddyGroup buddyGroupId) members failedMoves))
        else
          ((moveBuddyGroupUnlocked buddyGroupMapper m defaultPool newPool buddyGroupId).2,
            .inl (.creating poolId newPool members failedMoves))
      | .target targetId =>
        if m.has defaultPool (.target targetId) then
          (m.remove defaultPool (.target targetId),
            .inl (.creatingTo poolId newPool targetId members failedMoves))
        else (m, .inl (.creating poolId newPool members failedMoves))
  | .creatingTo poolId newPool targetId members failedMoves, _ =>
    (m.add newPool (.target targetId), .inl (.creating poolId newPool members failedMoves))
  | .referencing poolId rmPool, _ =>
    if Lock.read.busy m then (m, .inl (.referencing poolId rmPool))
    else
      match m.storagePools.find DEFAULT_POOL_ID with
      | none => (m, .inr .nullDereferenced)
      | some defaultPool => (m, .inl (.emptying poolId rmPool defaultPool))
  | .emptying poolId rmPool defaultPool, _ =>
    let targets := ((m.objects[rmPool]?).map (·.targets)).getD ∅
    (m.modify rmPool .removeTargets,
      .inl (.refilling poolId rmPool defaultPool (targets.toList.map .target) false))
  | .refilling poolId rmPool defaultPool (x :: members) emptied, _ =>
    (m.add defaultPool x, .inl (.refilling poolId rmPool defaultPool members emptied))
  | .refilling poolId rmPool defaultPool [] false, _ =>
    let buddyGroups := ((m.objects[rmPool]?).map (·.buddyGroups)).getD ∅
    (m.modify rmPool .removeBuddyGroups,
      .inl (.refilling poolId rmPool defaultPool (buddyGroups.toList.map .buddyGroup) true))
  | .refilling poolId rmPool defaultPool [] true, _ =>
    if Lock.write.busy m then (m, .inl (.refilling poolId rmPool defaultPool [] true))
    else ({ m with storagePools := m.storagePools.erase poolId }, .inr (.done .success))

def program : Program StoragePoolStore PoolCall PoolRequest (Option (UInt16 → MirrorBuddyGroup))
    PoolResult :=
  ⟨.waiting, next⟩

/-! ## The specification -/

/-- A pool that exists has the member. -/
def InPool (x : PoolMember) (poolId : StoragePoolId) : Prop :=
  ∃ pool, m.storagePools.find poolId = some pool ∧ m.has pool x

/-- No member is in two pools. With no call in progress, every target that was added and not removed
is in one. -/
structure InOnePool (s : Threads StoragePoolStore PoolCall) : Prop where
  unique : ∀ x id id', s.shared.InPool x id → s.shared.InPool x id' → id = id'
  kept : s.calls = [] → ∀ targetId, .target targetId ∈ s.shared.added →
    ∃ id, s.shared.InPool (.target targetId) id

/-- A member that is added is not in another pool or on its way to one, and a pool is empty when it
is deleted. -/
def Undisturbed : PoolCall → Option (UInt16 → MirrorBuddyGroup) → Prop
  | .adding x poolId _ [], _ =>
    ∀ pool, m.storagePools.find poolId = some pool → x ∈ m.added → m.has pool x
  | .refilling poolId _ _ [] true, _ =>
    Lock.write.busy m = false → ∀ x, ¬m.InPool x poolId
  | _, _ => True

end StoragePoolStore

end Congfs
