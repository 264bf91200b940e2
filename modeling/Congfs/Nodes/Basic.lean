import Congfs.Lib.StdMap

/-!
# Nodes, targets and their states

The types that the management daemon, the servers and the client share.
-/

namespace Congfs

/-- 0 is no node. -/
abbrev NumNodeID := UInt32

abbrev UInt16Set := StdSet ((· < ·) : UInt16 → UInt16 → Prop)

/-- A map whose keys are targets, or buddy groups. -/
abbrev UInt16Map (β : Type) := StdMap β ((· < ·) : UInt16 → UInt16 → Prop)

/-- The results of the operations on nodes and pools. -/
inductive FhgfsOpsErr
  | success
  | unknownNode
  | exists
  | inUse
  | noSpace
  | unknownTarget
  | inval
  | again
  | unknownPool
  deriving DecidableEq, Repr

inductive TargetReachabilityState where
  | online | poffline | offline
  deriving DecidableEq, Repr

inductive TargetConsistencyState where
  | good | needsResync | bad
  deriving DecidableEq, Repr

structure CombinedTargetState where
  reachabilityState : TargetReachabilityState
  consistencyState : TargetConsistencyState
  deriving DecidableEq, Repr

/-- A reading of the monotonic clock. -/
structure Time where
  sec : ℤ
  nsec : ℤ
  deriving DecidableEq, Repr

structure TargetStateInfo extends CombinedTargetState where
  lastChangedTime : Time
  deriving DecidableEq, Repr

/-- The default constructor; a clock is read. -/
def TargetStateInfo.init (now : Time) : TargetStateInfo := ⟨⟨.offline, .good⟩, now⟩

end Congfs
