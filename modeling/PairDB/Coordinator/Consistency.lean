import PairDB.Infra.Map

/-!
# Quorums: `algorithm.QuorumCalculator` and `service.ConsistencyService`

Counts of replicas are `Nat`. Consistency levels stay strings as in the source, because every string
other than `"one"` and `"all"` is treated as `"quorum"`, and the configured default level is never
validated.
-/

namespace PairDB.Coordinator

/-- `model.NodeState`. -/
inductive NodeState where
  | normal
  | bootstrapping
  | leaving
  | down
  deriving DecidableEq, Repr

/-- `model.NodeStatus`, the older life cycle that is kept beside `NodeState`. -/
inductive NodeStatus where
  | active
  | bootstrapping
  | draining
  | inactive
  deriving DecidableEq, Repr

/-- `model.StorageNode`: the fields that routing, the quorum and the client read. -/
structure StorageNode where
  nodeID : String
  host : String
  port : Int
  status : NodeStatus
  state : NodeState
  virtualNodes : Nat
  deriving DecidableEq, Repr

namespace QuorumCalculator

/-- `CalculateQuorum`. -/
def calculateQuorum (totalReplicas : Nat) : Nat := totalReplicas / 2 + 1

/-- `GetRequiredReplicas`. -/
def getRequiredReplicas (consistency : String) (totalReplicas activeReplicas : Nat) : Nat :=
  if consistency = "one" then 1
  else if consistency = "all" then totalReplicas
  else if activeReplicas > 0 then calculateQuorum activeReplicas
  else calculateQuorum totalReplicas

/-- `GetRequiredReplicasSimple`. -/
def getRequiredReplicasSimple (consistency : String) (totalReplicas : Nat) : Nat :=
  getRequiredReplicas consistency totalReplicas totalReplicas

end QuorumCalculator

namespace ConsistencyService

open QuorumCalculator

/-- `GetRequiredReplicas`. -/
def getRequiredReplicas (consistency : String) (totalReplicas : Nat) : Nat :=
  getRequiredReplicasSimple consistency totalReplicas

/-- `ValidateConsistencyLevel`. -/
def validateConsistencyLevel (level : String) : Bool :=
  level = "one" || level = "quorum" || level = "all"

/-- `NormalizeConsistencyLevel`. -/
def normalizeConsistencyLevel (defaultLevel level : String) : Except String String :=
  if level = "" then .ok defaultLevel
  else if !validateConsistencyLevel level then
    .error "invalid consistency level: must be one of: one, quorum, all"
  else .ok level

/-- `IsQuorumReached`. -/
def isQuorumReached (successCount totalReplicas : Nat) (consistency : String) : Bool :=
  successCount ≥ getRequiredReplicas consistency totalReplicas

/-- `GetRequiredReplicasForWriteSet`: only `NORMAL` nodes are authoritative. -/
def getRequiredReplicasForWriteSet (consistency : String) (writeReplicas : List StorageNode) :
    Nat :=
  let authoritativeCount := writeReplicas.countP fun node => node.state = .normal
  if consistency = "one" then 1
  else if consistency = "all" then authoritativeCount
  else if authoritativeCount > 0 then calculateQuorum authoritativeCount
  else 1

theorem isQuorumReached_iff {successCount totalReplicas : Nat} {consistency : String} :
    isQuorumReached successCount totalReplicas consistency = true
      ↔ getRequiredReplicas consistency totalReplicas ≤ successCount := by
  simp [isQuorumReached]

end ConsistencyService

end PairDB.Coordinator
