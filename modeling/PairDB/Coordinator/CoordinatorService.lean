import PairDB.Coordinator.StorageClient
import PairDB.Coordinator.VectorClockOps

/-!
# `service.CoordinatorServiceV2` and `service.ConflictService`: quorum writes and reads

`writeToReplicasWithHints` and `readFromReplicasWithRepair` send one request to every replica and
wait for all of them. The goroutines append to `responses` under a lock, so what they produce is
the list of answers in the order of arrival.
-/

namespace PairDB.Coordinator

open VectorClockOps

/-- `service.WriteResult`. -/
structure WriteResult where
  success : Bool
  key : String
  vectorClock : VectorClock
  replicaCount : Nat
  consistency : String
  isDuplicate : Bool
  errorMessage : String
  deriving DecidableEq, Repr

/-- `service.ReadResult`. -/
structure ReadResult where
  success : Bool
  key : String
  value : List UInt8
  vectorClock : VectorClock
  errorMessage : String
  deriving DecidableEq, Repr

/-- The arguments of a call of `StoreHint`. -/
structure HintArgs where
  nodeID : String
  tenantID : String
  key : String
  value : List UInt8
  vectorClock : VectorClock
  deriving DecidableEq, Repr

/-- What `writeToReplicasWithHints` returns, and the calls of `StoreHint` it makes. -/
structure WriteReturn where
  result : WriteResult
  err : Option String
  hints : List HintArgs
  deriving DecidableEq, Repr

/-- What `readFromReplicasWithRepair` returns, and the response that it starts a repair with. -/
structure ReadReturn where
  result : ReadResult
  err : Option String
  repair : Option StorageResponse
  deriving DecidableEq, Repr

/-! ## Writing -/

/-- The response that a goroutine of `writeToReplicasWithHints` appends. -/
def collectWrite (p : StorageNode × WriteAnswer) : StorageResponse :=
  match StorageClient.write p.1 p.2 with
  | .error err => StorageClient.failure p.1 err
  | .ok resp => resp

/-- Only an error of the transport leads to a hint. -/
def storeHint? (tenantID key : String) (value : List UInt8) (vectorClock : VectorClock)
    (p : StorageNode × WriteAnswer) : Option HintArgs :=
  match StorageClient.write p.1 p.2 with
  | .error _ => some ⟨p.1.nodeID, tenantID, key, value, vectorClock⟩
  | .ok _ => none

/-- `quorum not reached: %d/%d`. -/
def quorumNotReached (successCount requiredReplicas : Nat) : String :=
  "quorum not reached: " ++ toString successCount ++ "/" ++ toString requiredReplicas

/--
`writeToReplicasWithHints`. The decision counts all replicas, the number in the error text only the
authoritative ones.
-/
def writeToReplicasWithHints (replicas : List StorageNode) (tenantID key : String)
    (value : List UInt8) (vectorClock : VectorClock) (consistency : String)
    (arrivals : Arrivals WriteAnswer replicas) : WriteReturn :=
  let requiredReplicas := ConsistencyService.getRequiredReplicasForWriteSet consistency replicas
  let responses := arrivals.answers.map collectWrite
  let hints := arrivals.answers.filterMap (storeHint? tenantID key value vectorClock)
  let successCount := responses.countP fun resp => resp.success
  if !ConsistencyService.isQuorumReached successCount replicas.length consistency then
    { result :=
        { success := false, key, vectorClock := VectorClock.empty, replicaCount := successCount,
          consistency, isDuplicate := false,
          errorMessage := quorumNotReached successCount requiredReplicas }
      err := some (quorumNotReached successCount requiredReplicas)
      hints }
  else
    { result :=
        { success := true, key, vectorClock, replicaCount := successCount, consistency,
          isDuplicate := false, errorMessage := "" }
      err := none
      hints }

@[simp] theorem storeHint?_transportError (tenantID key : String) (value : List UInt8)
    (vectorClock : VectorClock) (node : StorageNode) (err : String) :
    storeHint? tenantID key value vectorClock (node, .transportError err) =
      some ⟨node.nodeID, tenantID, key, value, vectorClock⟩ := rfl

@[simp] theorem storeHint?_response (tenantID key : String) (value : List UInt8)
    (vectorClock : VectorClock) (node : StorageNode) (success : Bool) (updated : VectorClock) :
    storeHint? tenantID key value vectorClock (node, .response success updated) = none := rfl

theorem success_collectWrite (p : StorageNode × WriteAnswer) :
    (collectWrite p).success = p.2.succeeded := by
  obtain ⟨node, answer⟩ := p
  cases answer <;> rfl

theorem countP_collectWrite (answers : List (StorageNode × WriteAnswer)) :
    (answers.map collectWrite).countP (fun resp => resp.success) =
      answers.countP fun p => p.2.succeeded := by
  rw [List.countP_map]
  exact List.countP_congr fun p _ => by rw [Function.comp_apply, success_collectWrite]

/-- `ReplicaCount` is the number of successes. -/
theorem replicaCount_writeToReplicasWithHints (replicas : List StorageNode)
    (tenantID key : String) (value : List UInt8) (vectorClock : VectorClock) (consistency : String)
    (arrivals : Arrivals WriteAnswer replicas) :
    (writeToReplicasWithHints replicas tenantID key value vectorClock consistency
      arrivals).result.replicaCount = arrivals.answers.countP fun p => p.2.succeeded := by
  rw [writeToReplicasWithHints, ← countP_collectWrite]
  split <;> rfl

/-- The calls of `StoreHint` do not depend on the decision. -/
theorem hints_writeToReplicasWithHints (replicas : List StorageNode) (tenantID key : String)
    (value : List UInt8) (vectorClock : VectorClock) (consistency : String)
    (arrivals : Arrivals WriteAnswer replicas) :
    (writeToReplicasWithHints replicas tenantID key value vectorClock consistency
      arrivals).hints = arrivals.answers.filterMap (storeHint? tenantID key value vectorClock) := by
  rw [writeToReplicasWithHints]
  split <;> rfl

/-! ## Reading -/

/-- A round of `DetectConflicts` for a response that is Found: the latest one and the flag. -/
def detectFound (acc : Option StorageResponse × Bool) (resp : StorageResponse) :
    Option StorageResponse × Bool :=
  match acc.1 with
  | none => (some resp, acc.2)
  | some latest =>
    match compare resp.vectorClock latest.vectorClock with
    | .after => (some resp, acc.2)
    | .before => acc
    | .concurrent => (if resp.timestamp > latest.timestamp then some resp else some latest, true)
    | .identical => acc

/-- One round of the loop of `DetectConflicts`. -/
def detectStep (acc : Option StorageResponse × Bool) (resp : StorageResponse) :
    Option StorageResponse × Bool :=
  if !resp.success || !resp.found then acc else detectFound acc resp

/-- `DetectConflicts`. -/
def detectConflicts (responses : List StorageResponse) : Option StorageResponse × Bool :=
  let found := responses.foldl detectStep (none, false)
  if found.1.isNone then (none, false) else found

/-- The response that a goroutine of `readFromReplicasWithRepair` appends. -/
def collectRead (p : StorageNode × ReadAnswer) : StorageResponse :=
  match StorageClient.read p.1 p.2 with
  | .error err => StorageClient.failure p.1 err
  | .ok resp => resp

/-- `readFromReplicasWithRepair`. -/
def readFromReplicasWithRepair (replicas : List StorageNode) (key consistency : String)
    (arrivals : Arrivals ReadAnswer replicas) : ReadReturn :=
  let requiredReplicas := ConsistencyService.getRequiredReplicas consistency replicas.length
  let responses := arrivals.answers.map collectRead
  let successCount := responses.countP fun resp => resp.success && resp.found
  let fail (message : String) : ReadReturn :=
    { result := { success := false, key, value := [], vectorClock := VectorClock.empty,
                  errorMessage := message }
      err := some message
      repair := none }
  if !ConsistencyService.isQuorumReached successCount replicas.length consistency then
    fail (quorumNotReached successCount requiredReplicas)
  else
    match detectConflicts responses with
    | (none, _) => fail "key not found"
    | (some latest, hasConflict) =>
      { result := { success := true, key, value := latest.value,
                    vectorClock := latest.vectorClock, errorMessage := "" }
        err := none
        repair := if hasConflict then some latest else none }

end PairDB.Coordinator
