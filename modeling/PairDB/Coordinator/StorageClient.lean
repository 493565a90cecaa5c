import PairDB.Model.VectorClock
import PairDB.Coordinator.Consistency

/-!
# `client.StorageClient`: what the coordinator hears from a storage node

A call either fails in transport or brings a response. Which of the two happens, and in which order
the answers of several nodes arrive, is not decided by the coordinator: `Arrivals` is one such
outcome for a list of replicas.
-/

namespace PairDB.Coordinator

/-- The version of a key that a storage node holds. -/
structure Version where
  value : List UInt8
  vectorClock : VectorClock
  deriving DecidableEq, Repr

/-- `Found` of `StorageClient.Read`: an empty value counts as absent. -/
def Version.found (held : Option Version) : Option Version :=
  held.filter fun v => v.value.length > 0

/-- `client.StorageResponse`. -/
structure StorageResponse where
  nodeID : String
  success : Bool
  value : List UInt8
  vectorClock : VectorClock
  timestamp : Int
  found : Bool
  error : Option String
  deriving DecidableEq, Repr

/-- The answer to a write: an error of the transport, or `Success` and `UpdatedVectorClock`. -/
inductive WriteAnswer where
  | transportError (err : String)
  | response (success : Bool) (updatedVectorClock : VectorClock)
  deriving DecidableEq, Repr

/-- The node reports success. -/
def WriteAnswer.succeeded : WriteAnswer → Bool
  | .response success _ => success
  | .transportError _ => false

/-- The node answers, without success. -/
def WriteAnswer.rejected : WriteAnswer → Bool
  | .response success _ => !success
  | .transportError _ => false

namespace WriteAnswer

@[simp] theorem succeeded_response (success : Bool) (updated : VectorClock) :
    (response success updated).succeeded = success := rfl

@[simp] theorem succeeded_transportError (err : String) :
    (transportError err).succeeded = false := rfl

@[simp] theorem rejected_response (success : Bool) (updated : VectorClock) :
    (response success updated).rejected = !success := rfl

@[simp] theorem rejected_transportError (err : String) :
    (transportError err).rejected = false := rfl

end WriteAnswer

/-- The answer to a read: an error of the transport, or `Success`, `Value` and `VectorClock`. -/
inductive ReadAnswer where
  | transportError (err : String)
  | response (success : Bool) (value : List UInt8) (vectorClock : VectorClock)
  deriving DecidableEq, Repr

namespace StorageClient

/-- The response that the coordinator records for a call that failed. -/
def failure (node : StorageNode) (err : String) : StorageResponse where
  nodeID := node.nodeID
  success := false
  value := []
  vectorClock := VectorClock.empty
  timestamp := 0
  found := false
  error := some err

/-- `StorageClient.Write`. -/
def write (node : StorageNode) : WriteAnswer → Except String StorageResponse
  | .transportError err => .error err
  | .response success updatedVectorClock => .ok
    { nodeID := node.nodeID, success, value := [], vectorClock := updatedVectorClock,
      timestamp := 0, found := false, error := none }

/-- `StorageClient.Read`. The timestamp is never filled in. -/
def read (node : StorageNode) : ReadAnswer → Except String StorageResponse
  | .transportError err => .error err
  | .response success value vectorClock => .ok
    { nodeID := node.nodeID, success, value, vectorClock, timestamp := 0,
      found := success && value.length > 0, error := none }

end StorageClient

/-- The address that `getConnection` dials; two nodes with one address are one server. -/
def StorageNode.addr (node : StorageNode) : String := node.host ++ ":" ++ toString node.port

/-- What the servers hold for one key, by address. -/
abbrev Servers := String → Option Version

/-- The answer of a server to a read: its version, or `Success = false` when it has none. -/
def Servers.readAnswer (servers : Servers) (node : StorageNode) : ReadAnswer :=
  match servers node.addr with
  | none => .response false [] VectorClock.empty
  | some v => .response true v.value v.vectorClock

/-- The answers of a list of replicas in the order in which they arrive. -/
structure Arrivals (α : Type) (replicas : List StorageNode) where
  answers : List (StorageNode × α)
  perm : (answers.map Prod.fst).Perm replicas

/-! ## Connections -/

/-- `storagepb.WriteRequest`. -/
structure WireWriteRequest where
  tenantID : String
  key : String
  value : List UInt8
  vectorClock : VectorClock
  deriving DecidableEq, Repr

/-- What listens at an address, and how it answers. -/
abbrev Network := String → Option (WireWriteRequest → WriteAnswer)

/-- A request over the connection to an address. -/
def Network.write (network : Network) (addr : String) (req : WireWriteRequest) : WriteAnswer :=
  match network addr with
  | some serve => serve req
  | none => .transportError "connection error"

/-- `StorageClient`: the addresses to which it has a connection. -/
structure StorageClient where
  connections : List String

namespace StorageClient

/-- `getConnection`, with the address of the node. -/
def getConnection (c : StorageClient) (network : Network) (addr : String) :
    Except String StorageClient :=
  if addr ∈ c.connections then .ok c
  else
    match network addr with
    | none => .error ("failed to connect to " ++ addr ++ ": context deadline exceeded")
    | some _ => .ok { c with connections := addr :: c.connections }

/-- How `Write` gets the answer of a node. -/
def request (c : StorageClient) (network : Network) (addr : String) (req : WireWriteRequest) :
    StorageClient × WriteAnswer :=
  match c.getConnection network addr with
  | .error err => (c, .transportError err)
  | .ok c => (c, network.write addr req)

/-- A server that listens gets the request, whether the connection is new or not. -/
theorem request_answer (c : StorageClient) {network : Network} {addr : String}
    {serve : WireWriteRequest → WriteAnswer} (h : network addr = some serve)
    (req : WireWriteRequest) : (c.request network addr req).2 = serve req := by
  unfold request getConnection Network.write
  split
  · next err herr =>
    rw [h] at herr
    split at herr <;> cases herr
  · rw [h]

end StorageClient

end PairDB.Coordinator
