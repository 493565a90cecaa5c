import PairDB.Infra.Concurrent
import PairDB.Coordinator.MetadataStore
import PairDB.Coordinator.HintReplay
import PairDB.StorageNode.Streaming

/-!
# `handler.NodeHandlerV2`: nodes join and leave

`AddStorageNodeV2`, `RemoveStorageNodeV2`, the monitors they start, the refreshes of the ring and
the streams of the storage nodes run concurrently. A turn has at most one statement of the metadata
store that writes, or one call that starts or stops a stream, so that other calls can come between
any two of them. A request holds the lock of its node until it has answered; its monitor does not.

Whether the database and the storage nodes can be reached is read from the surroundings of a turn.
The state has a history beside the tables and the ring: which nodes have completed their bootstrap,
and which their decommission, since they were last added.
-/

open PairDB.StorageNode (StreamingManager StreamKeyRange)

namespace PairDB.Coordinator

open Infra

/-! ## Requests and answers -/

/-- The codes of the errors that the handler returns. -/
inductive Code where
  | invalidArgument
  | notFound
  | failedPrecondition
  | internal
  deriving DecidableEq, Repr

structure RpcError where
  code : Code
  message : String
  deriving DecidableEq, Repr

/-- `pb.AddStorageNodeRequest`. -/
structure AddStorageNodeRequest where
  nodeID : String
  host : String
  port : Int
  virtualNodes : Int
  deriving DecidableEq, Repr

namespace AddStorageNodeRequest

/-- What is wrong with the request. -/
def invalid? (req : AddStorageNodeRequest) : Option String :=
  if req.nodeID = "" then some "node_id is required"
  else if req.host = "" then some "host is required"
  else if req.port = 0 then some "port is required"
  else none

/-- The node as it is stored. A negative number of virtual nodes is not accepted by the table, and
neither is zero. -/
def node (req : AddStorageNodeRequest) : StorageNode where
  nodeID := req.nodeID
  host := req.host
  port := req.port
  status := .active
  state := .bootstrapping
  virtualNodes := (if req.virtualNodes = 0 then 150 else req.virtualNodes).toNat

end AddStorageNodeRequest

/-- A call of the handler, a refresh of the ring, or a stream that goes on. -/
inductive TopologyRequest where
  | addStorageNodeV2 (req : AddStorageNodeRequest)
  | removeStorageNodeV2 (nodeID : String) (force : Bool)
  | updateHashRing
  | executeStreaming (sourceNodeID : String) (ref : Nat)

/-- What becomes of a call to a storage node. -/
inductive RpcFate where
  | answered
  | requestLost
  | responseLost
  deriving DecidableEq, Repr

/-- What a turn reads from its surroundings. -/
structure TopologyEnv where
  now : Int
  /-- Why the statement of the turn does not reach the database. -/
  dbError : Option String
  /-- The orders in which maps are walked. -/
  countsOrder : RangeOrder (String × Nat)
  assignmentsOrder : RangeOrder (String × List KeyRange)
  /-- What becomes of the calls about the stream with a node. -/
  rpc : String → RpcFate
  /-- Whether the stream fails that goes on. -/
  streamFails : Bool
  /-- What happens in the replay of the hints. -/
  hintCountError : Option String
  hintRounds : List HintReplayService.Round

namespace TopologyEnv

/-- A statement that may not reach the database. -/
def db {α : Type} (env : TopologyEnv) (statement : Except String α) : Except String α :=
  match env.dbError with
  | some err => .error err
  | none => statement

theorem db_eq_ok {α : Type} {env : TopologyEnv} {statement : Except String α} {a : α}
    (h : env.db statement = .ok a) : statement = .ok a := by
  unfold db at h
  split at h
  · cases h
  · exact h

end TopologyEnv

/-! ## The work after the streams -/

/-- A statement of the metadata store. -/
inductive Statement where
  | updateNodeState (nodeID : String) (state : NodeState)
  | updateStorageNodeStatus (nodeID status : String)
  /-- `UpdateNodeRanges` with no ranges. -/
  | clearNodeRanges (nodeID : String)
  | removeStorageNode (nodeID : String)
  /-- `GetPendingChange` and, if there is one, `UpdatePendingChange`. -/
  | finishPendingChange (changeID : String) (status : PendingChangeStatus)
    (errorMessage : Option String)
  deriving DecidableEq, Repr

/-- What a statement does at a time. -/
def Statement.exec (now : Int) (s : MetadataStore) : Statement → Except String MetadataStore
  | .updateNodeState nodeID state => s.updateNodeState nodeID state
  | .updateStorageNodeStatus nodeID status => s.updateStorageNodeStatus nodeID status
  | .clearNodeRanges nodeID => s.updateNodeRanges nodeID [] []
  | .removeStorageNode nodeID => s.removeStorageNode nodeID
  | .finishPendingChange changeID status errorMessage => do
    let change ← s.getPendingChange changeID
    s.updatePendingChange { change with
      status
      errorMessage := errorMessage.getD change.errorMessage
      lastUpdated := now
      completedAt := if status = .completed then some now else change.completedAt }

/-- What a monitor has still to do. -/
inductive Chore where
  /-- After an error the work goes on, unless the error is fatal. -/
  | statement (statement : Statement) (fatal : Bool)
  /-- The source is looked up, or it is at hand. -/
  | stopStreaming (sourceNodeID targetNodeID : String) (lookUp : Bool)
  deriving DecidableEq, Repr

namespace NodeHandlerV2

/-- The end of `monitorStreamingProgress`, after the node has become `NORMAL`. -/
def afterNormal (nodeID : String) (sourceNodes : List String) (changeID : String) : List Chore :=
  [.statement (.updateStorageNodeStatus nodeID "active") false,
    .statement (.clearNodeRanges nodeID) false,
    .statement (.finishPendingChange changeID .completed none) false] ++
  sourceNodes.map fun id => .stopStreaming id nodeID true

/-- `rollbackNodeAddition`. The table does not accept the status. -/
def rollbackNodeAddition (nodeID : String) (sourceNodes : List String) (changeID : String) :
    List Chore :=
  sourceNodes.map (fun id => .stopStreaming id nodeID true) ++
  [.statement (.updateStorageNodeStatus nodeID "failed") false,
    .statement (.updateNodeState nodeID .down) false,
    .statement (.clearNodeRanges nodeID) false,
    .statement (.finishPendingChange changeID .failed
      (some "Bootstrap timeout: streaming did not complete within 1 hour")) false]

/-- The end of `monitorRemovalProgress`, after the node has left the ring. -/
def afterRemoval (nodeID : String) (inheritingNodes : List String) (changeID : String) :
    List Chore :=
  inheritingNodes.map (fun id => .statement (.clearNodeRanges id) false) ++
  [.statement (.removeStorageNode nodeID) true,
    .statement (.finishPendingChange changeID .completed none) false] ++
  inheritingNodes.map fun id => .stopStreaming nodeID id false

/-- `rollbackNodeRemoval`. -/
def rollbackNodeRemoval (nodeID : String) (inheritingNodes : List String) (changeID : String) :
    List Chore :=
  inheritingNodes.map (fun id => .stopStreaming nodeID id false) ++
  [.statement (.clearNodeRanges nodeID) false] ++
  inheritingNodes.map (fun id => .statement (.clearNodeRanges id) false) ++
  [.statement (.updateNodeState nodeID .normal) false,
    .statement (.updateStorageNodeStatus nodeID "active") false,
    .statement (.finishPendingChange changeID .failed
      (some "Decommission timeout: streaming did not complete within 1 hour")) false]

/-- `maxAttempts` of both monitors. -/
def maxAttempts : Nat := 360

/-- `minNodesRequired`. -/
def minNodesRequired : Int := 3

end NodeHandlerV2

/-- The ranges that move, under the node that has them or will have them. -/
abbrev Assignments := List (String × List KeyRange)

namespace Assignments

/-- The token ranges of a pending change. -/
def tokenRanges (assignments : Assignments) : List TokenRange :=
  assignments.flatMap fun p => p.2.map fun r => ⟨r.startHash, r.endHash⟩

/-- What a new node waits for. -/
def pendingRanges (newOwnerID : String) (assignments : Assignments) : List PendingRangeInfo :=
  assignments.flatMap fun p => p.2.map fun r =>
    ⟨⟨r.startHash, r.endHash⟩, p.1, newOwnerID, .pending⟩

/-- What a departing node gives away. -/
def leavingRanges (oldOwnerID : String) (assignments : Assignments) : List LeavingRangeInfo :=
  assignments.flatMap fun p => p.2.map fun r =>
    ⟨⟨r.startHash, r.endHash⟩, oldOwnerID, p.1, .pending⟩

/-- What one inheriting node waits for. -/
def inheritedRanges (oldOwnerID newOwnerID : String) (ranges : List KeyRange) :
    List PendingRangeInfo :=
  ranges.map fun r => ⟨⟨r.startHash, r.endHash⟩, oldOwnerID, newOwnerID, .pending⟩

end Assignments

/-- The ranges of a stream. -/
def streamRanges (ranges : List KeyRange) : List StreamKeyRange :=
  ranges.map fun r => ⟨r.startHash, r.endHash⟩

/-- How far a call is. -/
inductive TopologyPhase where
  | lockAdd (req : AddStorageNodeRequest)
  | insertNode (req : AddStorageNodeRequest)
  /-- The ranges are calculated and stored with the node. -/
  | planAdd (node : StorageNode)
  | recordAdd (node : StorageNode) (assignments : Assignments)
  /-- The streams that are still to be started, and how many were started. -/
  | startAdd (node : StorageNode) (assignments : Assignments) (changeID : String)
    (rest : Assignments) (streamingStarted : Nat)
  /-- `monitorStreamingProgress` waits for its ticker. -/
  | monitorAdd (node : StorageNode) (assignments : Assignments) (changeID : String)
    (completedNodes : List String) (attempt : Nat)
  /-- `monitorStreamingProgress` has added the node to the ring. -/
  | setNormal (node : StorageNode) (sourceNodes : List String) (changeID : String)
  | lockRemove (nodeID : String) (force : Bool)
  | findNode (nodeID : String) (force : Bool)
  | countNodes (node : StorageNode) (force : Bool)
  | setDraining (node : StorageNode)
  | setLeaving (node : StorageNode)
  | planRemove (node : StorageNode)
  /-- The inheriting nodes that are still to be told of their ranges. -/
  | markInheritors (node : StorageNode) (assignments rest : Assignments)
  | recordRemove (node : StorageNode) (assignments : Assignments)
  | startRemove (node : StorageNode) (assignments : Assignments) (changeID : String)
    (rest : Assignments) (streamingStarted : Nat)
  /-- `monitorRemovalProgress` waits for its ticker. -/
  | monitorRemove (node : StorageNode) (assignments : Assignments) (changeID : String)
    (completedNodes : List String) (attempt : Nat)
  /-- The end of a monitor. -/
  | finish (nodeID : String) (chores : List Chore)
  | fetchNodes
  /-- `updateHashRing` has listed the nodes. -/
  | rebuildRing (nodes : List StorageNode)
  | executing (sourceNodeID : String) (ref : Nat)

/-- What the calls share, and its history. -/
structure Topology where
  metadataStore : MetadataStore
  hashRing : ConsistentHasher
  hintStore : HintStore
  /-- The streams of the storage nodes. -/
  streaming : String → StreamingManager
  /-- The nodes whose lock is held. -/
  nodeLocks : List String
  answers : List (Except RpcError String)
  /-- `monitorStreamingProgress` has seen all streams completed. -/
  bootstrapped : String → Bool
  /-- `monitorRemovalProgress` has seen all streams completed. -/
  decommissioned : String → Bool

namespace Topology

def init : Topology where
  metadataStore := .empty
  hashRing := .new
  hintStore := .empty
  streaming := fun _ => .new
  nodeLocks := []
  answers := []
  bootstrapped := fun _ => false
  decommissioned := fun _ => false

/-- The request is answered, and the lock is released. -/
def answer (t : Topology) (nodeID : String) (response : Except RpcError String) : Topology :=
  { t with
    nodeLocks := t.nodeLocks.filter fun id => id ≠ nodeID
    answers := t.answers ++ [response] }

/-- The request is answered with an error. -/
def refuse (t : Topology) (nodeID : String) (code : Code) (message : String) : Topology :=
  t.answer nodeID (.error ⟨code, message⟩)

/-- `getStorageNode`. -/
def getStorageNode (t : Topology) (env : TopologyEnv) (nodeID : String) : Option StorageNode :=
  if env.dbError.isSome then none
  else t.metadataStore.listStorageNodes.find? fun node => node.nodeID = nodeID

/-- How many nodes count for the minimum. -/
def activeNodeCount (t : Topology) : Nat :=
  (RoutingService.activeNodes t.metadataStore.listStorageNodes).length

/-- The record of a change that begins. -/
def newChange (env : TopologyEnv) (type : ChangeType) (changeID nodeID : String)
    (affectedNodes : List String) (assignments : Assignments) : PendingChange where
  changeID := changeID
  type := type
  nodeID := nodeID
  affectedNodes := affectedNodes
  ranges := assignments.tokenRanges
  startTime := env.now
  status := .inProgress
  errorMessage := ""
  lastUpdated := env.now
  completedAt := none
  progress := ∅

/-- `<kind>-<node>-<unix time>`. -/
def changeIDFor (env : TopologyEnv) (kind nodeID : String) : String :=
  kind ++ "-" ++ nodeID ++ "-" ++ toString (env.now / 1000000000)

/-! ## Calls about a stream -/

/-- `StartStreaming`: `fate` is what becomes of the call. -/
def startStreaming (t : Topology) (fate : RpcFate) (sourceNodeID targetNodeID : String)
    (ranges : List KeyRange) : Topology × Bool :=
  match fate with
  | .requestLost => (t, false)
  | .responseLost | .answered =>
    let (sm, success) := (t.streaming sourceNodeID).startStreaming sourceNodeID targetNodeID
      (streamRanges ranges)
    ({ t with streaming := Function.update t.streaming sourceNodeID sm },
      success && fate = .answered)

/-- `StopStreaming`. -/
def stopStreaming (t : Topology) (fate : RpcFate) (sourceNodeID targetNodeID : String) : Topology :=
  match fate with
  | .requestLost => t
  | .responseLost | .answered =>
    { t with
      streaming := Function.update t.streaming sourceNodeID
        ((t.streaming sourceNodeID).stopStreaming targetNodeID) }

/-- `GetStreamStatus` says that the stream has completed. -/
def streamCompleted (t : Topology) (fate : RpcFate) (sourceNodeID targetNodeID : String) : Bool :=
  fate = .answered && (t.streaming sourceNodeID).getStreamStatus targetNodeID = some .completed

/-- A round of a monitor: the streams that are seen completed for the first time are added. -/
def poll (completed : String → Bool) (nodes completedNodes : List String) : List String :=
  completedNodes ++ nodes.filter fun id => id ∉ completedNodes && completed id

/-! ## Turns -/

/-- The first phase of a call. -/
def enter (_ : TopologyEnv) : TopologyRequest → Option TopologyPhase
  | .addStorageNodeV2 req => some (.lockAdd req)
  | .removeStorageNodeV2 nodeID force => some (.lockRemove nodeID force)
  | .updateHashRing => some .fetchNodes
  | .executeStreaming sourceNodeID ref => some (.executing sourceNodeID ref)

/-- A turn of `AddStorageNodeV2` and of its monitor. -/
def turnAdd (hash : String → UInt64) (t : Topology) (env : TopologyEnv) :
    TopologyPhase → Option (Topology × Option TopologyPhase)
  | .lockAdd req =>
    if req.nodeID ∈ t.nodeLocks then none
    else
      let t := { t with nodeLocks := req.nodeID :: t.nodeLocks }
      match req.invalid? with
      | some message => some (t.refuse req.nodeID .invalidArgument message, none)
      | none => some (t, some (.insertNode req))
  | .insertNode req =>
    match env.db (t.metadataStore.addStorageNode req.node) with
    | .error err => some (t.refuse req.nodeID .internal err, none)
    | .ok metadataStore =>
      -- a new life of the node begins
      some ({ t with
        metadataStore
        bootstrapped := Function.update t.bootstrapped req.nodeID false
        decommissioned := Function.update t.decommissioned req.nodeID false },
        some (.planAdd req.node))
  | .planAdd node =>
    let assignments := env.assignmentsOrder.visit
      (KeyRangeService.calculateKeyRangesForNewNode hash env.countsOrder t.hashRing node).toPairs
    match env.db (t.metadataStore.updateNodeRanges node.nodeID
        (Assignments.pendingRanges node.nodeID assignments) []) with
    | .error err =>
      some (t.refuse node.nodeID .internal ("failed to update pending ranges: " ++ err), none)
    | .ok metadataStore => some ({ t with metadataStore }, some (.recordAdd node assignments))
  | .recordAdd node assignments =>
    let changeID := changeIDFor env "bootstrap" node.nodeID
    match env.db (t.metadataStore.addPendingChange
        (newChange env .bootstrap changeID node.nodeID (assignments.map Prod.fst) assignments)) with
    | .error err =>
      some (t.refuse node.nodeID .internal ("failed to create pending change: " ++ err), none)
    | .ok metadataStore =>
      some ({ t with metadataStore }, some (.startAdd node assignments changeID assignments 0))
  | .startAdd node assignments changeID [] streamingStarted =>
    some (t.answer node.nodeID (.ok ("Node added with BOOTSTRAPPING state (NOT in ring yet). "
      ++ "Streaming initiated from " ++ toString streamingStarted ++ " nodes. Change ID: "
      ++ changeID)), some (.monitorAdd node assignments changeID [] 0))
  | .startAdd node assignments changeID ((oldNodeID, ranges) :: rest) streamingStarted =>
    match t.getStorageNode env oldNodeID with
    | none => some (t, some (.startAdd node assignments changeID rest streamingStarted))
    | some _ =>
      let (t, success) := t.startStreaming (env.rpc oldNodeID) oldNodeID node.nodeID ranges
      some (t, some (.startAdd node assignments changeID rest
        (if success then streamingStarted + 1 else streamingStarted)))
  | .monitorAdd node assignments changeID completedNodes attempt =>
    let sourceNodes := assignments.map Prod.fst
    let completedNodes := poll (fun id => (t.getStorageNode env id).isSome &&
      t.streamCompleted (env.rpc id) id node.nodeID) sourceNodes completedNodes
    if ∀ id ∈ sourceNodes, id ∈ completedNodes then
      let t := { t with bootstrapped := Function.update t.bootstrapped node.nodeID true }
      match HintReplayService.replayHintsForNode t.hintStore node.nodeID env.hintCountError
          env.hintRounds with
      | none => none
      | some (.error _, replay) =>
        some ({ t with hintStore := replay.store },
          some (.finish node.nodeID
            (NodeHandlerV2.rollbackNodeAddition node.nodeID sourceNodes changeID)))
      | some (.ok (), replay) =>
        some ({ t with
          hintStore := replay.store
          hashRing := t.hashRing.addNode hash node.nodeID node.virtualNodes },
          some (.setNormal node sourceNodes changeID))
    else if attempt + 1 < NodeHandlerV2.maxAttempts then
      some (t, some (.monitorAdd node assignments changeID completedNodes (attempt + 1)))
    else
      some (t, some (.finish node.nodeID
        (NodeHandlerV2.rollbackNodeAddition node.nodeID sourceNodes changeID)))
  | .setNormal node sourceNodes changeID =>
    match env.db (t.metadataStore.updateNodeState node.nodeID .normal) with
    | .error _ => some (t, none)
    | .ok metadataStore =>
      some ({ t with metadataStore },
        some (.finish node.nodeID
          (NodeHandlerV2.afterNormal node.nodeID sourceNodes changeID)))
  | _ => none

/-- A turn of `RemoveStorageNodeV2` and of its monitor. -/
def turnRemove (hash : String → UInt64) (t : Topology) (env : TopologyEnv) :
    TopologyPhase → Option (Topology × Option TopologyPhase)
  | .lockRemove nodeID force =>
    if nodeID ∈ t.nodeLocks then none
    else
      let t := { t with nodeLocks := nodeID :: t.nodeLocks }
      if nodeID = "" then
        some (t.refuse nodeID .invalidArgument "node_id is required", none)
      else some (t, some (.findNode nodeID force))
  | .findNode nodeID force =>
    match t.getStorageNode env nodeID with
    | none => some (t.refuse nodeID .notFound "node not found", none)
    | some node => some (t, some (.countNodes node force))
  | .countNodes node force =>
    if env.dbError.isSome then
      some (t.refuse node.nodeID .internal "failed to validate node count", none)
    else if !force && (t.activeNodeCount : Int) - 1 < NodeHandlerV2.minNodesRequired then
      some (t.refuse node.nodeID .failedPrecondition ("Cannot remove node: would leave only "
        ++ toString ((t.activeNodeCount : Int) - 1) ++ " nodes, minimum "
        ++ toString NodeHandlerV2.minNodesRequired ++ " required. Use force=true to override."),
        none)
    else some (t, some (.setDraining node))
  | .setDraining node =>
    match env.db (t.metadataStore.updateStorageNodeStatus node.nodeID "draining") with
    | .error _ => some (t.refuse node.nodeID .internal "failed to update node status", none)
    | .ok metadataStore => some ({ t with metadataStore }, some (.setLeaving node))
  | .setLeaving node =>
    match env.db (t.metadataStore.updateNodeState node.nodeID .leaving) with
    | .error _ => some (t.refuse node.nodeID .internal "failed to update node state", none)
    | .ok metadataStore => some ({ t with metadataStore }, some (.planRemove node))
  | .planRemove node =>
    let assignments := env.assignmentsOrder.visit
      (KeyRangeService.calculateKeyRangesForRemovedNode hash env.countsOrder t.hashRing
        node).toPairs
    match env.db (t.metadataStore.updateNodeRanges node.nodeID []
        (Assignments.leavingRanges node.nodeID assignments)) with
    | .error err =>
      some (t.refuse node.nodeID .internal ("failed to update leaving ranges: " ++ err), none)
    | .ok metadataStore =>
      some ({ t with metadataStore }, some (.markInheritors node assignments assignments))
  | .markInheritors node assignments [] => some (t, some (.recordRemove node assignments))
  | .markInheritors node assignments ((inheritingNodeID, ranges) :: rest) =>
    -- an error is only logged
    let metadataStore := (env.db (t.metadataStore.updateNodeRanges inheritingNodeID
      (Assignments.inheritedRanges node.nodeID inheritingNodeID ranges) [])).toOption.getD
        t.metadataStore
    some ({ t with metadataStore }, some (.markInheritors node assignments rest))
  | .recordRemove node assignments =>
    let changeID := changeIDFor env "decommission" node.nodeID
    match env.db (t.metadataStore.addPendingChange (newChange env .decommission changeID node.nodeID
        (assignments.map Prod.fst ++ [node.nodeID]) assignments)) with
    | .error err =>
      some (t.refuse node.nodeID .internal ("failed to create pending change: " ++ err), none)
    | .ok metadataStore =>
      some ({ t with metadataStore }, some (.startRemove node assignments changeID assignments 0))
  | .startRemove node assignments changeID [] streamingStarted =>
    some (t.answer node.nodeID (.ok ("Node marked as LEAVING (stays in ring). "
      ++ "Streaming initiated to " ++ toString streamingStarted ++ " inheriting nodes. Change ID: "
      ++ changeID)), some (.monitorRemove node assignments changeID [] 0))
  | .startRemove node assignments changeID ((inheritingNodeID, ranges) :: rest) streamingStarted =>
    match t.getStorageNode env inheritingNodeID with
    | none => some (t, some (.startRemove node assignments changeID rest streamingStarted))
    | some _ =>
      let (t, success) := t.startStreaming (env.rpc inheritingNodeID) node.nodeID inheritingNodeID
        ranges
      some (t, some (.startRemove node assignments changeID rest
        (if success then streamingStarted + 1 else streamingStarted)))
  | .monitorRemove node assignments changeID completedNodes attempt =>
    let inheritingNodes := assignments.map Prod.fst
    let completedNodes := poll (fun id => t.streamCompleted (env.rpc id) node.nodeID id)
      inheritingNodes completedNodes
    if ∀ id ∈ inheritingNodes, id ∈ completedNodes then
      some ({ t with
        hashRing := t.hashRing.removeNode node.nodeID
        decommissioned := Function.update t.decommissioned node.nodeID true },
        some (.finish node.nodeID
          (NodeHandlerV2.afterRemoval node.nodeID inheritingNodes changeID)))
    else if attempt + 1 < NodeHandlerV2.maxAttempts then
      some (t, some (.monitorRemove node assignments changeID completedNodes (attempt + 1)))
    else
      some (t, some (.finish node.nodeID
        (NodeHandlerV2.rollbackNodeRemoval node.nodeID inheritingNodes changeID)))
  | _ => none

/-- A turn of `updateHashRing`. -/
def turnRefresh (hash : String → UInt64) (t : Topology) (env : TopologyEnv) :
    TopologyPhase → Option (Topology × Option TopologyPhase)
  | .fetchNodes =>
    if env.dbError.isSome then some (t, none)
    else some (t, some (.rebuildRing t.metadataStore.listStorageNodes))
  | .rebuildRing nodes =>
    some ({ t with hashRing := RoutingService.rebuild hash t.hashRing nodes }, none)
  | _ => none

/-- A turn at the end of a monitor. -/
def turnFinish (t : Topology) (env : TopologyEnv) (nodeID : String) :
    List Chore → Option (Topology × Option TopologyPhase)
  | [] => some (t, none)
  | .statement statement fatal :: rest =>
    match env.db (statement.exec env.now t.metadataStore) with
    | .error _ => some (t, if fatal then none else some (.finish nodeID rest))
    | .ok metadataStore => some ({ t with metadataStore }, some (.finish nodeID rest))
  | .stopStreaming sourceNodeID targetNodeID lookUp :: rest =>
    if lookUp && (t.getStorageNode env sourceNodeID).isNone then
      some (t, some (.finish nodeID rest))
    else
      some (t.stopStreaming (env.rpc (if lookUp then sourceNodeID else targetNodeID)) sourceNodeID
        targetNodeID, some (.finish nodeID rest))

/-- A turn of a stream. -/
def turnStream (t : Topology) (env : TopologyEnv) (sourceNodeID : String) (ref : Nat) :
    Option (Topology × Option TopologyPhase) :=
  ((t.streaming sourceNodeID).execute ref env.streamFails).map fun sm =>
    ({ t with streaming := Function.update t.streaming sourceNodeID sm }, none)

/-- A turn of a call. -/
def turn (hash : String → UInt64) (t : Topology) (env : TopologyEnv) (phase : TopologyPhase) :
    Option (Topology × Option TopologyPhase) :=
  match phase with
  | .lockAdd .. | .insertNode .. | .planAdd .. | .recordAdd .. | .startAdd .. | .monitorAdd ..
  | .setNormal .. => t.turnAdd hash env phase
  | .lockRemove .. | .findNode .. | .countNodes .. | .setDraining .. | .setLeaving ..
  | .planRemove .. | .markInheritors .. | .recordRemove .. | .startRemove ..
  | .monitorRemove .. => t.turnRemove hash env phase
  | .finish nodeID chores => t.turnFinish env nodeID chores
  | .fetchNodes | .rebuildRing .. => t.turnRefresh hash env phase
  | .executing sourceNodeID ref => t.turnStream env sourceNodeID ref

abbrev System := Concurrent.System Topology TopologyPhase

abbrev Turn := Concurrent.Turn TopologyEnv TopologyRequest

/-- A step of the interleaving. -/
def step (hash : String → UInt64) (s : System) (t : Turn) : Option System :=
  Concurrent.step enter (turn hash) s t

end Topology

end PairDB.Coordinator
