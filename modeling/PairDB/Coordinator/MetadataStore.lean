import PairDB.Coordinator.KeyRange

/-!
# `store.PostgresMetadataStore`: the tables of the metadata store

A table is a map from its primary key to the other columns of the row. The constraints of the
migrations are checked where a statement can violate them: the keys, the lengths of the columns, the
`CHECK` of the status, and the foreign key of a pending change, whose row goes with its node.
-/

namespace PairDB.Coordinator

open Infra

/-- `model.TokenRange`. -/
structure TokenRange where
  start : UInt64
  stop : UInt64
  deriving DecidableEq, Repr

/-- The values of `StreamingState`. -/
inductive StreamingState where
  | pending
  | streaming
  | completed
  deriving DecidableEq, Repr

/-- `model.PendingRangeInfo`. -/
structure PendingRangeInfo where
  range : TokenRange
  oldOwnerID : String
  newOwnerID : String
  streamingState : StreamingState
  deriving DecidableEq, Repr

/-- `model.LeavingRangeInfo`. -/
structure LeavingRangeInfo where
  range : TokenRange
  oldOwnerID : String
  newOwnerID : String
  streamingState : StreamingState
  deriving DecidableEq, Repr

/-- A row of `storage_nodes`, without its key. -/
structure NodeRow where
  host : String
  port : Int
  status : NodeStatus
  state : NodeState
  virtualNodes : Nat
  pendingRanges : List PendingRangeInfo
  leavingRanges : List LeavingRangeInfo
  deriving DecidableEq, Repr

/-- What a listing says about a row. -/
def NodeRow.storageNode (nodeID : String) (row : NodeRow) : StorageNode :=
  ⟨nodeID, row.host, row.port, row.status, row.state, row.virtualNodes⟩

/-- The values of `PendingChange.Type`. -/
inductive ChangeType where
  | bootstrap
  | decommission
  deriving DecidableEq, Repr

/-- `model.PendingChangeStatus`. -/
inductive PendingChangeStatus where
  | inProgress
  | completed
  | failed
  | rolledBack
  deriving DecidableEq, Repr

/-- `model.StreamingProgress`. -/
structure StreamingProgress where
  sourceNodeID : String
  targetNodeID : String
  keysCopied : Int
  keysStreamed : Int
  bytesTransferred : Int
  state : String
  lastUpdate : Int
  deriving DecidableEq, Repr

/-- `model.PendingChange`. -/
structure PendingChange where
  changeID : String
  type : ChangeType
  nodeID : String
  affectedNodes : List String
  ranges : List TokenRange
  startTime : Int
  status : PendingChangeStatus
  errorMessage : String
  lastUpdated : Int
  completedAt : Option Int
  progress : Map String StreamingProgress

/-- A row of `pending_changes`, without its key. The error message can be `NULL`. -/
structure PendingChangeRow where
  type : ChangeType
  nodeID : String
  affectedNodes : List String
  ranges : List TokenRange
  startTime : Int
  status : PendingChangeStatus
  errorMessage : Option String
  lastUpdated : Int
  progress : Map String StreamingProgress

/-- The tables. -/
structure MetadataStore where
  storageNodes : Map String NodeRow
  pendingChanges : Map String PendingChangeRow

namespace MetadataStore

def empty : MetadataStore := ⟨∅, ∅⟩

/-- The state of a stored node. -/
def state? (s : MetadataStore) (nodeID : String) : Option NodeState :=
  (s.storageNodes.get? nodeID).map NodeRow.state

/-! ## `storage_nodes` -/

/-- `ListStorageNodes`. -/
def listStorageNodes (s : MetadataStore) : List StorageNode :=
  ((s.storageNodes.toPairs.map fun p => p.2.storageNode p.1).filter fun node =>
    node.status ≠ .inactive).insertionSort fun a b => a.nodeID ≤ b.nodeID

/-- The `CHECK` of the status column. -/
def storedStatus? (status : String) : Option NodeStatus :=
  if status = "active" then some .active
  else if status = "draining" then some .draining
  else if status = "inactive" then some .inactive
  else none

/-- `AddStorageNode`. -/
def addStorageNode (s : MetadataStore) (node : StorageNode) : Except String MetadataStore :=
  if node.nodeID.length > 255 ∨ node.host.length > 255 then
    .error "value too long for type character varying(255)"
  else if node.port ≤ 0 ∨ node.port ≥ 65536 ∨ node.virtualNodes = 0 ∨
      node.status = .bootstrapping then
    .error "new row for relation storage_nodes violates check constraint"
  else
    match s.storageNodes.get? node.nodeID with
    | some _ => .error "duplicate key value violates unique constraint storage_nodes_pkey"
    | none =>
      .ok { s with
        storageNodes := s.storageNodes.set node.nodeID
          ⟨node.host, node.port, node.status, node.state, node.virtualNodes, [], []⟩ }

/-- An `UPDATE` of one row of `storage_nodes`. -/
def updateRow (s : MetadataStore) (nodeID : String) (update : NodeRow → NodeRow) :
    Except String MetadataStore :=
  match s.storageNodes.get? nodeID with
  | none => .error "storage node not found"
  | some row => .ok { s with storageNodes := s.storageNodes.set nodeID (update row) }

/-- `UpdateNodeState`. -/
def updateNodeState (s : MetadataStore) (nodeID : String) (state : NodeState) :
    Except String MetadataStore :=
  s.updateRow nodeID fun row => { row with state }

/-- `UpdateStorageNodeStatus`. -/
def updateStorageNodeStatus (s : MetadataStore) (nodeID status : String) :
    Except String MetadataStore :=
  match storedStatus? status with
  | some status => s.updateRow nodeID fun row => { row with status }
  | none =>
    -- the constraint is not looked at if there is no row to update
    match s.storageNodes.get? nodeID with
    | none => .error "storage node not found"
    | some _ => .error "new row for relation storage_nodes violates check constraint"

/-- `UpdateNodeRanges`. -/
def updateNodeRanges (s : MetadataStore) (nodeID : String)
    (pendingRanges : List PendingRangeInfo) (leavingRanges : List LeavingRangeInfo) :
    Except String MetadataStore :=
  s.updateRow nodeID fun row => { row with pendingRanges, leavingRanges }

/-- `RemoveStorageNode`. The pending changes of the node go with it. -/
def removeStorageNode (s : MetadataStore) (nodeID : String) : Except String MetadataStore :=
  match s.storageNodes.get? nodeID with
  | none => .error "storage node not found"
  | some _ =>
    .ok {
      storageNodes := s.storageNodes.remove nodeID
      pendingChanges := Map.ofList <| s.pendingChanges.toPairs.filter fun p => p.2.nodeID ≠ nodeID }

/-! ## `pending_changes` -/

/-- `AddPendingChange`. Neither the error message nor the time of completion is written. -/
def addPendingChange (s : MetadataStore) (change : PendingChange) : Except String MetadataStore :=
  if change.changeID.length > 64 then
    .error "failed to add pending change: value too long for type character varying(64)"
  else
    match s.pendingChanges.get? change.changeID, s.storageNodes.get? change.nodeID with
    | some _, _ => .error "failed to add pending change: duplicate key value"
    | none, none => .error "failed to add pending change: violates foreign key constraint"
    | none, some _ =>
      .ok { s with
        pendingChanges := s.pendingChanges.set change.changeID
          { type := change.type
            nodeID := change.nodeID
            affectedNodes := change.affectedNodes
            ranges := change.ranges
            startTime := change.startTime
            status := change.status
            errorMessage := none
            lastUpdated := change.lastUpdated
            progress := change.progress } }

/-- `GetPendingChange`. A message that is `NULL` cannot be scanned into a string. -/
def getPendingChange (s : MetadataStore) (changeID : String) : Except String PendingChange :=
  match s.pendingChanges.get? changeID with
  | none => .error "failed to get pending change: no rows in result set"
  | some row =>
    match row.errorMessage with
    | none => .error "failed to get pending change: cannot scan NULL into *string"
    | some errorMessage =>
      .ok {
        changeID, errorMessage
        type := row.type
        nodeID := row.nodeID
        affectedNodes := row.affectedNodes
        ranges := row.ranges
        startTime := row.startTime
        status := row.status
        lastUpdated := row.lastUpdated
        completedAt := none
        progress := row.progress }

/-- `UpdatePendingChange`. -/
def updatePendingChange (s : MetadataStore) (change : PendingChange) :
    Except String MetadataStore :=
  match s.pendingChanges.get? change.changeID with
  | none => .error "pending change not found"
  | some row =>
    .ok { s with
      pendingChanges := s.pendingChanges.set change.changeID
        { row with
          status := change.status
          errorMessage := some change.errorMessage
          lastUpdated := change.lastUpdated
          progress := change.progress } }

/-! ## What the statements do to the rows and to the states of the nodes -/

variable {s s' : MetadataStore} {nodeID : String}

/-- The row of a new node. -/
def newRow (node : StorageNode) : NodeRow :=
  ⟨node.host, node.port, node.status, node.state, node.virtualNodes, [], []⟩

theorem get?_addStorageNode {node : StorageNode} (h : s.addStorageNode node = .ok s') :
    s.storageNodes.get? node.nodeID = none ∧ s'.pendingChanges = s.pendingChanges ∧
      ∀ id, s'.storageNodes.get? id =
        if node.nodeID = id then some (newRow node) else s.storageNodes.get? id := by
  unfold addStorageNode at h
  split at h
  · cases h
  split at h
  · cases h
  split at h
  · cases h
  · next hnone =>
    cases h
    exact ⟨hnone, rfl, fun id => Map.get?_set _ _ _ _⟩

theorem get?_updateRow {update : NodeRow → NodeRow} (h : s.updateRow nodeID update = .ok s') :
    s'.pendingChanges = s.pendingChanges ∧ ∃ row, s.storageNodes.get? nodeID = some row ∧
      ∀ id, s'.storageNodes.get? id =
        if nodeID = id then some (update row) else s.storageNodes.get? id := by
  unfold updateRow at h
  split at h
  · cases h
  · next row hrow =>
    cases h
    exact ⟨rfl, row, hrow, fun id => Map.get?_set _ _ _ _⟩

theorem state?_addStorageNode {node : StorageNode} (h : s.addStorageNode node = .ok s') :
    s.state? node.nodeID = none ∧
      ∀ id, s'.state? id = if node.nodeID = id then some node.state else s.state? id := by
  obtain ⟨hnone, -, hget⟩ := get?_addStorageNode h
  refine ⟨by simp [state?, hnone], fun id => ?_⟩
  simp only [state?, hget]
  split <;> rfl

theorem state?_updateRow {update : NodeRow → NodeRow} (h : s.updateRow nodeID update = .ok s') :
    ∃ row, s.storageNodes.get? nodeID = some row ∧
      ∀ id, s'.state? id = if nodeID = id then some (update row).state else s.state? id := by
  obtain ⟨-, row, hrow, hget⟩ := get?_updateRow h
  refine ⟨row, hrow, fun id => ?_⟩
  simp only [state?, hget]
  split <;> rfl

theorem state?_updateNodeState {state : NodeState} (h : s.updateNodeState nodeID state = .ok s') :
    s.state? nodeID ≠ none ∧
      ∀ id, s'.state? id = if nodeID = id then some state else s.state? id := by
  obtain ⟨row, hrow, hstate⟩ := state?_updateRow h
  exact ⟨by simp [state?, hrow], hstate⟩

/-- An update that keeps the state of the row. -/
theorem state?_updateRow_of_same {update : NodeRow → NodeRow}
    (h : s.updateRow nodeID update = .ok s') (hsame : ∀ row, (update row).state = row.state)
    (id : String) : s'.state? id = s.state? id := by
  obtain ⟨row, hrow, hstate⟩ := state?_updateRow h
  rw [hstate]
  split
  · next heq =>
    rw [hsame, ← heq]
    simp [state?, hrow]
  · rfl

theorem state?_updateStorageNodeStatus {status : String}
    (h : s.updateStorageNodeStatus nodeID status = .ok s') (id : String) :
    s'.state? id = s.state? id := by
  unfold updateStorageNodeStatus at h
  split at h
  · exact state?_updateRow_of_same h (fun _ => rfl) id
  · split at h <;> cases h

theorem state?_updateNodeRanges {pendingRanges : List PendingRangeInfo}
    {leavingRanges : List LeavingRangeInfo}
    (h : s.updateNodeRanges nodeID pendingRanges leavingRanges = .ok s') (id : String) :
    s'.state? id = s.state? id :=
  state?_updateRow_of_same h (fun _ => rfl) id

theorem state?_removeStorageNode (h : s.removeStorageNode nodeID = .ok s') (id : String) :
    s'.state? id = if nodeID = id then none else s.state? id := by
  unfold removeStorageNode at h
  split at h
  · cases h
  · cases h
    simp only [state?, Map.get?_remove]
    split <;> rfl

theorem storageNodes_addPendingChange {change : PendingChange}
    (h : s.addPendingChange change = .ok s') : s'.storageNodes = s.storageNodes := by
  unfold addPendingChange at h
  split at h
  · cases h
  split at h
  · cases h
  · cases h
  · cases h
    rfl

theorem storageNodes_updatePendingChange {change : PendingChange}
    (h : s.updatePendingChange change = .ok s') : s'.storageNodes = s.storageNodes := by
  unfold updatePendingChange at h
  split at h
  · cases h
  · cases h
    rfl

/-- The listing has the rows that are not inactive. -/
theorem mem_listStorageNodes {node : StorageNode} :
    node ∈ s.listStorageNodes ↔ ∃ id row, s.storageNodes.get? id = some row ∧
      row.storageNode id = node ∧ node.status ≠ .inactive := by
  unfold listStorageNodes
  rw [List.mem_insertionSort, List.mem_filter, List.mem_map]
  constructor
  · rintro ⟨⟨p, hp, rfl⟩, hstatus⟩
    exact ⟨p.1, p.2, (Map.mem_toPairs_iff _ _ _).mp hp, rfl, by simpa using hstatus⟩
  · rintro ⟨id, row, hrow, rfl, hstatus⟩
    exact ⟨⟨(id, row), (Map.mem_toPairs_iff _ _ _).mpr hrow, rfl⟩, by simpa using hstatus⟩

theorem nodup_listStorageNodes (s : MetadataStore) :
    (s.listStorageNodes.map StorageNode.nodeID).Nodup := by
  have hperm := (List.perm_insertionSort (fun a b : StorageNode => a.nodeID ≤ b.nodeID)
    ((s.storageNodes.toPairs.map fun p => p.2.storageNode p.1).filter fun node =>
      node.status ≠ .inactive)).map StorageNode.nodeID
  refine hperm.nodup_iff.mpr (List.Nodup.sublist (List.filter_sublist.map _) ?_)
  rw [List.map_map]
  exact Map.toPairs_nodup s.storageNodes

/-- What the node map of the routing service says. -/
theorem get?_nodeMap_listStorageNodes {id : String} {node : StorageNode} :
    (RoutingService.nodeMap s.listStorageNodes).get? id = some node ↔
      ∃ row, s.storageNodes.get? id = some row ∧ row.storageNode id = node ∧
        node.status ≠ .inactive := by
  have hkeys : ((s.listStorageNodes.map fun node => (node.nodeID, node)).map Prod.fst).Nodup := by
    rw [List.map_map]
    exact s.nodup_listStorageNodes
  rw [RoutingService.nodeMap, Map.get?_ofList_eq_some_iff _ hkeys, List.mem_map]
  constructor
  · rintro ⟨_, hmem, heq⟩
    cases heq
    obtain ⟨id, row, hrow, rfl, hstatus⟩ := mem_listStorageNodes.mp hmem
    exact ⟨row, hrow, rfl, hstatus⟩
  · rintro ⟨row, hrow, rfl, hstatus⟩
    exact ⟨row.storageNode id, mem_listStorageNodes.mpr ⟨id, row, hrow, rfl, hstatus⟩, rfl⟩

end MetadataStore

end PairDB.Coordinator
