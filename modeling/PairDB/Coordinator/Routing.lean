import PairDB.Coordinator.ConsistentHash
import PairDB.Coordinator.Consistency

/-!
# `service.RoutingService`: from a key to its replicas

`GetWriteReplicas` and `GetReadReplicas` are one algorithm with two error texts: hash
`tenant:key`, walk the ring for as many physical nodes as the replication factor asks for, look
them up in the node table and keep those that are not down.

The result is a list of exactly as many pairwise different nodes as the replication factor says,
which is what every quorum argument counts on (`nodup_getWriteReplicas`, `length_getWriteReplicas`).
-/

namespace PairDB.Coordinator

open Infra

/-- `RoutingService`: the ring and what `ListStorageNodes` of the metadata store returns. -/
structure RoutingService where
  hash : String → UInt64
  hashRing : ConsistentHasher
  listStorageNodes : Except String (List StorageNode)

namespace RoutingService

/-- The node map of both functions. -/
def nodeMap (storageNodes : List StorageNode) : Map String StorageNode :=
  Map.ofList (storageNodes.map fun node => (node.nodeID, node))

/-- Which life-cycle states take part in reads and writes. -/
def serves (node : StorageNode) : Bool :=
  node.state = .normal || node.state = .bootstrapping || node.state = .leaving

/-- The loop that resolves virtual nodes. `seen` are the ids met so far. -/
def resolve (nodeMap : Map String StorageNode) :
    List VirtualNode → (seen : List String) → List StorageNode
  | [], _ => []
  | vnode :: vnodes, seen =>
    if vnode.nodeID ∈ seen then resolve nodeMap vnodes seen
    else
      match nodeMap.get? vnode.nodeID with
      | none => resolve nodeMap vnodes (vnode.nodeID :: seen)
      | some node =>
        if serves node then node :: resolve nodeMap vnodes (vnode.nodeID :: seen)
        else resolve nodeMap vnodes (vnode.nodeID :: seen)

/-- The common body; `kind` is the word in the last error text. -/
def getReplicasFor (kind : String) (s : RoutingService) (tenantID key : String)
    (replicationFactor : Nat) : Except String (List StorageNode) :=
  let compositeKey := tenantID ++ ":" ++ key
  let vnodes := s.hashRing.getNodes (s.hash compositeKey) replicationFactor
  if vnodes.length < replicationFactor then
    .error ("insufficient storage nodes: need " ++ toString replicationFactor ++ ", got "
      ++ toString vnodes.length)
  else
    match s.listStorageNodes with
    | .error err => .error ("failed to list storage nodes: " ++ err)
    | .ok storageNodes =>
      let nodes := resolve (nodeMap storageNodes) vnodes []
      if nodes.length < replicationFactor then
        .error ("failed to resolve all " ++ kind ++ " replicas: need "
          ++ toString replicationFactor ++ ", got " ++ toString nodes.length)
      else .ok nodes

/-- `GetWriteReplicas`. -/
def getWriteReplicas (s : RoutingService) (tenantID key : String) (replicationFactor : Nat) :
    Except String (List StorageNode) :=
  getReplicasFor "write" s tenantID key replicationFactor

/-- `GetReadReplicas`. -/
def getReadReplicas (s : RoutingService) (tenantID key : String) (replicationFactor : Nat) :
    Except String (List StorageNode) :=
  getReplicasFor "read" s tenantID key replicationFactor

/-! ## Changes of the ring -/

/-- Which nodes `updateHashRing` puts on the ring: it looks at the older life cycle. -/
def activeNodes (nodes : List StorageNode) : List StorageNode :=
  nodes.filter fun node => node.status = .active || node.status = .bootstrapping

/-- The second half of `updateHashRing`, under the lock: the ring is cleared and built again. -/
def rebuild (hash : String → UInt64) (hashRing : ConsistentHasher) (nodes : List StorageNode) :
    ConsistentHasher :=
  (activeNodes nodes).foldl (fun ring node => ring.addNode hash node.nodeID node.virtualNodes)
    hashRing.clear

theorem contains_foldl_addNode (hash : String → UInt64) (nodeID : String) :
    ∀ (nodes : List StorageNode) (ring : ConsistentHasher),
      (nodes.foldl (fun ring node => ring.addNode hash node.nodeID node.virtualNodes)
        ring).contains nodeID = true ↔
        ring.contains nodeID = true ∨ ∃ node ∈ nodes, node.nodeID = nodeID
  | [], ring => by simp
  | node :: nodes, ring => by
    rw [List.foldl_cons, contains_foldl_addNode hash nodeID nodes,
      ConsistentHasher.contains_addNode]
    simp only [Bool.or_eq_true, decide_eq_true_eq, List.mem_cons, exists_eq_or_imp]
    tauto

/-- After a refresh the ring has the nodes of the listing that are active. -/
theorem contains_rebuild (hash : String → UInt64) (hashRing : ConsistentHasher)
    (nodes : List StorageNode) (nodeID : String) :
    (rebuild hash hashRing nodes).contains nodeID = true ↔
      ∃ node ∈ activeNodes nodes, node.nodeID = nodeID := by
  simp [rebuild, contains_foldl_addNode, ConsistentHasher.clear]

/-! ## What the loop returns -/

theorem nodeID_of_get?_nodeMap {storageNodes : List StorageNode} {id : String}
    {node : StorageNode} (h : (nodeMap storageNodes).get? id = some node) : node.nodeID = id := by
  have hmem := Map.mem_of_get?_ofList h
  rw [List.mem_map] at hmem
  obtain ⟨node', -, heq⟩ := hmem
  rw [Prod.mk.injEq] at heq
  rw [← heq.1, ← heq.2]

variable {m : Map String StorageNode}

theorem length_resolve_le (vnodes : List VirtualNode) (seen : List String) :
    (resolve m vnodes seen).length ≤ vnodes.length := by
  induction vnodes generalizing seen with
  | nil => exact Nat.le_refl 0
  | cons vnode vnodes ih =>
    have hrest := ih (vnode.nodeID :: seen)
    unfold resolve
    rw [List.length_cons]
    split
    · exact Nat.le_succ_of_le (ih seen)
    · split
      · exact Nat.le_succ_of_le hrest
      · split
        · exact Nat.succ_le_succ hrest
        · exact Nat.le_succ_of_le hrest

/-- The loop returns every node once, and none whose id it has already met. -/
theorem nodup_resolve (hm : ∀ id node, m.get? id = some node → node.nodeID = id)
    (vnodes : List VirtualNode) (seen : List String) :
    (resolve m vnodes seen).Nodup ∧ ∀ node ∈ resolve m vnodes seen, node.nodeID ∉ seen := by
  induction vnodes generalizing seen with
  | nil => exact ⟨List.nodup_nil, by simp [resolve]⟩
  | cons vnode vnodes ih =>
    obtain ⟨hnd, hnew⟩ := ih (vnode.nodeID :: seen)
    have hweaken : ∀ node ∈ resolve m vnodes (vnode.nodeID :: seen), node.nodeID ∉ seen :=
      fun node hnode hseen => hnew node hnode (List.mem_cons_of_mem _ hseen)
    unfold resolve
    split
    · exact ih seen
    · next hunseen =>
      split
      · exact ⟨hnd, hweaken⟩
      · next node hnode =>
        have hid := hm _ _ hnode
        split
        · refine ⟨List.nodup_cons.mpr ⟨fun hmem => ?_, hnd⟩, fun node' hmem => ?_⟩
          · exact hnew node hmem (by simp [hid])
          · rcases List.mem_cons.mp hmem with rfl | hmem
            · rwa [hid]
            · exact hweaken node' hmem
        · exact ⟨hnd, hweaken⟩

/-- The loop returns the nodes of the table that were met and serve. -/
theorem mem_resolve (hm : ∀ id node, m.get? id = some node → node.nodeID = id)
    {vnodes : List VirtualNode} {seen : List String} {node : StorageNode} :
    node ∈ resolve m vnodes seen ↔ m.get? node.nodeID = some node ∧ serves node = true ∧
      node.nodeID ∈ vnodes.map VirtualNode.nodeID ∧ node.nodeID ∉ seen := by
  induction vnodes generalizing seen with
  | nil => simp [resolve]
  | cons vnode vnodes ih =>
    rw [List.map_cons, List.mem_cons]
    unfold resolve
    split
    · next hseen =>
      rw [ih]
      have hne : node.nodeID ∉ seen → node.nodeID ≠ vnode.nodeID := fun h heq => h (heq ▸ hseen)
      tauto
    · next hseen =>
      have hrest := @ih (vnode.nodeID :: seen)
      rw [List.mem_cons, not_or] at hrest
      split
      · next hnone =>
        rw [hrest]
        have hne : m.get? node.nodeID = some node → node.nodeID ≠ vnode.nodeID := by
          intro h heq
          rw [heq, hnone] at h
          cases h
        tauto
      · next found hfound =>
        have hid := hm _ _ hfound
        have hsame : m.get? node.nodeID = some node →
            (node.nodeID = vnode.nodeID ↔ node = found) := by
          intro h
          constructor
          · intro heq
            rw [heq, hfound] at h
            exact (Option.some.inj h).symm
          · rintro rfl
            exact hid
        split
        · next hserves =>
          rw [List.mem_cons, hrest]
          constructor
          · rintro (rfl | ⟨hget, hs, hmem, hne, hnew⟩)
            · rw [hid]
              exact ⟨hfound, hserves, Or.inl rfl, hseen⟩
            · exact ⟨hget, hs, Or.inr hmem, hnew⟩
          · rintro ⟨hget, hs, hmem, hnew⟩
            by_cases heq : node.nodeID = vnode.nodeID
            · exact Or.inl ((hsame hget).mp heq)
            · exact Or.inr ⟨hget, hs, hmem.resolve_left heq, heq, hnew⟩
        · next hserves =>
          rw [hrest]
          constructor
          · rintro ⟨hget, hs, hmem, hne, hnew⟩
            exact ⟨hget, hs, Or.inr hmem, hnew⟩
          · rintro ⟨hget, hs, hmem, hnew⟩
            have hne : node.nodeID ≠ vnode.nodeID := by
              intro heq
              rw [(hsame hget).mp heq] at hs
              exact hserves hs
            exact ⟨hget, hs, hmem.resolve_left hne, hne, hnew⟩

/-- If every virtual node was resolved, a table with the same nodes and more gives the same nodes. -/
theorem resolve_eq_of_le {m' : Map String StorageNode}
    (hle : ∀ id node, m.get? id = some node → m'.get? id = some node) (vnodes : List VirtualNode)
    (seen : List String) (h : (resolve m vnodes seen).length = vnodes.length) :
    resolve m' vnodes seen = resolve m vnodes seen := by
  induction vnodes generalizing seen with
  | nil => rfl
  | cons vnode vnodes ih =>
    have hrest := length_resolve_le (m := m) vnodes (vnode.nodeID :: seen)
    have hseen := length_resolve_le (m := m) vnodes seen
    unfold resolve at h ⊢
    rw [List.length_cons] at h
    -- only the last case leaves the lengths equal
    split at h
    · omega
    · next hnew =>
      rw [if_neg hnew, if_neg hnew]
      cases hget : m.get? vnode.nodeID with
      | none =>
        simp only [hget] at h
        omega
      | some node =>
        simp only [hget, hle _ _ hget] at h ⊢
        split at h
        · next hserves =>
          rw [if_pos hserves, if_pos hserves, ih _ (by simpa using h)]
        · omega

/-! ## The replicas of a key -/

variable {s : RoutingService} {tenantID key : String} {replicationFactor : Nat}
  {replicas : List StorageNode}

theorem getReplicasFor_eq_ok {kind : String}
    (h : getReplicasFor kind s tenantID key replicationFactor = .ok replicas) :
    ∃ storageNodes, s.listStorageNodes = .ok storageNodes ∧
      replicas = resolve (nodeMap storageNodes)
        (s.hashRing.getNodes (s.hash (tenantID ++ ":" ++ key)) replicationFactor) [] ∧
      replicationFactor ≤ replicas.length := by
  unfold getReplicasFor at h
  simp only at h
  split at h
  · cases h
  · split at h
    · cases h
    · next storageNodes hlist =>
      split at h
      · cases h
      · next hlen =>
        cases h
        exact ⟨storageNodes, hlist, rfl, not_lt.mp hlen⟩

/-- From the same ring and the same node table, reads go to the nodes that writes go to. -/
theorem getReadReplicas_eq_getWriteReplicas {readReplicas : List StorageNode}
    (hw : s.getWriteReplicas tenantID key replicationFactor = .ok replicas)
    (hr : s.getReadReplicas tenantID key replicationFactor = .ok readReplicas) :
    readReplicas = replicas := by
  obtain ⟨nodes, hnodes, hreplicas, -⟩ := getReplicasFor_eq_ok hw
  obtain ⟨nodes', hnodes', hread, -⟩ := getReplicasFor_eq_ok hr
  rw [hnodes, Except.ok.injEq] at hnodes'
  rw [hread, hreplicas, hnodes']

theorem length_getWriteReplicas
    (hw : s.getWriteReplicas tenantID key replicationFactor = .ok replicas) :
    replicas.length = replicationFactor := by
  obtain ⟨nodes, -, hreplicas, hlen⟩ := getReplicasFor_eq_ok hw
  refine le_antisymm ?_ hlen
  calc replicas.length
      ≤ (s.hashRing.getNodes (s.hash (tenantID ++ ":" ++ key)) replicationFactor).length := by
        rw [hreplicas]
        exact length_resolve_le _ _
    _ ≤ replicationFactor := ConsistentHasher.length_getNodes_le _ _ _

/-- With the same ring, nodes that join the table do not change the replicas of a key. -/
theorem getWriteReplicas_eq_of_le {storageNodes storageNodes' : List StorageNode}
    (hlist : s.listStorageNodes = .ok storageNodes)
    (hle : ∀ id node, (nodeMap storageNodes).get? id = some node →
      (nodeMap storageNodes').get? id = some node)
    (hw : s.getWriteReplicas tenantID key replicationFactor = .ok replicas) :
    getWriteReplicas { s with listStorageNodes := .ok storageNodes' } tenantID key
      replicationFactor = .ok replicas := by
  have hlen := length_getWriteReplicas hw
  obtain ⟨nodes, hnodes, hreplicas, -⟩ := getReplicasFor_eq_ok hw
  rw [hlist, Except.ok.injEq] at hnodes
  subst hnodes
  have hle' := ConsistentHasher.length_getNodes_le s.hashRing
    (s.hash (tenantID ++ ":" ++ key)) replicationFactor
  have hresolved := length_resolve_le (m := nodeMap storageNodes)
    (s.hashRing.getNodes (s.hash (tenantID ++ ":" ++ key)) replicationFactor) []
  rw [← hreplicas] at hresolved
  have hsame := resolve_eq_of_le hle
    (s.hashRing.getNodes (s.hash (tenantID ++ ":" ++ key)) replicationFactor) []
    (by rw [← hreplicas]; omega)
  simp only [getWriteReplicas, getReplicasFor, hsame, ← hreplicas]
  rw [if_neg (by omega), if_neg (by omega)]

theorem nodup_getWriteReplicas
    (hw : s.getWriteReplicas tenantID key replicationFactor = .ok replicas) : replicas.Nodup := by
  obtain ⟨nodes, -, hreplicas, -⟩ := getReplicasFor_eq_ok hw
  rw [hreplicas]
  exact (nodup_resolve (fun _ _ => nodeID_of_get?_nodeMap) _ _).1

end RoutingService

end PairDB.Coordinator
