import PairDB.StorageNode.Streaming
import PairDB.Coordinator.Properties.RingState

/-!
# Writes during a bootstrap

A node that bootstraps has a row with the ranges that it will own, and the writes for these ranges
should reach it. `GetWriteReplicas` does not look at the ranges: it takes the first nodes clockwise.
A node that has a row but is not yet on the ring gets no write at all, and a node on the ring gets
only those for which few enough other nodes come first (`coversBootstrap_iff`).
-/

namespace PairDB.Coordinator

open Infra
open PairDB.StorageNode (StreamKeyRange keyInRanges)

namespace ConsistentHasher

/-- The node has a point on the ring, and clockwise from the hash fewer than `count` other nodes come
before its first one. -/
def Near (ch : ConsistentHasher) (keyHash : UInt64) (count : Nat) (nodeID : String) : Prop :=
  nodeID ∈ ch.owners keyHash ∧
    ((ch.owners keyHash).takeWhile fun owner => owner ≠ nodeID).dedup.length < count
  deriving Decidable

theorem mem_getNodes_iff {ch : ConsistentHasher} (hsorted : ch.ring.Pairwise (· ≤ ·))
    (keyHash : UInt64) (count : Nat) (nodeID : String) :
    nodeID ∈ (ch.getNodes keyHash count).map VirtualNode.nodeID ↔ ch.Near keyHash count nodeID := by
  have howners : ((clockwise ch.ring keyHash).map ch.virtualNodeAt).map VirtualNode.nodeID =
      ch.owners keyHash := List.map_map
  rw [getNodes_eq hsorted, mem_take_firstBy_iff, howners]
  rfl

end ConsistentHasher

namespace ConfiguredRing

variable {hash : String → UInt64}

theorem sorted_step (r : ConfiguredRing) (update : RingUpdate) (r' : ConfiguredRing)
    (h : r.ring.ring.Pairwise (· ≤ ·)) (_ : True) (hstep : r.step hash update = some r') :
    r'.ring.ring.Pairwise (· ≤ ·) := by
  cases update with
  | updateHashRing listed =>
    cases hstep
    -- the last node that is added sorts the ring
    have hloop : ∀ (l : List StorageNode) (ch : ConsistentHasher), ch.ring.Pairwise (· ≤ ·) →
        (l.foldl (fun ring node => ring.addNode hash node.nodeID node.virtualNodes)
          ch).ring.Pairwise (· ≤ ·) := by
      intro l
      induction l with
      | nil => exact fun ch hch => hch
      | cons node l ih => exact fun ch _ => ih _ (ConsistentHasher.sorted_addNode ch _ _)
    exact hloop _ _ List.Pairwise.nil
  | addNode node =>
    cases hstep
    exact ConsistentHasher.sorted_addNode _ _ _
  | removeNode nodeID =>
    cases hstep
    dsimp only [ConsistentHasher.removeNode]
    split
    · exact h
    · exact h.filter _

/-- The ring is sorted in every state. -/
theorem sorted_of_run {updates : List RingUpdate} {r : ConfiguredRing}
    (hrun : run (step hash) init updates = some r) : r.ring.ring.Pairwise (· ≤ ·) :=
  run_invariant (P := fun _ _ => True) sorted_step List.Pairwise.nil (allSteps_trivial _ _) hrun

end ConfiguredRing

/-- The pending ranges of a row, as the storage nodes see them. -/
def NodeRow.pendingKeyRanges (row : NodeRow) : List StreamKeyRange :=
  row.pendingRanges.map fun pending => ⟨pending.range.start, pending.range.stop⟩

namespace RoutingService

/-- The routing service with a ring that was refreshed some time ago, and the present table. -/
def routing (hash : String → UInt64) (r : ConfiguredRing) (store : MetadataStore) : RoutingService :=
  ⟨hash, r.ring, .ok store.listStorageNodes⟩

/-- The node bootstraps, and the hash lies in a range that it will own. -/
def WillOwn (store : MetadataStore) (keyHash : UInt64) (nodeID : String) (row : NodeRow) : Prop :=
  store.storageNodes.get? nodeID = some row ∧ row.state = .bootstrapping ∧
    keyInRanges keyHash row.pendingKeyRanges = true
  deriving Decidable

/-- Every node that will own the key is among the replicas. -/
def CoversBootstrap (hash : String → UInt64) (store : MetadataStore) (tenantID key : String)
    (replicas : List StorageNode) : Prop :=
  ∀ x row, WillOwn store (hash (tenantID ++ ":" ++ key)) x row →
    x ∈ replicas.map StorageNode.nodeID

variable {hash : String → UInt64} {r : ConfiguredRing} {store : MetadataStore}
  {tenantID key : String} {replicationFactor : Nat} {replicas : List StorageNode}

/-- A node is among the replicas if it is listed, serves, and comes early enough on the ring. -/
theorem mem_getWriteReplicas_iff (hsorted : r.ring.ring.Pairwise (· ≤ ·))
    (hok : (routing hash r store).getWriteReplicas tenantID key replicationFactor = .ok replicas)
    {x : String} {row : NodeRow} (hrow : store.storageNodes.get? x = some row) :
    x ∈ replicas.map StorageNode.nodeID ↔ row.status ≠ .inactive ∧
      serves (row.storageNode x) = true ∧
      r.ring.Near (hash (tenantID ++ ":" ++ key)) replicationFactor x := by
  obtain ⟨nodes, hnodes, rfl, -⟩ := getReplicasFor_eq_ok hok
  cases hnodes
  rw [← ConsistentHasher.mem_getNodes_iff hsorted, List.mem_map]
  constructor
  · rintro ⟨node, hnode, rfl⟩
    obtain ⟨hget, hserves, hmem, -⟩ := (mem_resolve fun _ _ => nodeID_of_get?_nodeMap).mp hnode
    obtain ⟨row', hrow', hnode', hstatus⟩ := MetadataStore.get?_nodeMap_listStorageNodes.mp hget
    rw [hrow, Option.some.injEq] at hrow'
    rw [← hrow'] at hnode'
    rw [hnode']
    rw [← hnode'] at hstatus
    exact ⟨hstatus, hserves, hmem⟩
  · rintro ⟨hstatus, hserves, hmem⟩
    refine ⟨row.storageNode x, (mem_resolve fun _ _ => nodeID_of_get?_nodeMap).mpr ?_, rfl⟩
    exact ⟨MetadataStore.get?_nodeMap_listStorageNodes.mpr ⟨row, hrow, rfl, hstatus⟩, hserves, hmem,
      List.not_mem_nil⟩

/-- **When the writes of a key reach the nodes that will own it.** The ring is any that refreshes,
additions and removals lead to. `GetWriteReplicas` returns every node that bootstraps and will own
the key if and only if each of them is listed and on the ring, and fewer other nodes than the
replication factor come before it. -/
theorem coversBootstrap_iff {updates : List RingUpdate}
    (hrun : run (ConfiguredRing.step hash) ConfiguredRing.init updates = some r)
    (hok : (routing hash r store).getWriteReplicas tenantID key replicationFactor = .ok replicas) :
    CoversBootstrap hash store tenantID key replicas ↔
      ∀ x row, WillOwn store (hash (tenantID ++ ":" ++ key)) x row → row.status ≠ .inactive ∧
        r.ring.Near (hash (tenantID ++ ":" ++ key)) replicationFactor x := by
  refine forall_congr' fun x => forall_congr' fun row => imp_congr_right fun howns => ?_
  have hserves : serves (row.storageNode x) = true := by
    simp [serves, NodeRow.storageNode, howns.2.1]
  rw [mem_getWriteReplicas_iff (ConfiguredRing.sorted_of_run hrun) hok howns.1,
    and_iff_right hserves]

end RoutingService

namespace Sample

/-- One virtual node each; every key has the hash 12. -/
def bootstrapHash (id : String) : UInt64 :=
  if id = "a-vnode-0" then 10
  else if id = "x-vnode-0" then 15
  else if id = "b-vnode-0" then 20
  else 12

/-- The table before the new node. -/
def beforeBootstrap : MetadataStore :=
  ⟨Map.ofList [("a", ⟨"host", 1, .active, .normal, 1, [], []⟩),
    ("b", ⟨"host", 2, .active, .normal, 1, [], []⟩)], ∅⟩

/-- `AddStorageNodeV2` has stored the new node, with the range that it takes over from `b`. -/
def duringBootstrap : MetadataStore :=
  { beforeBootstrap with
    storageNodes := beforeBootstrap.storageNodes.set "x" ⟨"host", 3, .active, .bootstrapping, 1,
      [⟨⟨10, 15⟩, "b", "x", .pending⟩], []⟩ }

end Sample

open Sample RoutingService in
theorem coversBootstrap_refreshed :
    ∃ r replicas, run (ConfiguredRing.step bootstrapHash) ConfiguredRing.init
        [.updateHashRing beforeBootstrap, .updateHashRing duringBootstrap] = some r ∧
      (routing bootstrapHash r duringBootstrap).getWriteReplicas "t" "k" 2 = .ok replicas ∧
      replicas.map StorageNode.nodeID = ["x", "b"] ∧
      CoversBootstrap bootstrapHash duringBootstrap "t" "k" replicas := by
  refine ⟨_, [⟨"x", "host", 3, .active, .bootstrapping, 1⟩, ⟨"b", "host", 2, .active, .normal, 1⟩],
    rfl, by decide +kernel, rfl, ?_⟩
  refine (@coversBootstrap_iff bootstrapHash _ _ "t" "k" 2 _
    [.updateHashRing beforeBootstrap, .updateHashRing duringBootstrap] rfl
    (by decide +kernel)).mpr ?_
  rintro x row ⟨hrow, hstate, -⟩
  simp only [duringBootstrap, Map.get?_set] at hrow
  split at hrow
  · next heq =>
    cases heq
    cases hrow
    decide +kernel
  · have hmem := Map.mem_of_get?_ofList hrow
    simp only [List.mem_cons, Prod.mk.injEq, List.not_mem_nil, or_false] at hmem
    rcases hmem with ⟨-, rfl⟩ | ⟨-, rfl⟩ <;> cases hstate

open Sample RoutingService in
/-- The ring was refreshed before the new node was stored. -/
theorem notRefreshed_not_covered :
    ∃ r replicas, run (ConfiguredRing.step bootstrapHash) ConfiguredRing.init
        [.updateHashRing beforeBootstrap] = some r ∧
      (routing bootstrapHash r duringBootstrap).getWriteReplicas "t" "k" 2 = .ok replicas ∧
      replicas.map StorageNode.nodeID = ["b", "a"] ∧
      ¬ CoversBootstrap bootstrapHash duringBootstrap "t" "k" replicas := by
  refine ⟨_, [⟨"b", "host", 2, .active, .normal, 1⟩, ⟨"a", "host", 1, .active, .normal, 1⟩],
    rfl, by decide +kernel, rfl, ?_⟩
  intro hcovers
  have hx := hcovers "x" ⟨"host", 3, .active, .bootstrapping, 1,
    [⟨⟨10, 15⟩, "b", "x", .pending⟩], []⟩ (by decide +kernel)
  revert hx
  decide

end PairDB.Coordinator
