import PairDB.Infra.Run
import PairDB.Coordinator.MetadataStore
import PairDB.Coordinator.Properties.Placement

/-!
# The three structures of the ring stay in step

Refreshes rebuild the ring from the node table, and the monitors add and remove nodes one by one.
`AddNode` does not look whether the node is there, so a node that a refresh has already added gets
its points twice. If that never happens, every virtual node is on the ring exactly once in every
state (`each_once_of_run`).
-/

namespace PairDB.Coordinator

open Infra ConsistentHasher

namespace ConsistentHasher

variable {hash : String → UInt64} {counts : String → Nat} {ch : ConsistentHasher}

/-! ## Rings without duplicates -/

/-- The ring is sound, and no point is on it twice. -/
structure DuplicateFree (hash : String → UInt64) (counts : String → Nat) (ch : ConsistentHasher) :
    Prop extends Sound hash counts ch where
  nodup : ch.ring.Nodup

theorem duplicateFree_new : DuplicateFree hash counts new := ⟨sound_new, List.nodup_nil⟩

theorem DuplicateFree.increasing (h : DuplicateFree hash counts ch) :
    ch.ring.Pairwise (· < ·) :=
  (List.pairwise_and_iff.mpr ⟨h.sorted, h.nodup⟩).imp fun hab => lt_of_le_of_ne hab.1 hab.2

theorem Sound.nodup_addNode (h : Sound hash counts ch) (hnodup : ch.ring.Nodup) {x : String}
    (hx : x ∉ ch.present) (hfree : CollisionFree hash counts (insert x ch.present)) :
    (ch.addNode hash x (counts x)).ring.Nodup := by
  refine (perm_addNode ch x (counts x)).nodup_iff.mpr ?_
  rw [List.nodup_append]
  refine ⟨hnodup, hfree.nodup_points (Set.mem_insert x _), ?_⟩
  rintro p hp q hq rfl
  exact h.not_mem_points hx hfree hp hq

theorem DuplicateFree.addNode (h : DuplicateFree hash counts ch) {x : String}
    (hx : x ∉ ch.present) (hfree : CollisionFree hash counts (insert x ch.present)) :
    DuplicateFree hash counts (ch.addNode hash x (counts x)) :=
  ⟨sound_addNode h.toSound x hfree, h.toSound.nodup_addNode h.nodup hx hfree⟩

theorem nodup_removeNode (hnodup : ch.ring.Nodup) (x : String) : (ch.removeNode x).ring.Nodup := by
  unfold removeNode
  split
  · exact hnodup
  · exact hnodup.filter _

theorem DuplicateFree.removeNode (h : DuplicateFree hash counts ch) (x : String)
    (hfree : CollisionFree hash counts ch.present) :
    DuplicateFree hash counts (ch.removeNode x) :=
  ⟨sound_removeNode h.toSound x hfree, nodup_removeNode h.nodup x⟩

/-- The points of a node are reported once each. -/
theorem Sound.countP_eq (h : Sound hash counts ch) (hnodup : ch.ring.Nodup)
    (hfree : CollisionFree hash counts ch.present) {n : String} (hn : n ∈ ch.present) :
    ch.getAllVirtualNodes.countP (fun vnode => vnode.nodeID = n) = counts n := by
  have hperm : (ch.ring.filter fun p => (ch.virtualNodeAt p).nodeID = n).Perm
      (points hash n (counts n)) := by
    refine (List.perm_ext_iff_of_nodup (hnodup.filter _) (hfree.nodup_points hn)).mpr ?_
    intro p
    rw [List.mem_filter, decide_eq_true_eq]
    constructor
    · rintro ⟨hp, hnode⟩
      obtain ⟨m, -, i, hi, rfl, hvnode⟩ := h.virtualNode_of_mem hp
      rw [hvnode] at hnode
      subst hnode
      exact mem_points.mpr ⟨i, hi, rfl⟩
    · intro hp
      refine ⟨(h.ring p).mpr ⟨n, hn, hp⟩, ?_⟩
      obtain ⟨i, hi, rfl⟩ := mem_points.mp hp
      rw [h.virtualNodeAt hn hi]
  have hlen := hperm.length_eq
  rw [getAllVirtualNodes, List.countP_map, List.countP_eq_length_filter]
  exact hlen.trans (by rw [points, List.length_map, List.length_range])

end ConsistentHasher

/-! ## Runs -/

/-- The ring of the routing service, and how many virtual nodes each node was last added with. -/
structure ConfiguredRing where
  ring : ConsistentHasher
  configured : String → Nat

/-- What is done to the ring under the lock. A refresh has listed the nodes of some earlier state of
the store. -/
inductive RingUpdate where
  | updateHashRing (listed : MetadataStore)
  | addNode (node : StorageNode)
  | removeNode (nodeID : String)

namespace ConfiguredRing

def init : ConfiguredRing := ⟨.new, fun _ => 0⟩

def step (hash : String → UInt64) (r : ConfiguredRing) : RingUpdate → Option ConfiguredRing
  | .updateHashRing listed => some {
      ring := RoutingService.rebuild hash r.ring listed.listStorageNodes
      configured := (RoutingService.activeNodes listed.listStorageNodes).foldl
        (fun counts node => Function.update counts node.nodeID node.virtualNodes) r.configured }
  | .addNode node => some {
      ring := r.ring.addNode hash node.nodeID node.virtualNodes
      configured := Function.update r.configured node.nodeID node.virtualNodes }
  | .removeNode nodeID => some { r with ring := r.ring.removeNode nodeID }

/-- **Each virtual node is on the ring exactly once**: the ring is strictly increasing, its points
are those recorded for the nodes, `ringMap` maps exactly these points to their virtual nodes, and
`GetAllVirtualNodes` reports as many of a node as it was added with. -/
structure EachOnce (hash : String → UInt64) (r : ConfiguredRing) : Prop where
  increasing : r.ring.ring.Pairwise (· < ·)
  recorded : ∀ p, p ∈ r.ring.ring ↔ ∃ n hs, r.ring.nodeVNodes.get? n = some hs ∧ p ∈ hs
  ringMap : ∀ p id, r.ring.ringMap.get? p = some id ↔
    ∃ n ∈ r.ring.present, ∃ i < r.configured n, hash (vnodeID n i) = p ∧ vnodeID n i = id
  reported : ∀ n ∈ r.ring.present,
    r.ring.getAllVirtualNodes.countP (fun vnode => vnode.nodeID = n) = r.configured n

/-- The nodes of an update are among `nodes`, with at most `bound` virtual nodes. -/
def Within (bound : String → Nat) (nodes : Set String) : RingUpdate → Prop
  | .updateHashRing listed => ∀ node ∈ listed.listStorageNodes,
      node.nodeID ∈ nodes ∧ node.virtualNodes ≤ bound node.nodeID
  | .addNode node => node.nodeID ∈ nodes ∧ node.virtualNodes ≤ bound node.nodeID
  | .removeNode _ => True

/-- A node is added that is not on the ring. -/
def AddsNew (r : ConfiguredRing) : RingUpdate → Prop
  | .addNode node => r.ring.contains node.nodeID = false
  | .updateHashRing _ | .removeNode _ => True

/-- What the updates keep. -/
structure InStep (hash : String → UInt64) (bound : String → Nat) (nodes : Set String)
    (r : ConfiguredRing) : Prop where
  sound : Sound hash r.configured r.ring
  nodup : r.ring.ring.Nodup
  within : ∀ n ∈ r.ring.present, n ∈ nodes ∧ r.configured n ≤ bound n

section

variable {hash : String → UInt64} {bound : String → Nat} {nodes : Set String} {r : ConfiguredRing}

theorem InStep.collisionFree (h : InStep hash bound nodes r)
    (hfree : CollisionFree hash bound nodes) :
    CollisionFree hash r.configured r.ring.present :=
  (hfree.mono fun n hn => (h.within n hn).1).of_le fun n hn => (h.within n hn).2

/-- No node is on the ring. -/
theorem inStep_clear (counts : String → Nat) : InStep hash bound nodes ⟨.new, counts⟩ := by
  refine ⟨sound_new, List.nodup_nil, ?_⟩
  intro n hn
  cases hn

/-- A node is added that was not there. -/
theorem inStep_addNode (h : InStep hash bound nodes r) (hfree : CollisionFree hash bound nodes)
    {n : String} {k : Nat} (hnew : n ∉ r.ring.present) (hn : n ∈ nodes) (hk : k ≤ bound n) :
    InStep hash bound nodes ⟨r.ring.addNode hash n k, Function.update r.configured n k⟩ := by
  have hold : ∀ m ∈ r.ring.present, Function.update r.configured n k m = r.configured m := by
    intro m hm
    refine Function.update_of_ne ?_ _ _
    rintro rfl
    exact hnew hm
  have hself : Function.update r.configured n k n = k := Function.update_self _ _ _
  have hwithin : ∀ m ∈ insert n r.ring.present,
      m ∈ nodes ∧ Function.update r.configured n k m ≤ bound m := by
    intro m hm
    rcases Set.mem_insert_iff.mp hm with rfl | hm
    · exact ⟨hn, hself.trans_le hk⟩
    · exact ⟨(h.within m hm).1, (hold m hm).trans_le (h.within m hm).2⟩
  have hfree' : CollisionFree hash (Function.update r.configured n k)
      (insert n r.ring.present) :=
    (hfree.mono fun m hm => (hwithin m hm).1).of_le fun m hm => (hwithin m hm).2
  have hsound := h.sound.congr hold
  have hadd := sound_addNode hsound n hfree'
  rw [hself] at hadd
  refine ⟨hadd, ?_, ?_⟩
  · have hnodup := hsound.nodup_addNode h.nodup hnew hfree'
    rwa [hself] at hnodup
  · intro m hm
    rw [present_addNode] at hm
    exact hwithin m hm

theorem inStep_removeNode (h : InStep hash bound nodes r) (hfree : CollisionFree hash bound nodes)
    (n : String) : InStep hash bound nodes { r with ring := r.ring.removeNode n } := by
  refine ⟨sound_removeNode h.sound n (h.collisionFree hfree), nodup_removeNode h.nodup n, ?_⟩
  intro m hm
  rw [present_removeNode] at hm
  exact h.within m hm.1

/-- The loop of a refresh. -/
theorem inStep_foldl_addNode (hfree : CollisionFree hash bound nodes) :
    ∀ (l : List StorageNode) (r : ConfiguredRing), InStep hash bound nodes r →
      (l.map StorageNode.nodeID).Nodup → (∀ node ∈ l, node.nodeID ∉ r.ring.present) →
      (∀ node ∈ l, node.nodeID ∈ nodes ∧ node.virtualNodes ≤ bound node.nodeID) →
      InStep hash bound nodes
        ⟨l.foldl (fun ring node => ring.addNode hash node.nodeID node.virtualNodes) r.ring,
          l.foldl (fun counts node => Function.update counts node.nodeID node.virtualNodes)
            r.configured⟩
  | [], r, h, _, _, _ => h
  | node :: l, r, h, hnodup, hnew, hwithin => by
    rw [List.map_cons, List.nodup_cons] at hnodup
    rw [List.forall_mem_cons] at hnew hwithin
    have hnode := inStep_addNode h hfree hnew.1 hwithin.1.1 hwithin.1.2
    refine inStep_foldl_addNode hfree l _ hnode hnodup.2 ?_ hwithin.2
    intro other hother hpresent
    rw [present_addNode, Set.mem_insert_iff] at hpresent
    rcases hpresent with heq | hpresent
    · exact hnodup.1 (heq ▸ List.mem_map_of_mem hother)
    · exact hnew.2 other hother hpresent

theorem inStep_step (hfree : CollisionFree hash bound nodes) (r : ConfiguredRing)
    (update : RingUpdate) (r' : ConfiguredRing) (h : InStep hash bound nodes r)
    (hcond : Within bound nodes update ∧ r.AddsNew update)
    (hstep : r.step hash update = some r') : InStep hash bound nodes r' := by
  obtain ⟨hwithin, hnew⟩ := hcond
  cases update with
  | updateHashRing listed =>
    cases hstep
    refine inStep_foldl_addNode hfree _ ⟨.new, r.configured⟩ (inStep_clear _) ?_ ?_ ?_
    · exact (MetadataStore.nodup_listStorageNodes listed).sublist ((List.filter_sublist).map _)
    · intro node _ hpresent
      cases hpresent
    · intro node hnode
      exact hwithin node (List.mem_filter.mp hnode).1
  | addNode node =>
    cases hstep
    refine inStep_addNode h hfree ?_ hwithin.1 hwithin.2
    intro hpresent
    have hcontains : r.ring.contains node.nodeID = true := hpresent
    rw [hnew] at hcontains
    cases hcontains
  | removeNode n =>
    cases hstep
    exact inStep_removeNode h hfree n

theorem InStep.eachOnce (h : InStep hash bound nodes r) (hfree : CollisionFree hash bound nodes) :
    r.EachOnce hash := by
  refine ⟨(DuplicateFree.mk h.sound h.nodup).increasing, ?_, h.sound.ringMap, fun n hn =>
    h.sound.countP_eq h.nodup (h.collisionFree hfree) hn⟩
  · intro p
    rw [h.sound.ring]
    constructor
    · rintro ⟨n, hn, hp⟩
      obtain ⟨hs, hget⟩ := Option.isSome_iff_exists.mp hn
      exact ⟨n, hs, hget, by rwa [h.sound.nodeVNodes n hs hget]⟩
    · rintro ⟨n, hs, hget, hp⟩
      refine ⟨n, ?_, by rwa [h.sound.nodeVNodes n hs hget] at hp⟩
      show (r.ring.nodeVNodes.get? n).isSome = true
      rw [hget]
      rfl

/-- **Coordinators agree on the placement.** Two coordinators that have come to the same nodes, by
updates and orders of their own, choose the same replicas for every key, in the same order. -/
theorem getNodes_agree_of_run (hfree : CollisionFree hash bound nodes)
    {updates updates' : List RingUpdate} {r' : ConfiguredRing}
    (hcond : AllSteps (step hash) (fun r update => Within bound nodes update ∧ r.AddsNew update)
      init updates)
    (hcond' : AllSteps (step hash) (fun r update => Within bound nodes update ∧ r.AddsNew update)
      init updates')
    (hrun : run (step hash) init updates = some r) (hrun' : run (step hash) init updates' = some r')
    (hnodes : r.ring.nodeVNodes.keys.Perm r'.ring.nodeVNodes.keys)
    (hcounts : ∀ n ∈ r.ring.nodeVNodes.keys, r.configured n = r'.configured n)
    (keyHash : UInt64) (count : Nat) :
    r.ring.getNodes keyHash count = r'.ring.getNodes keyHash count := by
  have h := run_invariant (inStep_step hfree) (inStep_clear _) hcond hrun
  have h' := run_invariant (inStep_step hfree) (inStep_clear _) hcond' hrun'
  have hpresent : r.ring.present = r'.ring.present := by
    ext n
    rw [mem_present_iff, mem_present_iff, hnodes.mem_iff]
  have hsound' : Sound hash r.configured r'.ring := by
    refine h'.sound.congr fun n hn => hcounts n ?_
    rwa [← mem_present_iff, hpresent]
  -- both are the sorted list of the same points
  have hring : r.ring.ring = r'.ring.ring := by
    refine List.Perm.eq_of_pairwise (fun a b _ _ => le_antisymm) h.sound.sorted hsound'.sorted
      ((List.perm_ext_iff_of_nodup h.nodup h'.nodup).mpr fun p => ?_)
    rw [h.sound.ring, hsound'.ring, hpresent]
  have hvnode : r.ring.virtualNodeAt = r'.ring.virtualNodeAt := by
    funext p
    have hget : r.ring.ringMap.get? p = r'.ring.ringMap.get? p := by
      refine Option.ext fun id => ?_
      rw [h.sound.ringMap, hsound'.ringMap, hpresent]
    simp only [virtualNodeAt, hget]
  rw [getNodes_eq h.sound.sorted, getNodes_eq hsound'.sorted, hring, hvnode]

end

/-- **Each virtual node is on the ring exactly once.** Refreshes, additions and removals come in any
order, and the virtual nodes do not collide. If no node is added while it is on the ring, the three
structures agree in every state, and every node is reported with its number of virtual nodes. -/
theorem each_once_of_run {hash : String → UInt64} {bound : String → Nat} {nodes : Set String}
    (hfree : CollisionFree hash bound nodes) {updates : List RingUpdate} {r : ConfiguredRing}
    (hcond : AllSteps (step hash) (fun r update => Within bound nodes update ∧ r.AddsNew update)
      init updates)
    (hrun : run (step hash) init updates = some r) : r.EachOnce hash :=
  (run_invariant (inStep_step hfree) (inStep_clear _) hcond hrun).eachOnce hfree

instance (bound : String → Nat) (l : List String) :
    (update : RingUpdate) → Decidable (Within bound { n | n ∈ l } update)
  | .updateHashRing listed => inferInstanceAs (Decidable (∀ node ∈ listed.listStorageNodes,
      node.nodeID ∈ l ∧ node.virtualNodes ≤ bound node.nodeID))
  | .addNode node =>
    inferInstanceAs (Decidable (node.nodeID ∈ l ∧ node.virtualNodes ≤ bound node.nodeID))
  | .removeNode _ => .isTrue trivial

instance (r : ConfiguredRing) : (update : RingUpdate) → Decidable (r.AddsNew update)
  | .addNode _ => inferInstanceAs (Decidable (_ = false))
  | .updateHashRing _ | .removeNode _ => .isTrue trivial

end ConfiguredRing

namespace Sample

/-- The table has the node `a`. -/
def tableOfA : MetadataStore := ⟨Map.ofList [("a", ⟨"host", 1, .active, .normal, 2, [], []⟩)], ∅⟩

/-- The node `b` joins, and `a` leaves and joins again. -/
def joinAndLeave : List RingUpdate :=
  [.updateHashRing tableOfA, .addNode ⟨"b", "host", 1, .active, .normal, 2⟩, .removeNode "a",
    .addNode ⟨"a", "host", 1, .active, .normal, 2⟩]

def joinOnly : List RingUpdate :=
  [.updateHashRing tableOfA, .addNode ⟨"b", "host", 1, .active, .normal, 2⟩]

/-- A monitor adds the node that a refresh has added before. -/
def addedTwice : List RingUpdate :=
  [.updateHashRing tableOfA, .addNode ⟨"a", "host", 1, .active, .normal, 2⟩]

end Sample

open Sample ConfiguredRing in
theorem each_once_joinAndLeave :
    ∃ r, run (step ringHash) init joinAndLeave = some r ∧ r.ring.ring.length = 4 ∧
      r.EachOnce ringHash := by
  have hrun : (run (step ringHash) init joinAndLeave).map (fun r =>
      decide (r.ring.ring.length = 4)) = some true := by decide +kernel
  have hcond : AllSteps (step ringHash) (fun r update =>
      Within (fun _ => 2) { n | n ∈ ["a", "b"] } update ∧ r.AddsNew update) init joinAndLeave := by
    decide +kernel
  obtain ⟨r, hr, hlen⟩ := Option.map_eq_some_iff.mp hrun
  exact ⟨r, hr, of_decide_eq_true hlen, each_once_of_run collisionFree_ringHash hcond hr⟩

open Sample ConfiguredRing in
theorem getNodes_agree_joinAndLeave :
    ∃ r r', run (step ringHash) init joinAndLeave = some r ∧
      run (step ringHash) init joinOnly = some r' ∧
      ∀ keyHash, r.ring.getNodes keyHash 2 = r'.ring.getNodes keyHash 2 := by
  have hruns : (run (step ringHash) init joinAndLeave).bind (fun r =>
      (run (step ringHash) init joinOnly).map fun r' =>
        decide (r.ring.nodeVNodes.keys.Perm r'.ring.nodeVNodes.keys ∧
          ∀ n ∈ r.ring.nodeVNodes.keys, r.configured n = r'.configured n)) = some true := by
    decide +kernel
  obtain ⟨r, hr, hmap⟩ := Option.bind_eq_some_iff.mp hruns
  obtain ⟨r', hr', hdec⟩ := Option.map_eq_some_iff.mp hmap
  obtain ⟨hnodes, hcounts⟩ := of_decide_eq_true hdec
  exact ⟨r, r', hr, hr', fun keyHash => getNodes_agree_of_run collisionFree_ringHash
    (by decide +kernel) (by decide +kernel) hr hr' hnodes hcounts keyHash 2⟩

open Sample ConfiguredRing in
/-- Both virtual nodes of `a` are on the ring twice. -/
theorem added_twice_reported_twice :
    ∃ r, run (step ringHash) init addedTwice = some r ∧ r.ring.ring = [10, 10, 30, 30] ∧
      r.configured "a" = 2 ∧
      r.ring.getAllVirtualNodes.countP (fun vnode => vnode.nodeID = "a") = 4 := by
  have hrun : (run (step ringHash) init addedTwice).map (fun r =>
      decide (r.ring.ring = [10, 10, 30, 30] ∧ r.configured "a" = 2 ∧
        r.ring.getAllVirtualNodes.countP (fun vnode => vnode.nodeID = "a") = 4)) = some true := by
    decide +kernel
  obtain ⟨r, hr, hdec⟩ := Option.map_eq_some_iff.mp hrun
  exact ⟨r, hr, of_decide_eq_true hdec⟩

end PairDB.Coordinator
