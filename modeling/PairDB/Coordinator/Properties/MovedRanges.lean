import PairDB.Coordinator.NodeHandler
import PairDB.Coordinator.Properties.RingState

/-!
# The ranges that are streamed when a node joins or leaves

The ring with the node and the ring without it are compared (`Without`). A point of the node owns
the hashes after the point before it, up to itself. The range that is calculated for the point
begins and ends one hash earlier, because the storage nodes take the start of a range as part of it
and the end not. So what is streamed for a hash is decided by the owners of the next hash
(`Joins.streams_iff`, `Leaves.streams_iff`): it is wrong at the points where the owner changes
(`streams_iff_primary_moves`).

The calculations also look at the first owner of a hash only. With more than one replica the other
nodes that get a new copy get no range for it (`streams_reach_new_replicas_iff`).
-/

namespace PairDB.Coordinator

open Infra
open PairDB.StorageNode (StreamKeyRange keyInRanges)

namespace ConsistentHasher

variable {hash : String → UInt64} {counts : String → Nat} {ch ch' : ConsistentHasher}

/-- A range is an arc, moved by one. -/
theorem contains_iff_onArc (previous p h : UInt64) :
    StreamKeyRange.contains ⟨previous, p⟩ h = true ↔ previous ≠ p ∧ OnArc previous p (h + 1) := by
  have hp := p.toNat_lt
  have hprev := previous.toNat_lt
  have hh := h.toNat_lt
  have hnext : (h + 1).toNat = (h.toNat + 1) % 2 ^ 64 := by
    rw [UInt64.toNat_add]
    rfl
  simp only [StreamKeyRange.contains, OnArc, Bool.or_eq_true, Bool.and_eq_true, decide_eq_true_eq,
    ge_iff_le, gt_iff_lt, UInt64.le_iff_toNat_le, UInt64.lt_iff_toNat_lt, ne_eq,
    ← UInt64.toNat_inj, hnext]
  split <;> omega

/-! ## A ring with a node and without it -/

/-- `small` is `big` without the points of the node `x`. -/
structure Without (x : String) (big small : ConsistentHasher) : Prop where
  increasing : big.ring.Pairwise (· < ·)
  ring : small.ring = big.ring.filter fun p => (big.virtualNodeAt p).nodeID ≠ x
  owner : ∀ p ∈ small.ring, (small.virtualNodeAt p).nodeID = (big.virtualNodeAt p).nodeID

namespace Without

variable {x : String} {big small : ConsistentHasher} {h : UInt64}

theorem sorted (w : Without x big small) : big.ring.Pairwise (· ≤ ·) := w.increasing.imp le_of_lt

theorem sorted_small (w : Without x big small) : small.ring.Pairwise (· ≤ ·) := by
  rw [w.ring]
  exact w.sorted.filter _

/-- The owner of a hash is the owner of the first point after it. -/
theorem getNodeForHash_of_head? (w : Without x big small) {p : UInt64}
    (hp : (clockwise big.ring h).head? = some p) :
    big.getNodeForHash h = (big.virtualNodeAt p).nodeID ∧
      small.getNodeForHash p = small.getNodeForHash h := by
  constructor
  · rw [getNodeForHash_eq w.sorted, hp]
    rfl
  · have hwalk : clockwise small.ring p = clockwise small.ring h := by
      rw [w.ring, clockwise_filter, clockwise_filter, clockwise_of_head? w.sorted hp]
    rw [getNodeForHash_eq w.sorted_small, getNodeForHash_eq w.sorted_small, hwalk]

theorem ring_ne_nil (hne : small.getNodeForHash h ≠ "") : small.ring ≠ [] := by
  intro hnil
  rw [getNodeForHash, hnil] at hne
  exact hne rfl

/-- If another node is on the ring, no point of the ring precedes itself. -/
theorem getPreviousHash_ne (w : Without x big small) (hne : small.ring ≠ []) {p : UInt64}
    (hp : p ∈ big.ring) (hx : (big.virtualNodeAt p).nodeID = x) : big.getPreviousHash p ≠ p := by
  intro hself
  obtain ⟨q, hq⟩ := List.exists_mem_of_ne_nil _ hne
  rw [w.ring, List.mem_filter, decide_eq_true_eq] at hq
  -- the arc from `p` to `p` has every hash on it
  have hall : OnArc (big.getPreviousHash p) p q := by
    rw [hself, OnArc, if_neg (lt_irrefl p)]
    exact lt_or_ge p q
  have hown := onArc_self (big.getPreviousHash q) q
  rw [onArc_iff_head? w.increasing hp] at hall
  rw [onArc_iff_head? w.increasing hq.1, hall, Option.some.injEq] at hown
  subst hown
  exact hq.2 hx

/-- **The ranges of the node are its arcs, moved by one.** -/
theorem exists_range_iff (w : Without x big small) {o : String} (ho : o ≠ "") :
    (∃ p ∈ big.ring, (big.virtualNodeAt p).nodeID = x ∧ small.getNodeForHash p = o ∧
      StreamKeyRange.contains ⟨big.getPreviousHash p, p⟩ h = true) ↔
      big.ring ≠ [] ∧ big.getNodeForHash (h + 1) = x ∧ small.getNodeForHash (h + 1) = o := by
  constructor
  · rintro ⟨p, hp, hx, rfl, hcontains⟩
    have harc := ((contains_iff_onArc _ _ _).mp hcontains).2
    rw [onArc_iff_head? w.increasing hp] at harc
    obtain ⟨hbig, hsmall⟩ := w.getNodeForHash_of_head? harc
    exact ⟨List.ne_nil_of_mem hp, hbig.trans hx, hsmall.symm⟩
  · rintro ⟨hne, hx, rfl⟩
    have hhead := head?_clockwise w.sorted hne (h + 1)
    obtain ⟨hbig, hsmall⟩ := w.getNodeForHash_of_head? hhead
    have hmem := mem_clockwise.mp (List.mem_of_head? hhead)
    have howner := hbig.symm.trans hx
    refine ⟨_, hmem, howner, hsmall, (contains_iff_onArc _ _ _).mpr ⟨?_, ?_⟩⟩
    · exact w.getPreviousHash_ne (ring_ne_nil ho) hmem howner
    · exact (onArc_iff_head? w.increasing hmem _).mpr hhead

end Without

/-- Rings with the same nodes have the same points. Nodes without points do not matter. -/
theorem DuplicateFree.eq_of_present (h : DuplicateFree hash counts ch)
    (h' : DuplicateFree hash counts ch')
    (hsame : ∀ n, 0 < counts n → (n ∈ ch.present ↔ n ∈ ch'.present)) :
    ch.ring = ch'.ring ∧ ch.virtualNodeAt = ch'.virtualNodeAt := by
  have hpoint : ∀ n i, i < counts n → (n ∈ ch.present ↔ n ∈ ch'.present) :=
    fun n i hi => hsame n (Nat.zero_lt_of_lt hi)
  constructor
  · have hperm : ch.ring.Perm ch'.ring := by
      refine (List.perm_ext_iff_of_nodup h.nodup h'.nodup).mpr fun p => ?_
      rw [h.ring, h'.ring]
      constructor
      · rintro ⟨n, hn, hp⟩
        obtain ⟨i, hi, -⟩ := mem_points.mp hp
        exact ⟨n, (hpoint n i hi).mp hn, hp⟩
      · rintro ⟨n, hn, hp⟩
        obtain ⟨i, hi, -⟩ := mem_points.mp hp
        exact ⟨n, (hpoint n i hi).mpr hn, hp⟩
    exact hperm.eq_of_pairwise (fun _ _ _ _ => le_antisymm) h.sorted h'.sorted
  · funext p
    have hget : ch.ringMap.get? p = ch'.ringMap.get? p := by
      refine Option.ext fun id => ?_
      rw [h.ringMap, h'.ringMap]
      refine exists_congr fun n => ⟨?_, ?_⟩
      · rintro ⟨hn, i, hi, heq⟩
        exact ⟨(hpoint n i hi).mp hn, i, hi, heq⟩
      · rintro ⟨hn, i, hi, heq⟩
        exact ⟨(hpoint n i hi).mpr hn, i, hi, heq⟩
    simp only [virtualNodeAt, hget]

theorem DuplicateFree.without {x : String} {big small : ConsistentHasher}
    (hbig : DuplicateFree hash counts big) (hsmall : DuplicateFree hash counts small)
    (hpresent : small.present = big.present \ {x}) : Without x big small := by
  refine ⟨hbig.increasing, ?_, ?_⟩
  · have hperm : small.ring.Perm (big.ring.filter fun p => (big.virtualNodeAt p).nodeID ≠ x) := by
      refine (List.perm_ext_iff_of_nodup hsmall.nodup (hbig.nodup.filter _)).mpr fun p => ?_
      rw [hsmall.ring, List.mem_filter, decide_eq_true_eq, hpresent]
      constructor
      · rintro ⟨n, ⟨hn, hne⟩, hp⟩
        obtain ⟨i, hi, rfl⟩ := mem_points.mp hp
        refine ⟨(hbig.ring _).mpr ⟨n, hn, hp⟩, ?_⟩
        rw [hbig.virtualNodeAt hn hi]
        exact hne
      · rintro ⟨hp, hne⟩
        obtain ⟨n, hn, i, hi, rfl, hvnode⟩ := hbig.toSound.virtualNode_of_mem hp
        rw [hvnode] at hne
        exact ⟨n, ⟨hn, hne⟩, mem_points.mpr ⟨i, hi, rfl⟩⟩
    exact hperm.eq_of_pairwise (fun _ _ _ _ => le_antisymm) hsmall.sorted (hbig.sorted.filter _)
  · intro p hp
    obtain ⟨n, hn, i, hi, rfl, hvnode⟩ := hsmall.toSound.virtualNode_of_mem hp
    rw [hpresent] at hn
    rw [hvnode, hbig.virtualNodeAt hn.1 hi]

/-- Whoever owns a hash is on the ring. -/
theorem Sound.getNodeForHash_mem (h : Sound hash counts ch) (hne : ch.ring ≠ [])
    (keyHash : UInt64) : ch.getNodeForHash keyHash ∈ ch.present := by
  have hhead := head?_clockwise h.sorted hne keyHash
  obtain ⟨n, hn, i, hi, -, hvnode⟩ :=
    h.virtualNode_of_mem (mem_clockwise.mp (List.mem_of_head? hhead))
  rw [getNodeForHash_eq h.sorted, hhead, Option.map_some, Option.map_some, hvnode]
  exact hn

/-! ## The next hash -/

/-- A hash that is not a point has the walk of the next one. -/
theorem clockwise_succ {ring : List UInt64} {k : UInt64} (hk : k ∉ ring) :
    clockwise ring (k + 1) = clockwise ring k := by
  have hnext : (k + 1).toNat = (k.toNat + 1) % 2 ^ 64 := by
    rw [UInt64.toNat_add]
    rfl
  have hne : ∀ p ∈ ring, p.toNat ≠ k.toNat := fun p hp heq => hk (UInt64.toNat_inj.mp heq ▸ hp)
  have hklt := k.toNat_lt
  unfold clockwise
  by_cases hlast : k.toNat + 1 = 2 ^ 64
  · -- after the last hash comes the first one
    have h1 : ring.filter (fun p => decide (k + 1 ≤ p)) = ring := by
      refine List.filter_eq_self.mpr fun p hp => decide_eq_true ?_
      rw [UInt64.le_iff_toNat_le, hnext]
      omega
    have h2 : ring.filter (fun p => decide (p < k + 1)) = [] := by
      refine List.filter_eq_nil_iff.mpr fun p hp => ?_
      rw [decide_eq_true_eq, UInt64.lt_iff_toNat_lt, hnext]
      omega
    have h3 : ring.filter (fun p => decide (k ≤ p)) = [] := by
      refine List.filter_eq_nil_iff.mpr fun p hp => ?_
      have := hne p hp
      have := p.toNat_lt
      rw [decide_eq_true_eq, UInt64.le_iff_toNat_le]
      omega
    have h4 : ring.filter (fun p => decide (p < k)) = ring := by
      refine List.filter_eq_self.mpr fun p hp => decide_eq_true ?_
      have := hne p hp
      have := p.toNat_lt
      rw [UInt64.lt_iff_toNat_lt]
      omega
    rw [h1, h2, h3, h4, List.append_nil, List.nil_append]
  · congr 1
    · refine List.filter_congr fun p hp => decide_eq_decide.mpr ?_
      have := hne p hp
      rw [UInt64.le_iff_toNat_le, UInt64.le_iff_toNat_le, hnext]
      omega
    · refine List.filter_congr fun p hp => decide_eq_decide.mpr ?_
      have := hne p hp
      rw [UInt64.lt_iff_toNat_lt, UInt64.lt_iff_toNat_lt, hnext]
      omega

theorem getNodeForHash_succ {ch : ConsistentHasher} (hsorted : ch.ring.Pairwise (· ≤ ·))
    {k : UInt64} (hk : k ∉ ch.ring) : ch.getNodeForHash (k + 1) = ch.getNodeForHash k := by
  rw [getNodeForHash_eq hsorted, getNodeForHash_eq hsorted, clockwise_succ hk]

end ConsistentHasher

namespace KeyRangeService

open ConsistentHasher

variable {hash : String → UInt64} {counts : String → Nat} {ch : ConsistentHasher}

/-! ## The copy of the ring -/

theorem duplicateFree_foldl_addNode {nodes : Set String} (hfree : CollisionFree hash counts nodes) :
    ∀ (l : List (String × Nat)) (ch : ConsistentHasher), DuplicateFree hash counts ch →
      ch.present ⊆ nodes → (l.map Prod.fst).Nodup →
      (∀ p ∈ l, p.1 ∈ nodes ∧ p.1 ∉ ch.present ∧ p.2 = counts p.1) →
      DuplicateFree hash counts (l.foldl (fun ring p => ring.addNode hash p.1 p.2) ch) ∧
        ∀ n, n ∈ (l.foldl (fun ring p => ring.addNode hash p.1 p.2) ch).present ↔
          n ∈ ch.present ∨ n ∈ l.map Prod.fst
  | [], ch, h, _, _, _ => ⟨h, by simp⟩
  | p :: l, ch, h, hsub, hnodup, hl => by
    rw [List.map_cons, List.nodup_cons] at hnodup
    rw [List.forall_mem_cons] at hl
    obtain ⟨⟨hnode, hnew, hcount⟩, hl⟩ := hl
    have hinsert : insert p.1 ch.present ⊆ nodes := Set.insert_subset hnode hsub
    have hadd := h.addNode hnew (hfree.mono hinsert)
    rw [← hcount] at hadd
    have hpresent := @present_addNode hash ch p.1 p.2
    have hrest : ∀ q ∈ l, q.1 ∈ nodes ∧ q.1 ∉ (ch.addNode hash p.1 p.2).present ∧
        q.2 = counts q.1 := by
      intro q hq
      refine ⟨(hl q hq).1, ?_, (hl q hq).2.2⟩
      rw [hpresent, Set.mem_insert_iff, not_or]
      exact ⟨fun heq => hnodup.1 (heq ▸ List.mem_map_of_mem hq), (hl q hq).2.1⟩
    obtain ⟨hfold, hmem⟩ := duplicateFree_foldl_addNode hfree l _ hadd (hpresent ▸ hinsert)
      hnodup.2 hrest
    refine ⟨hfold, fun n => ?_⟩
    rw [List.foldl_cons, hmem, hpresent, Set.mem_insert_iff, List.map_cons, List.mem_cons, or_assoc]
    exact or_left_comm

/-- **The copy has the nodes that have points.** -/
theorem duplicateFree_cloneHashRing (h : DuplicateFree hash counts ch)
    (hfree : CollisionFree hash counts ch.present) (order : RangeOrder (String × Nat)) :
    DuplicateFree hash counts (cloneHashRing hash order ch) ∧
      ∀ n, n ∈ (cloneHashRing hash order ch).present ↔ n ∈ ch.present ∧ 0 < counts n := by
  have hperm := order.perm (nodeVirtualCounts ch.getAllVirtualNodes).toPairs
  -- what is counted is what the nodes were added with
  have hcount : ∀ n c, (n, c) ∈ order.visit (nodeVirtualCounts ch.getAllVirtualNodes).toPairs ↔
      n ∈ ch.present ∧ 0 < counts n ∧ c = counts n := by
    intro n c
    rw [hperm.mem_iff, Map.mem_toPairs_iff, get?_nodeVirtualCounts]
    by_cases hn : n ∈ ch.present
    · rw [h.countP_eq h.nodup hfree hn]
      split
      · next hzero => simp [hzero]
      · next hpos => simp [hn, Nat.pos_of_ne_zero hpos, eq_comm]
    · have hzero : ch.getAllVirtualNodes.countP (fun vnode => vnode.nodeID = n) = 0 := by
        rw [List.countP_eq_zero, getAllVirtualNodes]
        intro vnode hvnode
        obtain ⟨p, hp, rfl⟩ := List.mem_map.mp hvnode
        obtain ⟨m, hm, i, hi, -, hvnode⟩ := h.toSound.virtualNode_of_mem hp
        rw [hvnode, decide_eq_true_eq]
        rintro rfl
        exact hn hm
      simp [hzero, hn]
  have hkeys : ((order.visit (nodeVirtualCounts ch.getAllVirtualNodes).toPairs).map
      Prod.fst).Nodup := (hperm.map Prod.fst).nodup_iff.mpr (Map.toPairs_nodup _)
  have hnew : ∀ n, n ∉ new.present := by
    intro n hn
    cases hn
  have hpairs : ∀ p ∈ order.visit (nodeVirtualCounts ch.getAllVirtualNodes).toPairs,
      p.1 ∈ ch.present ∧ p.1 ∉ new.present ∧ p.2 = counts p.1 := by
    rintro ⟨n, c⟩ hp
    obtain ⟨hn, -, rfl⟩ := (hcount n c).mp hp
    exact ⟨hn, hnew n, rfl⟩
  obtain ⟨hclone, hmem⟩ := duplicateFree_foldl_addNode hfree _ new duplicateFree_new
    (fun n hn => absurd hn (hnew n)) hkeys hpairs
  refine ⟨hclone, fun n => (hmem n).trans ?_⟩
  rw [or_iff_right (hnew n), List.mem_map]
  constructor
  · rintro ⟨⟨n, c⟩, hp, rfl⟩
    exact ⟨((hcount n c).mp hp).1, ((hcount n c).mp hp).2.1⟩
  · rintro ⟨hn, hpos⟩
    exact ⟨(n, counts n), (hcount n _).mpr ⟨hn, hpos, rfl⟩, rfl⟩

/-! ## The two calculations -/

/-- The hash is in a range that is assigned to the node. -/
def Streams (rangeAssignments : Map String (List KeyRange)) (nodeID : String) (h : UInt64) : Prop :=
  keyInRanges h (streamRanges ((rangeAssignments.get? nodeID).getD [])) = true
  deriving Decidable

theorem streams_assignAll_iff {x o : String} (hempty : o ≠ "") (hself : o ≠ x)
    (owner : UInt64 → String) (ch : ConsistentHasher) (h : UInt64) :
    Streams (assignAll x owner ch.getPreviousHash ch.getAllVirtualNodes) o h ↔
      ∃ p ∈ ch.ring, (ch.virtualNodeAt p).nodeID = x ∧ owner p = o ∧
        StreamKeyRange.contains ⟨ch.getPreviousHash p, p⟩ h = true := by
  rw [Streams, get?_assignAll hempty hself, keyInRanges, streamRanges, List.any_eq_true]
  simp only [ConsistentHasher.getAllVirtualNodes, List.mem_map, List.mem_filter, decide_eq_true_eq]
  constructor
  · rintro ⟨-, ⟨-, ⟨-, ⟨⟨p, hp, rfl⟩, hx, ho⟩, rfl⟩, rfl⟩, hcontains⟩
    exact ⟨p, hp, hx, ho, hcontains⟩
  · rintro ⟨p, hp, hx, ho, hcontains⟩
    exact ⟨_, ⟨_, ⟨_, ⟨⟨p, hp, rfl⟩, hx, ho⟩, rfl⟩, rfl⟩, hcontains⟩

theorem getPreviousHash_congr {ch ch' : ConsistentHasher} (h : ch.ring = ch'.ring) :
    ch.getPreviousHash = ch'.getPreviousHash := by
  funext p
  simp only [getPreviousHash, h]

theorem getNodeForHash_congr {ch ch' : ConsistentHasher} (h : ch.ring = ch'.ring)
    (h' : ch.virtualNodeAt = ch'.virtualNodeAt) : ch.getNodeForHash = ch'.getNodeForHash := by
  funext p
  simp only [getNodeForHash, h, h']

variable {node : StorageNode}

/-- The ring that a new node joins. -/
structure Joins (hash : String → UInt64) (counts : String → Nat) (ch : ConsistentHasher)
    (node : StorageNode) : Prop where
  duplicateFree : DuplicateFree hash counts ch
  absent : node.nodeID ∉ ch.present
  count : counts node.nodeID = node.virtualNodes
  collisionFree : CollisionFree hash counts (insert node.nodeID ch.present)

/-- The ring that a node leaves. -/
structure Leaves (hash : String → UInt64) (counts : String → Nat) (ch : ConsistentHasher)
    (node : StorageNode) : Prop where
  duplicateFree : DuplicateFree hash counts ch
  present : node.nodeID ∈ ch.present
  collisionFree : CollisionFree hash counts ch.present

theorem Joins.without (h : Joins hash counts ch node) :
    Without node.nodeID (ch.addNode hash node.nodeID node.virtualNodes) ch := by
  have hadd := h.duplicateFree.addNode h.absent h.collisionFree
  rw [h.count] at hadd
  refine hadd.without h.duplicateFree ?_
  rw [present_addNode, Set.insert_sdiff_self_of_notMem h.absent]

theorem Leaves.without (h : Leaves hash counts ch node) :
    Without node.nodeID ch (ch.removeNode node.nodeID) :=
  h.duplicateFree.without (h.duplicateFree.removeNode _ h.collisionFree) (present_removeNode ch _)

theorem Joins.calculate_eq (h : Joins hash counts ch node) (order : RangeOrder (String × Nat)) :
    calculateKeyRangesForNewNode hash order ch node =
      assignAll node.nodeID ch.getNodeForHash
        (ch.addNode hash node.nodeID node.virtualNodes).getPreviousHash
        (ch.addNode hash node.nodeID node.virtualNodes).getAllVirtualNodes := by
  obtain ⟨hclone, hmem⟩ := duplicateFree_cloneHashRing h.duplicateFree
    (h.collisionFree.mono (Set.subset_insert _ _)) order
  have hsub : (cloneHashRing hash order ch).present ⊆ ch.present := fun n hn => ((hmem n).mp hn).1
  have htemp := hclone.addNode (fun hn => h.absent (hsub hn))
    (h.collisionFree.mono (Set.insert_subset_insert hsub))
  have hadd := h.duplicateFree.addNode h.absent h.collisionFree
  rw [h.count] at htemp hadd
  obtain ⟨hring, hat⟩ := htemp.eq_of_present hadd fun n hpos => by
    rw [present_addNode, present_addNode, Set.mem_insert_iff, Set.mem_insert_iff, hmem,
      and_iff_left hpos]
  simp only [calculateKeyRangesForNewNode, getAllVirtualNodes, getPreviousHash_congr hring, hring,
    hat]

theorem Leaves.calculate_eq (h : Leaves hash counts ch node) (order : RangeOrder (String × Nat)) :
    calculateKeyRangesForRemovedNode hash order ch node =
      assignAll node.nodeID (ch.removeNode node.nodeID).getNodeForHash ch.getPreviousHash
        ch.getAllVirtualNodes := by
  obtain ⟨hclone, hmem⟩ := duplicateFree_cloneHashRing h.duplicateFree h.collisionFree order
  have hsub : (cloneHashRing hash order ch).present ⊆ ch.present := fun n hn => ((hmem n).mp hn).1
  have htemp := hclone.removeNode node.nodeID (h.collisionFree.mono hsub)
  have hremove := h.duplicateFree.removeNode node.nodeID h.collisionFree
  obtain ⟨hring, hat⟩ := htemp.eq_of_present hremove fun n hpos => by
    rw [present_removeNode, present_removeNode, Set.mem_sdiff, Set.mem_sdiff, hmem,
      and_iff_left hpos]
  simp only [calculateKeyRangesForRemovedNode, getNodeForHash_congr hring hat]

/-- **What a new node streams, from whom.** The hash after `k` decides. -/
theorem Joins.streams_iff (h : Joins hash counts ch node) (order : RangeOrder (String × Nat))
    {o : String} (hempty : o ≠ "") (hself : o ≠ node.nodeID) (k : UInt64) :
    Streams (calculateKeyRangesForNewNode hash order ch node) o k ↔
      (ch.addNode hash node.nodeID node.virtualNodes).ring ≠ [] ∧
      (ch.addNode hash node.nodeID node.virtualNodes).getNodeForHash (k + 1) = node.nodeID ∧
      ch.getNodeForHash (k + 1) = o := by
  rw [h.calculate_eq, streams_assignAll_iff hempty hself, h.without.exists_range_iff hempty]

/-- **What a node that leaves streams, to whom.** -/
theorem Leaves.streams_iff (h : Leaves hash counts ch node) (order : RangeOrder (String × Nat))
    {m : String} (hempty : m ≠ "") (hself : m ≠ node.nodeID) (k : UInt64) :
    Streams (calculateKeyRangesForRemovedNode hash order ch node) m k ↔
      ch.ring ≠ [] ∧ ch.getNodeForHash (k + 1) = node.nodeID ∧
      (ch.removeNode node.nodeID).getNodeForHash (k + 1) = m := by
  rw [h.calculate_eq, streams_assignAll_iff hempty hself, h.without.exists_range_iff hempty]

end KeyRangeService

namespace ConsistentHasher.Without

variable {hash : String → UInt64} {counts : String → Nat} {x : String}
  {big small : ConsistentHasher} {k : UInt64}

/-! ## The first owner -/

theorem getNodeForHash_of_mem (w : Without x big small) (hk : k ∈ big.ring) :
    big.getNodeForHash k = (big.virtualNodeAt k).nodeID := by
  have hown := onArc_self (big.getPreviousHash k) k
  exact (w.getNodeForHash_of_head? ((onArc_iff_head? w.increasing hk k).mp hown)).1

/-- Without the node, the owner of its hash is the owner of the next one. -/
theorem getNodeForHash_succ_of_owner (w : Without x big small)
    (hx : big.getNodeForHash k = x) : small.getNodeForHash (k + 1) = small.getNodeForHash k := by
  refine getNodeForHash_succ w.sorted_small fun hk => ?_
  rw [w.ring, List.mem_filter, decide_eq_true_eq] at hk
  exact hk.2 ((w.getNodeForHash_of_mem hk.1).symm.trans hx)

/-- A hash that the node does not own is owned without it. -/
theorem ring_ne_nil_of_owner_ne (w : Without x big small) (hne : big.ring ≠ [])
    (hx : big.getNodeForHash k ≠ x) : small.ring ≠ [] := by
  have hhead := head?_clockwise w.sorted hne k
  rw [(w.getNodeForHash_of_head? hhead).1] at hx
  refine List.ne_nil_of_mem (a := big.ring.getD (start big.ring k 0) 0) ?_
  rw [w.ring, List.mem_filter, decide_eq_true_eq]
  exact ⟨mem_clockwise.mp (List.mem_of_head? hhead), hx⟩

theorem ring_ne_nil_of_small (w : Without x big small) (hne : small.ring ≠ []) :
    big.ring ≠ [] := by
  rintro hnil
  rw [w.ring, hnil] at hne
  exact hne rfl

/-- **When the streams of a hash are right.** What is streamed depends on the owners of the next
hash, what should be streamed on those of the hash itself. -/
theorem streams_iff_moves (w : Without x big small) (hsmall : Sound hash counts small)
    (hname : "" ∉ small.present) {streams : String → Prop}
    (hstreams : ∀ o ∈ small.present, streams o ↔ big.ring ≠ [] ∧ big.getNodeForHash (k + 1) = x ∧
      small.getNodeForHash (k + 1) = o) :
    (∀ o ∈ small.present, streams o ↔ small.getNodeForHash k = o ∧ big.getNodeForHash k = x) ↔
      (big.getNodeForHash k = x ↔ big.getNodeForHash (k + 1) = x) := by
  by_cases hne : big.ring = []
  · have howner : ∀ k, big.getNodeForHash k = "" := by
      intro k
      rw [getNodeForHash, hne]
      rfl
    have hnil : small.ring = [] := by
      rw [w.ring, hne]
      rfl
    have howner' : ∀ k, small.getNodeForHash k = "" := by
      intro k
      rw [getNodeForHash, hnil]
      rfl
    refine iff_of_true (fun o ho => ?_) (by rw [howner, howner])
    rw [hstreams o ho, howner']
    refine iff_of_false (fun h => h.1 hne) fun h => ?_
    have hempty := h.1
    rw [howner'] at hempty
    exact hname (hempty ▸ ho)
  · constructor
    · intro hall
      constructor
      · intro hx
        by_contra hnext
        have hsmallne := w.ring_ne_nil_of_owner_ne hne hnext
        have hmem := hsmall.getNodeForHash_mem hsmallne k
        exact hnext ((hstreams _ hmem).mp ((hall _ hmem).mpr ⟨rfl, hx⟩)).2.1
      · intro hnext
        by_contra hx
        have hsmallne := w.ring_ne_nil_of_owner_ne hne hx
        have hmem := hsmall.getNodeForHash_mem hsmallne (k + 1)
        exact hx ((hall _ hmem).mp ((hstreams _ hmem).mpr ⟨hne, hnext, rfl⟩)).2
    · intro hiff o ho
      rw [hstreams o ho, ← hiff]
      constructor
      · rintro ⟨-, hx, hsucc⟩
        exact ⟨(w.getNodeForHash_succ_of_owner hx).symm.trans hsucc, hx⟩
      · rintro ⟨hcur, hx⟩
        exact ⟨hne, hx, (w.getNodeForHash_succ_of_owner hx).trans hcur⟩

end ConsistentHasher.Without

namespace KeyRangeService

open ConsistentHasher

variable {hash : String → UInt64} {counts : String → Nat} {ch : ConsistentHasher}

/-- **When exactly the hashes whose owner changes are streamed.** The ring has no point twice and no
node without a name. For a node that joins, a hash is streamed from the nodes that it should be
streamed from if and only if the new node owns both the hash and the next one or neither of them,
and for a node that leaves the same holds for the old ring. -/
theorem streams_iff_primary_moves {node : StorageNode} (hname : "" ∉ ch.present)
    (order : RangeOrder (String × Nat)) (k : UInt64) :
    (Joins hash counts ch node →
      let after := ch.addNode hash node.nodeID node.virtualNodes
      (∀ o ∈ ch.present, Streams (calculateKeyRangesForNewNode hash order ch node) o k ↔
          ch.getNodeForHash k = o ∧ after.getNodeForHash k = node.nodeID) ↔
        (after.getNodeForHash k = node.nodeID ↔ after.getNodeForHash (k + 1) = node.nodeID)) ∧
    (Leaves hash counts ch node →
      let after := ch.removeNode node.nodeID
      (∀ m ∈ after.present, Streams (calculateKeyRangesForRemovedNode hash order ch node) m k ↔
          after.getNodeForHash k = m ∧ ch.getNodeForHash k = node.nodeID) ↔
        (ch.getNodeForHash k = node.nodeID ↔ ch.getNodeForHash (k + 1) = node.nodeID)) := by
  constructor
  · intro h
    refine h.without.streams_iff_moves h.duplicateFree.toSound hname fun o ho => ?_
    exact h.streams_iff order (fun heq => hname (heq ▸ ho)) (fun heq => h.absent (heq ▸ ho)) k
  · intro h
    have hsmall := h.duplicateFree.removeNode node.nodeID h.collisionFree
    have hpresent := present_removeNode ch node.nodeID
    refine h.without.streams_iff_moves hsmall.toSound ?_ fun m hm => ?_
    · rw [hpresent]
      exact fun hmem => hname hmem.1
    · rw [hpresent] at hm
      exact h.streams_iff order (fun heq => hname (heq ▸ hm.1)) hm.2 k

end KeyRangeService

namespace Sample

open ConsistentHasher KeyRangeService

/-- The node `a` has the points 10 and 30. -/
def ringOfA : ConsistentHasher := built ringHash (fun _ => 2) [.add "a"]

/-- The node `b` comes with the points 20 and 40. -/
def joiningB : StorageNode := ⟨"b", "host", 1, .active, .bootstrapping, 2⟩

theorem present_ringOfA : ringOfA.present = { n | n ∈ ["a"] } := by
  rw [show ringOfA = new.addNode ringHash "a" 2 from rfl, present_addNode]
  ext n
  simp [present]

theorem joins_joiningB : Joins ringHash (fun _ => 2) ringOfA joiningB := by
  have hfree : CollisionFree ringHash (fun _ => 2) (insert "b" ringOfA.present) := by
    refine collisionFree_ringHash.mono ?_
    rw [present_ringOfA]
    intro n hn
    simpa [or_comm] using hn
  refine ⟨⟨(sound_built [.add "a"] ?_).1, by decide +kernel⟩, ?_, rfl, hfree⟩
  · refine collisionFree_ringHash.mono ?_
    intro n hn
    simp only [added, Set.mem_ofPred_eq, List.mem_singleton, RingAction.add.injEq] at hn
    simp [hn]
  · rw [present_ringOfA]
    decide

end Sample

open Sample KeyRangeService in
theorem streams_iff_primary_moves_joiningB :
    Joins ringHash (fun _ => 2) ringOfA joiningB ∧ ∀ o ∈ ringOfA.present,
      (Streams (calculateKeyRangesForNewNode ringHash (.asHeld _) ringOfA joiningB) o 15 ↔
        ringOfA.getNodeForHash 15 = o ∧
          (ringOfA.addNode ringHash "b" 2).getNodeForHash 15 = "b") := by
  refine ⟨joins_joiningB,
    ((streams_iff_primary_moves ?_ (.asHeld _) 15).1 joins_joiningB).mpr (by decide +kernel)⟩
  rw [present_ringOfA]
  decide

open Sample KeyRangeService in
/-- The hash of the first point of `b` moves from `a` to `b` and is not streamed. The hash 10 stays
with `a` and is streamed. -/
theorem point_moves_not_streamed :
    Joins ringHash (fun _ => 2) ringOfA joiningB ∧
      ringOfA.getNodeForHash 20 = "a" ∧
      (ringOfA.addNode ringHash "b" 2).getNodeForHash 20 = "b" ∧
      ¬ Streams (calculateKeyRangesForNewNode ringHash (.asHeld _) ringOfA joiningB) "a" 20 ∧
      (ringOfA.addNode ringHash "b" 2).getNodeForHash 10 = "a" ∧
      Streams (calculateKeyRangesForNewNode ringHash (.asHeld _) ringOfA joiningB) "a" 10 :=
  ⟨joins_joiningB, by decide +kernel⟩

namespace ConsistentHasher.Without

variable {hash : String → UInt64} {counts : String → Nat} {x : String}
  {big small : ConsistentHasher} {k : UInt64}

/-! ## The other replicas -/

theorem owners_eq (w : Without x big small) (k : UInt64) :
    small.owners k = (big.owners k).filter fun owner => owner ≠ x := by
  have hwalk : clockwise small.ring k =
      (clockwise big.ring k).filter fun p => (big.virtualNodeAt p).nodeID ≠ x := by
    rw [w.ring, clockwise_filter]
  have hsame : small.owners k =
      (clockwise small.ring k).map fun p => (big.virtualNodeAt p).nodeID :=
    List.map_congr_left fun p hp => w.owner p (mem_clockwise.mp hp)
  rw [hsame, hwalk, owners, List.filter_map]
  rfl

/-- Without the node, the walk leaves it out. -/
theorem map_nodeID_getNodes_small (w : Without x big small) (k : UInt64) (n : Nat) :
    (small.getNodes k n).map VirtualNode.nodeID =
      ((firstBy id (big.owners k)).filter fun owner => owner ≠ x).take n := by
  have hfilter := firstBy_filter id (fun owner => decide (owner ≠ x)) (big.owners k)
  simp only [id] at hfilter
  rw [map_nodeID_getNodes w.sorted_small, w.owners_eq, hfilter]

end ConsistentHasher.Without

/-- An element that comes among the first `n` when `x` is left out is the one that takes the free
place. -/
theorem mem_take_filter_ne {α : Type} [DecidableEq α] {l : List α} (hl : l.Nodup) (x m : α)
    (n : Nat) : m ∈ (l.filter fun a => a ≠ x).take n ∧ m ∉ l.take n ↔
      x ∈ l.take n ∧ (l.filter fun a => a ≠ x)[n - 1]? = some m := by
  by_cases hx : x ∈ l.take n
  · rw [and_iff_right hx]
    obtain ⟨pre, rest, rfl, hpre⟩ := List.eq_append_cons_of_mem (List.mem_of_mem_take hx)
    have hlen : pre.length < n := by
      by_contra hge
      rw [List.take_append_of_le_length (not_lt.mp hge)] at hx
      exact hpre (List.mem_of_mem_take hx)
    obtain ⟨j, rfl⟩ : ∃ j, n = pre.length + (j + 1) := ⟨n - pre.length - 1, by omega⟩
    have hnd := List.nodup_append.mp hl
    have hrest := List.nodup_cons.mp hnd.2.1
    have hcut : (pre ++ x :: rest).filter (fun a => a ≠ x) = pre ++ rest := by
      rw [List.filter_append, List.filter_cons, if_neg (by simp),
        List.filter_eq_self.mpr fun a ha => by
          simpa using fun heq : a = x => hpre (heq ▸ ha),
        List.filter_eq_self.mpr fun a ha => by
          simpa using fun heq : a = x => hrest.1 (heq ▸ ha)]
    rw [hcut, List.take_length_add_append, List.take_length_add_append, List.take_succ_cons,
      show pre.length + (j + 1) - 1 = pre.length + j by omega,
      List.getElem?_append_right (by omega), Nat.add_sub_cancel_left, List.take_add_one]
    simp only [List.mem_append, List.mem_cons, not_or, Option.mem_toList]
    constructor
    · rintro ⟨hmem | hmem | hmem, hnpre, -, hnrest⟩
      · exact absurd hmem hnpre
      · exact absurd hmem hnrest
      · exact hmem
    · intro hget
      have hin : m ∈ rest := List.mem_of_getElem? hget
      refine ⟨Or.inr (Or.inr hget), ?_, ?_, ?_⟩
      · intro hp
        exact hnd.2.2 m hp m (List.mem_cons_of_mem _ hin) rfl
      · rintro rfl
        exact hrest.1 hin
      · intro htake
        have hfirst := hrest.2.sublist (List.take_sublist (j + 1) rest)
        rw [List.take_add_one, hget] at hfirst
        exact (List.nodup_append.mp hfirst).2.2 m htake m (by simp) rfl
  · refine iff_of_false (fun h => ?_) fun h => hx h.1
    have hall : ∀ a ∈ l.take n, decide (a ≠ x) = true := by
      intro a ha
      simpa using fun heq : a = x => hx (heq ▸ ha)
    rw [ConsistentHasher.take_filter_of_forall hall] at h
    exact h.2 h.1

namespace ConsistentHasher

theorem nodup_firstBy_owners (ch : ConsistentHasher) (k : UInt64) :
    (firstBy id (ch.owners k)).Nodup := by
  have hnodup := nodup_map_firstBy id (ch.owners k)
  rwa [List.map_id] at hnodup

theorem Sound.mem_present_of_owners {hash : String → UInt64} {counts : String → Nat}
    {ch : ConsistentHasher} (h : Sound hash counts ch) {k : UInt64} {m : String}
    (hm : m ∈ ch.owners k) : m ∈ ch.present := by
  obtain ⟨p, hp, rfl⟩ := List.mem_map.mp hm
  obtain ⟨n, hn, i, hi, -, hvnode⟩ := h.virtualNode_of_mem (mem_clockwise.mp hp)
  rw [hvnode]
  exact hn

/-- **When the streams reach the new replicas of a hash.** At most one node is new among the
replicas, and it is the first owner only if there is one replica. -/
theorem Without.new_replicas_iff {x : String} {big small : ConsistentHasher} {k : UInt64}
    (w : Without x big small) (n : Nat) {streams : String → Prop}
    (hstreams : ∀ m ∈ small.owners k,
      streams m ↔ big.getNodeForHash k = x ∧ small.getNodeForHash k = m) :
    (∀ m ∈ (small.getNodes k n).map VirtualNode.nodeID,
        m ∉ (big.getNodes k n).map VirtualNode.nodeID → streams m) ↔
      n = 1 ∨ x ∉ (big.getNodes k n).map VirtualNode.nodeID ∨ (small.getNodes k n).length < n := by
  have hnodup := big.nodup_firstBy_owners k
  have hids := w.map_nodeID_getNodes_small k n
  have hlen := congrArg List.length hids
  rw [List.length_map, List.length_take] at hlen
  have hsmall : small.getNodeForHash k =
      ((firstBy id (big.owners k)).filter fun owner => owner ≠ x).head?.getD "" := by
    have hfilter := firstBy_filter id (fun owner => decide (owner ≠ x)) (big.owners k)
    simp only [id] at hfilter
    rw [getNodeForHash_eq_head? w.sorted_small, w.owners_eq, ← head?_firstBy id, hfilter]
  have hbig : big.getNodeForHash k = (firstBy id (big.owners k)).head?.getD "" := by
    rw [getNodeForHash_eq_head? w.sorted, head?_firstBy]
  have hmem : ∀ m ∈ (firstBy id (big.owners k)).filter (fun owner => owner ≠ x),
      m ∈ small.owners k := by
    intro m hm
    rw [List.mem_filter] at hm
    have hin := (@mem_map_firstBy _ _ _ id (big.owners k) m).mp (by simpa using hm.1)
    rw [w.owners_eq, List.mem_filter]
    exact ⟨by simpa using hin, hm.2⟩
  rw [hids, map_nodeID_getNodes w.sorted, hlen]
  constructor
  · intro hall
    by_contra hnot
    rw [not_or, not_or, not_not, not_lt] at hnot
    obtain ⟨hone, hx, hmin⟩ := hnot
    have hpos : n ≠ 0 := by
      rintro rfl
      cases hx
    have hlt : n - 1 < ((firstBy id (big.owners k)).filter fun owner => owner ≠ x).length := by
      omega
    have hget := List.getElem?_eq_getElem hlt
    obtain ⟨hin, hnew⟩ := (mem_take_filter_ne hnodup x _ n).mpr ⟨hx, hget⟩
    -- the node that takes the free place is not the first owner
    have hfirst := ((hstreams _ (hmem _ (List.mem_of_getElem? hget))).mp (hall _ hin hnew)).2
    rw [hsmall, List.head?_eq_getElem?, List.getElem?_eq_getElem (by omega),
      Option.getD_some] at hfirst
    have hidx := (hnodup.filter _).getElem_inj_iff.mp hfirst
    omega
  · intro hcond m hm hnew
    obtain ⟨hx, hget⟩ := (mem_take_filter_ne hnodup x m n).mp ⟨hm, hnew⟩
    rw [hstreams m (hmem m (List.mem_of_getElem? hget))]
    rcases hcond with rfl | hcond | hcond
    · constructor
      · rw [hbig]
        cases hB : firstBy id (big.owners k) with
        | nil =>
          rw [hB] at hx
          cases hx
        | cons b rest =>
          rw [hB, List.take_succ_cons, List.take_zero, List.mem_singleton] at hx
          exact hx.symm
      · rw [hsmall, List.head?_eq_getElem?, hget]
        rfl
    · exact absurd hx hcond
    · have hlt := (List.getElem?_eq_some_iff.mp hget).1
      omega

end ConsistentHasher

namespace KeyRangeService

open ConsistentHasher

variable {hash : String → UInt64} {counts : String → Nat} {ch : ConsistentHasher}

/-- A range is assigned to a node, not to nobody or the node itself. -/
theorem Joins.ne_of_streams {node : StorageNode} (h : Joins hash counts ch node)
    {order : RangeOrder (String × Nat)} {o : String} {k : UInt64}
    (hs : Streams (calculateKeyRangesForNewNode hash order ch node) o k) :
    o ≠ "" ∧ o ≠ node.nodeID := by
  rw [← not_or]
  intro ho
  rw [h.calculate_eq, Streams, get?_assignAll_none ho] at hs
  cases hs

/-- **When new replicas are streamed what they become responsible for.** The hash is not a point of
the ring. A node that joins gets a range with the hash if it does not become a replica, or if it
becomes the first one and there was an owner before. When a node leaves, the new replica gets one if
there is one replica only, or if nothing changes: the node was not a replica, or too few nodes
remain. -/
theorem streams_reach_new_replicas_iff {node : StorageNode} (hname : "" ∉ ch.present)
    (order : RangeOrder (String × Nat)) (k : UInt64) (n : Nat) :
    (Joins hash counts ch node →
      let after := ch.addNode hash node.nodeID node.virtualNodes
      k ∉ after.ring →
      ((node.nodeID ∈ (after.getNodes k n).map VirtualNode.nodeID →
          ∃ o, Streams (calculateKeyRangesForNewNode hash order ch node) o k) ↔
        node.nodeID ∉ (after.getNodes k n).map VirtualNode.nodeID ∨
          after.getNodeForHash k = node.nodeID ∧ ch.ring ≠ [])) ∧
    (Leaves hash counts ch node → k ∉ ch.ring →
      let after := ch.removeNode node.nodeID
      ((∀ m ∈ (after.getNodes k n).map VirtualNode.nodeID,
          m ∉ (ch.getNodes k n).map VirtualNode.nodeID →
          Streams (calculateKeyRangesForRemovedNode hash order ch node) m k) ↔
        n = 1 ∨ node.nodeID ∉ (ch.getNodes k n).map VirtualNode.nodeID ∨
          (after.getNodes k n).length < n)) := by
  constructor
  · intro h after hk
    have w : Without node.nodeID after ch := h.without
    have hksmall : k ∉ ch.ring := by
      rw [w.ring, List.mem_filter]
      exact fun hmem => hk hmem.1
    have hbig : after.getNodeForHash (k + 1) = after.getNodeForHash k :=
      getNodeForHash_succ w.sorted hk
    have hsmall : ch.getNodeForHash (k + 1) = ch.getNodeForHash k :=
      getNodeForHash_succ w.sorted_small hksmall
    have hstreamed : (∃ o, Streams (calculateKeyRangesForNewNode hash order ch node) o k) ↔
        after.getNodeForHash k = node.nodeID ∧ ch.ring ≠ [] := by
      constructor
      · rintro ⟨o, hs⟩
        obtain ⟨hempty, hself⟩ := h.ne_of_streams hs
        obtain ⟨-, hx, ho⟩ := (h.streams_iff order hempty hself k).mp hs
        refine ⟨hbig.symm.trans hx, ?_⟩
        rw [← ho] at hempty
        exact Without.ring_ne_nil hempty
      · rintro ⟨hx, hne⟩
        have hmem := h.duplicateFree.toSound.getNodeForHash_mem hne k
        refine ⟨_, (h.streams_iff order (fun heq => hname (heq ▸ hmem))
          (fun heq => h.absent (heq ▸ hmem)) k).mpr ⟨w.ring_ne_nil_of_small hne, ?_, hsmall⟩⟩
        exact hbig.trans hx
    rw [hstreamed, imp_iff_not_or]
  · intro h hk after
    have w : Without node.nodeID ch after := h.without
    have hsound := h.duplicateFree.removeNode node.nodeID h.collisionFree
    have hksmall : k ∉ after.ring := by
      rw [w.ring, List.mem_filter]
      exact fun hmem => hk hmem.1
    refine w.new_replicas_iff n fun m hm => ?_
    have hpresent : m ∈ after.present := hsound.toSound.mem_present_of_owners hm
    rw [present_removeNode] at hpresent
    have hne : ch.ring ≠ [] := by
      refine w.ring_ne_nil_of_small ?_
      rintro hnil
      rw [owners, hnil] at hm
      cases hm
    rw [h.streams_iff order (fun heq => hname (heq ▸ hpresent.1)) hpresent.2, and_iff_right hne,
      getNodeForHash_succ w.sorted hk, getNodeForHash_succ w.sorted_small hksmall]

end KeyRangeService

open Sample KeyRangeService ConsistentHasher in
theorem streams_reach_joiningB :
    "b" ∈ ((ringOfA.addNode ringHash "b" 2).getNodes 15 2).map VirtualNode.nodeID ∧
      ∃ o, Streams (calculateKeyRangesForNewNode ringHash (.asHeld _) ringOfA joiningB) o 15 := by
  have hb : "b" ∈ ((ringOfA.addNode ringHash "b" 2).getNodes 15 2).map VirtualNode.nodeID := by
    decide +kernel
  refine ⟨hb, ?_⟩
  refine ((streams_reach_new_replicas_iff ?_ (.asHeld _) 15 2).1 joins_joiningB
    (by decide +kernel)).mpr (Or.inr (by decide +kernel)) hb
  rw [present_ringOfA]
  decide

open Sample KeyRangeService ConsistentHasher in
/-- The node `b` becomes the second replica of the hash 5 and gets no range with it. -/
theorem secondReplica_not_streamed :
    Joins ringHash (fun _ => 2) ringOfA joiningB ∧
      5 ∉ ringOfA.ring ∧ 5 ∉ (ringOfA.addNode ringHash "b" 2).ring ∧
      "b" ∈ ((ringOfA.addNode ringHash "b" 2).getNodes 5 2).map VirtualNode.nodeID ∧
      ¬ ∃ o, Streams (calculateKeyRangesForNewNode ringHash (.asHeld _) ringOfA joiningB) o 5 := by
  refine ⟨joins_joiningB, by decide +kernel, by decide +kernel, by decide +kernel, ?_⟩
  rintro ⟨o, hs⟩
  obtain ⟨hempty, hself⟩ := joins_joiningB.ne_of_streams hs
  have howner := ((joins_joiningB.streams_iff _ hempty hself 5).mp hs).2.1
  revert howner
  decide +kernel

end PairDB.Coordinator
