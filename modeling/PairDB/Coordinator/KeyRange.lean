import PairDB.Coordinator.Routing
import PairDB.Infra.ExchangeSort

/-!
# `service.KeyRangeService`: which ranges of the ring change their owner

For a node that joins, every one of its points takes a range away from the node that owned the
point before; for a node that leaves, every one of its points gives its range to the node that owns
the point without it. Both work on a copy of the ring, which is built anew from the number of points
that every node has.
-/

namespace PairDB.Coordinator

open Infra

/-- `KeyRange`. -/
structure KeyRange where
  startHash : UInt64
  endHash : UInt64
  deriving DecidableEq, Repr

namespace KeyRangeService

/-- How many points every node has on the ring. -/
def nodeVirtualCounts (vnodes : List VirtualNode) : Map String Nat :=
  vnodes.foldl (fun counts vnode =>
    counts.set vnode.nodeID ((counts.get? vnode.nodeID).getD 0 + 1)) ∅

/-- `cloneHashRing`. The counts are walked in any order. -/
def cloneHashRing (hash : String → UInt64) (order : RangeOrder (String × Nat))
    (original : ConsistentHasher) : ConsistentHasher :=
  (order.visit (nodeVirtualCounts original.getAllVirtualNodes).toPairs).foldl
    (fun ring p => ring.addNode hash p.1 p.2) .new

/-- `rangeAssignments[owner] = append(rangeAssignments[owner], keyRange)`. -/
def assign (rangeAssignments : Map String (List KeyRange)) (owner : String) (keyRange : KeyRange) :
    Map String (List KeyRange) :=
  rangeAssignments.set owner ((rangeAssignments.get? owner).getD [] ++ [keyRange])

/-- The loop of both calculations: every point of the node goes to `owner`, with the range that
begins at `previous`. -/
def assignAll (nodeID : String) (owner : UInt64 → String) (previous : UInt64 → UInt64)
    (vnodes : List VirtualNode) : Map String (List KeyRange) :=
  vnodes.foldl (fun rangeAssignments vnode =>
    if vnode.nodeID ≠ nodeID then rangeAssignments
    else if owner vnode.hash = "" || owner vnode.hash = nodeID then rangeAssignments
    else assign rangeAssignments (owner vnode.hash) ⟨previous vnode.hash, vnode.hash⟩) ∅

/-- `CalculateKeyRangesForNewNode`. -/
def calculateKeyRangesForNewNode (hash : String → UInt64) (order : RangeOrder (String × Nat))
    (currentHashRing : ConsistentHasher) (newNode : StorageNode) : Map String (List KeyRange) :=
  let tempRing := (cloneHashRing hash order currentHashRing).addNode hash newNode.nodeID
    newNode.virtualNodes
  assignAll newNode.nodeID currentHashRing.getNodeForHash tempRing.getPreviousHash
    tempRing.getAllVirtualNodes

/-- `CalculateKeyRangesForRemovedNode`. -/
def calculateKeyRangesForRemovedNode (hash : String → UInt64) (order : RangeOrder (String × Nat))
    (currentHashRing : ConsistentHasher) (removedNode : StorageNode) :
    Map String (List KeyRange) :=
  let tempRing := (cloneHashRing hash order currentHashRing).removeNode removedNode.nodeID
  assignAll removedNode.nodeID tempRing.getNodeForHash currentHashRing.getPreviousHash
    currentHashRing.getAllVirtualNodes

/-- The sort of `MergeRanges`. -/
def sortByStart (ranges : List KeyRange) : List KeyRange :=
  exchangeSort (fun r q => decide (r.startHash < q.startHash)) ranges

/-- One round of the sweep of `MergeRanges`: the merged ranges before the last one, and the last
one. -/
def sweepRound (merged : List KeyRange × KeyRange) (current : KeyRange) :
    List KeyRange × KeyRange :=
  let last := merged.2
  if current.startHash ≤ last.endHash then
    if current.endHash > last.endHash then
      (merged.1, { last with endHash := current.endHash })
    else merged
  else (merged.1 ++ [last], current)

/-- `MergeRanges`. -/
def mergeRanges (ranges : List KeyRange) : List KeyRange :=
  match sortByStart ranges with
  | [] => []
  | first :: rest =>
    let merged := rest.foldl sweepRound ([], first)
    merged.1 ++ [merged.2]

/-! ## What the loops compute -/

theorem get?_nodeVirtualCounts (vnodes : List VirtualNode) (n : String) :
    (nodeVirtualCounts vnodes).get? n =
      if vnodes.countP (fun vnode => vnode.nodeID = n) = 0 then none
      else some (vnodes.countP fun vnode => vnode.nodeID = n) := by
  induction vnodes using List.reverseRecOn with
  | nil => rfl
  | append_singleton vnodes vnode ih =>
    have hstep : nodeVirtualCounts (vnodes ++ [vnode]) =
        (nodeVirtualCounts vnodes).set vnode.nodeID
          (((nodeVirtualCounts vnodes).get? vnode.nodeID).getD 0 + 1) := by
      rw [nodeVirtualCounts, List.foldl_append]
      rfl
    rw [hstep, Map.get?_set, List.countP_append, List.countP_singleton]
    by_cases heq : vnode.nodeID = n
    · subst heq
      rw [if_pos rfl, ih]
      split
      · next hzero => simp [hzero]
      · simp
    · simp [heq, ih]

/-- No range is assigned to nobody, and none to the node itself. -/
theorem get?_assignAll_none {nodeID o : String} (ho : o = "" ∨ o = nodeID)
    (owner : UInt64 → String) (previous : UInt64 → UInt64) (vnodes : List VirtualNode) :
    (assignAll nodeID owner previous vnodes).get? o = none := by
  unfold assignAll
  suffices h : ∀ m : Map String (List KeyRange), m.get? o = none →
      (vnodes.foldl (fun rangeAssignments vnode =>
        if vnode.nodeID ≠ nodeID then rangeAssignments
        else if owner vnode.hash = "" || owner vnode.hash = nodeID then rangeAssignments
        else assign rangeAssignments (owner vnode.hash) ⟨previous vnode.hash, vnode.hash⟩)
          m).get? o = none from h ∅ rfl
  induction vnodes with
  | nil => exact fun _ hm => hm
  | cons vnode vnodes ih =>
    intro m hm
    rw [List.foldl_cons]
    refine ih _ ?_
    split
    · exact hm
    · split
      · exact hm
      · next hother =>
        have hne : owner vnode.hash ≠ o := by
          rintro rfl
          simp [ho] at hother
        rw [assign, Map.get?_set, if_neg hne]
        exact hm

/-- The loop of both calculations appends the range of every point of the node to those of the
owner. -/
theorem get?_assignAll {nodeID o : String} (hempty : o ≠ "") (hself : o ≠ nodeID)
    (owner : UInt64 → String) (previous : UInt64 → UInt64) (vnodes : List VirtualNode) :
    ((assignAll nodeID owner previous vnodes).get? o).getD [] =
      (vnodes.filter fun vnode => vnode.nodeID = nodeID ∧ owner vnode.hash = o).map
        fun vnode => ⟨previous vnode.hash, vnode.hash⟩ := by
  unfold assignAll
  suffices hloop : ∀ m : Map String (List KeyRange),
      ((vnodes.foldl (fun rangeAssignments vnode =>
        if vnode.nodeID ≠ nodeID then rangeAssignments
        else if owner vnode.hash = "" || owner vnode.hash = nodeID then rangeAssignments
        else assign rangeAssignments (owner vnode.hash) ⟨previous vnode.hash, vnode.hash⟩)
          m).get? o).getD [] = (m.get? o).getD [] ++
        (vnodes.filter fun vnode => vnode.nodeID = nodeID ∧ owner vnode.hash = o).map
          fun vnode => ⟨previous vnode.hash, vnode.hash⟩ by
    rw [hloop ∅]
    rfl
  induction vnodes with
  | nil => simp
  | cons vnode vnodes ih =>
    intro m
    rw [List.foldl_cons, ih, List.filter_cons]
    by_cases hnode : vnode.nodeID = nodeID
    · by_cases ho : owner vnode.hash = o
      · simp [hnode, ho, hempty, hself, assign, Map.get?_set]
      · have hskip : ¬ (vnode.nodeID = nodeID ∧ owner vnode.hash = o) := fun h => ho h.2
        rw [if_neg (not_not.mpr hnode), if_neg (mt of_decide_eq_true hskip)]
        split
        · rfl
        · simp [assign, Map.get?_set, ho]
    · simp [hnode]

end KeyRangeService

end PairDB.Coordinator
