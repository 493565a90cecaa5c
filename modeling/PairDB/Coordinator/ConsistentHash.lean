import PairDB.Infra.Map
import PairDB.Infra.Search

/-!
# `algorithm.ConsistentHasher`

The ring is a sorted list of hashes, a map from a hash to the virtual node that put it there, and
the hashes of every physical node. The hash function (the first eight bytes of a SHA-256) is a
parameter: nothing depends on how it is computed.
-/

namespace PairDB.Coordinator

open Infra

/-- `model.VirtualNode`. -/
structure VirtualNode where
  vnodeID : String
  hash : UInt64
  nodeID : String
  deriving DecidableEq, Repr

/-- `ConsistentHasher`. -/
structure ConsistentHasher where
  ring : List UInt64
  ringMap : Map UInt64 String
  nodeVNodes : Map String (List UInt64)

namespace ConsistentHasher

/-- `NewConsistentHasher`. -/
def new : ConsistentHasher := ⟨[], ∅, ∅⟩

/-- The id of the `i`-th virtual node. -/
def vnodeID (nodeID : String) (i : Nat) : String := nodeID ++ "-vnode-" ++ toString i

/-- `AddNode`. A node that is added twice is on the ring twice. -/
def addNode (hash : String → UInt64) (ch : ConsistentHasher) (nodeID : String)
    (virtualNodeCount : Nat) : ConsistentHasher :=
  let vnodes := (List.range virtualNodeCount).map fun i =>
    (hash (vnodeID nodeID i), vnodeID nodeID i)
  let vnodeHashes := vnodes.map Prod.fst
  { ring := (ch.ring ++ vnodeHashes).insertionSort (· ≤ ·)
    ringMap := vnodes.foldl (fun m p => m.set p.1 p.2) ch.ringMap
    nodeVNodes := ch.nodeVNodes.set nodeID vnodeHashes }

/-- `RemoveNode`. -/
def removeNode (ch : ConsistentHasher) (nodeID : String) : ConsistentHasher :=
  match ch.nodeVNodes.get? nodeID with
  | none => ch
  | some vnodeHashes =>
    { ring := ch.ring.filter fun hash => hash ∉ vnodeHashes
      ringMap := vnodeHashes.foldl (fun m hash => m.remove hash) ch.ringMap
      nodeVNodes := ch.nodeVNodes.remove nodeID }

/-- `Clear`. -/
def clear (_ : ConsistentHasher) : ConsistentHasher := new

/-- The node is on the ring. -/
def contains (ch : ConsistentHasher) (nodeID : String) : Bool :=
  (ch.nodeVNodes.get? nodeID).isSome

/-- `NodeCount`. -/
def nodeCount (ch : ConsistentHasher) : Nat := ch.nodeVNodes.keys.length

@[simp] theorem contains_new (nodeID : String) : new.contains nodeID = false := rfl

theorem contains_addNode (hash : String → UInt64) (ch : ConsistentHasher) (added : String)
    (virtualNodeCount : Nat) (nodeID : String) :
    (ch.addNode hash added virtualNodeCount).contains nodeID =
      (decide (added = nodeID) || ch.contains nodeID) := by
  simp only [contains, addNode, Map.get?_set]
  by_cases h : added = nodeID <;> simp [h]

theorem contains_removeNode (ch : ConsistentHasher) (removed nodeID : String) :
    (ch.removeNode removed).contains nodeID =
      (!decide (removed = nodeID) && ch.contains nodeID) := by
  unfold removeNode
  split
  · next hnone =>
    by_cases h : removed = nodeID
    · subst h
      simp [contains, hnone]
    · simp [h]
  · simp only [contains, Map.get?_remove]
    by_cases h : removed = nodeID <;> simp [h]

/-! ## From a virtual node to its physical node -/

/-- `"-vnode-"`. -/
def vnodeSuffix : List Char := "-vnode-".toList

/-- The search for the last `-vnode-`, over the positions below `idx`, from the right. -/
def extractNodeIDBelow (vnodeID : List Char) : (idx : Nat) → List Char
  | 0 => vnodeID
  | idx + 1 =>
    if vnodeSuffix.isPrefixOf (vnodeID.drop idx) then vnodeID.take idx
    else extractNodeIDBelow vnodeID idx

/-- `extractNodeID`. -/
def extractNodeID (vnodeID : String) : String :=
  let cs := vnodeID.toList
  String.ofList (extractNodeIDBelow cs (cs.length + 1 - vnodeSuffix.length))

/-! ## The walk along the ring -/

/-- The physical node that owns the point `hash` of the ring. -/
def virtualNodeAt (ch : ConsistentHasher) (hash : UInt64) : VirtualNode :=
  let vnodeID := (ch.ringMap.get? hash).getD ""
  ⟨vnodeID, hash, extractNodeID vnodeID⟩

/-- `GetAllVirtualNodes`. -/
def getAllVirtualNodes (ch : ConsistentHasher) : List VirtualNode := ch.ring.map ch.virtualNodeAt

/-- `GetNodeForHash`. -/
def getNodeForHash (ch : ConsistentHasher) (keyHash : UInt64) : String :=
  if ch.ring.length = 0 then ""
  else
    let idx := search ch.ring.length fun i => ch.ring.getD i 0 ≥ keyHash
    let idx := if idx ≥ ch.ring.length then 0 else idx
    (ch.virtualNodeAt (ch.ring.getD idx 0)).nodeID

/-- `GetPreviousHash`. -/
def getPreviousHash (ch : ConsistentHasher) (currentHash : UInt64) : UInt64 :=
  match ch.ring.idxOf? currentHash with
  | none => 0
  | some idx => ch.ring.getD (if idx = 0 then ch.ring.length - 1 else idx - 1) 0

/-- The loop of `GetNodes` from its `i`-th round on. `nodes` are the nodes found so far. -/
def walk (ch : ConsistentHasher) (idx count : Nat) :
    (rounds i : Nat) → (nodes : List VirtualNode) → (seen : List String) → List VirtualNode
  | 0, _, nodes, _ => nodes
  | rounds + 1, i, nodes, seen =>
    if nodes.length < count then
      let ringIdx := (idx + i) % ch.ring.length
      let vnode := ch.virtualNodeAt (ch.ring.getD ringIdx 0)
      if vnode.nodeID ∈ seen then ch.walk idx count rounds (i + 1) nodes seen
      else ch.walk idx count rounds (i + 1) (nodes ++ [vnode]) (vnode.nodeID :: seen)
    else nodes

/-- `GetNodes`. -/
def getNodes (ch : ConsistentHasher) (keyHash : UInt64) (count : Nat) : List VirtualNode :=
  if ch.ring.length = 0 then []
  else
    let idx := search ch.ring.length fun i => ch.ring.getD i 0 ≥ keyHash
    let idx := if idx ≥ ch.ring.length then 0 else idx
    ch.walk idx count ch.ring.length 0 [] []

theorem length_walk_le (ch : ConsistentHasher) (idx count : Nat) (rounds i : Nat)
    (nodes : List VirtualNode) (seen : List String) (h : nodes.length ≤ count) :
    (ch.walk idx count rounds i nodes seen).length ≤ count := by
  induction rounds generalizing i nodes seen with
  | zero => exact h
  | succ rounds ih =>
    unfold walk
    split
    · next hlt =>
      simp only
      split
      · exact ih _ _ _ h
      · exact ih _ _ _ (by simp; omega)
    · exact h

/-- The walk never finds more nodes than were asked for. -/
theorem length_getNodes_le (ch : ConsistentHasher) (keyHash : UInt64) (count : Nat) :
    (ch.getNodes keyHash count).length ≤ count := by
  unfold getNodes
  split
  · exact Nat.zero_le _
  · exact length_walk_le ch _ count _ _ _ _ (Nat.zero_le _)

end ConsistentHasher

end PairDB.Coordinator
