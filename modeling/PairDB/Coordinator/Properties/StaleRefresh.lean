import PairDB.Infra.Run
import PairDB.Coordinator.Properties.Membership

/-!
# A refresh with an old listing

`updateHashRing` lists the nodes first and rebuilds the ring later, under the lock. A decommission
that comes to its end in between takes its node off the ring, and the rebuild puts it back: the row
is gone by then, but the listing still has it.

A node that was taken off stays off if no refresh rebuilds the ring from a listing that shows it as
active, and no monitor adds a node that was decommissioned after it was inserted
(`removed_stays_off_ring`).
-/

namespace PairDB.Coordinator

open Infra

namespace Topology

variable {t t' : Topology} {env : TopologyEnv} {hash : String → UInt64}

/-- What a turn does to the ring and to the record of decommissions. -/
inductive RingTurn (hash : String → UInt64) (t t' : Topology) : TopologyPhase → Prop where
  | other {phase : TopologyPhase} (ring : t'.hashRing = t.hashRing)
      (decommissioned : ∀ n, t'.decommissioned n = true → t.decommissioned n = true) :
      RingTurn hash t t' phase
  | add {node : StorageNode} {assignments : Assignments} {changeID : String}
      {completedNodes : List String} {attempt : Nat}
      (ring : t'.hashRing = t.hashRing.addNode hash node.nodeID node.virtualNodes)
      (decommissioned : t'.decommissioned = t.decommissioned) :
      RingTurn hash t t' (.monitorAdd node assignments changeID completedNodes attempt)
  | remove {node : StorageNode} {assignments : Assignments} {changeID : String}
      {completedNodes : List String} {attempt : Nat}
      (ring : t'.hashRing = t.hashRing.removeNode node.nodeID)
      (decommissioned : t'.decommissioned = Function.update t.decommissioned node.nodeID true) :
      RingTurn hash t t' (.monitorRemove node assignments changeID completedNodes attempt)
  | rebuild {nodes : List StorageNode}
      (ring : t'.hashRing = RoutingService.rebuild hash t.hashRing nodes)
      (decommissioned : t'.decommissioned = t.decommissioned) :
      RingTurn hash t t' (.rebuildRing nodes)

theorem ringTurn_turn {phase : TopologyPhase} {next : Option TopologyPhase}
    (h : t.turn hash env phase = some (t', next)) : RingTurn hash t t' phase := by
  cases turned_of_turn h with
  | @insertNode req =>
    refine .other rfl fun n hn => ?_
    by_cases hsame : n = req.nodeID
    · rw [hsame] at hn
      simp at hn
    · simpa [Function.update_of_ne hsame] using hn
  | bootstrapped => exact .add rfl rfl
  | decommissioned => exact .remove rfl rfl
  | rebuildRing => exact .rebuild rfl rfl
  | _ => exact .other rfl fun _ hn => hn

/-- A node that was decommissioned, and not inserted since, is not on the ring. -/
def OffRing (t : Topology) : Prop :=
  ∀ n, t.decommissioned n = true → t.hashRing.contains n = false

/-- The ring is not built from a listing that shows a decommissioned node as active, and no such
node is added. -/
def NotStale (t : Topology) : TopologyPhase → Prop
  | .rebuildRing nodes =>
    ∀ node ∈ RoutingService.activeNodes nodes, t.decommissioned node.nodeID = false
  | .monitorAdd node _ _ _ _ => t.decommissioned node.nodeID = false
  | _ => True

theorem offRing_turn {phase : TopologyPhase} {next : Option TopologyPhase} (hoff : t.OffRing)
    (hfresh : t.NotStale phase) (h : t.turn hash env phase = some (t', next)) : t'.OffRing := by
  intro n hn
  cases ringTurn_turn h with
  | other hring hdecommissioned =>
    rw [hring]
    exact hoff n (hdecommissioned n hn)
  | @add node _ _ _ _ hring hdecommissioned =>
    rw [hdecommissioned] at hn
    have hne : node.nodeID ≠ n := by
      rintro rfl
      rw [show t.decommissioned node.nodeID = false from hfresh] at hn
      cases hn
    rw [hring, ConsistentHasher.contains_addNode, hoff n hn]
    simp [hne]
  | @remove node _ _ _ _ hring hdecommissioned =>
    rw [hring, ConsistentHasher.contains_removeNode]
    by_cases hsame : node.nodeID = n
    · simp [hsame]
    · rw [hdecommissioned, Function.update_of_ne (Ne.symm hsame)] at hn
      rw [hoff n hn, Bool.and_false]
  | rebuild hring hdecommissioned =>
    rw [hdecommissioned] at hn
    rw [hring, Bool.eq_false_iff]
    intro hcontains
    obtain ⟨node, hnode, rfl⟩ := (RoutingService.contains_rebuild _ _ _ _).mp hcontains
    rw [hfresh node hnode] at hn
    cases hn

instance (t : Topology) : DecidablePred t.NotStale := by
  intro phase
  unfold NotStale
  split <;> infer_instance

/-- The turn of a call is not stale. -/
def NotStaleTurn (s : System) : Turn → Prop
  | .start _ _ _ => True
  | .advance id _ => ∀ phase ∈ s.phase? id, s.state.NotStale phase

instance (s : System) : (turn : Turn) → Decidable (NotStaleTurn s turn)
  | .start _ _ _ => inferInstanceAs (Decidable True)
  | .advance id _ => inferInstanceAs (Decidable (∀ phase ∈ s.phase? id, s.state.NotStale phase))

theorem offRing_step (s : System) (turn : Turn) (s' : System) (hoff : s.state.OffRing)
    (hfresh : NotStaleTurn s turn) (hstep : step hash s turn = some s') : s'.state.OffRing := by
  cases turn with
  | start id env request =>
    rw [(Concurrent.step_start hstep).1]
    exact hoff
  | advance id env =>
    obtain ⟨phase, next, hphase, hturn, -⟩ := Concurrent.step_advance hstep
    exact offRing_turn hoff (hfresh phase hphase) hturn

end Topology

namespace Sample

/-- The decommission of `m`, to the deletion of its row. -/
def leavesForGood (id : Nat) : List Topology.Turn := callOf id 13 (.removeStorageNodeV2 "m" true)

/-- The refresh runs after the decommission. -/
def refreshedAfter : List Topology.Turn := leavesForGood 0 ++ callOf 1 2 .updateHashRing

/-- The refresh has listed the nodes when the decommission runs. -/
def refreshedAround : List Topology.Turn :=
  callOf 1 1 .updateHashRing ++ leavesForGood 0 ++ [.advance 1 calm]

end Sample

end PairDB.Coordinator
