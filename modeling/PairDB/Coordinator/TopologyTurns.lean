import PairDB.Coordinator.NodeHandler

/-!
# What a turn of a change of the cluster can do

`Turned` has one case for each way in which a turn of `AddStorageNodeV2`, `RemoveStorageNodeV2`, of
their monitors, of a refresh or of a stream can end, with the state after it and the phase it leads
to. `turned_of_turn` is the inversion that the properties of the cluster start from. Every case says
in full which fields of the state are written, so that a field that is not written is seen to be the
same.
-/

open PairDB.StorageNode (StreamingManager)

namespace PairDB.Coordinator

open Infra

namespace TopologyPhase

/-- A request can be refused here. -/
def refuses : TopologyPhase → Bool
  | .lockAdd _ | .insertNode _ | .planAdd _ | .recordAdd _ _ | .lockRemove _ _ | .findNode _ _
  | .countNodes _ _ | .setDraining _ | .setLeaving _ | .planRemove _ | .recordRemove _ _ => true
  | _ => false

/-- A call can end here without an answer. -/
def endsSilently : TopologyPhase → Bool
  | .setNormal _ _ _ | .fetchNodes | .finish _ _ => true
  | _ => false

end TopologyPhase

/-- The end of a change does not touch the nodes. -/
theorem storageNodes_finishPendingChange {s s' : MetadataStore} {now : Int} {changeID : String}
    {status : PendingChangeStatus} {message : Option String}
    (h : (Statement.finishPendingChange changeID status message).exec now s = .ok s') :
    s'.storageNodes = s.storageNodes := by
  cases hget : s.getPendingChange changeID with
  | error err =>
    simp only [Statement.exec, hget] at h
    cases h
  | ok change =>
    simp only [Statement.exec, hget] at h
    exact MetadataStore.storageNodes_updatePendingChange h

namespace Topology

/-- The streams after a stream was to be started: it was, or it was not. -/
def StreamsAfterStart (t : Topology) (source target : String) (ranges : List KeyRange)
    (streaming : String → StreamingManager) : Prop :=
  streaming = t.streaming ∨ streaming = Function.update t.streaming source
    ((t.streaming source).startStreaming source target (streamRanges ranges)).1

/-- What a turn leads to. -/
inductive Turned (hash : String → UInt64) (env : TopologyEnv) (t : Topology) :
    TopologyPhase → Topology → Option TopologyPhase → Prop
  | refused {phase nodeLocks err} :
      phase.refuses = true →
      Turned hash env t phase { t with nodeLocks, answers := t.answers ++ [.error err] } none
  | ended {phase} : phase.endsSilently = true → Turned hash env t phase t none
  | lockAdd {req nodeLocks} :
      Turned hash env t (.lockAdd req) { t with nodeLocks } (some (.insertNode req))
  | insertNode {req metadataStore} :
      t.metadataStore.addStorageNode req.node = .ok metadataStore →
      Turned hash env t (.insertNode req)
        { t with
          metadataStore
          bootstrapped := Function.update t.bootstrapped req.nodeID false
          decommissioned := Function.update t.decommissioned req.nodeID false }
        (some (.planAdd req.node))
  | planAdd {node assignments metadataStore} :
      assignments = env.assignmentsOrder.visit
        (KeyRangeService.calculateKeyRangesForNewNode hash env.countsOrder t.hashRing node).toPairs →
      t.metadataStore.updateNodeRanges node.nodeID
        (Assignments.pendingRanges node.nodeID assignments) [] = .ok metadataStore →
      Turned hash env t (.planAdd node) { t with metadataStore } (some (.recordAdd node assignments))
  | recordAdd {node assignments metadataStore} :
      t.metadataStore.addPendingChange (newChange env .bootstrap
        (changeIDFor env "bootstrap" node.nodeID) node.nodeID (assignments.map Prod.fst)
        assignments) = .ok metadataStore →
      Turned hash env t (.recordAdd node assignments) { t with metadataStore }
        (some (.startAdd node assignments (changeIDFor env "bootstrap" node.nodeID) assignments 0))
  | startAdd {node assignments rest changeID pair started started' streaming} :
      t.StreamsAfterStart pair.1 node.nodeID pair.2 streaming →
      Turned hash env t (.startAdd node assignments changeID (pair :: rest) started)
        { t with streaming } (some (.startAdd node assignments changeID rest started'))
  | answerAdd {node assignments changeID message started nodeLocks} :
      Turned hash env t (.startAdd node assignments changeID [] started)
        { t with nodeLocks, answers := t.answers ++ [.ok message] }
        (some (.monitorAdd node assignments changeID [] 0))
  | bootstrapped {node assignments changeID completed attempt hintStore} :
      Turned hash env t (.monitorAdd node assignments changeID completed attempt)
        { t with
          hintStore
          bootstrapped := Function.update t.bootstrapped node.nodeID true
          hashRing := t.hashRing.addNode hash node.nodeID node.virtualNodes }
        (some (.setNormal node (assignments.map Prod.fst) changeID))
  /-- The streams have completed, but the hints could not be replayed. -/
  | hintsFailed {node assignments changeID completed attempt err replay} :
      HintReplayService.replayHintsForNode t.hintStore node.nodeID env.hintCountError
        env.hintRounds = some (.error err, replay) →
      Turned hash env t (.monitorAdd node assignments changeID completed attempt)
        { t with
          hintStore := replay.store
          bootstrapped := Function.update t.bootstrapped node.nodeID true }
        (some (.finish node.nodeID (NodeHandlerV2.rollbackNodeAddition node.nodeID
          (assignments.map Prod.fst) changeID)))
  | waitAdd {node assignments changeID completed completed' attempt} :
      Turned hash env t (.monitorAdd node assignments changeID completed attempt) t
        (some (.monitorAdd node assignments changeID completed' (attempt + 1)))
  | giveUpAdd {node assignments changeID completed attempt} :
      Turned hash env t (.monitorAdd node assignments changeID completed attempt) t
        (some (.finish node.nodeID (NodeHandlerV2.rollbackNodeAddition node.nodeID
          (assignments.map Prod.fst) changeID)))
  | setNormal {node sourceNodes changeID metadataStore} :
      t.metadataStore.updateNodeState node.nodeID .normal = .ok metadataStore →
      Turned hash env t (.setNormal node sourceNodes changeID) { t with metadataStore }
        (some (.finish node.nodeID
          (NodeHandlerV2.afterNormal node.nodeID sourceNodes changeID)))
  | lockRemove {nodeID force nodeLocks} :
      Turned hash env t (.lockRemove nodeID force) { t with nodeLocks }
        (some (.findNode nodeID force))
  | findNode {nodeID force node} : node.nodeID = nodeID →
      Turned hash env t (.findNode nodeID force) t (some (.countNodes node force))
  | countNodes {node force} :
      (force = false → NodeHandlerV2.minNodesRequired ≤ (t.activeNodeCount : Int) - 1) →
      Turned hash env t (.countNodes node force) t (some (.setDraining node))
  | setDraining {node metadataStore} :
      t.metadataStore.updateStorageNodeStatus node.nodeID "draining" = .ok metadataStore →
      Turned hash env t (.setDraining node) { t with metadataStore } (some (.setLeaving node))
  | setLeaving {node metadataStore} :
      t.metadataStore.updateNodeState node.nodeID .leaving = .ok metadataStore →
      Turned hash env t (.setLeaving node) { t with metadataStore } (some (.planRemove node))
  | planRemove {node assignments metadataStore} :
      assignments = env.assignmentsOrder.visit (KeyRangeService.calculateKeyRangesForRemovedNode
        hash env.countsOrder t.hashRing node).toPairs →
      t.metadataStore.updateNodeRanges node.nodeID []
        (Assignments.leavingRanges node.nodeID assignments) = .ok metadataStore →
      Turned hash env t (.planRemove node) { t with metadataStore }
        (some (.markInheritors node assignments assignments))
  | markInheritor {node assignments rest pair metadataStore} :
      env.db (t.metadataStore.updateNodeRanges pair.1
        (Assignments.inheritedRanges node.nodeID pair.1 pair.2) []) = .ok metadataStore →
      Turned hash env t (.markInheritors node assignments (pair :: rest)) { t with metadataStore }
        (some (.markInheritors node assignments rest))
  /-- The inheriting node could not be told, which is only logged. -/
  | markFailed {node assignments rest pair err} :
      env.db (t.metadataStore.updateNodeRanges pair.1
        (Assignments.inheritedRanges node.nodeID pair.1 pair.2) []) = .error err →
      Turned hash env t (.markInheritors node assignments (pair :: rest)) t
        (some (.markInheritors node assignments rest))
  | marked {node assignments} :
      Turned hash env t (.markInheritors node assignments []) t
        (some (.recordRemove node assignments))
  | recordRemove {node assignments metadataStore} :
      t.metadataStore.addPendingChange (newChange env .decommission
        (changeIDFor env "decommission" node.nodeID) node.nodeID
        (assignments.map Prod.fst ++ [node.nodeID]) assignments) = .ok metadataStore →
      Turned hash env t (.recordRemove node assignments) { t with metadataStore }
        (some (.startRemove node assignments (changeIDFor env "decommission" node.nodeID)
          assignments 0))
  | startRemove {node assignments rest changeID pair started started' streaming} :
      t.StreamsAfterStart node.nodeID pair.1 pair.2 streaming →
      Turned hash env t (.startRemove node assignments changeID (pair :: rest) started)
        { t with streaming } (some (.startRemove node assignments changeID rest started'))
  | answerRemove {node assignments changeID message started nodeLocks} :
      Turned hash env t (.startRemove node assignments changeID [] started)
        { t with nodeLocks, answers := t.answers ++ [.ok message] }
        (some (.monitorRemove node assignments changeID [] 0))
  | decommissioned {node assignments changeID completed attempt} :
      Turned hash env t (.monitorRemove node assignments changeID completed attempt)
        { t with
          hashRing := t.hashRing.removeNode node.nodeID
          decommissioned := Function.update t.decommissioned node.nodeID true }
        (some (.finish node.nodeID (NodeHandlerV2.afterRemoval node.nodeID
          (assignments.map Prod.fst) changeID)))
  | waitRemove {node assignments changeID completed completed' attempt} :
      Turned hash env t (.monitorRemove node assignments changeID completed attempt) t
        (some (.monitorRemove node assignments changeID completed' (attempt + 1)))
  | giveUpRemove {node assignments changeID completed attempt} :
      Turned hash env t (.monitorRemove node assignments changeID completed attempt) t
        (some (.finish node.nodeID (NodeHandlerV2.rollbackNodeRemoval node.nodeID
          (assignments.map Prod.fst) changeID)))
  | statement {nodeID statement fatal rest metadataStore} :
      statement.exec env.now t.metadataStore = .ok metadataStore →
      Turned hash env t (.finish nodeID (.statement statement fatal :: rest))
        { t with metadataStore } (some (.finish nodeID rest))
  | stopStreaming {nodeID source target lookUp rest} :
      Turned hash env t (.finish nodeID (.stopStreaming source target lookUp :: rest))
        { t with
          streaming := Function.update t.streaming source
            ((t.streaming source).stopStreaming target) } (some (.finish nodeID rest))
  /-- The chore has failed, and the work goes on. -/
  | skipChore {nodeID chore rest} :
      Turned hash env t (.finish nodeID (chore :: rest)) t (some (.finish nodeID rest))
  | fetchNodes : Turned hash env t .fetchNodes t
      (some (.rebuildRing t.metadataStore.listStorageNodes))
  | rebuildRing {nodes} : Turned hash env t (.rebuildRing nodes)
      { t with hashRing := RoutingService.rebuild hash t.hashRing nodes } none
  | executing {source ref sm} :
      (t.streaming source).execute ref env.streamFails = some sm →
      Turned hash env t (.executing source ref)
        { t with streaming := Function.update t.streaming source sm } none

variable {t t' : Topology} {env : TopologyEnv} {hash : String → UInt64} {phase : TopologyPhase}
  {next : Option TopologyPhase}

theorem nodeID_of_getStorageNode {nodeID : String} {node : StorageNode}
    (h : t.getStorageNode env nodeID = some node) : node.nodeID = nodeID := by
  unfold getStorageNode at h
  split at h
  · cases h
  · simpa using List.find?_some h

/-- The inheriting nodes of a removal are distinct, and the departing node is not among them. -/
theorem assignments_removed {node : StorageNode} {assignments : Assignments}
    (h : assignments = env.assignmentsOrder.visit (KeyRangeService.calculateKeyRangesForRemovedNode
      hash env.countsOrder t.hashRing node).toPairs) :
    (assignments.map Prod.fst).Nodup ∧ node.nodeID ∉ assignments.map Prod.fst := by
  rw [h]
  constructor
  · refine ((env.assignmentsOrder.perm _).map Prod.fst).nodup_iff.mpr ?_
    exact Map.toPairs_nodup _
  · rw [((env.assignmentsOrder.perm _).map Prod.fst).mem_iff, ← Map.mem_keys_iff_toPairs,
      ← Map.get?_eq_none_iff]
    exact KeyRangeService.get?_assignAll_none (Or.inr rfl) _ _ _

/-- What `StartStreaming` does to the state. -/
theorem startStreaming_eq (t : Topology) (fate : RpcFate) (source target : String)
    (ranges : List KeyRange) :
    ∃ streaming, (t.startStreaming fate source target ranges).1 = { t with streaming } ∧
      t.StreamsAfterStart source target ranges streaming := by
  cases fate with
  | requestLost => exact ⟨_, rfl, Or.inl rfl⟩
  | answered | responseLost => exact ⟨_, rfl, Or.inr rfl⟩

theorem turned_of_turnAdd (h : t.turnAdd hash env phase = some (t', next)) :
    Turned hash env t phase t' next := by
  cases phase with
  | lockAdd req =>
    simp only [turnAdd] at h
    split at h
    · cases h
    · split at h <;> cases h
      · exact .refused rfl
      · exact .lockAdd
  | insertNode req =>
    simp only [turnAdd] at h
    split at h <;> cases h
    · exact .refused rfl
    · next hstore => exact .insertNode (TopologyEnv.db_eq_ok hstore)
  | planAdd node =>
    simp only [turnAdd] at h
    split at h <;> cases h
    · exact .refused rfl
    · next hstore => exact .planAdd rfl (TopologyEnv.db_eq_ok hstore)
  | recordAdd node assignments =>
    simp only [turnAdd] at h
    split at h <;> cases h
    · exact .refused rfl
    · next hstore => exact .recordAdd (TopologyEnv.db_eq_ok hstore)
  | startAdd node assignments changeID rest started =>
    cases rest with
    | nil =>
      cases h
      exact .answerAdd
    | cons pair rest =>
      simp only [turnAdd] at h
      split at h <;> cases h
      · exact .startAdd (Or.inl rfl)
      · obtain ⟨streaming, heq, hstreams⟩ :=
          t.startStreaming_eq (env.rpc pair.1) pair.1 node.nodeID pair.2
        rw [heq]
        exact .startAdd hstreams
  | monitorAdd node assignments changeID completed attempt =>
    simp only [turnAdd] at h
    split at h
    · split at h <;> cases h
      · next hreplay => exact .hintsFailed hreplay
      · exact .bootstrapped
    · split at h <;> cases h
      · exact .waitAdd
      · exact .giveUpAdd
  | setNormal node sourceNodes changeID =>
    simp only [turnAdd] at h
    split at h <;> cases h
    · exact .ended rfl
    · next hstore => exact .setNormal (TopologyEnv.db_eq_ok hstore)
  | _ => cases h

theorem turned_of_turnRemove (h : t.turnRemove hash env phase = some (t', next)) :
    Turned hash env t phase t' next := by
  cases phase with
  | lockRemove nodeID force =>
    simp only [turnRemove] at h
    split at h
    · cases h
    · split at h <;> cases h
      · exact .refused rfl
      · exact .lockRemove
  | findNode nodeID force =>
    simp only [turnRemove] at h
    split at h <;> cases h
    · exact .refused rfl
    · next hnode => exact .findNode (nodeID_of_getStorageNode hnode)
  | countNodes node force =>
    simp only [turnRemove] at h
    split at h
    · cases h
      exact .refused rfl
    · split at h <;> cases h
      · exact .refused rfl
      · next hcount =>
        refine .countNodes fun hforce => ?_
        simpa [hforce] using hcount
  | setDraining node =>
    simp only [turnRemove] at h
    split at h <;> cases h
    · exact .refused rfl
    · next hstore => exact .setDraining (TopologyEnv.db_eq_ok hstore)
  | setLeaving node =>
    simp only [turnRemove] at h
    split at h <;> cases h
    · exact .refused rfl
    · next hstore => exact .setLeaving (TopologyEnv.db_eq_ok hstore)
  | planRemove node =>
    simp only [turnRemove] at h
    split at h <;> cases h
    · exact .refused rfl
    · next hstore => exact .planRemove rfl (TopologyEnv.db_eq_ok hstore)
  | markInheritors node assignments rest =>
    cases rest with
    | nil =>
      cases h
      exact .marked
    | cons pair rest =>
      cases h
      cases hstore : env.db (t.metadataStore.updateNodeRanges pair.1
          (Assignments.inheritedRanges node.nodeID pair.1 pair.2) []) with
      | error err => exact .markFailed hstore
      | ok store => exact .markInheritor hstore
  | recordRemove node assignments =>
    simp only [turnRemove] at h
    split at h <;> cases h
    · exact .refused rfl
    · next hstore => exact .recordRemove (TopologyEnv.db_eq_ok hstore)
  | startRemove node assignments changeID rest started =>
    cases rest with
    | nil =>
      cases h
      exact .answerRemove
    | cons pair rest =>
      simp only [turnRemove] at h
      split at h <;> cases h
      · exact .startRemove (Or.inl rfl)
      · obtain ⟨streaming, heq, hstreams⟩ :=
          t.startStreaming_eq (env.rpc pair.1) node.nodeID pair.1 pair.2
        rw [heq]
        exact .startRemove hstreams
  | monitorRemove node assignments changeID completed attempt =>
    simp only [turnRemove] at h
    split at h
    · cases h
      exact .decommissioned
    · split at h <;> cases h
      · exact .waitRemove
      · exact .giveUpRemove
  | _ => cases h

theorem turned_of_turnFinish {nodeID : String} {chores : List Chore}
    (h : t.turnFinish env nodeID chores = some (t', next)) :
    Turned hash env t (.finish nodeID chores) t' next := by
  cases chores with
  | nil =>
    cases h
    exact .ended rfl
  | cons chore rest =>
    cases chore with
    | statement statement fatal =>
      simp only [turnFinish] at h
      split at h
      · cases fatal <;> cases h
        · exact .skipChore
        · exact .ended rfl
      · next hstore =>
        cases h
        exact .statement (TopologyEnv.db_eq_ok hstore)
    | stopStreaming source target lookUp =>
      simp only [turnFinish] at h
      split at h <;> cases h
      · exact .skipChore
      · cases env.rpc (if lookUp = true then source else target) with
        | requestLost => exact .skipChore
        | answered | responseLost => exact .stopStreaming

/-- **The inversion of a turn.** -/
theorem turned_of_turn (h : t.turn hash env phase = some (t', next)) :
    Turned hash env t phase t' next := by
  cases phase with
  | lockAdd | insertNode | planAdd | recordAdd | startAdd | monitorAdd | setNormal =>
    exact turned_of_turnAdd (show t.turnAdd hash env _ = _ from h)
  | lockRemove | findNode | countNodes | setDraining | setLeaving | planRemove | markInheritors
  | recordRemove | startRemove | monitorRemove =>
    exact turned_of_turnRemove (show t.turnRemove hash env _ = _ from h)
  | finish nodeID chores => exact turned_of_turnFinish (show t.turnFinish env _ _ = _ from h)
  | fetchNodes =>
    simp only [turn, turnRefresh] at h
    split at h <;> cases h
    · exact .ended rfl
    · exact .fetchNodes
  | rebuildRing nodes =>
    cases h
    exact .rebuildRing
  | executing source ref =>
    obtain ⟨sm, hsm, hpair⟩ := Option.map_eq_some_iff.mp h
    cases hpair
    exact .executing hsm

end Topology

end PairDB.Coordinator
