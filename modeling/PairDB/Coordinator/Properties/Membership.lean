import PairDB.Coordinator.TopologyTurns

/-!
# Which nodes are on the ring

A node should be on the ring from the end of its bootstrap to the end of its decommission. The
monitors add and remove it there, but a refresh rebuilds the ring from the status column, which is
`active` as soon as a node is stored and `draining` as soon as it is to leave.

The ring is right if a refresh only meets nodes that are `NORMAL` and active, a change of a node is
only requested when no other change of it is in progress, only nodes that are `NORMAL` are removed,
and the hints of a new node can be read (`ring_follows_lifecycle_of_run`). What a change knows about
its node is a matter of its phase (`Expects`), and no other change touches the node.
-/

namespace PairDB.Coordinator

open Infra

/-- What there is to say about one node. -/
structure NodeView where
  state : Option NodeState
  onRing : Bool
  bootstrapped : Bool
  decommissioned : Bool
  deriving DecidableEq, Repr

/-- The node is where it should be. -/
structure NodeView.Ok (v : NodeView) : Prop where
  onRing_iff : v.onRing = true ↔ v.bootstrapped = true ∧ v.decommissioned = false
  stored : v.onRing = true → v.state ≠ none
  normal : v.state = some .normal → v.onRing = true
  leaving : v.state = some .leaving → v.decommissioned = false → v.onRing = true

namespace Topology

variable {t t' : Topology} {env : TopologyEnv} {hash : String → UInt64}

def view (t : Topology) (nodeID : String) : NodeView where
  state := t.metadataStore.state? nodeID
  onRing := t.hashRing.contains nodeID
  bootstrapped := t.bootstrapped nodeID
  decommissioned := t.decommissioned nodeID

/-- A statement that keeps the states keeps the views. -/
theorem view_withStore {store : MetadataStore}
    (h : ∀ id, store.state? id = t.metadataStore.state? id) (id : String) :
    view { t with metadataStore := store } id = t.view id := by
  simp only [view, h]

end Topology

/-- The table of the hints can be read. -/
def TopologyEnv.ReadsHints (env : TopologyEnv) : Prop :=
  env.hintCountError = none ∧ ∀ round ∈ env.hintRounds, round.getError = none

/-! ## What a phase knows about its node -/

namespace TopologyPhase

/-- The node that the change is about. -/
def nodeID? : TopologyPhase → Option String
  | .lockAdd req | .insertNode req => some req.nodeID
  | .planAdd node | .recordAdd node _ | .startAdd node _ _ _ _ | .monitorAdd node _ _ _ _
  | .setNormal node _ _ => some node.nodeID
  | .lockRemove nodeID _ | .findNode nodeID _ => some nodeID
  | .countNodes node _ | .setDraining node | .setLeaving node | .planRemove node
  | .markInheritors node _ _ | .recordRemove node _ | .startRemove node _ _ _ _
  | .monitorRemove node _ _ _ _ => some node.nodeID
  | .finish nodeID _ => some nodeID
  | .fetchNodes | .rebuildRing _ | .executing _ _ => none

end TopologyPhase

/-- What a chore of a change of the node may do. -/
def Chore.Expects (nodeID : String) (v : NodeView) : Chore → Prop
  | .statement (.updateNodeState id state) _ =>
    id = nodeID ∧ state ≠ .leaving ∧ (state = .normal → v.onRing = true)
  | .statement (.removeStorageNode id) _ => id = nodeID ∧ v.onRing = false
  | .statement (.updateStorageNodeStatus _ _) _ | .statement (.clearNodeRanges _) _
  | .statement (.finishPendingChange _ _ _) _ | .stopStreaming _ _ _ => True

/-- What a change expects of its node. -/
def TopologyPhase.Expects (v : NodeView) : TopologyPhase → Prop
  | .lockAdd _ | .insertNode _ => True
  | .planAdd _ | .recordAdd _ _ | .startAdd _ _ _ _ _ | .monitorAdd _ _ _ _ _ =>
    v.state = some .bootstrapping ∧ v.decommissioned = false
  | .setNormal _ _ _ => v.onRing = true
  | .lockRemove _ _ | .findNode _ _ | .countNodes _ _ | .setDraining _ | .setLeaving _ =>
    v.state ≠ none → v.onRing = true
  | .planRemove _ | .markInheritors _ _ _ | .recordRemove _ _ | .startRemove _ _ _ _ _
  | .monitorRemove _ _ _ _ _ => v.state = some .leaving ∧ v.onRing = true
  | .finish nodeID chores => ∀ chore ∈ chores, chore.Expects nodeID v
  | .fetchNodes | .rebuildRing _ | .executing _ _ => True

namespace NodeHandlerV2

variable {nodeID changeID : String} {nodes : List String} {v : NodeView}

theorem expects_afterNormal :
    ∀ chore ∈ afterNormal nodeID nodes changeID, chore.Expects nodeID v := by
  simp [afterNormal, Chore.Expects, or_imp, forall_and]

theorem expects_rollbackNodeAddition :
    ∀ chore ∈ rollbackNodeAddition nodeID nodes changeID, chore.Expects nodeID v := by
  simp [rollbackNodeAddition, Chore.Expects, or_imp, forall_and]

theorem expects_afterRemoval (h : v.onRing = false) :
    ∀ chore ∈ afterRemoval nodeID nodes changeID, chore.Expects nodeID v := by
  simp [afterRemoval, Chore.Expects, or_imp, forall_and, h]

theorem expects_rollbackNodeRemoval (h : v.onRing = true) :
    ∀ chore ∈ rollbackNodeRemoval nodeID nodes changeID, chore.Expects nodeID v := by
  simp [rollbackNodeRemoval, Chore.Expects, or_imp, forall_and, h]

end NodeHandlerV2

namespace Topology

variable {t t' : Topology} {env : TopologyEnv} {hash : String → UInt64}

/-! ## Turns of a change -/

/-- A turn of a change of the node leaves the other nodes alone, keeps the node where it should be,
and the next phase knows about it what it expects. -/
structure TurnOk (t t' : Topology) (nodeID : String) (next : Option TopologyPhase) : Prop where
  others : ∀ id, id ≠ nodeID → t'.view id = t.view id
  ok : (t'.view nodeID).Ok
  expects : ∀ p ∈ next, p.nodeID? = some nodeID ∧ p.Expects (t'.view nodeID)

/-- A turn that changes nothing that is in view. -/
theorem TurnOk.of_same {nodeID : String} {next : Option TopologyPhase} (hok : (t.view nodeID).Ok)
    (hsame : ∀ id, t'.view id = t.view id)
    (hnext : ∀ p ∈ next, p.nodeID? = some nodeID ∧ p.Expects (t.view nodeID)) :
    TurnOk t t' nodeID next where
  others id _ := hsame id
  ok := by
    rw [hsame]
    exact hok
  expects := by
    rw [hsame]
    exact hnext

/-- What a statement of a change of the node does to the states. -/
theorem turnOk_statement {statement : Statement} {fatal : Bool} {nodeID : String}
    {store : MetadataStore} {next : Option TopologyPhase} (hok : (t.view nodeID).Ok)
    (hexpects : (Chore.statement statement fatal).Expects nodeID (t.view nodeID))
    (hstore : statement.exec env.now t.metadataStore = .ok store)
    (hnext : ∀ v : NodeView, v.onRing = (t.view nodeID).onRing →
      ∀ p ∈ next, p.nodeID? = some nodeID ∧ p.Expects v) :
    TurnOk t { t with metadataStore := store } nodeID next := by
  cases statement with
  | updateNodeState id state =>
    obtain ⟨rfl, hnotLeaving, hnormal⟩ := hexpects
    obtain ⟨hstored, hstate⟩ := MetadataStore.state?_updateNodeState hstore
    refine ⟨fun other hne => ?_, ⟨hok.onRing_iff, fun _ => ?_, fun h => ?_, fun h => ?_⟩,
      hnext _ rfl⟩
    · simp [view, hstate, Ne.symm hne]
    · simp [view, hstate]
    · exact hnormal (by simpa [view, hstate] using h)
    · exact absurd (by simpa [view, hstate] using h) hnotLeaving
  | updateStorageNodeStatus id status =>
    exact .of_same hok (view_withStore (MetadataStore.state?_updateStorageNodeStatus hstore))
      (hnext _ rfl)
  | clearNodeRanges id =>
    exact .of_same hok (view_withStore (MetadataStore.state?_updateNodeRanges hstore))
      (hnext _ rfl)
  | removeStorageNode id =>
    obtain ⟨rfl, hoff⟩ := hexpects
    have hstate := MetadataStore.state?_removeStorageNode hstore
    refine ⟨fun other hne => ?_, ⟨hok.onRing_iff, fun h => ?_, fun h => ?_, fun h => ?_⟩,
      hnext _ rfl⟩
    · simp [view, hstate, Ne.symm hne]
    · exact absurd (hoff.symm.trans h) (by simp)
    · simp [view, hstate] at h
    · simp [view, hstate] at h
  | finishPendingChange changeID status message =>
    refine .of_same hok (view_withStore fun id => ?_) (hnext _ rfl)
    simp only [MetadataStore.state?, storageNodes_finishPendingChange hstore]

/-- A chore only looks at whether the node is on the ring. -/
theorem expects_congr {nodeID : String} {v v' : NodeView} (h : v'.onRing = v.onRing)
    {chore : Chore} (hchore : chore.Expects nodeID v) : chore.Expects nodeID v' := by
  cases chore with
  | stopStreaming source target lookUp => trivial
  | statement statement fatal =>
    cases statement <;> simp_all [Chore.Expects]

/-- A turn of a change. -/
theorem turnOk_turn {phase : TopologyPhase} {nodeID : String} {next : Option TopologyPhase}
    (hid : phase.nodeID? = some nodeID) (hok : (t.view nodeID).Ok)
    (hexpects : phase.Expects (t.view nodeID))
    (hreads : ∀ node assignments changeID completed attempt,
      phase = .monitorAdd node assignments changeID completed attempt → env.ReadsHints)
    (ht : t.turn hash env phase = some (t', next)) : TurnOk t t' nodeID next := by
  cases turned_of_turn ht with
  | refused | ended => exact .of_same hok (fun _ => rfl) (by simp)
  | startAdd | answerAdd | waitAdd | lockRemove | countNodes | markFailed | marked | startRemove
  | answerRemove | waitRemove =>
    cases hid
    refine .of_same hok (fun _ => rfl) ?_
    rintro p ⟨⟩
    exact ⟨rfl, hexpects⟩
  | findNode hnode =>
    cases hid
    refine .of_same hok (fun _ => rfl) ?_
    rintro p ⟨⟩
    exact ⟨congrArg some hnode, hexpects⟩
  | lockAdd =>
    cases hid
    refine .of_same hok (fun _ => rfl) ?_
    rintro p ⟨⟩
    exact ⟨rfl, trivial⟩
  | @insertNode req store hstore =>
    cases hid
    obtain ⟨hnone, hstate⟩ := MetadataStore.state?_addStorageNode hstore
    have hoff : t.hashRing.contains req.nodeID = false := by
      by_contra hon
      exact hok.stored (by simpa [view] using hon) hnone
    refine ⟨fun id hne => ?_, ?_, ?_⟩
    · simp [view, hstate, AddStorageNodeRequest.node, Ne.symm hne, hne]
    · constructor <;> simp [view, hstate, AddStorageNodeRequest.node, hoff]
    · rintro p ⟨⟩
      simp [TopologyPhase.nodeID?, TopologyPhase.Expects, view, hstate,
        AddStorageNodeRequest.node]
  | planAdd _ hstore | planRemove _ hstore =>
    cases hid
    refine .of_same hok (view_withStore (MetadataStore.state?_updateNodeRanges hstore)) ?_
    rintro p ⟨⟩
    exact ⟨rfl, hexpects⟩
  | markInheritor hstore =>
    cases hid
    refine .of_same hok (view_withStore
      (MetadataStore.state?_updateNodeRanges (TopologyEnv.db_eq_ok hstore))) ?_
    rintro p ⟨⟩
    exact ⟨rfl, hexpects⟩
  | recordAdd hstore | recordRemove hstore =>
    cases hid
    refine .of_same hok (view_withStore fun id => ?_) ?_
    · simp only [MetadataStore.state?, MetadataStore.storageNodes_addPendingChange hstore]
    · rintro p ⟨⟩
      exact ⟨rfl, hexpects⟩
  | bootstrapped =>
    cases hid
    refine ⟨fun id hne => ?_, ?_, ?_⟩
    · simp [view, ConsistentHasher.contains_addNode, Ne.symm hne, hne]
    · obtain ⟨hstate, hdecommissioned⟩ := hexpects
      simp only [view] at hstate hdecommissioned
      constructor <;> simp [view, ConsistentHasher.contains_addNode, hstate, hdecommissioned]
    · rintro p ⟨⟩
      simp [TopologyPhase.nodeID?, TopologyPhase.Expects, view, ConsistentHasher.contains_addNode]
  | hintsFailed hreplay =>
    obtain ⟨hcount, hrounds⟩ := hreads _ _ _ _ _ rfl
    rw [hcount] at hreplay
    cases HintReplayService.replayHintsForNode_eq_ok hrounds hreplay
  | giveUpAdd =>
    cases hid
    refine .of_same hok (fun _ => rfl) ?_
    rintro p ⟨⟩
    exact ⟨rfl, NodeHandlerV2.expects_rollbackNodeAddition⟩
  | @setNormal node _ _ _ hstore =>
    cases hid
    obtain ⟨-, hstate⟩ := MetadataStore.state?_updateNodeState hstore
    have hon : t.hashRing.contains node.nodeID = true := hexpects
    have hlife : t.bootstrapped node.nodeID = true ∧ t.decommissioned node.nodeID = false :=
      hok.onRing_iff.mp hon
    refine ⟨fun id hne => ?_, ?_, ?_⟩
    · simp [view, hstate, Ne.symm hne]
    · constructor <;> simp [view, hstate, hon, hlife]
    · rintro p ⟨⟩
      exact ⟨rfl, NodeHandlerV2.expects_afterNormal⟩
  | setDraining hstore =>
    cases hid
    refine .of_same hok (view_withStore
      (MetadataStore.state?_updateStorageNodeStatus hstore)) ?_
    rintro p ⟨⟩
    exact ⟨rfl, hexpects⟩
  | @setLeaving node _ hstore =>
    cases hid
    obtain ⟨hstored, hstate⟩ := MetadataStore.state?_updateNodeState hstore
    have hon : t.hashRing.contains node.nodeID = true := hexpects hstored
    have hlife : t.bootstrapped node.nodeID = true ∧ t.decommissioned node.nodeID = false :=
      hok.onRing_iff.mp hon
    refine ⟨fun id hne => ?_, ?_, ?_⟩
    · simp [view, hstate, Ne.symm hne]
    · constructor <;> simp [view, hstate, hon, hlife]
    · rintro p ⟨⟩
      simp [TopologyPhase.nodeID?, TopologyPhase.Expects, view, hstate, hon]
  | @decommissioned node =>
    cases hid
    have hleaving : t.metadataStore.state? node.nodeID = some .leaving := hexpects.1
    have hoff : (t.hashRing.removeNode node.nodeID).contains node.nodeID = false := by
      simp [ConsistentHasher.contains_removeNode]
    refine ⟨fun id hne => ?_, ?_, ?_⟩
    · simp [view, ConsistentHasher.contains_removeNode, Ne.symm hne, hne]
    · constructor <;> simp [view, hleaving, hoff]
    · rintro p ⟨⟩
      exact ⟨rfl, NodeHandlerV2.expects_afterRemoval hoff⟩
  | giveUpRemove =>
    cases hid
    refine .of_same hok (fun _ => rfl) ?_
    rintro p ⟨⟩
    exact ⟨rfl, NodeHandlerV2.expects_rollbackNodeRemoval hexpects.2⟩
  | statement hstore =>
    cases hid
    refine turnOk_statement hok (hexpects _ List.mem_cons_self) hstore ?_
    rintro v hv p ⟨⟩
    exact ⟨rfl, fun chore hmem => expects_congr hv (hexpects chore (List.mem_cons_of_mem _ hmem))⟩
  | stopStreaming | skipChore =>
    cases hid
    refine .of_same hok (fun _ => rfl) ?_
    rintro p ⟨⟩
    exact ⟨rfl, fun chore hmem => hexpects chore (List.mem_cons_of_mem _ hmem)⟩
  | fetchNodes | rebuildRing | executing => cases hid

/-! ## Turns of a refresh and of a stream -/

/-- Every stored node is `NORMAL` and active. -/
def Settled (t : Topology) : Prop :=
  ∀ p ∈ t.metadataStore.storageNodes.toPairs, p.2.state = .normal ∧ p.2.status = .active

/-- From a current listing of nodes that are all settled, a refresh builds the ring that there is. -/
theorem contains_rebuild_of_settled (hok : ∀ id, (t.view id).Ok) (hsettled : t.Settled)
    (nodeID : String) :
    (RoutingService.rebuild hash t.hashRing t.metadataStore.listStorageNodes).contains nodeID =
      t.hashRing.contains nodeID := by
  rw [Bool.eq_iff_iff, RoutingService.contains_rebuild]
  constructor
  · rintro ⟨node, hnode, rfl⟩
    obtain ⟨id, row, hrow, rfl, -⟩ :=
      MetadataStore.mem_listStorageNodes.mp (List.mem_filter.mp hnode).1
    have hnormal : row.state = .normal :=
      (hsettled (id, row) ((Map.mem_toPairs_iff _ _ _).mpr hrow)).1
    exact (hok id).normal (by simp [view, MetadataStore.state?, hrow, hnormal])
  · intro hon
    have hstored : t.metadataStore.state? nodeID ≠ none := (hok nodeID).stored hon
    cases hrow : t.metadataStore.storageNodes.get? nodeID with
    | none => exact absurd (by simp [MetadataStore.state?, hrow]) hstored
    | some row =>
      have hactive : row.status = .active :=
        (hsettled (nodeID, row) ((Map.mem_toPairs_iff _ _ _).mpr hrow)).2
      refine ⟨row.storageNode nodeID, List.mem_filter.mpr ⟨?_, ?_⟩, rfl⟩
      · refine MetadataStore.mem_listStorageNodes.mpr ⟨nodeID, row, hrow, rfl, ?_⟩
        simp [NodeRow.storageNode, hactive]
      · simp [NodeRow.storageNode, hactive]

/-- A turn that is not one of a change. The other calls in progress see the same nodes. -/
theorem view_turn_of_none {phase : TopologyPhase} {next : Option TopologyPhase}
    (hid : phase.nodeID? = none) (hok : ∀ id, (t.view id).Ok)
    (hcurrent : ∀ nodes, phase = .rebuildRing nodes →
      nodes = t.metadataStore.listStorageNodes ∧ t.Settled)
    (ht : t.turn hash env phase = some (t', next)) :
    (∀ id, t'.view id = t.view id) ∧ ∀ p ∈ next, p.nodeID? = none := by
  cases turned_of_turn ht with
  | refused | ended => exact ⟨fun _ => rfl, by simp⟩
  | fetchNodes =>
    refine ⟨fun _ => rfl, ?_⟩
    rintro p ⟨⟩
    rfl
  | @rebuildRing nodes =>
    obtain ⟨rfl, hsettled⟩ := hcurrent nodes rfl
    refine ⟨fun id => ?_, by simp⟩
    simp only [view, contains_rebuild_of_settled hok hsettled]
  | executing => exact ⟨fun _ => rfl, by simp⟩
  | _ => cases hid

/-! ## Runs -/

/-- The invariant. A node has at most one change in progress. -/
structure Invariant (t : Topology) (phases : List TopologyPhase) : Prop where
  ok : ∀ id, (t.view id).Ok
  expects : ∀ p ∈ phases, ∀ id, p.nodeID? = some id → p.Expects (t.view id)
  nodup : (phases.filterMap TopologyPhase.nodeID?).Nodup

theorem Invariant.perm {phases phases' : List TopologyPhase} (hI : Invariant t phases)
    (hp : phases.Perm phases') : Invariant t phases' where
  ok := hI.ok
  expects p hmem := hI.expects p (hp.mem_iff.mpr hmem)
  nodup := (hp.filterMap _).nodup_iff.mp hI.nodup

/-- What a turn should find: a refresh meets settled nodes, as it has listed them, and the hints of
a new node can be read. -/
def OrderlyTurn (t : Topology) (env : TopologyEnv) : TopologyPhase → Prop
  | .monitorAdd _ _ _ _ _ => env.ReadsHints
  | .rebuildRing nodes => nodes = t.metadataStore.listStorageNodes ∧ t.Settled
  | _ => True

/-- The condition on a step. No other change of the node is in progress when one is requested, and a
node that is to be removed is `NORMAL`, if it is stored at all. -/
def Orderly (s : System) : Turn → Prop
  | .start _ _ (.addStorageNodeV2 req) =>
    req.nodeID ∉ s.phases.filterMap TopologyPhase.nodeID?
  | .start _ _ (.removeStorageNodeV2 nodeID _) =>
    nodeID ∉ s.phases.filterMap TopologyPhase.nodeID? ∧
      ∀ state ∈ s.state.metadataStore.state? nodeID, state = .normal
  | .start _ _ .updateHashRing | .start _ _ (.executeStreaming _ _) => True
  | .advance id env => ∀ phase ∈ s.phase? id, s.state.OrderlyTurn env phase

/-- **A turn keeps the invariant.** -/
theorem invariant_turn {phase : TopologyPhase} {rest : List TopologyPhase}
    {next : Option TopologyPhase} (hI : Invariant t (phase :: rest))
    (horderly : t.OrderlyTurn env phase) (ht : t.turn hash env phase = some (t', next)) :
    Invariant t' (next.toList ++ rest) := by
  cases hid : phase.nodeID? with
  | none =>
    obtain ⟨hsame, hnext⟩ := view_turn_of_none hid hI.ok
      (fun nodes heq => by rw [heq] at horderly; exact horderly) ht
    refine ⟨fun id => ?_, fun p hmem id hp => ?_, ?_⟩
    · rw [hsame]
      exact hI.ok id
    · rcases List.mem_append.mp hmem with hmem | hmem
      · rw [hnext p (Option.mem_toList.mp hmem)] at hp
        cases hp
      · rw [hsame]
        exact hI.expects p (List.mem_cons_of_mem _ hmem) id hp
    · have hnodup := hI.nodup
      rw [List.filterMap_cons_none hid] at hnodup
      cases next with
      | none => exact hnodup
      | some p => simpa [List.filterMap_cons_none (hnext p rfl)] using hnodup
  | some nodeID =>
    have hturn := turnOk_turn hid (hI.ok nodeID)
      (hI.expects phase List.mem_cons_self nodeID hid)
      (fun _ _ _ _ _ heq => by rw [heq] at horderly; exact horderly) ht
    have hnodup := hI.nodup
    rw [List.filterMap_cons_some hid, List.nodup_cons] at hnodup
    refine ⟨fun id => ?_, fun p hmem id hp => ?_, ?_⟩
    · by_cases heq : id = nodeID
      · rw [heq]
        exact hturn.ok
      · rw [hturn.others id heq]
        exact hI.ok id
    · rcases List.mem_append.mp hmem with hmem | hmem
      · obtain ⟨hpid, hexpects⟩ := hturn.expects p (Option.mem_toList.mp hmem)
        rw [hpid, Option.some.injEq] at hp
        rw [← hp]
        exact hexpects
      · -- the other changes are about other nodes
        have hne : id ≠ nodeID := by
          rintro rfl
          exact hnodup.1 (List.mem_filterMap.mpr ⟨p, hmem, hp⟩)
        rw [hturn.others id hne]
        exact hI.expects p (List.mem_cons_of_mem _ hmem) id hp
    · cases next with
      | none => exact hnodup.2
      | some p =>
        rw [Option.toList_some, List.singleton_append,
          List.filterMap_cons_some (hturn.expects p rfl).1]
        exact List.nodup_cons.mpr hnodup

/-- A change that begins knows what it expects. -/
theorem Invariant.begin {s : System} {id : Nat} {env : TopologyEnv} {request : TopologyRequest}
    (hI : Invariant s.state s.phases) (horderly : Orderly s (.start id env request)) :
    Invariant s.state (s.phases ++ (enter env request).toList) := by
  have hadd : ∀ p, enter env request = some p →
      (∀ nodeID, p.nodeID? = some nodeID → p.Expects (s.state.view nodeID)) ∧
        ∀ nodeID, p.nodeID? = some nodeID → nodeID ∉ s.phases.filterMap TopologyPhase.nodeID? := by
    cases request with
    | addStorageNodeV2 req =>
      rintro p ⟨⟩
      refine ⟨fun _ _ => trivial, ?_⟩
      rintro nodeID ⟨⟩
      exact horderly
    | removeStorageNodeV2 nodeID force =>
      rintro p ⟨⟩
      refine ⟨?_, ?_⟩
      · rintro nodeID' ⟨⟩ hstored
        obtain ⟨state, hstate⟩ := Option.ne_none_iff_exists'.mp hstored
        have hnormal := horderly.2 state hstate
        exact (hI.ok nodeID).normal (hnormal ▸ hstate)
      · rintro nodeID' ⟨⟩
        exact horderly.1
    | updateHashRing =>
      rintro p ⟨⟩
      exact ⟨fun _ h => (by cases h), fun _ h => (by cases h)⟩
    | executeStreaming source ref =>
      rintro p ⟨⟩
      exact ⟨fun _ h => (by cases h), fun _ h => (by cases h)⟩
  cases hp : enter env request with
  | none => simpa using hI
  | some p =>
    obtain ⟨hexpects, hnew⟩ := hadd p hp
    suffices hcons : Invariant s.state (p :: s.phases) from
      hcons.perm (List.perm_append_singleton p s.phases).symm
    refine ⟨hI.ok, ?_, ?_⟩
    · intro q hmem nodeID hq
      rcases List.mem_cons.mp hmem with rfl | hmem
      · exact hexpects nodeID hq
      · exact hI.expects q hmem nodeID hq
    · cases hid : p.nodeID? with
      | none =>
        rw [List.filterMap_cons_none hid]
        exact hI.nodup
      | some nodeID =>
        rw [List.filterMap_cons_some hid]
        exact List.nodup_cons.mpr ⟨hnew nodeID hid, hI.nodup⟩

theorem invariant_step {s s' : System} {turn : Turn} (hI : Invariant s.state s.phases)
    (horderly : Orderly s turn) (hstep : step hash s turn = some s') :
    Invariant s'.state s'.phases := by
  cases turn with
  | start id env request =>
    obtain ⟨hstate, hphases⟩ := Concurrent.step_start hstep
    rw [hstate, hphases]
    exact hI.begin horderly
  | advance id env =>
    obtain ⟨phase, next, rest, hphase, hturn, hbefore, hafter⟩ :=
      Concurrent.step_advance_perm hstep
    exact (invariant_turn (hI.perm hbefore) (horderly phase hphase) hturn).perm hafter.symm

theorem invariant_init : Invariant init [] where
  ok id := by constructor <;> simp [view, init, MetadataStore.empty, MetadataStore.state?,
    Map.get?_empty]
  expects := by simp
  nodup := List.nodup_nil

/-- **When the ring follows the life of the nodes.** In every interleaving in which every refresh
rebuilds the ring from a current listing of nodes that are all `NORMAL` and active, a change of a
node is requested only while no other change of it is in progress, only `NORMAL` nodes are removed
and the hints of new nodes can be read, a node is on the ring if and only if its bootstrap has
completed and its decommission has not. A node is not on it while it bootstraps, and a node that is
`LEAVING` is. -/
theorem ring_follows_lifecycle_of_run {turns : List Turn} {s : System}
    (hall : AllSteps (step hash) Orderly (.quiet init) turns)
    (hrun : run (step hash) (.quiet init) turns = some s) (nodeID : String) :
    (s.state.hashRing.contains nodeID = true ↔
      s.state.bootstrapped nodeID = true ∧ s.state.decommissioned nodeID = false) ∧
    (s.state.metadataStore.state? nodeID = some .bootstrapping →
      s.state.bootstrapped nodeID = false → s.state.hashRing.contains nodeID = false) ∧
    (s.state.metadataStore.state? nodeID = some .leaving →
      s.state.decommissioned nodeID = false → s.state.hashRing.contains nodeID = true) := by
  have hI : Invariant s.state s.phases :=
    run_invariant (I := fun s : System => Invariant s.state s.phases)
      (fun _ _ _ => invariant_step) invariant_init hall hrun
  have hok := hI.ok nodeID
  refine ⟨hok.onRing_iff, fun _ hnot => ?_, hok.leaving⟩
  by_contra hoff
  have hon : s.state.hashRing.contains nodeID = true := by simpa using hoff
  have hboot : s.state.bootstrapped nodeID = true := (hok.onRing_iff.mp hon).1
  rw [hnot] at hboot
  cases hboot

instance (env : TopologyEnv) : Decidable env.ReadsHints :=
  inferInstanceAs (Decidable (_ ∧ _))

instance (t : Topology) : Decidable t.Settled :=
  inferInstanceAs (Decidable (∀ _ ∈ _, _))

instance (t : Topology) (env : TopologyEnv) (phase : TopologyPhase) :
    Decidable (t.OrderlyTurn env phase) :=
  match phase with
  | .monitorAdd _ _ _ _ _ => inferInstanceAs (Decidable env.ReadsHints)
  | .rebuildRing _ => inferInstanceAs (Decidable (_ ∧ _))
  | .lockAdd _ | .insertNode _ | .planAdd _ | .recordAdd _ _ | .startAdd _ _ _ _ _
  | .setNormal _ _ _ | .lockRemove _ _ | .findNode _ _ | .countNodes _ _ | .setDraining _
  | .setLeaving _ | .planRemove _ | .markInheritors _ _ _ | .recordRemove _ _
  | .startRemove _ _ _ _ _ | .monitorRemove _ _ _ _ _ | .finish _ _ | .fetchNodes
  | .executing _ _ => inferInstanceAs (Decidable True)

instance (s : System) (turn : Turn) : Decidable (Orderly s turn) :=
  match turn with
  | .start _ _ (.addStorageNodeV2 _) => inferInstanceAs (Decidable (_ ∉ _))
  | .start _ _ (.removeStorageNodeV2 _ _) => inferInstanceAs (Decidable (_ ∧ ∀ _ ∈ _, _))
  | .start _ _ .updateHashRing | .start _ _ (.executeStreaming _ _) =>
    inferInstanceAs (Decidable True)
  | .advance _ _ => inferInstanceAs (Decidable (∀ _ ∈ _, _))

end Topology

namespace Sample

/-- A point of the ring is the first letter of its virtual node. -/
def firstLetter (s : String) : UInt64 := ((s.toList.headD 'a').toNat).toUInt64

/-- The database and the storage nodes can be reached. -/
def calm : TopologyEnv where
  now := 0
  dbError := none
  countsOrder := .asHeld _
  assignmentsOrder := .asHeld _
  rpc := fun _ => .answered
  streamFails := false
  hintCountError := none
  hintRounds := []

/-- A call and its turns. -/
def callOf (id turns : Nat) (request : TopologyRequest) : List Topology.Turn :=
  .start id calm request :: List.replicate turns (.advance id calm)

/-- The cluster has one node. -/
def oneNode : Topology :=
  { Topology.init with
    metadataStore := ⟨Map.ofList [("m", ⟨"host", 1, .active, .normal, 1, [], []⟩)], ∅⟩
    hashRing := ConsistentHasher.new.addNode firstLetter "m" 1 }

def joining : AddStorageNodeRequest := ⟨"n", "host", 1, 1⟩

/-- The addition of the first node, to the end of its monitor. -/
def addFirst (id : Nat) (nodeID : String) : List Topology.Turn :=
  callOf id 11 (.addStorageNodeV2 ⟨nodeID, "host", 1, 1⟩)

/-- The node `m` joins, the ring is refreshed, and `m` is to leave. -/
def firstLeaves : List Topology.Turn :=
  addFirst 0 "m" ++ callOf 1 2 .updateHashRing ++ callOf 2 8 (.removeStorageNodeV2 "m" true)

/-- The ring is refreshed while `n` bootstraps. -/
def refreshedWhileBootstrapping : List Topology.Turn :=
  addFirst 0 "m" ++ callOf 1 6 (.addStorageNodeV2 ⟨"n", "host", 1, 1⟩) ++ callOf 2 2 .updateHashRing

/-- The ring is refreshed while `m` is to leave. -/
def refreshedWhileLeaving : List Topology.Turn :=
  refreshedWhileBootstrapping ++ callOf 3 8 (.removeStorageNodeV2 "m" true) ++
    callOf 4 2 .updateHashRing

end Sample

open Sample in
theorem ring_follows_lifecycle_firstLeaves :
    ∃ s, run (Topology.step firstLetter) (.quiet Topology.init) firstLeaves = some s ∧
      s.state.metadataStore.state? "m" = some .leaving ∧ s.state.hashRing.contains "m" = true := by
  have hrun : (run (Topology.step firstLetter) (.quiet Topology.init) firstLeaves).map (fun s =>
      decide (s.state.metadataStore.state? "m" = some .leaving ∧
        s.state.decommissioned "m" = false)) = some true := by
    decide +kernel
  have hall : AllSteps (Topology.step firstLetter) Topology.Orderly (.quiet Topology.init)
      firstLeaves := by
    decide +kernel
  obtain ⟨s, hs, hdec⟩ := Option.map_eq_some_iff.mp hrun
  obtain ⟨hleaving, hnot⟩ := of_decide_eq_true hdec
  exact ⟨s, hs, hleaving,
    (Topology.ring_follows_lifecycle_of_run hall hs "m").2.2 hleaving hnot⟩

open Sample in
/-- A node is on the ring before its bootstrap has completed. And a node is not on the ring any more
before its decommission has. -/
theorem refresh_breaks_lifecycle :
    (∃ s, run (Topology.step firstLetter) (.quiet Topology.init) refreshedWhileBootstrapping =
        some s ∧ s.state.metadataStore.state? "n" = some .bootstrapping ∧
      s.state.bootstrapped "n" = false ∧ s.state.hashRing.contains "n" = true) ∧
    (∃ s, run (Topology.step firstLetter) (.quiet Topology.init) refreshedWhileLeaving = some s ∧
      s.state.metadataStore.state? "m" = some .leaving ∧ s.state.bootstrapped "m" = true ∧
      s.state.decommissioned "m" = false ∧ s.state.hashRing.contains "m" = false) := by
  have hfirst : (run (Topology.step firstLetter) (.quiet Topology.init)
      refreshedWhileBootstrapping).map (fun s =>
        decide (s.state.metadataStore.state? "n" = some .bootstrapping ∧
          s.state.bootstrapped "n" = false ∧ s.state.hashRing.contains "n" = true)) = some true := by
    decide +kernel
  have hsecond : (run (Topology.step firstLetter) (.quiet Topology.init)
      refreshedWhileLeaving).map (fun s =>
        decide (s.state.metadataStore.state? "m" = some .leaving ∧
          s.state.bootstrapped "m" = true ∧ s.state.decommissioned "m" = false ∧
          s.state.hashRing.contains "m" = false)) = some true := by
    decide +kernel
  obtain ⟨s, hs, hdec⟩ := Option.map_eq_some_iff.mp hfirst
  obtain ⟨s', hs', hdec'⟩ := Option.map_eq_some_iff.mp hsecond
  exact ⟨⟨s, hs, of_decide_eq_true hdec⟩, ⟨s', hs', of_decide_eq_true hdec'⟩⟩

end PairDB.Coordinator
