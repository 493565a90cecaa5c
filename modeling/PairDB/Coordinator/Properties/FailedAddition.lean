import PairDB.Coordinator.Properties.Membership

/-!
# What is left of a failed addition

`rollbackNodeAddition` marks the node as failed, which the table does not accept, and sets its state
to `DOWN`. So the row stays `active`, the next refresh puts the node on the ring, and replica
selection skips it there.

After a rollback the cluster is as before if and only if the next refresh cannot list the nodes, so
that it leaves the ring alone, and the node was not on the ring (`rollback_routable_iff`).
-/

namespace PairDB.Coordinator

open Infra

namespace TopologyPhase

/-- A stream goes on. -/
def isStream : TopologyPhase → Bool
  | .executing _ _ => true
  | _ => false

theorem isStream_iff {p : TopologyPhase} :
    p.isStream = true ↔ ∃ source ref, p = .executing source ref := by
  cases p <;> simp [isStream]

end TopologyPhase

/-- What `rollbackNodeAddition` does at most. -/
def Chore.OfRollback (nodeID : String) : Chore → Prop
  | .statement (.updateStorageNodeStatus id status) _ => id = nodeID ∧ status = "failed"
  | .statement (.updateNodeState id _) _ | .statement (.clearNodeRanges id) _ => id = nodeID
  | .statement (.finishPendingChange _ _ _) _ | .stopStreaming _ _ _ => True
  | .statement (.removeStorageNode _) _ => False

theorem NodeHandlerV2.ofRollback_rollbackNodeAddition {nodeID changeID : String}
    {sourceNodes : List String} :
    ∀ chore ∈ rollbackNodeAddition nodeID sourceNodes changeID, chore.OfRollback nodeID := by
  simp [rollbackNodeAddition, Chore.OfRollback, or_imp, forall_and]

namespace Topology

variable {t s s' : Topology} {env : TopologyEnv} {hash : String → UInt64}
  {req : AddStorageNodeRequest} {phase : TopologyPhase} {next : Option TopologyPhase}

/-- The routing service, when the table can be read. -/
def routingService (hash : String → UInt64) (t : Topology) : RoutingService :=
  ⟨hash, t.hashRing, .ok t.metadataStore.listStorageNodes⟩

/-! ## The stages of an addition -/

/-- The node has joined the table, as an active one, and nothing else has changed. -/
structure Inserted (t s : Topology) (nodeID : String) : Prop where
  absent : t.metadataStore.storageNodes.get? nodeID = none
  active : ∃ row, s.metadataStore.storageNodes.get? nodeID = some row ∧ row.status = .active
  others : ∀ id, id ≠ nodeID →
    s.metadataStore.storageNodes.get? id = t.metadataStore.storageNodes.get? id
  ring : s.hashRing = t.hashRing

/-- An update of the row that keeps its status. -/
theorem Inserted.updateRow {nodeID : String} {update : NodeRow → NodeRow} {store : MetadataStore}
    (h : Inserted t s nodeID) (hstore : s.metadataStore.updateRow nodeID update = .ok store)
    (hstatus : ∀ row, (update row).status = row.status) :
    Inserted t { s with metadataStore := store } nodeID := by
  obtain ⟨row, hrow, hactive⟩ := h.active
  obtain ⟨-, row', hrow', hget⟩ := MetadataStore.get?_updateRow hstore
  rw [hrow, Option.some.injEq] at hrow'
  subst hrow'
  refine ⟨h.absent, ⟨update row, ?_, (hstatus row).trans hactive⟩, fun id hne => ?_, h.ring⟩
  · simp [hget]
  · simp only [hget, if_neg (Ne.symm hne)]
    exact h.others id hne

/-- A statement that leaves the nodes alone. -/
theorem Inserted.congr {nodeID : String} (h : Inserted t s nodeID)
    (hstore : s'.metadataStore.storageNodes = s.metadataStore.storageNodes)
    (hring : s'.hashRing = s.hashRing) : Inserted t s' nodeID where
  absent := h.absent
  active := by rw [hstore]; exact h.active
  others := by rw [hstore]; exact h.others
  ring := hring.trans h.ring

/-- How far the addition has got, in a state `s` that began as `t`. -/
def AddStage (t : Topology) (req : AddStorageNodeRequest) (s : Topology) : TopologyPhase → Prop
  | .lockAdd r | .insertNode r =>
    r = req ∧ s.metadataStore = t.metadataStore ∧ s.hashRing = t.hashRing
  | .planAdd node | .recordAdd node _ | .startAdd node _ _ _ _ | .monitorAdd node _ _ _ _ =>
    node = req.node ∧ Inserted t s req.nodeID
  -- a rollback, unless the node has become `NORMAL`
  | .finish nodeID chores =>
    .statement (.updateStorageNodeStatus req.nodeID "failed") false ∈ chores →
      nodeID = req.nodeID ∧ (∀ chore ∈ chores, chore.OfRollback req.nodeID) ∧
        Inserted t s req.nodeID
  | .setNormal _ _ _ | .executing _ _ => True
  | _ => False

/-- The statements of a rollback leave the row active. -/
theorem inserted_exec {nodeID : String} {statement : Statement} {fatal : Bool}
    {store : MetadataStore} (h : Inserted t s nodeID)
    (hchore : (Chore.statement statement fatal).OfRollback nodeID)
    (hstore : statement.exec env.now s.metadataStore = .ok store) :
    Inserted t { s with metadataStore := store } nodeID := by
  cases statement with
  | updateNodeState id state =>
    obtain rfl : id = nodeID := hchore
    exact h.updateRow hstore fun _ => rfl
  | updateStorageNodeStatus id status =>
    -- the constraint of the table
    obtain ⟨-, rfl⟩ := hchore
    simp only [Statement.exec, MetadataStore.updateStorageNodeStatus] at hstore
    rw [show MetadataStore.storedStatus? "failed" = none by decide] at hstore
    simp only at hstore
    split at hstore <;> cases hstore
  | clearNodeRanges id =>
    obtain rfl : id = nodeID := hchore
    exact h.updateRow hstore fun _ => rfl
  | removeStorageNode id => exact hchore.elim
  | finishPendingChange changeID status message =>
    exact h.congr (storageNodes_finishPendingChange hstore) rfl

/-- A turn of a rollback. -/
theorem inserted_turn_finish {nodeID : String} {chores : List Chore} (h : Inserted t s nodeID)
    (hchores : ∀ chore ∈ chores, chore.OfRollback nodeID)
    (ht : s.turn hash env (.finish nodeID chores) = some (s', next)) :
    Inserted t s' nodeID ∧ ∀ p ∈ next, ∃ rest, p = .finish nodeID rest ∧
      (∀ chore ∈ rest, chore.OfRollback nodeID) := by
  cases turned_of_turn ht with
  | refused hphase => cases hphase
  | ended => exact ⟨h, by simp⟩
  | statement hstore =>
    obtain ⟨hchore, hrest⟩ := List.forall_mem_cons.mp hchores
    refine ⟨inserted_exec h hchore hstore, ?_⟩
    rintro p ⟨⟩
    exact ⟨_, rfl, hrest⟩
  | stopStreaming | skipChore =>
    refine ⟨h.congr rfl rfl, ?_⟩
    rintro p ⟨⟩
    exact ⟨_, rfl, (List.forall_mem_cons.mp hchores).2⟩

/-! ## Runs of an addition -/

/-- Besides the addition only streams go on. -/
def OnlyStreams (_ : System) : Turn → Prop
  | .start _ _ (.executeStreaming _ _) | .advance _ _ => True
  | .start _ _ _ => False

/-- A turn of a stream. -/
theorem turn_of_isStream (hstream : phase.isStream = true)
    (ht : s.turn hash env phase = some (s', next)) :
    s'.metadataStore = s.metadataStore ∧ s'.hashRing = s.hashRing ∧ next = none := by
  obtain ⟨source, ref, rfl⟩ := TopologyPhase.isStream_iff.mp hstream
  obtain ⟨sm, -, hpair⟩ := Option.map_eq_some_iff.mp ht
  cases hpair
  exact ⟨rfl, rfl, rfl⟩

theorem AddStage.congr (h : AddStage t req s phase)
    (hstore : s'.metadataStore = s.metadataStore) (hring : s'.hashRing = s.hashRing) :
    AddStage t req s' phase := by
  cases phase with
  | lockAdd r | insertNode r => exact ⟨h.1, hstore.trans h.2.1, hring.trans h.2.2⟩
  | planAdd | recordAdd | startAdd | monitorAdd =>
    exact ⟨h.1, h.2.congr (congrArg MetadataStore.storageNodes hstore) hring⟩
  | finish nodeID chores =>
    intro hfailed
    obtain ⟨hid, hchores, hinserted⟩ := h hfailed
    exact ⟨hid, hchores, hinserted.congr (congrArg MetadataStore.storageNodes hstore) hring⟩
  | setNormal | executing => trivial
  | _ => exact h.elim

/-- The addition is in one stage; what else goes on are streams. -/
structure Adding (t : Topology) (req : AddStorageNodeRequest) (s : Topology)
    (phases : List TopologyPhase) : Prop where
  stage : ∀ p ∈ phases, AddStage t req s p
  single : phases.countP (fun p => !p.isStream) ≤ 1

theorem Adding.perm {phases phases' : List TopologyPhase} (h : Adding t req s phases)
    (hperm : phases.Perm phases') : Adding t req s phases' where
  stage p hp := h.stage p (hperm.mem_iff.mpr hp)
  single := hperm.countP_eq _ ▸ h.single

/-- A turn of the addition. -/
theorem addStage_turn (h : AddStage t req s phase) (hstream : phase.isStream = false)
    (ht : s.turn hash env phase = some (s', next)) : ∀ p ∈ next, AddStage t req s' p := by
  cases turned_of_turn ht with
  | refused | ended => simp
  | lockAdd | waitAdd =>
    rintro p ⟨⟩
    exact h
  | @insertNode r _ hinsert =>
    obtain ⟨rfl, hstore, hring⟩ := h
    obtain ⟨habsent, -, hget⟩ := MetadataStore.get?_addStorageNode hinsert
    rw [hstore] at habsent hget
    rintro p ⟨⟩
    refine ⟨rfl, habsent, ⟨MetadataStore.newRow r.node, ?_, rfl⟩, fun id hne => ?_, hring⟩
    · exact (hget _).trans (if_pos rfl)
    · exact (hget _).trans (if_neg (Ne.symm hne))
  | planAdd _ hupdate =>
    obtain ⟨rfl, hinserted⟩ := h
    rintro p ⟨⟩
    exact ⟨rfl, hinserted.updateRow hupdate fun _ => rfl⟩
  | recordAdd hrecord =>
    rintro p ⟨⟩
    exact ⟨h.1, h.2.congr (MetadataStore.storageNodes_addPendingChange hrecord) rfl⟩
  | startAdd | answerAdd =>
    rintro p ⟨⟩
    exact ⟨h.1, h.2.congr rfl rfl⟩
  | bootstrapped =>
    rintro p ⟨⟩
    trivial
  | hintsFailed | giveUpAdd =>
    obtain ⟨rfl, hinserted⟩ := h
    rintro p ⟨⟩ -
    exact ⟨rfl, NodeHandlerV2.ofRollback_rollbackNodeAddition, hinserted.congr rfl rfl⟩
  | setNormal =>
    rintro p ⟨⟩ hfailed
    simp [NodeHandlerV2.afterNormal] at hfailed
  | statement hstore =>
    rintro p ⟨⟩ hfailed
    -- the mark is met again in the rest only if it was there before
    obtain ⟨rfl, hchores, hinserted⟩ := h (List.mem_cons_of_mem _ hfailed)
    obtain ⟨hchore, hrest⟩ := List.forall_mem_cons.mp hchores
    exact ⟨rfl, hrest, inserted_exec hinserted hchore hstore⟩
  | stopStreaming | skipChore =>
    rintro p ⟨⟩ hfailed
    obtain ⟨rfl, hchores, hinserted⟩ := h (List.mem_cons_of_mem _ hfailed)
    exact ⟨rfl, (List.forall_mem_cons.mp hchores).2, hinserted.congr rfl rfl⟩
  | executing => cases hstream
  | _ => exact h.elim

theorem adding_step (s : System) (turn : Turn) (s' : System) (h : Adding t req s.state s.phases)
    (honly : OnlyStreams s turn) (hstep : step hash s turn = some s') :
    Adding t req s'.state s'.phases := by
  cases turn with
  | start id env request =>
    obtain ⟨hstate, hphases⟩ := Concurrent.step_start hstep
    rw [hstate, hphases]
    cases request with
    | executeStreaming source ref =>
      refine Adding.perm ?_ List.perm_append_comm
      exact ⟨List.forall_mem_cons.mpr ⟨trivial, h.stage⟩, h.single⟩
    | _ => exact honly.elim
  | advance id env =>
    obtain ⟨phase, next, rest, -, hturn, hbefore, hafter⟩ := Concurrent.step_advance_perm hstep
    obtain ⟨hstage, hsingle⟩ := h.perm hbefore
    refine Adding.perm ?_ hafter.symm
    cases hstream : phase.isStream with
    | true =>
      obtain ⟨hstore, hring, rfl⟩ := turn_of_isStream hstream hturn
      refine ⟨fun p hp => ?_, ?_⟩
      · exact (hstage p (List.mem_cons_of_mem _ hp)).congr hstore hring
      · simpa [List.countP_cons, hstream] using hsingle
    | false =>
      have hnone : rest.countP (fun p => !p.isStream) = 0 := by
        simpa [List.countP_cons, hstream] using hsingle
      have hrest : ∀ p ∈ rest, p.isStream = true := by simpa using List.countP_eq_zero.mp hnone
      refine ⟨fun p hp => ?_, ?_⟩
      · rcases List.mem_append.mp hp with hp | hp
        · exact addStage_turn (hstage phase List.mem_cons_self) hstream hturn p
            (Option.mem_toList.mp hp)
        · obtain ⟨source, ref, rfl⟩ := TopologyPhase.isStream_iff.mp (hrest p hp)
          trivial
      · rw [List.countP_append, hnone]
        cases next with
        | none => simp
        | some p => simpa using List.countP_le_length (p := fun p => !p.isStream) (l := [p])

/-- A rollback is under way or has ended. -/
def RollingBack (t : Topology) (nodeID : String) (s : System) : Prop :=
  Inserted t s.state nodeID ∧ ∀ p ∈ s.phases, p.isStream = true ∨
    ∃ chores, p = .finish nodeID chores ∧ ∀ chore ∈ chores, chore.OfRollback nodeID

theorem rollingBack_step {nodeID : String} (s : System) (turn : Turn) (s' : System)
    (h : RollingBack t nodeID s) (honly : OnlyStreams s turn)
    (hstep : step hash s turn = some s') : RollingBack t nodeID s' := by
  obtain ⟨hinserted, hphases⟩ := h
  cases turn with
  | start id env request =>
    obtain ⟨hstate, hphases'⟩ := Concurrent.step_start hstep
    rw [RollingBack, hstate, hphases']
    cases request with
    | executeStreaming source ref =>
      refine ⟨hinserted, fun p hp => ?_⟩
      rcases List.mem_append.mp hp with hp | hp
      · exact hphases p hp
      · rw [List.mem_singleton.mp hp]
        exact Or.inl rfl
    | _ => exact honly.elim
  | advance id env =>
    obtain ⟨phase, next, rest, -, hturn, hbefore, hafter⟩ := Concurrent.step_advance_perm hstep
    have hrest : ∀ p ∈ rest, p.isStream = true ∨ ∃ chores, p = .finish nodeID chores ∧
        ∀ chore ∈ chores, chore.OfRollback nodeID :=
      fun p hp => hphases p (hbefore.mem_iff.mpr (List.mem_cons_of_mem _ hp))
    have hnext : Inserted t s'.state nodeID ∧ ∀ p ∈ next, ∃ chores, p = .finish nodeID chores ∧
        ∀ chore ∈ chores, chore.OfRollback nodeID := by
      rcases hphases phase (hbefore.mem_iff.mpr List.mem_cons_self) with
        hstream | ⟨chores, rfl, hchores⟩
      · obtain ⟨hstore, hring, rfl⟩ := turn_of_isStream hstream hturn
        exact ⟨hinserted.congr (congrArg MetadataStore.storageNodes hstore) hring, by simp⟩
      · exact inserted_turn_finish hinserted hchores hturn
    refine ⟨hnext.1, fun p hp => ?_⟩
    rcases List.mem_append.mp (hafter.mem_iff.mp hp) with hp | hp
    · exact Or.inr (hnext.2 p (Option.mem_toList.mp hp))
    · exact hrest p hp

/-- An addition that begins its rollback. -/
theorem Adding.rollingBack {s : System} {sourceNodes : List String} {changeID : String}
    (h : Adding t req s.state s.phases) (hrollback : .finish req.nodeID
      (NodeHandlerV2.rollbackNodeAddition req.nodeID sourceNodes changeID) ∈ s.phases) :
    RollingBack t req.nodeID s := by
  obtain ⟨-, hchores, hinserted⟩ := h.stage _ hrollback
    (by simp [NodeHandlerV2.rollbackNodeAddition])
  refine ⟨hinserted, fun p hp => ?_⟩
  cases hstream : p.isStream with
  | true => exact Or.inl rfl
  | false =>
    -- there is no other phase of this kind
    have hsingle := h.single
    rw [List.countP_eq_length_filter] at hsingle
    have hmem : p ∈ s.phases.filter fun p => !p.isStream :=
      List.mem_filter.mpr ⟨hp, by simp [hstream]⟩
    have hmem' : _ ∈ s.phases.filter fun p => !p.isStream := List.mem_filter.mpr ⟨hrollback, rfl⟩
    obtain ⟨q, hq⟩ := List.length_eq_one_iff.mp
      (le_antisymm hsingle (List.length_pos_of_mem hmem))
    rw [hq, List.mem_singleton] at hmem hmem'
    exact Or.inr ⟨_, hmem.trans hmem'.symm, hchores⟩

/-! ## The refresh after the rollback -/

/-- A refresh without other calls. -/
theorem runAlone_fetchNodes
    (h : Concurrent.runAlone (turn hash) env 2 s .fetchNodes = some s') :
    (env.dbError.isSome = true ∧ s' = s) ∨ (env.dbError.isSome = false ∧ s' = { s with
      hashRing := RoutingService.rebuild hash s.hashRing s.metadataStore.listStorageNodes }) := by
  cases herr : env.dbError.isSome with
  | true =>
    simp [Concurrent.runAlone, turn, turnRefresh, herr] at h
    exact Or.inl ⟨rfl, h.symm⟩
  | false =>
    simp [Concurrent.runAlone, turn, turnRefresh, herr] at h
    exact Or.inr ⟨rfl, h.symm⟩

/-- With the ring of before, every key has its replicas of before. -/
theorem getWriteReplicas_of_inserted {nodeID tenantID key : String} {replicationFactor : Nat}
    {nodes : List StorageNode} (h : Inserted t s nodeID)
    (hbefore : (t.routingService hash).getWriteReplicas tenantID key replicationFactor =
      .ok nodes) :
    (s.routingService hash).getWriteReplicas tenantID key replicationFactor = .ok nodes := by
  have hle : ∀ id node,
      (RoutingService.nodeMap t.metadataStore.listStorageNodes).get? id = some node →
        (RoutingService.nodeMap s.metadataStore.listStorageNodes).get? id = some node := by
    intro id node hget
    obtain ⟨row, hrow, hnode⟩ := MetadataStore.get?_nodeMap_listStorageNodes.mp hget
    have hne : id ≠ nodeID := by
      rintro rfl
      rw [h.absent] at hrow
      cases hrow
    exact MetadataStore.get?_nodeMap_listStorageNodes.mpr ⟨row, (h.others id hne).trans hrow, hnode⟩
  have hsame := RoutingService.getWriteReplicas_eq_of_le rfl hle hbefore
  rw [routingService, h.ring]
  exact hsame

/-- An active row is on the ring after a refresh. -/
theorem contains_rebuild_of_inserted {nodeID : String} (h : Inserted t s nodeID) :
    (RoutingService.rebuild hash s.hashRing s.metadataStore.listStorageNodes).contains nodeID =
      true := by
  obtain ⟨row, hrow, hactive⟩ := h.active
  rw [RoutingService.contains_rebuild]
  refine ⟨row.storageNode nodeID, List.mem_filter.mpr ⟨?_, ?_⟩, rfl⟩
  · refine MetadataStore.mem_listStorageNodes.mpr ⟨nodeID, row, hrow, rfl, ?_⟩
    simp [NodeRow.storageNode, hactive]
  · simp [NodeRow.storageNode, hactive]

/--
**After a failed addition.** A node is added, only streams going on besides, and the addition ends
in `rollbackNodeAddition`. Then the ring is refreshed. The node is not on the ring and a key has the
replicas that it had before if and only if the refresh could not list the nodes, so that it left the
ring alone, and the node had not been on the ring.
-/
theorem rollback_routable_iff {s₁ s₂ : System} {t₃ : Topology} {id : Nat}
    {turns turns' : List Turn} {sourceNodes : List String} {changeID tenantID key : String}
    {replicationFactor : Nat} {nodes : List StorageNode}
    (hbefore : (t.routingService hash).getWriteReplicas tenantID key replicationFactor = .ok nodes)
    (hadd : run (step hash) (.single t id (.lockAdd req)) turns = some s₁)
    (honly : AllSteps (step hash) OnlyStreams (.single t id (.lockAdd req)) turns)
    (hrollback : .finish req.nodeID
      (NodeHandlerV2.rollbackNodeAddition req.nodeID sourceNodes changeID) ∈ s₁.phases)
    (hend : run (step hash) s₁ turns' = some s₂)
    (honly' : AllSteps (step hash) OnlyStreams s₁ turns')
    (hrefresh : Concurrent.runAlone (turn hash) env 2 s₂.state .fetchNodes = some t₃) :
    (t₃.hashRing.contains req.nodeID = false ∧
      (t₃.routingService hash).getWriteReplicas tenantID key replicationFactor = .ok nodes) ↔
    env.dbError.isSome = true ∧ t.hashRing.contains req.nodeID = false := by
  have hstage : Adding t req s₁.state s₁.phases := by
    refine run_invariant (I := fun s : System => Adding t req s.state s.phases)
      adding_step ⟨?_, ?_⟩ honly hadd
    · intro p hp
      rw [List.mem_singleton.mp hp]
      exact ⟨rfl, rfl, rfl⟩
    · exact List.countP_le_length
  have hrolling : Inserted t s₂.state req.nodeID :=
    (run_invariant rollingBack_step (hstage.rollingBack hrollback) honly' hend).1
  rcases runAlone_fetchNodes hrefresh with ⟨herr, rfl⟩ | ⟨herr, rfl⟩
  · have hreplicas := getWriteReplicas_of_inserted hrolling hbefore
    simp [hreplicas, herr, hrolling.ring]
  · simp [contains_rebuild_of_inserted hrolling, herr]

instance (s : System) : (turn : Turn) → Decidable (OnlyStreams s turn)
  | .start _ _ (.executeStreaming _ _) | .advance _ _ => inferInstanceAs (Decidable True)
  | .start _ _ (.addStorageNodeV2 _) | .start _ _ (.removeStorageNodeV2 _ _)
  | .start _ _ .updateHashRing => inferInstanceAs (Decidable False)

end Topology

namespace Sample

/-- A stream of `m` goes on to its end. -/
def streamed : List Topology.Turn :=
  callOf 1 1 (.executeStreaming "m" 0) ++ callOf 2 1 (.executeStreaming "m" 0) ++
    callOf 3 1 (.executeStreaming "m" 0)

/-- The data has arrived, but the hints cannot be counted. -/
def hintsUnread : List Topology.Turn :=
  List.replicate 6 (.advance 0 calm) ++ streamed ++
    [.advance 0 { calm with hintCountError := some "connection lost" }]

/-- The addition of `n` is to be rolled back. -/
def rollsBack : TopologyPhase → Bool
  | .finish nodeID chores => nodeID = "n" &&
    chores = NodeHandlerV2.rollbackNodeAddition "n" ["m"] "bootstrap-n-0"
  | _ => false

theorem rollsBack_iff {p : TopologyPhase} : rollsBack p = true ↔
    p = .finish "n" (NodeHandlerV2.rollbackNodeAddition "n" ["m"] "bootstrap-n-0") := by
  cases p <;> simp [rollsBack]

/-- The rollback runs to its end. -/
def rolledBack : List Topology.Turn := List.replicate 6 (.advance 0 calm)

/-- The addition, its rollback and a refresh. -/
theorem rollback_and_refresh (refresh : TopologyEnv) (P : Topology → Bool)
    (h : (run (Topology.step firstLetter) (.single oneNode 0 (.lockAdd joining)) hintsUnread).map
      (fun s₁ => s₁.phases.any rollsBack &&
        decide (AllSteps (Topology.step firstLetter) Topology.OnlyStreams s₁ rolledBack) &&
        (run (Topology.step firstLetter) s₁ rolledBack).any fun s₂ => s₂.phases.isEmpty &&
          (Concurrent.runAlone (Topology.turn firstLetter) refresh 2 s₂.state .fetchNodes).any P) =
      some true) :
    ∃ s₁ s₂ t₃,
      run (Topology.step firstLetter) (.single oneNode 0 (.lockAdd joining)) hintsUnread = some s₁ ∧
      .finish "n" (NodeHandlerV2.rollbackNodeAddition "n" ["m"] "bootstrap-n-0") ∈ s₁.phases ∧
      run (Topology.step firstLetter) s₁ rolledBack = some s₂ ∧
      AllSteps (Topology.step firstLetter) Topology.OnlyStreams s₁ rolledBack ∧
      s₂.phases = [] ∧ Concurrent.runAlone (Topology.turn firstLetter) refresh 2 s₂.state
        .fetchNodes = some t₃ ∧ P t₃ = true := by
  obtain ⟨s₁, hs₁, hrest⟩ := Option.map_eq_some_iff.mp h
  simp only [Bool.and_eq_true, List.any_eq_true, decide_eq_true_eq, Option.any_eq_true,
    List.isEmpty_iff] at hrest
  obtain ⟨⟨⟨p, hp, hrolls⟩, honly⟩, s₂, hs₂, hended, t₃, ht₃, hP⟩ := hrest
  exact ⟨s₁, s₂, t₃, hs₁, rollsBack_iff.mp hrolls ▸ hp, hs₂, honly, hended, ht₃, hP⟩

end Sample

open Sample in
/-- A refresh that cannot list the nodes leaves the ring as it was. -/
theorem rollback_routable_unlisted : ∃ t₃ : Topology,
    t₃.hashRing.contains "n" = false ∧ (t₃.routingService firstLetter).getWriteReplicas "n" "k" 1 =
      .ok [⟨"m", "host", 1, .active, .normal, 1⟩] := by
  obtain ⟨s₁, s₂, t₃, hs₁, hrolls, hs₂, honly, -, ht₃, -⟩ := rollback_and_refresh
    { calm with dbError := some "connection lost" } (fun _ => true) (by decide +kernel)
  refine ⟨t₃, (Topology.rollback_routable_iff (t := oneNode) rfl hs₁
    (by decide +kernel) hrolls hs₂ honly ht₃).mpr ⟨rfl, ?_⟩⟩
  decide +kernel

open Sample in
/-- After the rollback and a refresh `n` is on the ring, and a key that it would own has no
replicas. -/
theorem failed_node_joins_ring :
    (oneNode.routingService firstLetter).getWriteReplicas "n" "k" 1 =
      .ok [⟨"m", "host", 1, .active, .normal, 1⟩] ∧
    ∃ s₁ s₂ t₃,
      run (Topology.step firstLetter) (.single oneNode 0 (.lockAdd joining)) hintsUnread = some s₁ ∧
      .finish "n" (NodeHandlerV2.rollbackNodeAddition "n" ["m"] "bootstrap-n-0") ∈ s₁.phases ∧
      run (Topology.step firstLetter) s₁ rolledBack = some s₂ ∧ s₂.phases = [] ∧
      Concurrent.runAlone (Topology.turn firstLetter) calm 2 s₂.state .fetchNodes = some t₃ ∧
      t₃.hashRing.contains "n" = true ∧
      ((t₃.routingService firstLetter).getWriteReplicas "n" "k" 1).toOption = none := by
  refine ⟨rfl, ?_⟩
  obtain ⟨s₁, s₂, t₃, hs₁, hrolls, hs₂, -, hended, ht₃, hP⟩ := rollback_and_refresh calm
    (fun t => decide (t.hashRing.contains "n" = true ∧
      ((t.routingService firstLetter).getWriteReplicas "n" "k" 1).toOption = none))
    (by decide +kernel)
  exact ⟨s₁, s₂, t₃, hs₁, hrolls, hs₂, hended, ht₃, of_decide_eq_true hP⟩

end PairDB.Coordinator
