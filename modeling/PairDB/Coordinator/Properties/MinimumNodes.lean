import PairDB.Infra.Run
import PairDB.Coordinator.Properties.Membership

/-!
# The minimum number of nodes

`RemoveStorageNodeV2` counts the nodes whose status is active or bootstrapping, and takes its node
out of the count with the next statement. The lock is one of the node, so that two removals of
different nodes can both count before either of them has written.

If a removal only counts when no other one stands between its count and its write, removals without
`force` do not bring the count below three (`removals_keep_minimum`). The invariant: a removal that
has counted knows of four nodes, and a removal that has written has a node that does not count.
-/

namespace PairDB.Coordinator

open Infra

namespace MetadataStore

variable {s s' : MetadataStore} {nodeID : String}

/-- The node counts for the minimum. -/
def Counts (s : MetadataStore) (id : String) : Prop :=
  ∃ row, s.storageNodes.get? id = some row ∧ (row.status = .active ∨ row.status = .bootstrapping)

/-- The nodes that count. -/
def counted (s : MetadataStore) : Finset String :=
  ((RoutingService.activeNodes s.listStorageNodes).map StorageNode.nodeID).toFinset

theorem mem_counted {id : String} : id ∈ s.counted ↔ s.Counts id := by
  simp only [counted, List.mem_toFinset, List.mem_map, RoutingService.activeNodes, List.mem_filter,
    Bool.or_eq_true, decide_eq_true_eq, mem_listStorageNodes]
  constructor
  · rintro ⟨_, ⟨⟨id, row, hrow, rfl, -⟩, hactive⟩, rfl⟩
    exact ⟨row, hrow, hactive⟩
  · rintro ⟨row, hrow, hactive⟩
    refine ⟨row.storageNode id, ⟨⟨id, row, hrow, rfl, ?_⟩, hactive⟩, rfl⟩
    rcases hactive with h | h <;> simp [NodeRow.storageNode, h]

theorem card_counted (s : MetadataStore) :
    s.counted.card = (RoutingService.activeNodes s.listStorageNodes).length := by
  have hnodup : ((RoutingService.activeNodes s.listStorageNodes).map StorageNode.nodeID).Nodup :=
    s.nodup_listStorageNodes.sublist (List.filter_sublist.map _)
  rw [counted, List.toFinset_card_of_nodup hnodup, List.length_map]

/-! ## What the statements do to the count -/

theorem counts_updateRow {update : NodeRow → NodeRow} (h : s.updateRow nodeID update = .ok s')
    (hsame : ∀ row, (update row).status = row.status) (id : String) :
    s'.Counts id ↔ s.Counts id := by
  obtain ⟨-, row, hrow, hget⟩ := get?_updateRow h
  unfold Counts
  rw [hget]
  split
  · next heq => simp [← heq, hrow, hsame]
  · rfl

theorem counts_draining (h : s.updateStorageNodeStatus nodeID "draining" = .ok s') (id : String) :
    s'.Counts id ↔ id ≠ nodeID ∧ s.Counts id := by
  obtain ⟨-, row, hrow, hget⟩ := get?_updateRow h
  unfold Counts
  rw [hget]
  split
  · next heq => simp [heq]
  · next hne => simp [Ne.symm hne]

theorem counts_active (h : s.updateStorageNodeStatus nodeID "active" = .ok s') (id : String) :
    s'.Counts id ↔ id = nodeID ∨ s.Counts id := by
  obtain ⟨-, row, hrow, hget⟩ := get?_updateRow h
  unfold Counts
  rw [hget]
  split
  · next heq => simp [heq]
  · next hne => simp [Ne.symm hne]

theorem counts_removeStorageNode (h : s.removeStorageNode nodeID = .ok s') (id : String) :
    s'.Counts id ↔ id ≠ nodeID ∧ s.Counts id := by
  unfold removeStorageNode at h
  split at h
  · cases h
  · cases h
    unfold Counts
    simp only [Map.get?_remove]
    split
    · next heq => simp [heq]
    · next hne => simp [Ne.symm hne]

theorem counts_congr (h : s'.storageNodes = s.storageNodes) (id : String) :
    s'.Counts id ↔ s.Counts id := by
  unfold Counts
  rw [h]

end MetadataStore

/-! ## What a removal knows -/

/-- A chore of a removal that is taken back. -/
def Chore.Restores (nodeID : String) : Chore → Prop
  | .statement (.removeStorageNode _) _ => False
  | .statement (.updateStorageNodeStatus id status) _ => id = nodeID ∧ status = "active"
  | _ => True

/-- A chore of a removal that goes through. -/
def Chore.Deletes (nodeID : String) : Chore → Prop
  | .statement (.removeStorageNode id) _ => id = nodeID
  | .statement (.updateStorageNodeStatus _ _) _ => False
  | _ => True

namespace NodeHandlerV2

theorem deletes_afterRemoval {nodeID changeID : String} {nodes : List String} :
    ∀ chore ∈ afterRemoval nodeID nodes changeID, chore.Deletes nodeID := by
  simp [afterRemoval, Chore.Deletes, or_imp, forall_and]

theorem restores_rollbackNodeRemoval {nodeID changeID : String} {nodes : List String} :
    ∀ chore ∈ rollbackNodeRemoval nodeID nodes changeID, chore.Restores nodeID := by
  simp [rollbackNodeRemoval, Chore.Restores, or_imp, forall_and]

end NodeHandlerV2

namespace TopologyPhase

/-- A removal without `force`, or no change at all. After its first statement the node does not
count, and stays out of the count unless the removal is taken back. -/
def Unforced (s : MetadataStore) : TopologyPhase → Prop
  | .lockRemove _ force | .findNode _ force | .countNodes _ force => force = false
  | .setDraining _ => True
  | .setLeaving node | .planRemove node | .markInheritors node _ _ | .recordRemove node _
  | .startRemove node _ _ _ _ | .monitorRemove node _ _ _ _ => ¬ s.Counts node.nodeID
  | .finish nodeID chores => (∀ chore ∈ chores, chore.Restores nodeID) ∨
    ¬ s.Counts nodeID ∧ ∀ chore ∈ chores, chore.Deletes nodeID
  | .fetchNodes | .rebuildRing _ | .executing _ _ => True
  | _ => False

/-- The removal has counted and not yet written. -/
def isSetDraining : TopologyPhase → Bool
  | .setDraining _ => true
  | _ => false

/-- The removal is about to count. -/
def isCountNodes : TopologyPhase → Bool
  | .countNodes _ _ => true
  | _ => false

/-- A phase only looks at its own node. -/
theorem Unforced.congr {s s' : MetadataStore} {phase : TopologyPhase} (h : phase.Unforced s)
    (hsame : ∀ id, phase.nodeID? = some id → (s'.Counts id ↔ s.Counts id)) :
    phase.Unforced s' := by
  cases phase with
  | setLeaving node | planRemove node | markInheritors node | recordRemove node | startRemove node
  | monitorRemove node =>
    exact fun hcounts => h ((hsame node.nodeID rfl).mp hcounts)
  | finish nodeID chores =>
    rcases h with h | ⟨hnot, h⟩
    · exact Or.inl h
    · exact Or.inr ⟨fun hcounts => hnot ((hsame nodeID rfl).mp hcounts), h⟩
  | _ => exact h

end TopologyPhase

namespace Topology

variable {t t' : Topology} {env : TopologyEnv} {hash : String → UInt64}

theorem activeNodeCount_eq (t : Topology) :
    t.activeNodeCount = t.metadataStore.counted.card :=
  (MetadataStore.card_counted _).symm

/-- Nodes that count go on counting. -/
theorem activeNodeCount_mono
    (h : ∀ id, t.metadataStore.Counts id → t'.metadataStore.Counts id) :
    t.activeNodeCount ≤ t'.activeNodeCount := by
  rw [activeNodeCount_eq, activeNodeCount_eq]
  refine Finset.card_le_card fun id hid => ?_
  exact MetadataStore.mem_counted.mpr (h id (MetadataStore.mem_counted.mp hid))

/-- All nodes but one go on counting. -/
theorem activeNodeCount_le_succ {nodeID : String}
    (h : ∀ id, id ≠ nodeID → t.metadataStore.Counts id → t'.metadataStore.Counts id) :
    t.activeNodeCount ≤ t'.activeNodeCount + 1 := by
  rw [activeNodeCount_eq, activeNodeCount_eq]
  have hsub : t.metadataStore.counted ⊆ insert nodeID t'.metadataStore.counted := by
    intro id hid
    rw [Finset.mem_insert]
    by_cases hne : id = nodeID
    · exact Or.inl hne
    · exact Or.inr (MetadataStore.mem_counted.mpr (h id hne (MetadataStore.mem_counted.mp hid)))
  exact (Finset.card_le_card hsub).trans (Finset.card_insert_le _ _)

/-- What a turn of a removal of the node does to the count. -/
structure CountTurn (t t' : Topology) (nodeID : String) (phase : TopologyPhase)
    (next : Option TopologyPhase) : Prop where
  others : ∀ id, id ≠ nodeID → (t'.metadataStore.Counts id ↔ t.metadataStore.Counts id)
  /-- Only the first statement takes the node out of the count. -/
  kept : phase.isSetDraining = false → t.metadataStore.Counts nodeID →
    t'.metadataStore.Counts nodeID
  goesOn : ∀ p ∈ next, p.nodeID? = some nodeID ∧ p.Unforced t'.metadataStore
  /-- The first statement comes after a count of at least four. -/
  counted : ∀ p ∈ next, p.isSetDraining = true →
    phase.isCountNodes = true ∧ 4 ≤ t'.activeNodeCount

/-- A turn that keeps the count. -/
theorem countTurn_of_same {nodeID : String} {phase : TopologyPhase} {next : Option TopologyPhase}
    (hsame : ∀ id, t'.metadataStore.Counts id ↔ t.metadataStore.Counts id)
    (hnext : ∀ p ∈ next, p.nodeID? = some nodeID ∧ p.Unforced t.metadataStore ∧
      p.isSetDraining = false) : CountTurn t t' nodeID phase next where
  others id _ := hsame id
  kept _ h := (hsame nodeID).mpr h
  goesOn p hp := ⟨(hnext p hp).1, (hnext p hp).2.1.congr fun id _ => hsame id⟩
  counted p hp h := by
    rw [(hnext p hp).2.2] at h
    cases h

/-- A call that ends without a write. -/
theorem countTurn_none {nodeID : String} {phase : TopologyPhase}
    (hsame : t'.metadataStore = t.metadataStore) : CountTurn t t' nodeID phase none :=
  countTurn_of_same (fun id => by rw [hsame]) (by simp)

/-- A statement that is not about the status of a node. -/
theorem counts_exec {now : Int} {s s' : MetadataStore} {statement : Statement}
    (h : statement.exec now s = .ok s')
    (hstatus : ∀ id status, statement ≠ .updateStorageNodeStatus id status)
    (hremove : ∀ id, statement ≠ .removeStorageNode id) (id : String) :
    s'.Counts id ↔ s.Counts id := by
  cases statement with
  | updateNodeState nodeID state => exact MetadataStore.counts_updateRow h (fun _ => rfl) id
  | clearNodeRanges nodeID => exact MetadataStore.counts_updateRow h (fun _ => rfl) id
  | updateStorageNodeStatus nodeID status => exact absurd rfl (hstatus _ _)
  | removeStorageNode nodeID => exact absurd rfl (hremove _)
  | finishPendingChange changeID status errorMessage =>
    exact MetadataStore.counts_congr (storageNodes_finishPendingChange h) id

/-- A statement at the end of a removal. -/
theorem countTurn_statement {nodeID : String} {statement : Statement} {fatal : Bool}
    {rest : List Chore} {store : MetadataStore}
    (hunforced : (TopologyPhase.finish nodeID (.statement statement fatal :: rest)).Unforced
      t.metadataStore)
    (hrest : (TopologyPhase.finish nodeID rest).Unforced t.metadataStore)
    (hexec : statement.exec env.now t.metadataStore = .ok store) :
    CountTurn t { t with metadataStore := store } nodeID
      (.finish nodeID (.statement statement fatal :: rest)) (some (.finish nodeID rest)) := by
  have hgo : ∀ p ∈ some (TopologyPhase.finish nodeID rest), p.nodeID? = some nodeID ∧
      p.Unforced t.metadataStore ∧ p.isSetDraining = false := by
    rintro p ⟨⟩
    exact ⟨rfl, hrest, rfl⟩
  have hother : (∀ id status, statement ≠ .updateStorageNodeStatus id status) →
      (∀ id, statement ≠ .removeStorageNode id) →
      CountTurn t { t with metadataStore := store } nodeID
        (.finish nodeID (.statement statement fatal :: rest)) (some (.finish nodeID rest)) :=
    fun hstatus hremove => countTurn_of_same (counts_exec hexec hstatus hremove) hgo
  rcases hunforced with hrestores | ⟨hnot, hdeletes⟩
  · have hchore := hrestores _ List.mem_cons_self
    cases statement with
    | updateStorageNodeStatus id status =>
      obtain ⟨rfl, rfl⟩ := hchore
      have hcounts := MetadataStore.counts_active hexec
      refine ⟨fun id' hne => ?_, fun _ _ => ?_, ?_, ?_⟩
      · simp [hcounts, hne]
      · exact (hcounts _).mpr (Or.inl rfl)
      · rintro p ⟨⟩
        exact ⟨rfl, Or.inl fun c hc => hrestores c (List.mem_cons_of_mem _ hc)⟩
      · rintro p ⟨⟩ hno
        cases hno
    | removeStorageNode id => exact hchore.elim
    | _ => exact hother (by simp) (by simp)
  · have hchore := hdeletes _ List.mem_cons_self
    cases statement with
    | updateStorageNodeStatus id status => exact hchore.elim
    | removeStorageNode id =>
      cases (show id = nodeID from hchore)
      have hcounts := MetadataStore.counts_removeStorageNode hexec
      refine countTurn_of_same (fun id' => ?_) hgo
      rw [hcounts]
      refine ⟨fun hc => hc.2, fun hc => ⟨?_, hc⟩⟩
      rintro rfl
      exact hnot hc
    | _ => exact hother (by simp) (by simp)

theorem unforced_rest {nodeID : String} {chore : Chore} {rest : List Chore} {s : MetadataStore}
    (h : (TopologyPhase.finish nodeID (chore :: rest)).Unforced s) :
    (TopologyPhase.finish nodeID rest).Unforced s := by
  rcases h with hrestores | ⟨hnot, hdeletes⟩
  · exact Or.inl fun c hc => hrestores c (List.mem_cons_of_mem _ hc)
  · exact Or.inr ⟨hnot, fun c hc => hdeletes c (List.mem_cons_of_mem _ hc)⟩

theorem countTurn_turn {nodeID : String} {phase : TopologyPhase} {next : Option TopologyPhase}
    (hid : phase.nodeID? = some nodeID) (hunforced : phase.Unforced t.metadataStore)
    (h : t.turn hash env phase = some (t', next)) : CountTurn t t' nodeID phase next := by
  cases turned_of_turn h with
  | refused | ended => exact countTurn_none rfl
  | lockRemove | markFailed | marked | startRemove | answerRemove | waitRemove =>
    cases hid
    refine countTurn_of_same (fun _ => Iff.rfl) ?_
    rintro p ⟨⟩
    exact ⟨rfl, hunforced, rfl⟩
  | findNode hnode =>
    cases hid
    refine countTurn_of_same (fun _ => Iff.rfl) ?_
    rintro p ⟨⟩
    exact ⟨congrArg some hnode, hunforced, rfl⟩
  | countNodes hcount =>
    cases hid
    refine ⟨fun _ _ => Iff.rfl, fun _ hcounts => hcounts, ?_, ?_⟩
    · rintro p ⟨⟩
      exact ⟨rfl, trivial⟩
    · rintro p ⟨⟩ -
      have hmin := hcount hunforced
      rw [NodeHandlerV2.minNodesRequired] at hmin
      exact ⟨rfl, by omega⟩
  | setDraining hstore =>
    cases hid
    have hcounts := MetadataStore.counts_draining hstore
    refine ⟨fun id hne => ?_, fun hno => ?_, ?_, ?_⟩
    · simp [hcounts, hne]
    · cases hno
    · rintro p ⟨⟩
      exact ⟨rfl, fun hnode => ((hcounts _).mp hnode).1 rfl⟩
    · rintro p ⟨⟩ hno
      cases hno
  | setLeaving hstore | planRemove _ hstore =>
    cases hid
    refine countTurn_of_same (MetadataStore.counts_updateRow hstore fun _ => rfl) ?_
    rintro p ⟨⟩
    exact ⟨rfl, hunforced, rfl⟩
  | markInheritor hstore =>
    cases hid
    refine countTurn_of_same
      (MetadataStore.counts_updateRow (TopologyEnv.db_eq_ok hstore) fun _ => rfl) ?_
    rintro p ⟨⟩
    exact ⟨rfl, hunforced, rfl⟩
  | recordRemove hstore =>
    cases hid
    refine countTurn_of_same (MetadataStore.counts_congr
      (MetadataStore.storageNodes_addPendingChange hstore)) ?_
    rintro p ⟨⟩
    exact ⟨rfl, hunforced, rfl⟩
  | decommissioned =>
    cases hid
    refine countTurn_of_same (fun _ => Iff.rfl) ?_
    rintro p ⟨⟩
    exact ⟨rfl, Or.inr ⟨hunforced, NodeHandlerV2.deletes_afterRemoval⟩, rfl⟩
  | giveUpRemove =>
    cases hid
    refine countTurn_of_same (fun _ => Iff.rfl) ?_
    rintro p ⟨⟩
    exact ⟨rfl, Or.inl NodeHandlerV2.restores_rollbackNodeRemoval, rfl⟩
  | statement hstore =>
    cases hid
    exact countTurn_statement hunforced (unforced_rest hunforced) hstore
  | stopStreaming | skipChore =>
    cases hid
    refine countTurn_of_same (fun _ => Iff.rfl) ?_
    rintro p ⟨⟩
    exact ⟨rfl, unforced_rest hunforced, rfl⟩
  | fetchNodes | rebuildRing | executing => cases hid
  | _ => exact hunforced.elim

/-! ## Runs -/

/-- What holds between the turns, for the count at the beginning. -/
structure MinimumKept (start : Nat) (t : Topology) (phases : List TopologyPhase) : Prop where
  count : min 3 start ≤ t.activeNodeCount
  unforced : ∀ p ∈ phases, p.Unforced t.metadataStore
  nodup : (phases.filterMap TopologyPhase.nodeID?).Nodup
  oneDrains : phases.countP TopologyPhase.isSetDraining ≤ 1
  drains : ∀ p ∈ phases, p.isSetDraining = true → 4 ≤ t.activeNodeCount

theorem MinimumKept.perm {start : Nat} {phases phases' : List TopologyPhase}
    (h : MinimumKept start t phases) (hperm : phases.Perm phases') :
    MinimumKept start t phases' where
  count := h.count
  unforced p hp := h.unforced p (hperm.mem_iff.mpr hp)
  nodup := (hperm.filterMap _).nodup_iff.mp h.nodup
  oneDrains := by
    rw [← hperm.countP_eq]
    exact h.oneDrains
  drains p hp := h.drains p (hperm.mem_iff.mpr hp)

/-- A turn of a refresh or of a stream. -/
theorem metadataStore_turn_of_none {phase : TopologyPhase} {next : Option TopologyPhase}
    (hid : phase.nodeID? = none) (h : t.turn hash env phase = some (t', next)) :
    t'.metadataStore = t.metadataStore ∧ ∀ p ∈ next, p.nodeID? = none ∧
      p.Unforced t.metadataStore ∧ p.isSetDraining = false := by
  cases turned_of_turn h with
  | refused | ended | rebuildRing | executing => exact ⟨rfl, by simp⟩
  | fetchNodes =>
    refine ⟨rfl, ?_⟩
    rintro p ⟨⟩
    exact ⟨rfl, trivial, rfl⟩
  | _ => cases hid

/-- The nodes of the changes stay distinct when one of them goes on. -/
theorem nodup_nodeID?_next {phase : TopologyPhase} {next : Option TopologyPhase}
    {rest : List TopologyPhase}
    (hnodup : ((phase :: rest).filterMap TopologyPhase.nodeID?).Nodup)
    (hnext : ∀ p ∈ next, p.nodeID? = phase.nodeID?) :
    ((next.toList ++ rest).filterMap TopologyPhase.nodeID?).Nodup := by
  cases next with
  | none =>
    refine hnodup.sublist (List.Sublist.filterMap _ ?_)
    exact List.sublist_cons_self _ _
  | some p =>
    rw [List.filterMap_cons] at hnodup
    rw [Option.toList_some, List.singleton_append, List.filterMap_cons, hnext p rfl]
    exact hnodup

/-- **A turn keeps the minimum.** -/
theorem minimumKept_turn {start : Nat} {phase : TopologyPhase} {next : Option TopologyPhase}
    {rest : List TopologyPhase} (hI : MinimumKept start t (phase :: rest))
    (hserialized : phase.isCountNodes = true → ∀ p ∈ phase :: rest, p.isSetDraining = false)
    (h : t.turn hash env phase = some (t', next)) :
    MinimumKept start t' (next.toList ++ rest) := by
  have hrestDrains : rest.countP TopologyPhase.isSetDraining ≤ 1 :=
    (List.sublist_cons_self phase rest).countP_le.trans hI.oneDrains
  cases hid : phase.nodeID? with
  | none =>
    obtain ⟨hstore, hnext⟩ := metadataStore_turn_of_none hid h
    have hcount : t'.activeNodeCount = t.activeNodeCount := by
      rw [activeNodeCount_eq, activeNodeCount_eq, hstore]
    refine ⟨hcount ▸ hI.count, ?_, ?_, ?_, ?_⟩
    · intro p hp
      rw [hstore]
      rcases List.mem_append.mp hp with hp | hp
      · exact (hnext p (Option.mem_toList.mp hp)).2.1
      · exact hI.unforced p (List.mem_cons_of_mem _ hp)
    · exact nodup_nodeID?_next hI.nodup fun p hp => by rw [(hnext p hp).1, hid]
    · rw [List.countP_append]
      have hzero : next.toList.countP TopologyPhase.isSetDraining = 0 := by
        rw [List.countP_eq_zero]
        intro p hp
        rw [(hnext p (Option.mem_toList.mp hp)).2.2]
        exact Bool.false_ne_true
      omega
    · intro p hp hdrains
      rw [hcount]
      rcases List.mem_append.mp hp with hp | hp
      · rw [(hnext p (Option.mem_toList.mp hp)).2.2] at hdrains
        cases hdrains
      · exact hI.drains p (List.mem_cons_of_mem _ hp) hdrains
  | some nodeID =>
    have hturn := countTurn_turn hid (hI.unforced phase List.mem_cons_self) h
    -- unless this is the first statement of a removal, all nodes go on counting
    have hmono : phase.isSetDraining = false → t.activeNodeCount ≤ t'.activeNodeCount := by
      intro hno
      refine activeNodeCount_mono fun id hcounts => ?_
      by_cases hne : id = nodeID
      · rw [hne] at hcounts ⊢
        exact hturn.kept hno hcounts
      · exact (hturn.others id hne).mpr hcounts
    refine ⟨?_, ?_, ?_, ?_, ?_⟩
    · cases hdrains : phase.isSetDraining with
      | false => exact hI.count.trans (hmono hdrains)
      | true =>
        have hfour := hI.drains phase List.mem_cons_self hdrains
        have hsucc : t.activeNodeCount ≤ t'.activeNodeCount + 1 :=
          activeNodeCount_le_succ fun id hne => (hturn.others id hne).mpr
        omega
    · intro p hp
      rcases List.mem_append.mp hp with hp | hp
      · exact (hturn.goesOn p (Option.mem_toList.mp hp)).2
      · refine (hI.unforced p (List.mem_cons_of_mem _ hp)).congr fun id hpid => ?_
        refine hturn.others id ?_
        rintro rfl
        have hnodup := hI.nodup
        rw [List.filterMap_cons_some hid, List.nodup_cons] at hnodup
        exact hnodup.1 (List.mem_filterMap.mpr ⟨p, hp, hpid⟩)
    · exact nodup_nodeID?_next hI.nodup fun p hp => by rw [(hturn.goesOn p hp).1, hid]
    · cases next with
      | none => exact hrestDrains
      | some p =>
        rw [Option.toList_some, List.singleton_append, List.countP_cons]
        cases hdrains : p.isSetDraining with
        | false => simpa using hrestDrains
        | true =>
          have hzero : rest.countP TopologyPhase.isSetDraining = 0 := by
            rw [List.countP_eq_zero]
            intro q hq
            rw [hserialized (hturn.counted p rfl hdrains).1 q (List.mem_cons_of_mem _ hq)]
            exact Bool.false_ne_true
          simp [hzero]
    · intro p hp hdrains
      rcases List.mem_append.mp hp with hp | hp
      · exact (hturn.counted p (Option.mem_toList.mp hp) hdrains).2
      · -- only one removal stands before its first statement, and it is this other one
        have hno : phase.isSetDraining = false := by
          by_contra hyes
          have hone := hI.oneDrains
          rw [List.countP_cons_of_pos (by simpa using hyes)] at hone
          have hpos : 0 < rest.countP TopologyPhase.isSetDraining :=
            List.countP_pos_iff.mpr ⟨p, hp, hdrains⟩
          omega
        exact (hI.drains p (List.mem_cons_of_mem _ hp) hdrains).trans (hmono hno)

/-- A removal only counts when no other one has counted and not yet written. -/
def SerializedTurn (s : System) : Turn → Prop
  | .start _ _ _ => True
  | .advance id _ => ∀ phase ∈ s.phase? id, phase.isCountNodes = true →
    ∀ p ∈ s.phases, p.isSetDraining = false

instance (s : System) : DecidablePred (SerializedTurn s) := by
  intro turn
  unfold SerializedTurn
  split <;> infer_instance

/-- The node that a request is to remove. -/
def removedNode? : Turn → Option String
  | .start _ _ (.removeStorageNodeV2 nodeID _) => some nodeID
  | _ => none

/-- The turn is not the start of an addition or of a removal with `force`. -/
def UnforcedTurn : Turn → Prop
  | .start _ _ (.addStorageNodeV2 _) => False
  | .start _ _ (.removeStorageNodeV2 _ force) => force = false
  | _ => True

instance : DecidablePred UnforcedTurn := by
  intro turn
  unfold UnforcedTurn
  split <;> infer_instance

/-- The requests are removals of distinct nodes without `force`, and refreshes and streams. -/
structure Removals (turns : List Turn) : Prop where
  unforced : ∀ turn ∈ turns, UnforcedTurn turn
  distinct : (turns.filterMap removedNode?).Nodup

/-- The nodes of the changes in progress were requested. -/
def Requested (pre : List Turn) (s : System) : Prop :=
  ∀ id ∈ s.phases.filterMap TopologyPhase.nodeID?, id ∈ pre.filterMap removedNode?

theorem requested_start {pre : List Turn} {s s' : System} {id : Nat} {env : TopologyEnv}
    {request : TopologyRequest} (hI : Requested pre s)
    (hunforced : UnforcedTurn (.start id env request))
    (hphases : s'.phases = s.phases ++ (enter env request).toList) :
    Requested (pre ++ [.start id env request]) s' := by
  intro n hn
  rw [hphases, List.filterMap_append, List.mem_append] at hn
  rw [List.filterMap_append, List.mem_append]
  rcases hn with hn | hn
  · exact Or.inl (hI n hn)
  · right
    cases request with
    | addStorageNodeV2 req => exact hunforced.elim
    | removeStorageNodeV2 nodeID force =>
      simpa [enter, TopologyPhase.nodeID?, removedNode?] using hn
    | updateHashRing => simp [enter, TopologyPhase.nodeID?] at hn
    | executeStreaming source ref => simp [enter, TopologyPhase.nodeID?] at hn

theorem minimumKept_start {start : Nat} {pre : List Turn} {s : System} {id : Nat}
    {env : TopologyEnv} {request : TopologyRequest} (hI : MinimumKept start s.state s.phases)
    (hrequested : Requested pre s) (hremovals : Removals (pre ++ [.start id env request])) :
    MinimumKept start s.state (s.phases ++ (enter env request).toList) := by
  have hunforced := hremovals.unforced (.start id env request) (by simp)
  have hdistinct := hremovals.distinct
  rw [List.filterMap_append] at hdistinct
  suffices hcons : ∀ p, enter env request = some p → p.Unforced s.state.metadataStore ∧
      p.isSetDraining = false ∧ ((p :: s.phases).filterMap TopologyPhase.nodeID?).Nodup by
    cases hp : enter env request with
    | none => simpa using hI
    | some p =>
      obtain ⟨hphase, hno, hnodup⟩ := hcons p hp
      suffices hkept : MinimumKept start s.state (p :: s.phases) from
        hkept.perm (List.perm_append_singleton p s.phases).symm
      refine ⟨hI.count, ?_, hnodup, ?_, ?_⟩
      · rintro q hq
        rcases List.mem_cons.mp hq with rfl | hq
        · exact hphase
        · exact hI.unforced q hq
      · rw [List.countP_cons_of_neg (by simp [hno])]
        exact hI.oneDrains
      · rintro q hq hdrains
        rcases List.mem_cons.mp hq with rfl | hq
        · rw [hno] at hdrains
          cases hdrains
        · exact hI.drains q hq hdrains
  cases request with
  | addStorageNodeV2 req => exact hunforced.elim
  | removeStorageNodeV2 nodeID force =>
    rintro p ⟨⟩
    refine ⟨hunforced, rfl, ?_⟩
    rw [List.filterMap_cons_some (show (TopologyPhase.lockRemove nodeID force).nodeID? =
      some nodeID from rfl), List.nodup_cons]
    refine ⟨fun hmem => ?_, hI.nodup⟩
    exact List.disjoint_of_nodup_append hdistinct (hrequested nodeID hmem) (by simp [removedNode?])
  | updateHashRing =>
    rintro p ⟨⟩
    exact ⟨trivial, rfl, hI.nodup⟩
  | executeStreaming source ref =>
    rintro p ⟨⟩
    exact ⟨trivial, rfl, hI.nodup⟩

/-- A change that goes on is about the same node. -/
theorem nodeID?_turn {phase : TopologyPhase} {next : Option TopologyPhase}
    (hunforced : phase.Unforced t.metadataStore) (h : t.turn hash env phase = some (t', next)) :
    ∀ p ∈ next, p.nodeID? = phase.nodeID? := by
  intro p hp
  cases hid : phase.nodeID? with
  | none => exact ((metadataStore_turn_of_none hid h).2 p hp).1
  | some nodeID => exact ((countTurn_turn hid hunforced h).goesOn p hp).1

theorem minimumKept_step {start : Nat} (pre : List Turn) (s : System) (turn : Turn) (s' : System)
    (hI : Removals pre → MinimumKept start s.state s.phases ∧ Requested pre s)
    (hserialized : SerializedTurn s turn) (hstep : step hash s turn = some s')
    (hremovals : Removals (pre ++ [turn])) :
    MinimumKept start s'.state s'.phases ∧ Requested (pre ++ [turn]) s' := by
  have hpre : Removals pre := by
    refine ⟨fun turn hmem => hremovals.unforced turn (List.mem_append_left _ hmem), ?_⟩
    refine hremovals.distinct.sublist (List.Sublist.filterMap _ ?_)
    exact List.sublist_append_left _ _
  obtain ⟨hkept, hrequested⟩ := hI hpre
  cases turn with
  | start id env request =>
    obtain ⟨hstate, hphases⟩ := Concurrent.step_start hstep
    refine ⟨?_, requested_start hrequested (hremovals.unforced _ (by simp)) hphases⟩
    rw [hstate, hphases]
    exact minimumKept_start hkept hrequested hremovals
  | advance id env =>
    obtain ⟨phase, next, rest, hphase, hturn, hbefore, hafter⟩ :=
      Concurrent.step_advance_perm hstep
    have hkept' := hkept.perm hbefore
    refine ⟨(minimumKept_turn hkept' ?_ hturn).perm hafter.symm, ?_⟩
    · intro hcounts p hp
      exact hserialized phase hphase hcounts p (hbefore.mem_iff.mpr hp)
    · intro n hn
      rw [List.filterMap_append, List.mem_append]
      refine Or.inl (hrequested n ?_)
      obtain ⟨p, hp, hpid⟩ := List.mem_filterMap.mp hn
      rcases List.mem_append.mp (hafter.mem_iff.mp hp) with hp | hp
      · refine List.mem_filterMap.mpr ⟨phase, hbefore.mem_iff.mpr List.mem_cons_self, ?_⟩
        rw [← nodeID?_turn (hkept'.unforced phase List.mem_cons_self) hturn p
          (Option.mem_toList.mp hp), hpid]
      · exact List.mem_filterMap.mpr
          ⟨p, hbefore.mem_iff.mpr (List.mem_cons_of_mem _ hp), hpid⟩

/-- From any cluster, in every interleaving of removals of distinct nodes without `force` (beside
refreshes and streams) in which a removal only counts when no other one has counted and not yet
written: the number of nodes that count stays at three or more, or at what it was if it was less. -/
theorem removals_keep_minimum {turns : List Turn} {s : System} (hremovals : Removals turns)
    (hserialized : AllSteps (step hash) SerializedTurn (.quiet t) turns)
    (hr : run (step hash) (.quiet t) turns = some s) :
    min 3 t.activeNodeCount ≤ s.state.activeNodeCount := by
  have hinit : MinimumKept t.activeNodeCount t [] :=
    ⟨Nat.min_le_right _ _, by simp, by simp, by simp, by simp⟩
  have hinv := run_invariant_history (I := fun pre (s : System) => Removals pre →
      MinimumKept t.activeNodeCount s.state s.phases ∧ Requested pre s) minimumKept_step turns []
    (.quiet t) s (fun _ => ⟨hinit, by simp [Requested, Concurrent.System.phases,
      Concurrent.System.quiet]⟩) hserialized hr
  exact (hinv hremovals).1.count

end Topology

namespace Sample

/-- The rows of four active nodes. -/
def fourNodes : Topology :=
  { Topology.init with
    metadataStore := ⟨Map.ofList (["a", "b", "c", "d"].map fun id =>
      (id, ⟨"host", 1, .active, .normal, 1, [], []⟩)), ∅⟩ }

/-- The second removal begins when the first one has written. -/
def removedInTurn : List Topology.Turn :=
  callOf 0 4 (.removeStorageNodeV2 "a" false) ++ callOf 1 3 (.removeStorageNodeV2 "b" false)

/-- Both removals count before they write. -/
def removedAtOnce : List Topology.Turn :=
  callOf 0 3 (.removeStorageNodeV2 "a" false) ++ callOf 1 3 (.removeStorageNodeV2 "b" false) ++
    [.advance 0 calm, .advance 1 calm]

end Sample

open Sample in
theorem removals_keep_minimum_removedInTurn :
    ∃ s, run (Topology.step firstLetter) (.quiet fourNodes) removedInTurn = some s ∧
      s.state.activeNodeCount ≤ 3 ∧ 3 ≤ s.state.activeNodeCount := by
  have hrun : (run (Topology.step firstLetter) (.quiet fourNodes) removedInTurn).map (fun s =>
      decide (s.state.activeNodeCount ≤ 3)) = some true := by
    decide +kernel
  have hall : AllSteps (Topology.step firstLetter) Topology.SerializedTurn (.quiet fourNodes)
      removedInTurn := by
    decide +kernel
  have hfour : fourNodes.activeNodeCount = 4 := by decide +kernel
  obtain ⟨s, hs, hdec⟩ := Option.map_eq_some_iff.mp hrun
  have hmin := Topology.removals_keep_minimum ⟨by decide, by decide⟩ hall hs
  rw [hfour] at hmin
  exact ⟨s, hs, of_decide_eq_true hdec, hmin⟩

open Sample in
/-- Of four nodes, two are left. -/
theorem removals_at_once_leave_two :
    Topology.Removals removedAtOnce ∧ fourNodes.activeNodeCount = 4 ∧
      ∃ s, run (Topology.step firstLetter) (.quiet fourNodes) removedAtOnce = some s ∧
        s.state.activeNodeCount = 2 := by
  have hrun : (run (Topology.step firstLetter) (.quiet fourNodes) removedAtOnce).map (fun s =>
      decide (s.state.activeNodeCount = 2)) = some true := by
    decide +kernel
  obtain ⟨s, hs, hdec⟩ := Option.map_eq_some_iff.mp hrun
  exact ⟨⟨by decide, by decide⟩, by decide +kernel, s, hs, of_decide_eq_true hdec⟩

end PairDB.Coordinator
