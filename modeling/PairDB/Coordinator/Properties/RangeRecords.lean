import PairDB.Infra.Run
import PairDB.Coordinator.Properties.OwnStreams
import PairDB.Coordinator.Properties.RequestAtomicity

/-!
# The range records of concurrent changes

A change records the ranges that move with the nodes that wait for them and with the node that gives
them away. `UpdateNodeRanges` replaces both lists of a row, and it is called for nodes whose lock
the change does not hold, so that one change can wipe out what another one has recorded.

The records are kept if a change rewrites or deletes a row only when no other change in progress has
a record there, and if an inheriting node is told of its ranges (`changes_keep_ranges`): an error
of that statement is only logged.
-/

namespace PairDB.Coordinator

open Infra

/-- What a change has recorded with a node. -/
structure RangeRecord where
  owner : String
  pending : List PendingRangeInfo
  leaving : List LeavingRangeInfo
  deriving DecidableEq, Repr

namespace RangeRecord

variable {s s' : MetadataStore} {record : RangeRecord} {nodeID : String}

/-- The row of the node has the ranges of the record. -/
def Kept (s : MetadataStore) (record : RangeRecord) : Prop :=
  ∃ row, s.storageNodes.get? record.owner = some row ∧ record.pending ⊆ row.pendingRanges ∧
    record.leaving ⊆ row.leavingRanges

instance (s : MetadataStore) : DecidablePred (Kept s) := fun record =>
  match hrow : s.storageNodes.get? record.owner with
  | none => isFalse (by simp [Kept, hrow])
  | some row => decidable_of_iff (record.pending ⊆ row.pendingRanges ∧
      record.leaving ⊆ row.leavingRanges) (by simp [Kept, hrow])

/-! ## What the statements do to the records -/

theorem Kept.congr (h : record.Kept s)
    (hsame : s'.storageNodes.get? record.owner = s.storageNodes.get? record.owner) :
    record.Kept s' := by
  unfold Kept
  rw [hsame]
  exact h

theorem Kept.updateRow_of_ne {update : NodeRow → NodeRow} (h : record.Kept s)
    (hs : s.updateRow nodeID update = .ok s') (hne : record.owner ≠ nodeID) : record.Kept s' := by
  obtain ⟨-, row, -, hget⟩ := MetadataStore.get?_updateRow hs
  exact h.congr (by rw [hget, if_neg (Ne.symm hne)])

/-- An update that does not touch the ranges. -/
theorem Kept.updateRow {update : NodeRow → NodeRow} (h : record.Kept s)
    (hs : s.updateRow nodeID update = .ok s')
    (hpending : ∀ row, (update row).pendingRanges = row.pendingRanges)
    (hleaving : ∀ row, (update row).leavingRanges = row.leavingRanges) : record.Kept s' := by
  by_cases hne : record.owner = nodeID
  · obtain ⟨-, row, hrow, hget⟩ := MetadataStore.get?_updateRow hs
    obtain ⟨row', hrow', hranges⟩ := h
    rw [hne, hrow] at hrow'
    cases hrow'
    refine ⟨update row, ?_, ?_⟩
    · rw [hget, if_pos hne.symm]
    · rw [hpending, hleaving]
      exact hranges
  · exact h.updateRow_of_ne hs hne

theorem Kept.updateStorageNodeStatus {status : String} (h : record.Kept s)
    (hs : s.updateStorageNodeStatus nodeID status = .ok s') : record.Kept s' := by
  unfold MetadataStore.updateStorageNodeStatus at hs
  split at hs
  · exact h.updateRow hs (fun _ => rfl) fun _ => rfl
  · split at hs <;> cases hs

/-- A node with a record has a row, so it is not the new one. -/
theorem Kept.addStorageNode {node : StorageNode} (h : record.Kept s)
    (hs : s.addStorageNode node = .ok s') : record.Kept s' := by
  obtain ⟨hnone, -, hget⟩ := MetadataStore.get?_addStorageNode hs
  refine h.congr ?_
  rw [hget, if_neg]
  intro heq
  obtain ⟨row, hrow, -⟩ := h
  rw [← heq, hnone] at hrow
  cases hrow

theorem Kept.removeStorageNode (h : record.Kept s) (hs : s.removeStorageNode nodeID = .ok s')
    (hne : record.owner ≠ nodeID) : record.Kept s' := by
  unfold MetadataStore.removeStorageNode at hs
  split at hs
  · cases hs
  · cases hs
    refine h.congr ?_
    rw [Map.get?_remove, if_neg (Ne.symm hne)]

/-- `UpdateNodeRanges` records what it writes. -/
theorem kept_updateNodeRanges {pendingRanges : List PendingRangeInfo}
    {leavingRanges : List LeavingRangeInfo}
    (hs : s.updateNodeRanges nodeID pendingRanges leavingRanges = .ok s') :
    (RangeRecord.mk nodeID pendingRanges leavingRanges).Kept s' := by
  obtain ⟨-, row, -, hget⟩ := MetadataStore.get?_updateRow hs
  exact ⟨_, by rw [hget, if_pos rfl], List.Subset.refl _, List.Subset.refl _⟩

end RangeRecord

/-! ## What a change has recorded -/

namespace TopologyPhase

/-- The record of an addition. -/
def bootstrapRecords (node : StorageNode) (assignments : Assignments) : List RangeRecord :=
  [⟨node.nodeID, Assignments.pendingRanges node.nodeID assignments, []⟩]

/-- The records of a removal: its own, and those of the inheriting nodes it has told. -/
def decommissionRecords (node : StorageNode) (assignments told : Assignments) :
    List RangeRecord :=
  ⟨node.nodeID, [], Assignments.leavingRanges node.nodeID assignments⟩ ::
    told.map fun p => ⟨p.1, Assignments.inheritedRanges node.nodeID p.1 p.2, []⟩

/-- What a change in progress has assigned and recorded. It is in progress until its monitor has
seen all streams completed, or has given up. -/
def records : TopologyPhase → List RangeRecord
  | .recordAdd node assignments | .startAdd node assignments _ _ _
  | .monitorAdd node assignments _ _ _ => bootstrapRecords node assignments
  | .markInheritors node assignments rest =>
    decommissionRecords node assignments (assignments.take (assignments.length - rest.length))
  | .recordRemove node assignments | .startRemove node assignments _ _ _
  | .monitorRemove node assignments _ _ _ => decommissionRecords node assignments assignments
  | _ => []

/-- The row whose ranges the next statement replaces or deletes. -/
def rewrites? : TopologyPhase → Option String
  | .planAdd node | .planRemove node => some node.nodeID
  | .markInheritors _ _ (pair :: _) => some pair.1
  | .finish _ (.statement (.clearNodeRanges nodeID) _ :: _)
  | .finish _ (.statement (.removeStorageNode nodeID) _ :: _) => some nodeID
  | _ => none

/-- The inheriting node that is told next. -/
def tells? : TopologyPhase → Option String
  | .markInheritors _ _ (pair :: _) => some pair.1
  | _ => none

/-- The inheriting nodes are distinct, and the departing node is not among them. -/
def Planned : TopologyPhase → Prop
  | .markInheritors node assignments rest => (∃ done, assignments = done ++ rest) ∧
    (assignments.map Prod.fst).Nodup ∧ node.nodeID ∉ assignments.map Prod.fst
  | _ => True

/-- A change does not rewrite what it has recorded itself. -/
theorem Planned.owner_ne {phase : TopologyPhase} {owner : String} {record : RangeRecord}
    (h : phase.Planned) (howner : phase.rewrites? = some owner) (hrecord : record ∈ phase.records) :
    record.owner ≠ owner := by
  cases phase with
  | markInheritors node assignments rest =>
    cases rest with
    | nil => cases howner
    | cons pair rest =>
      cases howner
      obtain ⟨⟨done, rfl⟩, hnodup, hself⟩ := h
      simp only [records, decommissionRecords, take_append_sub, List.mem_cons, List.mem_map]
        at hrecord
      rw [List.map_append, List.map_cons] at hnodup hself
      rcases hrecord with rfl | ⟨told, htold, rfl⟩
      · rintro heq
        exact hself (heq ▸ List.mem_append_right _ List.mem_cons_self)
      · rintro heq
        exact List.disjoint_of_nodup_append hnodup (List.mem_map_of_mem htold)
          (heq ▸ List.mem_cons_self)
  | recordAdd | startAdd | monitorAdd | recordRemove | startRemove | monitorRemove => cases howner
  | _ => cases hrecord

end TopologyPhase

namespace Topology

variable {t t' : Topology} {env : TopologyEnv} {hash : String → UInt64} {phase : TopologyPhase}
  {next : Option TopologyPhase}

/-! ## What a turn does to the records -/

/-- A turn keeps the records of the rows that it does not rewrite, and the change that goes on has
recorded what it says. -/
structure RecordTurn (t t' : Topology) (phase : TopologyPhase) (next : Option TopologyPhase) :
    Prop where
  others : ∀ record : RangeRecord, phase.rewrites? ≠ some record.owner →
    record.Kept t.metadataStore → record.Kept t'.metadataStore
  goesOn : ∀ p ∈ next, p.Planned ∧ ∀ record ∈ p.records, record.Kept t'.metadataStore

/-- The statement that tells an inheriting node reaches the database and finds its row. -/
def Tells (t : Topology) (env : TopologyEnv) (phase : TopologyPhase) : Prop :=
  ∀ owner ∈ phase.tells?, env.dbError = none ∧ (t.metadataStore.storageNodes.get? owner).isSome

/-- A turn after which the change has recorded nothing new. -/
theorem recordTurn_of_others
    (hkept : ∀ record ∈ phase.records, record.Kept t.metadataStore)
    (hothers : ∀ record : RangeRecord, record.Kept t.metadataStore → record.Kept t'.metadataStore)
    (hnext : ∀ p ∈ next, p.Planned ∧ p.records ⊆ phase.records) : RecordTurn t t' phase next where
  others record _ := hothers record
  goesOn p hp := ⟨(hnext p hp).1, fun record hrecord =>
    hothers record (hkept record ((hnext p hp).2 hrecord))⟩

/-- The same, if the rows are as before. -/
theorem recordTurn_of_same
    (hkept : ∀ record ∈ phase.records, record.Kept t.metadataStore)
    (hrows : t'.metadataStore.storageNodes = t.metadataStore.storageNodes)
    (hnext : ∀ p ∈ next, p.Planned ∧ p.records ⊆ phase.records) : RecordTurn t t' phase next :=
  recordTurn_of_others hkept (fun _ h => h.congr (by rw [hrows])) hnext

/-- The next inheriting node is told. -/
theorem recordTurn_markInheritors {node : StorageNode} {done rest : Assignments}
    {pair : String × List KeyRange} {store : MetadataStore}
    (hplanned : (TopologyPhase.markInheritors node (done ++ pair :: rest) (pair :: rest)).Planned)
    (hkept : ∀ record ∈ (TopologyPhase.markInheritors node (done ++ pair :: rest)
      (pair :: rest)).records, record.Kept t.metadataStore)
    (hstore : t.metadataStore.updateNodeRanges pair.1
      (Assignments.inheritedRanges node.nodeID pair.1 pair.2) [] = .ok store) :
    RecordTurn t { t with metadataStore := store }
      (.markInheritors node (done ++ pair :: rest) (pair :: rest))
      (some (.markInheritors node (done ++ pair :: rest) rest)) := by
  have hdone : done ++ pair :: rest = (done ++ [pair]) ++ rest := by simp
  refine ⟨fun record hne hrecord => hrecord.updateRow_of_ne hstore
    fun heq => hne (congrArg some heq.symm), ?_⟩
  rintro p ⟨⟩
  refine ⟨⟨⟨done ++ [pair], hdone⟩, hplanned.2⟩, fun record hrecord => ?_⟩
  simp only [TopologyPhase.records, TopologyPhase.decommissionRecords] at hrecord
  rw [List.mem_cons] at hrecord
  have hold : record ∈ (TopologyPhase.markInheritors node (done ++ pair :: rest)
      (pair :: rest)).records → record.Kept store := fun hmem =>
    (hkept record hmem).updateRow_of_ne hstore (hplanned.owner_ne rfl hmem)
  rcases hrecord with heq | hrecord
  · exact hold (heq ▸ List.mem_cons_self)
  · rw [hdone, TopologyPhase.take_append_sub, List.map_append, List.mem_append] at hrecord
    rcases hrecord with hrecord | hrecord
    · refine hold (List.mem_cons_of_mem _ ?_)
      rw [TopologyPhase.take_append_sub]
      exact hrecord
    · rw [List.map_singleton, List.mem_singleton] at hrecord
      rw [hrecord]
      exact RangeRecord.kept_updateNodeRanges hstore

/-- A statement at the end of a monitor. -/
theorem kept_exec {now : Int} {s s' : MetadataStore} {statement : Statement} {record : RangeRecord}
    {nodeID : String} {fatal : Bool} {rest : List Chore}
    (hs : statement.exec now s = .ok s')
    (hne : (TopologyPhase.finish nodeID (.statement statement fatal :: rest)).rewrites? ≠
      some record.owner) (h : record.Kept s) : record.Kept s' := by
  cases statement with
  | updateNodeState id state => exact h.updateRow hs (fun _ => rfl) fun _ => rfl
  | updateStorageNodeStatus id status => exact h.updateStorageNodeStatus hs
  | clearNodeRanges id => exact h.updateRow_of_ne hs fun heq => hne (congrArg some heq.symm)
  | removeStorageNode id => exact h.removeStorageNode hs fun heq => hne (congrArg some heq.symm)
  | finishPendingChange changeID status errorMessage =>
    exact h.congr (by rw [storageNodes_finishPendingChange hs])

theorem recordTurn_turn (hplanned : phase.Planned)
    (hkept : ∀ record ∈ phase.records, record.Kept t.metadataStore) (htells : t.Tells env phase)
    (h : t.turn hash env phase = some (t', next)) : RecordTurn t t' phase next := by
  cases turned_of_turn h with
  | refused | ended | rebuildRing | executing => exact recordTurn_of_same hkept rfl (by simp)
  | insertNode hstore =>
    refine recordTurn_of_others hkept (fun _ hrecord => hrecord.addStorageNode hstore) ?_
    rintro p ⟨⟩
    exact ⟨trivial, List.nil_subset _⟩
  | planAdd _ hstore =>
    refine ⟨fun record hne hrecord => hrecord.updateRow_of_ne hstore
      fun heq => hne (congrArg some heq.symm), ?_⟩
    rintro p ⟨⟩
    refine ⟨trivial, fun record hrecord => ?_⟩
    rw [List.mem_singleton.mp hrecord]
    exact RangeRecord.kept_updateNodeRanges hstore
  | recordAdd hstore | recordRemove hstore =>
    refine recordTurn_of_same hkept (MetadataStore.storageNodes_addPendingChange hstore) ?_
    rintro p ⟨⟩
    exact ⟨trivial, List.Subset.refl _⟩
  | startAdd | answerAdd | waitAdd | startRemove | answerRemove | waitRemove =>
    refine recordTurn_of_same hkept rfl ?_
    rintro p ⟨⟩
    exact ⟨trivial, List.Subset.refl _⟩
  | setNormal hstore | setLeaving hstore =>
    refine recordTurn_of_others hkept (fun _ hrecord =>
      hrecord.updateRow hstore (fun _ => rfl) fun _ => rfl) ?_
    rintro p ⟨⟩
    exact ⟨trivial, List.nil_subset _⟩
  | setDraining hstore =>
    refine recordTurn_of_others hkept (fun _ hrecord => hrecord.updateStorageNodeStatus hstore) ?_
    rintro p ⟨⟩
    exact ⟨trivial, List.nil_subset _⟩
  | planRemove hassignments hstore =>
    refine ⟨fun record hne hrecord => hrecord.updateRow_of_ne hstore
      fun heq => hne (congrArg some heq.symm), ?_⟩
    rintro p ⟨⟩
    obtain ⟨hnodup, hself⟩ := assignments_removed hassignments
    refine ⟨⟨⟨[], rfl⟩, hnodup, hself⟩, fun record hrecord => ?_⟩
    simp only [TopologyPhase.records, TopologyPhase.decommissionRecords, Nat.sub_self,
      List.take_zero, List.map_nil, List.mem_singleton] at hrecord
    rw [hrecord]
    exact RangeRecord.kept_updateNodeRanges hstore
  | markInheritor hstore =>
    have hplanned' := hplanned
    obtain ⟨⟨done, rfl⟩, -⟩ := hplanned'
    exact recordTurn_markInheritors hplanned hkept (TopologyEnv.db_eq_ok hstore)
  | @markFailed _ _ _ pair err hstore =>
    -- the node has a row and the database is reached
    obtain ⟨hdb, hrow⟩ := htells pair.1 rfl
    obtain ⟨row, hrow⟩ := Option.isSome_iff_exists.mp hrow
    simp [TopologyEnv.db, hdb, MetadataStore.updateNodeRanges, MetadataStore.updateRow, hrow]
      at hstore
  | marked =>
    refine recordTurn_of_same hkept rfl ?_
    rintro p ⟨⟩
    refine ⟨trivial, ?_⟩
    simp only [TopologyPhase.records, List.length_nil, Nat.sub_zero, List.take_length]
    exact List.Subset.refl _
  | statement hstore =>
    refine ⟨fun record hne => kept_exec hstore hne, ?_⟩
    rintro p ⟨⟩
    exact ⟨trivial, by rintro record ⟨⟩⟩
  | _ =>
    refine recordTurn_of_same hkept rfl ?_
    rintro p ⟨⟩
    exact ⟨trivial, List.nil_subset _⟩

/-! ## Runs -/

/-- All changes in progress find what they have recorded. -/
def RecordsKept (s : System) : Prop :=
  ∀ p ∈ s.phases, p.Planned ∧ ∀ record ∈ p.records, record.Kept s.state.metadataStore

/-- A change rewrites or deletes a row only if no other change in progress has a record there, and
it tells an inheriting node of its ranges. -/
def SoleWriter (s : System) : Turn → Prop
  | .start _ _ _ => True
  | .advance id env => ∀ phase ∈ s.phase? id, s.state.Tells env phase ∧
    ∀ owner ∈ phase.rewrites?, ∀ p ∈ s.before id ++ s.after id, ∀ record ∈ p.records,
      record.owner ≠ owner

instance (t : Topology) (env : TopologyEnv) : DecidablePred (t.Tells env) := fun phase =>
  inferInstanceAs (Decidable (∀ owner ∈ phase.tells?, _ ∧ _))

instance (s : System) : (turn : Turn) → Decidable (SoleWriter s turn)
  | .start _ _ _ => inferInstanceAs (Decidable True)
  | .advance id env => inferInstanceAs (Decidable (∀ phase ∈ s.phase? id, s.state.Tells env phase ∧
    ∀ owner ∈ phase.rewrites?, ∀ p ∈ s.before id ++ s.after id, ∀ record ∈ p.records,
      record.owner ≠ owner))

theorem recordsKept_step (s : System) (turn : Turn) (s' : System) (hI : RecordsKept s)
    (hsole : SoleWriter s turn) (hstep : step hash s turn = some s') : RecordsKept s' := by
  cases turn with
  | start id env request =>
    obtain ⟨hstate, hphases⟩ := Concurrent.step_start hstep
    intro p hp
    rw [hstate]
    rw [hphases] at hp
    rcases List.mem_append.mp hp with hp | hp
    · exact hI p hp
    · cases request <;> rw [List.mem_singleton.mp hp] <;> exact ⟨trivial, by rintro record ⟨⟩⟩
  | advance id env =>
    obtain ⟨phase, next, hphase, hturn, hbefore, hafter⟩ := Concurrent.step_advance hstep
    obtain ⟨htells, hothers⟩ := hsole phase hphase
    have hmem : ∀ p ∈ s.before id ++ s.after id, p ∈ s.phases := by
      intro p hp
      rw [hbefore]
      rcases List.mem_append.mp hp with hp | hp
      · exact List.mem_append_left _ hp
      · exact List.mem_append_right _ (List.mem_cons_of_mem _ hp)
    obtain ⟨hplanned, hkept⟩ := hI phase (by rw [hbefore]; simp)
    have hrecords := recordTurn_turn hplanned hkept htells hturn
    intro p hp
    rw [hafter] at hp
    rcases List.mem_append.mp hp with hp | hp
    · obtain ⟨hpPlanned, hpKept⟩ := hI p (hmem p hp)
      refine ⟨hpPlanned, fun record hrecord => hrecords.others record ?_ (hpKept record hrecord)⟩
      intro hrewrites
      exact hothers record.owner hrewrites p hp record hrecord rfl
    · exact hrecords.goesOn p (Option.mem_toList.mp hp)

/-- From any cluster with no change in progress, in every interleaving of additions, removals, their
monitors and rollbacks whose turns all have the rows they rewrite to themselves: every change in
progress finds the ranges that it has recorded, with the nodes that wait for them and with the node
that gives them away. -/
theorem changes_keep_ranges {turns : List Turn} {s : System}
    (hsole : AllSteps (step hash) SoleWriter (.quiet t) turns)
    (hr : run (step hash) (.quiet t) turns = some s) :
    ∀ p ∈ s.phases, ∀ record ∈ p.records, record.Kept s.state.metadataStore := by
  have hinit : RecordsKept (.quiet t) := by
    rintro p ⟨⟩
  intro p hp
  exact (run_invariant recordsKept_step hinit hsole hr p hp).2

end Topology

namespace Sample

/-- Three nodes on the ring, each the heir of the one before it. -/
def threeInARow : Topology :=
  { Topology.init with
    metadataStore := ⟨Map.ofList (["a", "b", "c"].map fun id =>
      (id, ⟨"host", 1, .active, .normal, 1, [], []⟩)), ∅⟩
    hashRing := ["a", "b", "c"].foldl (fun ring id => ring.addNode firstLetter id 1) .new }

/-- The node `a` is to leave, to the first turn of its monitor. -/
def firstDrains : List Topology.Turn := callOf 0 11 (.removeStorageNodeV2 "a" true)

/-- Its heir is to leave as well. -/
def heirDrains : List Topology.Turn := firstDrains ++ callOf 1 6 (.removeStorageNodeV2 "b" true)

/-- And so is the node whose heir it is. -/
def leavingInherits : List Topology.Turn :=
  firstDrains ++ callOf 1 7 (.removeStorageNodeV2 "c" true)

/-- What `a` gives to `b`. -/
def moved : TokenRange := ⟨99, 97⟩

end Sample

open Sample in
theorem changes_keep_ranges_firstDrains :
    ∃ s, run (Topology.step firstLetter) (.quiet threeInARow) firstDrains = some s ∧
      (RangeRecord.mk "b" [⟨moved, "a", "b", .pending⟩] []).Kept s.state.metadataStore := by
  have hrun : (run (Topology.step firstLetter) (.quiet threeInARow) firstDrains).map (fun s =>
      decide (∃ p ∈ s.phases, RangeRecord.mk "b" [⟨moved, "a", "b", .pending⟩] [] ∈ p.records)) =
      some true := by
    decide +kernel
  have hall : AllSteps (Topology.step firstLetter) Topology.SoleWriter (.quiet threeInARow)
      firstDrains := by
    decide +kernel
  obtain ⟨s, hs, hdec⟩ := Option.map_eq_some_iff.mp hrun
  obtain ⟨p, hp, hrecord⟩ := of_decide_eq_true hdec
  exact ⟨s, hs, Topology.changes_keep_ranges hall hs p hp _ hrecord⟩

open Sample in
/-- The heir of `a` does not wait for its range any more when it is to leave itself. And `a`, which
is leaving, does not give its range away any more when it is the heir of another node. -/
theorem removals_wipe_out_ranges :
    (∃ s, run (Topology.step firstLetter) (.quiet threeInARow) heirDrains = some s ∧
      (∃ p ∈ s.phases, RangeRecord.mk "b" [⟨moved, "a", "b", .pending⟩] [] ∈ p.records) ∧
      (s.state.metadataStore.storageNodes.get? "b").map NodeRow.pendingRanges = some []) ∧
    (∃ s, run (Topology.step firstLetter) (.quiet threeInARow) leavingInherits = some s ∧
      (∃ p ∈ s.phases, RangeRecord.mk "a" [] [⟨moved, "a", "b", .pending⟩] ∈ p.records) ∧
      s.state.metadataStore.state? "a" = some .leaving ∧
      (s.state.metadataStore.storageNodes.get? "a").map NodeRow.leavingRanges = some []) := by
  have hfirst : (run (Topology.step firstLetter) (.quiet threeInARow) heirDrains).map (fun s =>
      decide ((∃ p ∈ s.phases, RangeRecord.mk "b" [⟨moved, "a", "b", .pending⟩] [] ∈ p.records) ∧
        (s.state.metadataStore.storageNodes.get? "b").map NodeRow.pendingRanges = some [])) =
      some true := by
    decide +kernel
  have hsecond : (run (Topology.step firstLetter) (.quiet threeInARow) leavingInherits).map (fun s =>
      decide ((∃ p ∈ s.phases, RangeRecord.mk "a" [] [⟨moved, "a", "b", .pending⟩] ∈ p.records) ∧
        s.state.metadataStore.state? "a" = some .leaving ∧
        (s.state.metadataStore.storageNodes.get? "a").map NodeRow.leavingRanges = some [])) =
      some true := by
    decide +kernel
  obtain ⟨s, hs, hdec⟩ := Option.map_eq_some_iff.mp hfirst
  obtain ⟨s', hs', hdec'⟩ := Option.map_eq_some_iff.mp hsecond
  exact ⟨⟨s, hs, of_decide_eq_true hdec⟩, ⟨s', hs', of_decide_eq_true hdec'⟩⟩

end PairDB.Coordinator
