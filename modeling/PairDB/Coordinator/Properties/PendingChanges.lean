import PairDB.Infra.Run
import PairDB.Coordinator.Properties.Membership

/-!
# What is read back of a pending change

`AddPendingChange` leaves the error message `NULL`, `GetPendingChange` cannot scan it, the time of
completion has no column, and the record goes with the row of its node. So a record is read as it
was last written if and only if it has been updated, its node has not been removed, and no time of
completion was set (`getPendingChange_eq_lastWritten_iff`).

The monitors read a record before they update it, and that read fails. In every run of the topology
no record can be read (`changes_never_read`).
-/

namespace PairDB.Coordinator

open Infra

/-! ## Updates of one record -/

/-- The fields that an update can change. -/
structure ChangeUpdate where
  status : PendingChangeStatus
  errorMessage : String
  lastUpdated : Int
  completedAt : Option Int
  progress : Map String StreamingProgress

/-- The record that is written. -/
def ChangeUpdate.applyTo (change : PendingChange) (update : ChangeUpdate) : PendingChange :=
  { change with
    status := update.status
    errorMessage := update.errorMessage
    lastUpdated := update.lastUpdated
    completedAt := update.completedAt
    progress := update.progress }

/-- What happens to a record after it was added. -/
inductive ChangeStep where
  | updatePendingChange (update : ChangeUpdate)
  | removeStorageNode (nodeID : String)

namespace ChangeStep

/-- An error leaves the tables as they are. -/
def exec (change : PendingChange) (s : MetadataStore) : ChangeStep → MetadataStore
  | .updatePendingChange update =>
    (s.updatePendingChange (update.applyTo change)).toOption.getD s
  | .removeStorageNode nodeID => (s.removeStorageNode nodeID).toOption.getD s

def isUpdate : ChangeStep → Bool
  | .updatePendingChange _ => true
  | .removeStorageNode _ => false

def removes (nodeID : String) : ChangeStep → Bool
  | .updatePendingChange _ => false
  | .removeStorageNode id => id = nodeID

/-- The record that the step writes, after another one. -/
def written (change last : PendingChange) : ChangeStep → PendingChange
  | .updatePendingChange update => update.applyTo change
  | .removeStorageNode _ => last

end ChangeStep

/-- The tables after the steps. -/
def afterSteps (change : PendingChange) (s : MetadataStore) (steps : List ChangeStep) :
    MetadataStore :=
  steps.foldl (ChangeStep.exec change) s

/-- The record that was written last. -/
def lastWritten (change : PendingChange) (steps : List ChangeStep) : PendingChange :=
  steps.foldl (ChangeStep.written change) change

namespace PendingChange

/-- The row of a record, with the message as it is stored. -/
def row (change : PendingChange) (errorMessage : Option String) : PendingChangeRow where
  type := change.type
  nodeID := change.nodeID
  affectedNodes := change.affectedNodes
  ranges := change.ranges
  startTime := change.startTime
  status := change.status
  errorMessage := errorMessage
  lastUpdated := change.lastUpdated
  progress := change.progress

end PendingChange

namespace MetadataStore

variable {s s' : MetadataStore} {change : PendingChange}

theorem get?_addPendingChange (h : s.addPendingChange change = .ok s') :
    s'.storageNodes = s.storageNodes ∧ s.storageNodes.get? change.nodeID ≠ none ∧
      ∀ id, s'.pendingChanges.get? id =
        if change.changeID = id then some (change.row none) else s.pendingChanges.get? id := by
  unfold addPendingChange at h
  split at h
  · cases h
  split at h
  · cases h
  · cases h
  · next hnode =>
    cases h
    exact ⟨rfl, by simp [hnode], fun id => Map.get?_set _ _ _ _⟩

theorem get?_pendingChanges_removeStorageNode {nodeID : String}
    (h : s.removeStorageNode nodeID = .ok s') (id : String) (row : PendingChangeRow) :
    s'.pendingChanges.get? id = some row ↔
      s.pendingChanges.get? id = some row ∧ row.nodeID ≠ nodeID := by
  unfold removeStorageNode at h
  split at h
  · cases h
  · cases h
    have hnodup : ((s.pendingChanges.toPairs.filter fun p => p.2.nodeID ≠ nodeID).map
        Prod.fst).Nodup :=
      (Map.toPairs_nodup s.pendingChanges).sublist (List.filter_sublist.map _)
    rw [Map.get?_ofList_eq_some_iff _ hnodup, List.mem_filter, Map.mem_toPairs_iff]
    simp

end MetadataStore

/-! ## The row after the steps -/

/-- The record is stored, and its node is. -/
structure Stored (change : PendingChange) (updated : Bool) (last : PendingChange)
    (s : MetadataStore) : Prop where
  node : s.storageNodes.get? change.nodeID ≠ none
  row : s.pendingChanges.get? change.changeID =
    some (last.row (if updated then some last.errorMessage else none))
  same : last.changeID = change.changeID ∧ last.nodeID = change.nodeID ∧
    ∀ update : ChangeUpdate, update.applyTo last = update.applyTo change

variable {change last : PendingChange} {s s' : MetadataStore}

theorem stored_addPendingChange (h : s.addPendingChange change = .ok s') :
    Stored change false change s' := by
  obtain ⟨hnodes, hnode, hget⟩ := MetadataStore.get?_addPendingChange h
  refine ⟨by rwa [hnodes], ?_, rfl, rfl, fun _ => rfl⟩
  rw [hget, if_pos rfl]
  rfl

theorem Stored.update {updated : Bool} (h : Stored change updated last s)
    (update : ChangeUpdate) : Stored change true (update.applyTo change)
      (ChangeStep.exec change s (.updatePendingChange update)) := by
  have hrow : s.pendingChanges.get? (update.applyTo change).changeID = _ := h.row
  have hexec : s.updatePendingChange (update.applyTo change) = .ok { s with
      pendingChanges := s.pendingChanges.set change.changeID
        ((update.applyTo last).row (some update.errorMessage)) } := by
    unfold MetadataStore.updatePendingChange
    rw [hrow]
    rfl
  rw [ChangeStep.exec, hexec]
  refine ⟨h.node, ?_, rfl, rfl, fun _ => rfl⟩
  show (s.pendingChanges.set change.changeID _).get? change.changeID = _
  rw [Map.get?_set, if_pos rfl, h.same.2.2]
  rfl

/-- The node of another record is removed. -/
theorem Stored.remove_other {updated : Bool} {nodeID : String} (h : Stored change updated last s)
    (hne : nodeID ≠ change.nodeID) :
    Stored change updated last (ChangeStep.exec change s (.removeStorageNode nodeID)) := by
  cases hs : s.removeStorageNode nodeID with
  | error err =>
    rw [ChangeStep.exec, hs]
    exact h
  | ok s' =>
    rw [ChangeStep.exec, hs]
    refine ⟨?_, ?_, h.same⟩
    · have hnode := h.node
      unfold MetadataStore.removeStorageNode at hs
      split at hs
      · cases hs
      · cases hs
        show (s.storageNodes.remove nodeID).get? change.nodeID ≠ none
        rwa [Map.get?_remove, if_neg hne]
    · refine (MetadataStore.get?_pendingChanges_removeStorageNode hs _ _).mpr ⟨h.row, ?_⟩
      rw [show (last.row (if updated then some last.errorMessage else none)).nodeID = last.nodeID
        from rfl, h.same.2.1]
      exact hne.symm

/-- The record is gone. -/
def Gone (change : PendingChange) (s : MetadataStore) : Prop :=
  s.pendingChanges.get? change.changeID = none

theorem Stored.remove {updated : Bool} (h : Stored change updated last s) :
    Gone change (ChangeStep.exec change s (.removeStorageNode change.nodeID)) := by
  cases hs : s.removeStorageNode change.nodeID with
  | error err =>
    unfold MetadataStore.removeStorageNode at hs
    split at hs
    · next hnone => exact absurd hnone h.node
    · cases hs
  | ok s' =>
    rw [ChangeStep.exec, hs]
    refine Option.eq_none_iff_forall_ne_some.mpr fun row hrow => ?_
    obtain ⟨hold, hne⟩ := (MetadataStore.get?_pendingChanges_removeStorageNode hs _ _).mp hrow
    rw [h.row, Option.some.injEq] at hold
    rw [← hold] at hne
    exact hne h.same.2.1

theorem Gone.exec (h : Gone change s) (step : ChangeStep) :
    Gone change (step.exec change s) := by
  cases step with
  | updatePendingChange update =>
    have hrow : s.pendingChanges.get? (update.applyTo change).changeID = none := h
    have herror : s.updatePendingChange (update.applyTo change) =
        .error "pending change not found" := by
      unfold MetadataStore.updatePendingChange
      rw [hrow]
    rw [ChangeStep.exec, herror]
    exact h
  | removeStorageNode nodeID =>
    cases hs : s.removeStorageNode nodeID with
    | error err =>
      rw [ChangeStep.exec, hs]
      exact h
    | ok s' =>
      rw [ChangeStep.exec, hs]
      refine Option.eq_none_iff_forall_ne_some.mpr fun row hrow => ?_
      obtain ⟨hold, -⟩ := (MetadataStore.get?_pendingChanges_removeStorageNode hs _ _).mp hrow
      rw [show s.pendingChanges.get? change.changeID = none from h] at hold
      cases hold

/-- The row after the steps, by induction on the last of them. -/
theorem stored_afterSteps (h : Stored change false change s) (steps : List ChangeStep) :
    if steps.any (ChangeStep.removes change.nodeID) then Gone change (afterSteps change s steps)
    else Stored change (steps.any ChangeStep.isUpdate) (lastWritten change steps)
      (afterSteps change s steps) := by
  induction steps using List.reverseRecOn with
  | nil => exact h
  | append_singleton steps step ih =>
    have hsteps : afterSteps change s (steps ++ [step]) =
        step.exec change (afterSteps change s steps) := by
      simp [afterSteps]
    have hlast : lastWritten change (steps ++ [step]) =
        step.written change (lastWritten change steps) := by
      simp [lastWritten]
    rw [hsteps, hlast, List.any_append, List.any_append]
    cases hgone : steps.any (ChangeStep.removes change.nodeID) with
    | true =>
      rw [hgone, if_pos rfl] at ih
      rw [Bool.true_or, if_pos rfl]
      exact ih.exec step
    | false =>
      rw [hgone] at ih
      have hstored : Stored change (steps.any ChangeStep.isUpdate) (lastWritten change steps)
        (afterSteps change s steps) := ih
      cases step with
      | updatePendingChange update =>
        simpa [ChangeStep.removes, ChangeStep.isUpdate, ChangeStep.written] using
          hstored.update update
      | removeStorageNode nodeID =>
        by_cases heq : nodeID = change.nodeID
        · subst heq
          simpa [ChangeStep.removes] using hstored.remove
        · simpa [ChangeStep.removes, ChangeStep.isUpdate, ChangeStep.written, heq] using
            hstored.remove_other heq

/-- What a stored record is read as. -/
theorem Stored.getPendingChange {updated : Bool} (h : Stored change updated last s) :
    s.getPendingChange change.changeID = .ok last ↔ updated = true ∧ last.completedAt = none := by
  unfold MetadataStore.getPendingChange
  rw [h.row]
  cases updated with
  | false => simp [PendingChange.row]
  | true =>
    have hid := h.same.1
    cases last
    simp only [PendingChange.row] at hid ⊢
    simp [hid, eq_comm]

namespace Sample

/-- The record of a removal of `m`. -/
def removalOfM : PendingChange where
  changeID := "decommission-m-0"
  type := .decommission
  nodeID := "m"
  affectedNodes := ["m"]
  ranges := []
  startTime := 0
  status := .inProgress
  errorMessage := ""
  lastUpdated := 0
  completedAt := none
  progress := ∅

/-- The monitor has given up. -/
def gaveUp : ChangeUpdate := ⟨.failed, "timeout", 1, none, ∅⟩

/-- The monitor is done. -/
def completedAtTwo : ChangeUpdate := ⟨.completed, "", 2, some 2, ∅⟩

end Sample

/-- No record has a message. -/
def MetadataStore.Unread (s : MetadataStore) : Prop :=
  ∀ id row, s.pendingChanges.get? id = some row → row.errorMessage = none

namespace MetadataStore.Unread

/-- A record without a message cannot be read. -/
theorem getPendingChange (h : s.Unread) (changeID : String) (change : PendingChange) :
    s.getPendingChange changeID ≠ .ok change := by
  unfold MetadataStore.getPendingChange
  split
  · simp
  · next row hrow =>
    rw [h _ row hrow]
    simp

theorem congr (h : s.Unread) (hsame : s'.pendingChanges = s.pendingChanges) : s'.Unread := by
  unfold Unread
  rw [hsame]
  exact h

theorem updateRow {nodeID : String} {update : NodeRow → NodeRow} (h : s.Unread)
    (hs : s.updateRow nodeID update = .ok s') : s'.Unread :=
  h.congr (get?_updateRow hs).1

theorem addPendingChange (h : s.Unread) (hs : s.addPendingChange change = .ok s') :
    s'.Unread := by
  obtain ⟨-, -, hget⟩ := get?_addPendingChange hs
  intro id row hrow
  rw [hget] at hrow
  split at hrow
  · cases hrow
    rfl
  · exact h id row hrow

theorem updateStorageNodeStatus {nodeID status : String} (h : s.Unread)
    (hs : s.updateStorageNodeStatus nodeID status = .ok s') : s'.Unread := by
  unfold MetadataStore.updateStorageNodeStatus at hs
  split at hs
  · exact h.updateRow hs
  · split at hs <;> cases hs

/-- A statement at the end of a monitor. An update does not come to pass, because the record is read
first. -/
theorem exec {now : Int} {statement : Statement} (h : s.Unread)
    (hs : statement.exec now s = .ok s') : s'.Unread := by
  cases statement with
  | updateNodeState nodeID state => exact h.updateRow hs
  | updateStorageNodeStatus nodeID status => exact h.updateStorageNodeStatus hs
  | clearNodeRanges nodeID => exact h.updateRow hs
  | removeStorageNode nodeID =>
    intro id row hrow
    exact h id row ((get?_pendingChanges_removeStorageNode hs id row).mp hrow).1
  | finishPendingChange changeID status errorMessage =>
    cases hget : s.getPendingChange changeID with
    | error err =>
      simp only [Statement.exec, hget] at hs
      cases hs
    | ok change => exact absurd hget (h.getPendingChange changeID change)

end MetadataStore.Unread

namespace Topology

variable {t t' : Topology} {env : TopologyEnv} {hash : String → UInt64} {phase : TopologyPhase}
  {next : Option TopologyPhase}

theorem unread_turn (h : t.metadataStore.Unread) (ht : t.turn hash env phase = some (t', next)) :
    t'.metadataStore.Unread := by
  cases turned_of_turn ht with
  | insertNode hstore => exact h.congr (MetadataStore.get?_addStorageNode hstore).2.1
  | planAdd _ hstore | planRemove _ hstore => exact h.updateRow hstore
  | setNormal hstore | setLeaving hstore => exact h.updateRow hstore
  | markInheritor hstore => exact h.updateRow (TopologyEnv.db_eq_ok hstore)
  | setDraining hstore => exact h.updateStorageNodeStatus hstore
  | recordAdd hstore | recordRemove hstore => exact h.addPendingChange hstore
  | statement hstore => exact h.exec hstore
  | _ => exact h

/-- From the empty tables, in every interleaving of additions, removals and their monitors, no
record of a change can be read: the update that would give it a message never comes to pass. -/
theorem changes_never_read {turns : List Turn} {s : System}
    (hr : run (step hash) (.quiet init) turns = some s) (changeID : String)
    (change : PendingChange) : s.state.metadataStore.getPendingChange changeID ≠ .ok change := by
  have hinit : init.metadataStore.Unread := by
    intro id row hrow
    cases hrow
  have hunread : s.state.metadataStore.Unread :=
    Concurrent.run_state_invariant (I := fun t : Topology => t.metadataStore.Unread) hr hinit
      fun _ _ _ _ _ => unread_turn
  exact hunread.getPendingChange changeID change

end Topology

open Sample in
theorem changes_never_read_firstLeaves :
    ∃ s, run (Topology.step firstLetter) (.quiet Topology.init) firstLeaves = some s ∧
      (s.state.metadataStore.pendingChanges.get? "decommission-m-0").isSome = true ∧
      ∀ change, s.state.metadataStore.getPendingChange "decommission-m-0" ≠ .ok change := by
  have hrun : (run (Topology.step firstLetter) (.quiet Topology.init) firstLeaves).map (fun s =>
      (s.state.metadataStore.pendingChanges.get? "decommission-m-0").isSome) = some true := by
    decide +kernel
  obtain ⟨s, hs, hsome⟩ := Option.map_eq_some_iff.mp hrun
  exact ⟨s, hs, hsome, Topology.changes_never_read hs _⟩

end PairDB.Coordinator
