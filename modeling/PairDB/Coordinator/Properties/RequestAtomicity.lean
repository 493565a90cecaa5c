import PairDB.Coordinator.Properties.Membership

/-!
# What a refused request leaves in the tables

`AddStorageNodeV2` and `RemoveStorageNodeV2` write the metadata store in several statements and
return after the first one that fails, without undoing the others.

A refused request has left the tables as they were if and only if no statement had gone through
before, or every one wrote into its row what was there already (`refused_unchanged_iff`). How the
rows differ at each point of a removal is `removalWrites`.
-/

namespace PairDB.Coordinator

open Infra

namespace Topology

variable {t s s' : Topology} {env : TopologyEnv} {hash : String → UInt64} {phase : TopologyPhase}
  {next : Option TopologyPhase} {envs : List TopologyEnv}

/-! ## What a removal has written -/

/-- The inheriting nodes whose rows were updated; `envs` are the surroundings of the updates. -/
def told (assignments : Assignments) (envs : List TopologyEnv) : Assignments :=
  ((assignments.zip envs).filter fun p => p.2.dbError.isNone).map Prod.fst

/-- What the statements of a removal have made of a row. -/
def removed (nodeID : String) (update : NodeRow → NodeRow) (inheritors : Assignments) (id : String)
    (row : NodeRow) : NodeRow :=
  if id = nodeID then update row
  else
    match inheritors.lookup id with
    | none => row
    | some ranges =>
      { row with
        pendingRanges := Assignments.inheritedRanges nodeID id ranges
        leavingRanges := [] }

/-- What the request has made of the rows when it comes to a phase, after turns in `envs`. -/
def removalWrites (envs : List TopologyEnv) : TopologyPhase → String → NodeRow → NodeRow
  | .setLeaving node => removed node.nodeID (fun row => { row with status := .draining }) []
  | .planRemove node =>
    removed node.nodeID (fun row => { row with status := .draining, state := .leaving }) []
  | .markInheritors node assignments _ | .recordRemove node assignments =>
    removed node.nodeID
      (fun row => { row with
        status := .draining
        state := .leaving
        pendingRanges := []
        leavingRanges := Assignments.leavingRanges node.nodeID assignments })
      -- the six turns before are the lock, two lookups and three updates of the row
      (told assignments (envs.drop 6))
  | _ => fun _ row => row

/-- The rows are those of before with what the request has written, and no change is recorded. -/
structure Written (t s : Topology) (write : String → NodeRow → NodeRow) : Prop where
  changes : s.metadataStore.pendingChanges = t.metadataStore.pendingChanges
  rows : ∀ id, s.metadataStore.storageNodes.get? id =
    (t.metadataStore.storageNodes.get? id).map (write id)

/-- One more update. -/
theorem Written.updateRow {write write' : String → NodeRow → NodeRow} {nodeID : String}
    {update : NodeRow → NodeRow} {store : MetadataStore} (h : Written t s write)
    (hstore : s.metadataStore.updateRow nodeID update = .ok store)
    (hself : ∀ row, update (write nodeID row) = write' nodeID row)
    (hothers : ∀ id, id ≠ nodeID → write' id = write id) :
    Written t { s with metadataStore := store } write' := by
  obtain ⟨hchanges, row, hrow, hget⟩ := MetadataStore.get?_updateRow hstore
  refine ⟨hchanges.trans h.changes, fun id => ?_⟩
  simp only [hget]
  split
  · next heq =>
    subst heq
    rw [h.rows] at hrow
    obtain ⟨row', hrow', rfl⟩ := Option.map_eq_some_iff.mp hrow
    rw [hrow', Option.map_some, hself]
  · next hne =>
    rw [hothers id (Ne.symm hne)]
    exact h.rows id

theorem Written.congr {write write' : String → NodeRow → NodeRow} (h : Written t s write)
    (hsame : ∀ id row, t.metadataStore.storageNodes.get? id = some row →
      write' id row = write id row) : Written t s write' where
  changes := h.changes
  rows id := by
    rw [h.rows]
    cases hrow : t.metadataStore.storageNodes.get? id with
    | none => rfl
    | some row => rw [Option.map_some, Option.map_some, hsame id row hrow]

/-- A row that was not there has not been written. -/
theorem Written.get?_eq_none {write : String → NodeRow → NodeRow} {id : String}
    (h : Written t s write) (hnone : s.metadataStore.storageNodes.get? id = none) :
    t.metadataStore.storageNodes.get? id = none := by
  rw [h.rows, Option.map_eq_none_iff] at hnone
  exact hnone

/-- The tables are as before if and only if nothing new was written. -/
theorem Written.unchanged_iff {write : String → NodeRow → NodeRow} (h : Written t s write) :
    (s.metadataStore.pendingChanges = t.metadataStore.pendingChanges ∧
      ∀ id, s.metadataStore.storageNodes.get? id = t.metadataStore.storageNodes.get? id) ↔
    ∀ id row, t.metadataStore.storageNodes.get? id = some row → write id row = row := by
  constructor
  · rintro ⟨-, hrows⟩ id row hrow
    have hsame := hrows id
    rw [h.rows, hrow, Option.map_some, Option.some.injEq] at hsame
    exact hsame
  · intro hwrite
    refine ⟨h.changes, fun id => ?_⟩
    rw [h.rows]
    cases hrow : t.metadataStore.storageNodes.get? id with
    | none => rfl
    | some row => rw [Option.map_some, hwrite id row hrow]

/-! ## The inheriting nodes -/

theorem told_of_length {assignments : Assignments} (h : assignments.length = envs.length)
    (env : TopologyEnv) : told assignments (envs ++ [env]) = told assignments envs := by
  have hzip : (assignments ++ []).zip (envs ++ [env]) = assignments.zip envs ++ [].zip [env] :=
    List.zip_append h
  rw [List.append_nil, List.zip_nil_left, List.append_nil] at hzip
  rw [told, told, hzip]

theorem told_append {done : Assignments} {pair : String × List KeyRange} {rest : Assignments}
    (h : done.length = envs.length) (env : TopologyEnv) :
    told (done ++ pair :: rest) (envs ++ [env]) =
      told (done ++ pair :: rest) envs ++ if env.dbError.isNone then [pair] else [] := by
  have hbefore : (done ++ pair :: rest).zip (envs ++ []) = done.zip envs ++ (pair :: rest).zip [] :=
    List.zip_append h
  rw [List.append_nil] at hbefore
  rw [told, told, List.zip_append h, hbefore]
  simp only [List.zip_cons_cons, List.zip_nil_right, List.filter_append, List.map_append,
    List.append_nil]
  cases herr : env.dbError <;> simp [herr]

/-- Nobody is told before their turn. -/
theorem lookup_told {done rest : Assignments} {pair : String × List KeyRange}
    (h : done.length = envs.length) (hnodup : ((done ++ pair :: rest).map Prod.fst).Nodup) :
    (told (done ++ pair :: rest) envs).lookup pair.1 = none := by
  have hzip : (done ++ pair :: rest).zip (envs ++ []) = done.zip envs ++ (pair :: rest).zip [] :=
    List.zip_append h
  rw [List.append_nil, List.zip_nil_right, List.append_nil] at hzip
  rw [told, hzip, List.lookup_eq_none_iff]
  intro p hp
  obtain ⟨q, hq, rfl⟩ := List.mem_map.mp hp
  have hmem : q.1 ∈ done := (List.of_mem_zip (List.mem_filter.mp hq).1).1
  rw [List.map_append, List.map_cons, List.nodup_append] at hnodup
  have hne := hnodup.2.2 q.1.1 (List.mem_map_of_mem hmem) pair.1 List.mem_cons_self
  simpa using Ne.symm hne

/-! ## The stages of a request -/

/-- What has become of the tables when a request comes to a phase, and whether it has been
answered. -/
def RequestStage (t : Topology) (envs : List TopologyEnv) (s : Topology) : TopologyPhase → Prop
  | .lockAdd _ | .insertNode _ =>
    s.metadataStore = t.metadataStore ∧ s.answers = t.answers
  | .planAdd _ | .recordAdd _ _ =>
    (∃ id, t.metadataStore.storageNodes.get? id = none ∧
      s.metadataStore.storageNodes.get? id ≠ none) ∧ s.answers = t.answers
  | .lockRemove id force => envs.length = 0 ∧
    Written t s (removalWrites envs (.lockRemove id force)) ∧ s.answers = t.answers
  | .findNode id force => envs.length = 1 ∧
    Written t s (removalWrites envs (.findNode id force)) ∧ s.answers = t.answers
  | .countNodes node force => envs.length = 2 ∧
    Written t s (removalWrites envs (.countNodes node force)) ∧ s.answers = t.answers
  | .setDraining node => envs.length = 3 ∧
    Written t s (removalWrites envs (.setDraining node)) ∧ s.answers = t.answers
  | .setLeaving node => envs.length = 4 ∧
    Written t s (removalWrites envs (.setLeaving node)) ∧ s.answers = t.answers
  | .planRemove node => envs.length = 5 ∧
    Written t s (removalWrites envs (.planRemove node)) ∧ s.answers = t.answers
  | .markInheritors node assignments rest =>
    (∃ done, assignments = done ++ rest ∧ envs.length = 6 + done.length) ∧
    (assignments.map Prod.fst).Nodup ∧ node.nodeID ∉ assignments.map Prod.fst ∧
    Written t s (removalWrites envs (.markInheritors node assignments rest)) ∧
    s.answers = t.answers
  | .recordRemove node assignments =>
    Written t s (removalWrites envs (.recordRemove node assignments)) ∧ s.answers = t.answers
  | .startAdd _ _ _ _ _ | .startRemove _ _ _ _ _ => s.answers = t.answers
  | .monitorAdd _ _ _ _ _ | .setNormal _ _ _ | .monitorRemove _ _ _ _ _ | .finish _ _ =>
    ∃ message, s.answers = t.answers ++ [.ok message]
  | .fetchNodes | .rebuildRing _ | .executing _ _ => False

/-- An inheriting node is told of its ranges, or the update fails. -/
theorem written_markInheritors {node : StorageNode} {done rest : Assignments}
    {pair : String × List KeyRange} (hlen : envs.length = 6 + done.length)
    (hnodup : ((done ++ pair :: rest).map Prod.fst).Nodup) (hne : node.nodeID ≠ pair.1)
    (h : Written t s (removalWrites envs (.markInheritors node (done ++ pair :: rest)
      (pair :: rest)))) :
    Written t { s with
      metadataStore := (env.db (s.metadataStore.updateNodeRanges pair.1
        (Assignments.inheritedRanges node.nodeID pair.1 pair.2) [])).toOption.getD s.metadataStore }
      (removalWrites (envs ++ [env]) (.markInheritors node (done ++ pair :: rest) rest)) := by
  have hdrop : done.length = (envs.drop 6).length := by
    rw [List.length_drop]
    omega
  have hsplit : (envs ++ [env]).drop 6 = envs.drop 6 ++ [env] :=
    List.drop_append_of_le_length (by omega)
  have hnone := lookup_told hdrop hnodup
  simp only [removalWrites, hsplit, told_append hdrop] at h ⊢
  cases herr : env.dbError with
  | some err =>
    simp only [TopologyEnv.db, herr, Option.isNone_some, Bool.false_eq_true, if_false,
      List.append_nil]
    exact h
  | none =>
    simp only [TopologyEnv.db, herr, Option.isNone_none, if_true]
    have hothers : ∀ update id, id ≠ pair.1 →
        removed node.nodeID update (told (done ++ pair :: rest) (envs.drop 6) ++ [pair]) id =
          removed node.nodeID update (told (done ++ pair :: rest) (envs.drop 6)) id := by
      intro update id hid
      funext row
      have hlookup : [pair].lookup id = none := by
        rw [List.lookup_eq_none_iff]
        simpa using hid
      simp only [removed, List.lookup_append, hlookup, Option.or_none]
    cases hstore : s.metadataStore.updateNodeRanges pair.1
        (Assignments.inheritedRanges node.nodeID pair.1 pair.2) [] with
    | error err =>
      -- there is no such row
      refine h.congr fun id row hrow => ?_
      refine congrFun (hothers _ id ?_) row
      rintro rfl
      have habsent : s.metadataStore.storageNodes.get? pair.1 = none := by
        cases hget : s.metadataStore.storageNodes.get? pair.1 with
        | none => rfl
        | some row =>
          simp [MetadataStore.updateNodeRanges, MetadataStore.updateRow, hget] at hstore
      rw [h.get?_eq_none habsent] at hrow
      cases hrow
    | ok store =>
      have hlast : [pair].lookup pair.1 = some pair.2 := by
        obtain ⟨inheritor, ranges⟩ := pair
        simp [List.lookup]
      refine h.updateRow hstore (fun row => ?_) (hothers _)
      simp [removed, Ne.symm hne, hnone, hlast, List.lookup_append]

theorem requestStage_turn (envs : List TopologyEnv) (s : Topology) (phase : TopologyPhase)
    (env : TopologyEnv) (s' : Topology) (q : TopologyPhase) (h : RequestStage t envs s phase)
    (ht : s.turn hash env phase = some (s', some q)) : RequestStage t (envs ++ [env]) s' q := by
  cases turned_of_turn ht with
  | @insertNode req store hinsert =>
    obtain ⟨hstore, hanswers⟩ := h
    obtain ⟨habsent, -, hget⟩ := MetadataStore.get?_addStorageNode hinsert
    refine ⟨⟨req.node.nodeID, hstore ▸ habsent, ?_⟩, hanswers⟩
    simp [hget]
  | planAdd _ hupdate =>
    obtain ⟨⟨id, habsent, hpresent⟩, hanswers⟩ := h
    obtain ⟨-, row, -, hget⟩ := MetadataStore.get?_updateRow hupdate
    refine ⟨⟨id, habsent, ?_⟩, hanswers⟩
    simp only [hget]
    split
    · exact Option.some_ne_none _
    · exact hpresent
  | recordAdd | recordRemove => exact h.2
  | answerAdd | answerRemove => exact ⟨_, congrArg (· ++ [_]) h⟩
  | lockRemove | findNode | countNodes =>
    obtain ⟨hlen, hwritten, hanswers⟩ := h
    exact ⟨by simp [hlen], ⟨hwritten.changes, hwritten.rows⟩, hanswers⟩
  | setDraining hupdate | setLeaving hupdate =>
    obtain ⟨hlen, hwritten, hanswers⟩ := h
    refine ⟨by simp [hlen], hwritten.updateRow hupdate ?_ ?_, hanswers⟩
    · intro row
      simp [removalWrites, removed]
    · intro id hid
      funext row
      simp [removalWrites, removed, hid]
  | planRemove hassignments hupdate =>
    obtain ⟨hlen, hwritten, hanswers⟩ := h
    have hdrop : (envs ++ [env]).drop 6 = [] := List.drop_eq_nil_of_le (by simp [hlen])
    obtain ⟨hnodup, hself⟩ := assignments_removed hassignments
    refine ⟨⟨[], rfl, by simp [hlen]⟩, hnodup, hself, hwritten.updateRow hupdate ?_ ?_, hanswers⟩
    · intro row
      simp [removalWrites, removed]
    · intro id hid
      funext row
      simp [removalWrites, removed, hid, hdrop, told]
  | @markInheritor node _ rest pair _ hstore | @markFailed node _ rest pair _ hstore =>
    obtain ⟨⟨done, rfl, hlen⟩, hnodup, hself, hwritten, hanswers⟩ := h
    have hne : node.nodeID ≠ pair.1 := by
      rintro heq
      exact hself (heq ▸ List.mem_map_of_mem (List.mem_append_right _ List.mem_cons_self))
    have htold := @written_markInheritors t s env envs node done rest pair hlen hnodup hne hwritten
    rw [hstore] at htold
    exact ⟨⟨done ++ [pair], by simp, by simp [hlen, Nat.add_assoc]⟩, hnodup, hself, htold, hanswers⟩
  | marked =>
    obtain ⟨⟨done, rfl, hlen⟩, hnodup, hself, hwritten, hanswers⟩ := h
    refine ⟨?_, hanswers⟩
    have hdrop : (envs ++ [env]).drop 6 = envs.drop 6 ++ [env] :=
      List.drop_append_of_le_length (by omega)
    have hlength : (done ++ []).length = (envs.drop 6).length := by
      rw [List.append_nil, List.length_drop]
      omega
    have htold := told_of_length hlength env
    simp only [removalWrites, hdrop, htold] at hwritten ⊢
    exact hwritten
  | fetchNodes => exact h.elim
  | _ => exact h

/-- The phases in which a call can end. After the answer it ends silently. -/
def EndsIn (s s' : Topology) : TopologyPhase → Prop
  | .startAdd _ _ _ _ _ | .monitorAdd _ _ _ _ _ | .markInheritors _ _ _ | .startRemove _ _ _ _ _
  | .monitorRemove _ _ _ _ _ => False
  | .setNormal _ _ _ | .finish _ _ => s'.answers = s.answers
  | _ => True

/-- The turn in which a call ends writes nothing into the tables. -/
theorem metadataStore_of_ended (ht : s.turn hash env phase = some (s', none)) :
    s'.metadataStore = s.metadataStore ∧ EndsIn s s' phase := by
  cases turned_of_turn ht with
  | refused hphase => exact ⟨rfl, by cases phase <;> trivial⟩
  | ended hphase => exact ⟨rfl, by cases phase <;> trivial⟩
  | rebuildRing | executing => exact ⟨rfl, trivial⟩

/-- The node rows and the records of the changes are as before. -/
def Unchanged (t s : Topology) : Prop :=
  s.metadataStore.pendingChanges = t.metadataStore.pendingChanges ∧
    ∀ id, s.metadataStore.storageNodes.get? id = t.metadataStore.storageNodes.get? id

/-- The request, refused in this phase, has written nothing new: an addition has not stored its node,
and every update of a removal wrote into its row what was there. -/
def Unwritten (t : Topology) (envs : List TopologyEnv) : TopologyPhase → Prop
  | .planAdd _ | .recordAdd _ _ => False
  | p => ∀ id row, t.metadataStore.storageNodes.get? id = some row → removalWrites envs p id row = row

theorem unchanged_iff_of_refused {err : RpcError} (h : RequestStage t envs s phase)
    (ht : s.turn hash env phase = some (s', none))
    (herr : s'.answers = t.answers ++ [.error err]) :
    Unchanged t s' ↔ Unwritten t envs phase := by
  obtain ⟨hstore, hends⟩ := metadataStore_of_ended ht
  rw [Unchanged, hstore]
  cases phase with
  | lockAdd | insertNode =>
    rw [h.1]
    simp [Unwritten, removalWrites]
  | planAdd | recordAdd =>
    obtain ⟨⟨nodeID, habsent, hpresent⟩, -⟩ := h
    refine iff_of_false ?_ id
    rintro ⟨-, hrows⟩
    exact hpresent ((hrows nodeID).trans habsent)
  | lockRemove | findNode | countNodes | setDraining | setLeaving | planRemove =>
    exact h.2.1.unchanged_iff
  | recordRemove => exact h.1.unchanged_iff
  | setNormal | finish =>
    -- the request was answered before
    obtain ⟨message, hanswers⟩ := h
    rw [show s'.answers = s.answers from hends, hanswers, List.append_cancel_left_eq] at herr
    cases herr
  | startAdd | monitorAdd | markInheritors | startRemove | monitorRemove => exact hends.elim
  | fetchNodes | rebuildRing | executing => exact h.elim

/-- A request that changes the topology. -/
def IsChange : TopologyRequest → Prop
  | .addStorageNodeV2 _ | .removeStorageNodeV2 _ _ => True
  | .updateHashRing | .executeStreaming _ _ => False

/--
**What a refused request leaves.** A request to add or to remove a node is refused in a phase, after
turns in surroundings `envs` in which no other call has a turn. Then the node rows and the records
of the changes are as before if and only if nothing new had been written when it came to that phase.
-/
theorem refused_unchanged_iff {id : Nat} {env₀ : TopologyEnv} {request : TopologyRequest}
    {phase₀ : TopologyPhase} {err : RpcError} (hrequest : IsChange request)
    (henter : enter env₀ request = some phase₀)
    (hrun : run (step hash) (.single t id phase₀) (envs.map (.advance id)) =
      some (.single s id phase))
    (hrefused : step hash (.single s id phase) (.advance id env) = some (.quiet s'))
    (herr : s'.answers = t.answers ++ [.error err]) :
    Unchanged t s' ↔ Unwritten t envs phase := by
  have hstart : RequestStage t [] t phase₀ := by
    cases request with
    | addStorageNodeV2 req =>
      cases henter
      exact ⟨rfl, rfl⟩
    | removeStorageNodeV2 nodeID force =>
      cases henter
      refine ⟨rfl, ⟨rfl, fun id => ?_⟩, rfl⟩
      simp [removalWrites]
    | updateHashRing | executeStreaming => exact hrequest.elim
  have hstage : RequestStage t envs s phase :=
    Concurrent.runTurns_invariant requestStage_turn envs [] t phase₀ hstart
      ((Concurrent.run_single_iff id).mp hrun)
  have hturn : s.turn hash env phase = some (s', none) := by
    rw [step, Concurrent.step_single] at hrefused
    obtain ⟨⟨state, next⟩, hturn, hquiet⟩ := Option.map_eq_some_iff.mp hrefused
    cases next with
    | none =>
      cases hquiet
      exact hturn
    | some p => simp [Concurrent.System.single, Concurrent.System.quiet] at hquiet
  exact unchanged_iff_of_refused hstage hturn herr

end Topology

namespace Sample

/-- The database cannot be reached. -/
def cutOff : TopologyEnv := { calm with dbError := some "connection lost" }

/-- The turns of a request that no other call interrupts, from the cluster with one node. -/
def requested (phase : TopologyPhase) (envs : List TopologyEnv) : Option Topology.System :=
  run (Topology.step firstLetter) (.single oneNode 0 phase) (envs.map (.advance 0))

end Sample

open Sample in
/-- A node that cannot be inserted leaves no trace. -/
theorem refused_unchanged_notInserted :
    ∃ s', requested (.lockAdd joining) [calm, cutOff] = some (.quiet s') ∧
      Topology.Unchanged oneNode s' := by
  have henter : Topology.enter calm (.addStorageNodeV2 joining) = some (.lockAdd joining) := rfl
  have hrun : run (Topology.step firstLetter) (.single oneNode 0 (.lockAdd joining))
      ([calm].map (.advance 0)) = some (.single { oneNode with nodeLocks := ["n"] } 0
        (.insertNode joining)) := rfl
  have hrefused : Topology.step firstLetter (.single { oneNode with nodeLocks := ["n"] } 0
      (.insertNode joining)) (.advance 0 cutOff) = some (.quiet _) := rfl
  have hchange : Topology.IsChange (.addStorageNodeV2 joining) := trivial
  refine ⟨_, rfl, (Topology.refused_unchanged_iff hchange henter hrun hrefused rfl).mpr ?_⟩
  exact fun _ _ _ => rfl

open Sample in
/-- A removal that cannot set the state of its node leaves it draining; an addition that cannot be
recorded leaves its node bootstrapping. -/
theorem refused_requests_leave_rows :
    (∃ s', requested (.lockRemove "m" true) [calm, calm, calm, calm, cutOff] = some (.quiet s') ∧
      s'.answers = [.error ⟨.internal, "failed to update node state"⟩] ∧
      (oneNode.metadataStore.storageNodes.get? "m").map NodeRow.status = some .active ∧
      (s'.metadataStore.storageNodes.get? "m").map NodeRow.status = some .draining) ∧
    (∃ s', requested (.lockAdd joining) [calm, calm, calm, cutOff] = some (.quiet s') ∧
      s'.answers = [.error ⟨.internal, "failed to create pending change: connection lost"⟩] ∧
      oneNode.metadataStore.state? "n" = none ∧
      s'.metadataStore.state? "n" = some .bootstrapping) := by
  exact ⟨⟨_, rfl, rfl, rfl, rfl⟩, ⟨_, rfl, rfl, rfl, rfl⟩⟩

end PairDB.Coordinator
