import PairDB.Coordinator.Properties.Membership

/-!
# Whose streams a change waits for

A change of the topology is complete when the streams that it has started are. The source files a
stream under its target alone, and refuses to start another one while it has one filed there; the
monitors then look at whatever is filed. So a monitor can count the stream of another change, or of
an earlier one that was never stopped.

It counts its own if no stream is filed, and no other change waits for the same source and target,
whenever one is to be started (`monitors_count_own_streams`).
-/

open PairDB.StorageNode (StreamingManager StreamKeyRange)

namespace PairDB.Coordinator

open Infra

/-- A change waits for a stream from a source to a target. -/
structure Claim where
  source : String
  target : String
  ranges : List KeyRange
  deriving DecidableEq, Repr

namespace TopologyPhase

/-- What a new node waits for. -/
def inbound (node : StorageNode) (assignments : Assignments) : List Claim :=
  assignments.map fun p => ⟨p.1, node.nodeID, p.2⟩

/-- What a departing node waits for. -/
def outbound (node : StorageNode) (assignments : Assignments) : List Claim :=
  assignments.map fun p => ⟨node.nodeID, p.1, p.2⟩

/-- The streams that the change has come by and waits for, whether they were started or not. -/
def claims : TopologyPhase → List Claim
  | .startAdd node assignments _ rest _ =>
    inbound node (assignments.take (assignments.length - rest.length))
  | .monitorAdd node assignments _ _ _ => inbound node assignments
  | .startRemove node assignments _ rest _ =>
    outbound node (assignments.take (assignments.length - rest.length))
  | .monitorRemove node assignments _ _ _ => outbound node assignments
  | _ => []

/-- The stream that is to be started next. -/
def starts? : TopologyPhase → Option Claim
  | .startAdd node _ _ (pair :: _) _ => some ⟨pair.1, node.nodeID, pair.2⟩
  | .startRemove node _ _ (pair :: _) _ => some ⟨node.nodeID, pair.1, pair.2⟩
  | _ => none

/-- The streams that are still to be started are the last ones. -/
def Ordered : TopologyPhase → Prop
  | .startAdd _ assignments _ rest _ | .startRemove _ assignments _ rest _ =>
    ∃ done, assignments = done ++ rest
  | _ => True

theorem take_append_sub (done rest : Assignments) :
    (done ++ rest).take ((done ++ rest).length - rest.length) = done := by
  rw [List.length_append, Nat.add_sub_cancel]
  exact List.take_left

end TopologyPhase

namespace Topology

variable {t t' : Topology} {env : TopologyEnv} {hash : String → UInt64} {phase : TopologyPhase}
  {next : Option TopologyPhase}

/-! ## What a turn does to the streams -/

/-- The streams are as before, and the change does not wait for another one. -/
def Keeps (t t' : Topology) (phase : TopologyPhase) (next : Option TopologyPhase) : Prop :=
  t'.streaming = t.streaming ∧ ∀ p ∈ next, p.Ordered ∧ p.claims ⊆ phase.claims

theorem keeps_none (h : t'.streaming = t.streaming) : Keeps t t' phase none :=
  ⟨h, by simp⟩

/-- A stream is to be started: it is, or it is not, and the change waits for it. -/
def StartsStream (t t' : Topology) (phase : TopologyPhase) (next : Option TopologyPhase) : Prop :=
  ∃ claim, phase.starts? = some claim ∧
    (t'.streaming = t.streaming ∨ t'.streaming = Function.update t.streaming claim.source
      ((t.streaming claim.source).startStreaming claim.source claim.target
        (streamRanges claim.ranges)).1) ∧
    ∀ p ∈ next, p.Ordered ∧ p.claims = phase.claims ++ [claim]

/-- A stream is stopped or goes on. -/
def LosesStream (t t' : Topology) (next : Option TopologyPhase) : Prop :=
  ∃ source sm, t'.streaming = Function.update t.streaming source sm ∧
    ((∃ target, sm = (t.streaming source).stopStreaming target) ∨
      ∃ ref fails, (t.streaming source).execute ref fails = some sm) ∧
    ∀ p ∈ next, p.Ordered ∧ p.claims = []

/-- The next stream of an addition is to be started. -/
theorem claims_startAdd (node : StorageNode) (done rest : Assignments)
    (pair : String × List KeyRange) (changeID : String) (started started' : Nat) :
    (TopologyPhase.startAdd node (done ++ pair :: rest) changeID rest started').Ordered ∧
      (TopologyPhase.startAdd node (done ++ pair :: rest) changeID rest started').claims =
        (TopologyPhase.startAdd node (done ++ pair :: rest) changeID (pair :: rest) started).claims
          ++ [⟨pair.1, node.nodeID, pair.2⟩] := by
  have hsplit : done ++ pair :: rest = (done ++ [pair]) ++ rest := by simp
  refine ⟨⟨_, hsplit⟩, ?_⟩
  simp only [TopologyPhase.claims, TopologyPhase.take_append_sub]
  rw [hsplit, TopologyPhase.take_append_sub]
  simp [TopologyPhase.inbound]

/-- The next stream of a removal is to be started. -/
theorem claims_startRemove (node : StorageNode) (done rest : Assignments)
    (pair : String × List KeyRange) (changeID : String) (started started' : Nat) :
    (TopologyPhase.startRemove node (done ++ pair :: rest) changeID rest started').Ordered ∧
      (TopologyPhase.startRemove node (done ++ pair :: rest) changeID rest started').claims =
        (TopologyPhase.startRemove node (done ++ pair :: rest) changeID (pair :: rest)
          started).claims ++ [⟨node.nodeID, pair.1, pair.2⟩] := by
  have hsplit : done ++ pair :: rest = (done ++ [pair]) ++ rest := by simp
  refine ⟨⟨_, hsplit⟩, ?_⟩
  simp only [TopologyPhase.claims, TopologyPhase.take_append_sub]
  rw [hsplit, TopologyPhase.take_append_sub]
  simp [TopologyPhase.outbound]

/-- What a turn does to the streams. -/
theorem streams_turn (hordered : phase.Ordered) (ht : t.turn hash env phase = some (t', next)) :
    Keeps t t' phase next ∨ StartsStream t t' phase next ∨ LosesStream t t' next := by
  cases turned_of_turn ht with
  | refused | ended | rebuildRing => exact Or.inl (keeps_none rfl)
  | @startAdd node _ _ _ _ _ _ _ hstreams =>
    obtain ⟨done, rfl⟩ := hordered
    refine Or.inr (Or.inl ⟨_, rfl, hstreams, ?_⟩)
    rintro p ⟨⟩
    exact claims_startAdd ..
  | startRemove hstreams =>
    obtain ⟨done, rfl⟩ := hordered
    refine Or.inr (Or.inl ⟨_, rfl, hstreams, ?_⟩)
    rintro p ⟨⟩
    exact claims_startRemove ..
  | recordAdd | recordRemove =>
    refine Or.inl ⟨rfl, ?_⟩
    rintro p ⟨⟩
    exact ⟨⟨[], rfl⟩, by simp [TopologyPhase.claims, TopologyPhase.inbound, TopologyPhase.outbound]⟩
  | stopStreaming =>
    refine Or.inr (Or.inr ⟨_, _, rfl, Or.inl ⟨_, rfl⟩, ?_⟩)
    rintro p ⟨⟩
    exact ⟨trivial, rfl⟩
  | executing hsm => exact Or.inr (Or.inr ⟨_, _, rfl, Or.inr ⟨_, _, hsm⟩, by simp⟩)
  | _ =>
    refine Or.inl ⟨rfl, ?_⟩
    rintro p ⟨⟩
    exact ⟨trivial, by simp [TopologyPhase.claims]⟩

/-! ## Runs -/

/-- What a change waits for is its own stream, if there is one. -/
structure OwnStreams (t : Topology) (phases : List TopologyPhase) : Prop where
  wellFormed : ∀ source, (t.streaming source).WellFormed
  ordered : ∀ p ∈ phases, p.Ordered
  own : ∀ p ∈ phases, ∀ c ∈ p.claims,
    ∀ ranges ∈ (t.streaming c.source).activeRanges c.target, ranges = streamRanges c.ranges

theorem OwnStreams.perm {phases phases' : List TopologyPhase} (h : OwnStreams t phases)
    (hperm : phases.Perm phases') : OwnStreams t phases' where
  wellFormed := h.wellFormed
  ordered p hp := h.ordered p (hperm.mem_iff.mpr hp)
  own p hp := h.own p (hperm.mem_iff.mpr hp)

/-- The stream that is to be started finds none filed in its place, and nobody waits for one
there. -/
def FreshStream (t : Topology) (phases : List TopologyPhase) (phase : TopologyPhase) : Prop :=
  ∀ claim ∈ phase.starts?, (t.streaming claim.source).activeRanges claim.target = none ∧
    ∀ p ∈ phases, ∀ c ∈ p.claims, ¬ (c.source = claim.source ∧ c.target = claim.target)

/-- After a start, the place has the stream that was to be started, or what it had. -/
theorem activeRanges_of_started {claim : Claim} (hwf : ∀ source, (t.streaming source).WellFormed)
    (h : t'.streaming = t.streaming ∨ t'.streaming = Function.update t.streaming claim.source
      ((t.streaming claim.source).startStreaming claim.source claim.target
        (streamRanges claim.ranges)).1) :
    (∀ source, (t'.streaming source).WellFormed) ∧ ∀ source target,
      (t'.streaming source).activeRanges target = (t.streaming source).activeRanges target ∨
        source = claim.source ∧ target = claim.target ∧
          (t'.streaming source).activeRanges target = some (streamRanges claim.ranges) := by
  rcases h with h | h
  · rw [h]
    exact ⟨hwf, fun _ _ => Or.inl rfl⟩
  · rw [h]
    refine ⟨fun source => ?_, fun source target => ?_⟩
    · by_cases heq : source = claim.source
      · subst heq
        rw [Function.update_self]
        exact StreamingManager.wellFormed_startStreaming _ _ _ (hwf _)
      · rw [Function.update_of_ne heq]
        exact hwf source
    · by_cases heq : source = claim.source
      · subst heq
        rw [Function.update_self]
        exact (StreamingManager.activeRanges_startStreaming (hwf _) _ _ _ target).imp_right
          fun hnew => ⟨rfl, hnew⟩
      · rw [Function.update_of_ne heq]
        exact Or.inl rfl

theorem ownStreams_turn {rest : List TopologyPhase} (h : OwnStreams t (phase :: rest))
    (hfresh : FreshStream t (phase :: rest) phase)
    (ht : t.turn hash env phase = some (t', next)) : OwnStreams t' (next.toList ++ rest) := by
  have hordered := h.ordered phase List.mem_cons_self
  have hrestOrdered : ∀ p ∈ rest, p.Ordered := fun p hp => h.ordered p (List.mem_cons_of_mem _ hp)
  -- a turn that only takes streams away keeps what is known of them
  have hweaken : ∀ (sm : String → StreamingManager),
      (∀ source, (sm source).WellFormed) →
      (∀ source target, (sm source).activeRanges target = none ∨
        (sm source).activeRanges target = (t.streaming source).activeRanges target) →
      t'.streaming = sm → (∀ p ∈ next, p.Ordered ∧ p.claims ⊆ phase.claims) →
      OwnStreams t' (next.toList ++ rest) := by
    rintro sm hwf hactive rfl hnext
    refine ⟨hwf, fun p hp => ?_, fun p hp c hc ranges hranges => ?_⟩
    · rcases List.mem_append.mp hp with hp | hp
      · exact (hnext p (Option.mem_toList.mp hp)).1
      · exact hrestOrdered p hp
    · rcases hactive c.source c.target with hnone | hsame
      · rw [hnone] at hranges
        cases hranges
      · rw [hsame] at hranges
        rcases List.mem_append.mp hp with hp | hp
        · exact h.own phase List.mem_cons_self c
            ((hnext p (Option.mem_toList.mp hp)).2 hc) ranges hranges
        · exact h.own p (List.mem_cons_of_mem _ hp) c hc ranges hranges
  rcases streams_turn hordered ht with ⟨hsame, hnext⟩ | ⟨claim, hstarts, hstreams, hnext⟩ |
    ⟨source, sm, hstreams, hsm, hnext⟩
  · exact hweaken _ h.wellFormed (fun _ _ => Or.inr rfl) hsame hnext
  · obtain ⟨hnone, hothers⟩ := hfresh claim hstarts
    obtain ⟨hwf, hactive⟩ := activeRanges_of_started h.wellFormed hstreams
    have hold : ∀ p ∈ phase :: rest, ∀ c ∈ p.claims,
        ∀ ranges ∈ (t'.streaming c.source).activeRanges c.target, ranges = streamRanges c.ranges := by
      intro p hp c hc ranges hranges
      rcases hactive c.source c.target with hsame | ⟨hsource, htarget, -⟩
      · rw [hsame] at hranges
        exact h.own p hp c hc ranges hranges
      · exact absurd ⟨hsource, htarget⟩ (hothers p hp c hc)
    refine ⟨hwf, fun p hp => ?_, fun p hp c hc ranges hranges => ?_⟩
    · rcases List.mem_append.mp hp with hp | hp
      · exact (hnext p (Option.mem_toList.mp hp)).1
      · exact hrestOrdered p hp
    · rcases List.mem_append.mp hp with hp | hp
      · rw [(hnext p (Option.mem_toList.mp hp)).2] at hc
        rcases List.mem_append.mp hc with hc | hc
        · exact hold phase List.mem_cons_self c hc ranges hranges
        · -- its own stream, if it was started
          obtain rfl := List.mem_singleton.mp hc
          rcases hactive c.source c.target with hsame | ⟨-, -, hnew⟩
          · rw [hsame, hnone] at hranges
            cases hranges
          · rw [hnew] at hranges
            exact (Option.some.inj hranges).symm
      · exact hold p (List.mem_cons_of_mem _ hp) c hc ranges hranges
  · have hsm' : sm.WellFormed ∧ ∀ target, sm.activeRanges target = none ∨
        sm.activeRanges target = (t.streaming source).activeRanges target := by
      rcases hsm with ⟨target, rfl⟩ | ⟨ref, fails, hexecute⟩
      · exact ⟨StreamingManager.wellFormed_stopStreaming _ (h.wellFormed source),
          StreamingManager.activeRanges_stopStreaming target⟩
      · exact ⟨StreamingManager.wellFormed_execute hexecute (h.wellFormed source),
          fun target => Or.inr (StreamingManager.activeRanges_execute hexecute target)⟩
    refine hweaken _ (fun source' => ?_) (fun source' target => ?_) hstreams fun p hp =>
      ⟨(hnext p hp).1, by simp [(hnext p hp).2]⟩
    · by_cases heq : source' = source
      · subst heq
        simpa using hsm'.1
      · simpa [heq] using h.wellFormed source'
    · by_cases heq : source' = source
      · subst heq
        simpa using hsm'.2 target
      · simp [heq]

/-- The condition on a step. -/
def FreshStreams (s : System) : Turn → Prop
  | .start _ _ _ => True
  | .advance id _ => ∀ phase ∈ s.phase? id, FreshStream s.state s.phases phase

theorem ownStreams_step (s : System) (turn : Turn) (s' : System)
    (h : OwnStreams s.state s.phases) (hfresh : FreshStreams s turn)
    (hstep : step hash s turn = some s') : OwnStreams s'.state s'.phases := by
  cases turn with
  | start id env request =>
    obtain ⟨hstate, hphases⟩ := Concurrent.step_start hstep
    rw [hstate, hphases]
    refine ⟨h.wellFormed, fun p hp => ?_, fun p hp c hc => ?_⟩
    · rcases List.mem_append.mp hp with hp | hp
      · exact h.ordered p hp
      · cases request <;> rw [List.mem_singleton.mp hp] <;> trivial
    · rcases List.mem_append.mp hp with hp | hp
      · exact h.own p hp c hc
      · cases request <;> rw [List.mem_singleton.mp hp] at hc <;> cases hc
  | advance id env =>
    obtain ⟨phase, next, rest, hphase, hturn, hbefore, hafter⟩ := Concurrent.step_advance_perm hstep
    have hfresh' : FreshStream s.state (phase :: rest) phase := fun claim hclaim =>
      ⟨(hfresh phase hphase claim hclaim).1, fun p hp =>
        (hfresh phase hphase claim hclaim).2 p (hbefore.mem_iff.mpr hp)⟩
    exact (ownStreams_turn (h.perm hbefore) hfresh' hturn).perm hafter.symm

/-- What is counted as completed was executed, with the ranges of the claim. -/
theorem OwnStreams.executed {phases : List TopologyPhase} {p : TopologyPhase} {c : Claim}
    {fate : RpcFate} (h : OwnStreams t phases) (hp : p ∈ phases) (hc : c ∈ p.claims)
    (hcompleted : t.streamCompleted fate c.source c.target = true) :
    (t.streaming c.source).Executed c.target (streamRanges c.ranges) := by
  simp only [streamCompleted, Bool.and_eq_true, decide_eq_true_eq] at hcompleted
  obtain ⟨ranges, hranges, hexecuted⟩ :=
    StreamingManager.executed_of_completed (h.wellFormed c.source) hcompleted.2
  rw [← h.own p hp c hc ranges hranges]
  exact hexecuted

theorem mem_poll {completed : String → Bool} {nodes completedNodes : List String} {id : String}
    (h : id ∈ poll completed nodes completedNodes) (hnew : id ∉ completedNodes) :
    completed id = true := by
  rcases List.mem_append.mp h with h | h
  · exact absurd h hnew
  · exact ((Bool.and_eq_true _ _).mp (List.mem_filter.mp h).2).2

/--
**A change counts its own streams.** In every interleaving in which a stream is to be started only
while none is filed under its target at its source, and no change waits for a stream of this source
to this target: what a monitor counts as completed in a round is a stream that the source has
executed to its end with the ranges that the change assigned.
-/
theorem monitors_count_own_streams {turns : List Turn} {s : System}
    (hall : AllSteps (step hash) FreshStreams (.quiet init) turns)
    (hrun : run (step hash) (.quiet init) turns = some s) (env : TopologyEnv) (node : StorageNode)
    (assignments : Assignments) (changeID : String) (completedNodes : List String) (attempt : Nat) :
    (.monitorAdd node assignments changeID completedNodes attempt ∈ s.phases →
      ∀ id ∈ poll (fun id => (s.state.getStorageNode env id).isSome &&
        s.state.streamCompleted (env.rpc id) id node.nodeID) (assignments.map Prod.fst)
          completedNodes, id ∉ completedNodes → ∀ ranges, (id, ranges) ∈ assignments →
            (s.state.streaming id).Executed node.nodeID (streamRanges ranges)) ∧
    (.monitorRemove node assignments changeID completedNodes attempt ∈ s.phases →
      ∀ id ∈ poll (fun id => s.state.streamCompleted (env.rpc id) node.nodeID id)
        (assignments.map Prod.fst) completedNodes, id ∉ completedNodes →
          ∀ ranges, (id, ranges) ∈ assignments →
            (s.state.streaming node.nodeID).Executed id (streamRanges ranges)) := by
  have hinit : OwnStreams init [] :=
    ⟨fun _ => StreamingManager.wellFormed_new, by simp, by simp⟩
  have hown : OwnStreams s.state s.phases :=
    run_invariant (I := fun s : System => OwnStreams s.state s.phases) ownStreams_step hinit hall
      hrun
  constructor
  · intro hmonitor id hid hnew ranges hranges
    have hcompleted := mem_poll hid hnew
    exact hown.executed (c := ⟨id, node.nodeID, ranges⟩) hmonitor
      (List.mem_map.mpr ⟨_, hranges, rfl⟩) ((Bool.and_eq_true _ _).mp hcompleted).2
  · intro hmonitor id hid hnew ranges hranges
    have hcompleted := mem_poll hid hnew
    exact hown.executed (c := ⟨node.nodeID, id, ranges⟩) hmonitor
      (List.mem_map.mpr ⟨_, hranges, rfl⟩) hcompleted

instance (t : Topology) (phases : List TopologyPhase) (phase : TopologyPhase) :
    Decidable (FreshStream t phases phase) :=
  inferInstanceAs (Decidable (∀ claim ∈ phase.starts?, _ ∧ ∀ p ∈ phases, ∀ c ∈ p.claims, _))

instance (s : System) : (turn : Turn) → Decidable (FreshStreams s turn)
  | .start _ _ _ => inferInstanceAs (Decidable True)
  | .advance id _ =>
    inferInstanceAs (Decidable (∀ phase ∈ s.phase? id, FreshStream s.state s.phases phase))

instance (sm : StreamingManager) (target : String) (ranges : List StreamKeyRange) :
    Decidable (sm.Executed target ranges) :=
  inferInstanceAs (Decidable (_ ∈ sm.contexts))

end Topology

namespace Sample

/-- The node `n` joins the node `m`, and its data has been streamed. -/
def joined : List Topology.Turn :=
  addFirst 0 "m" ++ callOf 1 6 (.addStorageNodeV2 joining) ++
    (callOf 2 1 (.executeStreaming "m" 0) ++ callOf 3 1 (.executeStreaming "m" 0) ++
      callOf 4 1 (.executeStreaming "m" 0))

/-- Before the addition is seen to be complete, the ring is refreshed and `m` is to leave. -/
def leavesMeanwhile : List Topology.Turn :=
  joined ++ callOf 5 2 .updateHashRing ++ callOf 6 11 (.removeStorageNodeV2 "m" true)

/-- The monitor of the addition of `n`. -/
def monitorsJoin : TopologyPhase → Bool
  | .monitorAdd node assignments changeID completedNodes attempt =>
    node = joining.node && assignments = [("m", [⟨109, 110⟩])] && changeID = "bootstrap-n-0" &&
      completedNodes = [] && attempt = 0
  | _ => false

theorem monitorsJoin_iff {p : TopologyPhase} : monitorsJoin p = true ↔
    p = .monitorAdd joining.node [("m", [⟨109, 110⟩])] "bootstrap-n-0" [] 0 := by
  cases p <;> simp [monitorsJoin, and_assoc]

/-- The node `m` as the removal has found it. -/
def leaving : StorageNode := ⟨"m", "host", 1, .active, .normal, 1⟩

/-- The monitor of the removal of `m`. -/
def monitorsLeave : TopologyPhase → Bool
  | .monitorRemove node assignments changeID completedNodes attempt =>
    node = leaving && assignments = [("n", [⟨110, 109⟩])] && changeID = "decommission-m-0" &&
      completedNodes = [] && attempt = 0
  | _ => false

theorem monitorsLeave_iff {p : TopologyPhase} : monitorsLeave p = true ↔
    p = .monitorRemove leaving [("n", [⟨110, 109⟩])] "decommission-m-0" [] 0 := by
  cases p <;> simp [monitorsLeave, and_assoc]

end Sample

open Sample in
theorem monitors_count_own_streams_joined :
    ∃ s, run (Topology.step firstLetter) (.quiet Topology.init) joined = some s ∧
      (s.state.streaming "m").Executed "n" [⟨109, 110⟩] := by
  have hrun : (run (Topology.step firstLetter) (.quiet Topology.init) joined).map (fun s =>
      s.phases.any monitorsJoin && decide ("m" ∈ Topology.poll
        (fun id => (s.state.getStorageNode calm id).isSome &&
          s.state.streamCompleted (calm.rpc id) id "n") ["m"] [])) = some true := by
    decide +kernel
  have hall : AllSteps (Topology.step firstLetter) Topology.FreshStreams (.quiet Topology.init)
      joined := by
    decide +kernel
  obtain ⟨s, hs, hdec⟩ := Option.map_eq_some_iff.mp hrun
  simp only [Bool.and_eq_true, List.any_eq_true, decide_eq_true_eq] at hdec
  obtain ⟨⟨p, hp, hmonitors⟩, hcounted⟩ := hdec
  rw [monitorsJoin_iff.mp hmonitors] at hp
  refine ⟨s, hs, ?_⟩
  exact (Topology.monitors_count_own_streams hall hs calm _ _ _ _ _).1 hp "m" hcounted (by simp) _
    List.mem_cons_self

open Sample in
/-- The removal of `m` counts the stream that the addition of `n` has started. -/
theorem removal_counts_stream_of_addition :
    ∃ s, run (Topology.step firstLetter) (.quiet Topology.init) leavesMeanwhile = some s ∧
      .monitorRemove leaving [("n", [⟨110, 109⟩])] "decommission-m-0" [] 0 ∈ s.phases ∧
      "n" ∈ Topology.poll (fun id => s.state.streamCompleted (calm.rpc id) "m" id) ["n"] [] ∧
      ¬ (s.state.streaming "m").Executed "n" (streamRanges [⟨110, 109⟩]) := by
  have hrun : (run (Topology.step firstLetter) (.quiet Topology.init) leavesMeanwhile).map (fun s =>
      s.phases.any monitorsLeave && decide ("n" ∈ Topology.poll
        (fun id => s.state.streamCompleted (calm.rpc id) "m" id) ["n"] [] ∧
          ¬ (s.state.streaming "m").Executed "n" (streamRanges [⟨110, 109⟩]))) = some true := by
    decide +kernel
  obtain ⟨s, hs, hdec⟩ := Option.map_eq_some_iff.mp hrun
  simp only [Bool.and_eq_true, List.any_eq_true, decide_eq_true_eq] at hdec
  obtain ⟨⟨p, hp, hmonitors⟩, hcounted⟩ := hdec
  rw [monitorsLeave_iff.mp hmonitors] at hp
  exact ⟨s, hs, hp, hcounted⟩

end PairDB.Coordinator
