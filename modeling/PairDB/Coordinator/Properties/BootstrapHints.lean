import PairDB.Coordinator.Properties.Hints
import PairDB.Coordinator.Properties.Membership

/-!
# Hints and the end of a bootstrap

Before a node becomes `NORMAL`, its hints are to be replayed. `monitorStreamingProgress` replays the
hints of the table, but writes and read repairs record theirs in the memory of
`HintedHandoffService`, and nothing moves them from one place to the other.

The two services run beside each other. If the node has no hint in memory when its state is set, and
hints have only left the memory for good reasons, then every hint that was recorded for it has been
written to it, was too old, or was the oldest of a full list (`hints_written_before_normal`).
-/

namespace PairDB.Coordinator

open Infra

namespace Bootstrap

open Concurrent

/-- The hints in memory beside the changes of the topology. -/
abbrev System := Concurrent.System (Handoff × Topology) (HandoffPhase ⊕ TopologyPhase)

abbrev Turn := Concurrent.Turn (HandoffEnv × TopologyEnv) (HandoffRequest ⊕ TopologyRequest)

/-- A step of the interleaving. -/
def step (hash : String → UInt64) (s : System) (t : Turn) : Option System :=
  Concurrent.step (enterBeside Handoff.enter Topology.enter)
    (turnBeside Handoff.turn (Topology.turn hash)) s t

def init (maxHints hintTTL : Int) : System := .quiet (.init maxHints hintTTL, .init)

/-! ## The condition -/

/-- The hint was written to its node, or was too old. -/
def Written (h : Handoff) (hint : Hint) : Prop := hint ∈ h.applied ∨ hint ∈ h.expired

theorem isReason_written : Handoff.IsReason Written where
  grow hg hw := hw.imp (hg.applied _) (hg.expired _)
  applied := Or.inl
  expired := Or.inr

/-- No hint is given up: the limit of its retries is not reached, and its node is not cleared. -/
def Persistent (h : Handoff) : HandoffPhase → Prop
  | .check _ hint _ => h.service.retries hint.ref < 10
  | .clearHintsForNode nodeID => h.service.hintsFor nodeID = []
  | _ => True

/-- What a turn should find. The node that becomes `NORMAL` has no hint in memory. -/
def PatientTurn (s : Handoff × Topology) (env : HandoffEnv × TopologyEnv) :
    HandoffPhase ⊕ TopologyPhase → Prop
  | .inl phase => s.1.Careful env.1 phase ∧ Persistent s.1 phase
  | .inr (.setNormal node _ _) => s.1.service.hintsFor node.nodeID = []
  | .inr _ => True

/-- The condition on a step. -/
def Patient (s : System) : Turn → Prop
  | .start _ _ _ => True
  | .advance id env => ∀ phase ∈ s.phase? id, PatientTurn s.state env phase

/-- The node whose state the next turn of the call sets to `NORMAL`. -/
def setsNormal? (s : System) (id : Nat) : Option StorageNode :=
  match s.phase? id with
  | some (.inr (.setNormal node _ _)) => some node
  | _ => none

/-! ## Runs -/

variable {hash : String → UInt64} {s s' : System}

/-- The invariant: hints leave the memory only when they are written or too old. -/
structure Invariant (s : System) : Prop where
  handoff : Handoff.Invariant Written s.state.1 (lefts s.phases)
  cleared : s.state.1.cleared = []

theorem cleared_turn {h h' : Handoff} {env : HandoffEnv} {phase : HandoffPhase}
    {next : Option HandoffPhase} (hp : Persistent h phase)
    (ht : h.turn env phase = some (h', next)) (hcleared : h.cleared = []) : h'.cleared = [] := by
  cases phase with
  | clearHintsForNode nodeID =>
    cases ht
    show h.cleared ++ h.service.hintsFor nodeID = []
    rw [hcleared, show h.service.hintsFor nodeID = [] from hp, List.append_nil]
  | next nodeID hints =>
    cases hints with
    | nil =>
      cases ht
      exact hcleared
    | cons hint rest =>
      simp only [Handoff.turn] at ht
      split at ht <;> cases ht <;> exact hcleared
  | replay nodeID hint rest =>
    simp only [Handoff.turn] at ht
    split at ht <;> cases ht <;> exact hcleared
  | removeHint nodeID hint rest =>
    obtain ⟨service, -, hpair⟩ := Option.map_eq_some_iff.mp ht
    cases hpair
    exact hcleared
  | storeHint | snapshot | failed | increment | check =>
    cases ht
    exact hcleared

theorem invariant_step {t : Turn} (hI : Invariant s) (hpatient : Patient s t)
    (hstep : step hash s t = some s') : Invariant s' := by
  cases t with
  | start id env request =>
    obtain ⟨hstate, hphases⟩ := step_start hstep
    refine ⟨?_, by rw [hstate]; exact hI.cleared⟩
    rw [hstate, hphases, lefts_append, lefts_enterBeside]
    cases request with
    | inl request => exact hI.handoff.begin env.1 request
    | inr request => simpa using hI.handoff
  | advance id env =>
    obtain ⟨phase, next, rest, hphase, hturn, hbefore, hafter⟩ := step_advance_perm hstep
    have hbefore' : (lefts s.phases).Perm (lefts (phase :: rest)) := hbefore.filterMap _
    have hafter' : (lefts s'.phases).Perm (lefts next.toList ++ lefts rest) := by
      rw [← lefts_append]
      exact hafter.filterMap _
    have hfound := hpatient phase hphase
    rcases turnBeside_left hturn with ⟨p, q, rfl, hown, hnext⟩ | ⟨⟨p, rfl⟩, hsame, hnext⟩
    · obtain ⟨hcareful, hpersistent⟩ := hfound
      refine ⟨?_, cleared_turn hpersistent hown hI.cleared⟩
      have hgiveUp : ∀ nodeID hint others, p = .check nodeID hint others →
          10 ≤ s.state.1.service.retries hint.ref → Written s.state.1 hint := by
        rintro nodeID hint others rfl hlimit
        have hbelow : s.state.1.service.retries hint.ref < 10 := hpersistent
        omega
      have hbegin : Handoff.Invariant Written s.state.1 (p :: lefts rest) :=
        hI.handoff.perm hbefore'
      have hmoved := Handoff.invariant_turn isReason_written hbegin hcareful hgiveUp hown
      rw [← hnext] at hmoved
      exact hmoved.perm hafter'.symm
    · refine ⟨?_, by rw [hsame]; exact hI.cleared⟩
      rw [hnext, List.nil_append] at hafter'
      rw [hsame]
      exact (hI.handoff.perm hbefore').perm hafter'.symm

theorem invariant_init (maxHints hintTTL : Int) : Invariant (init maxHints hintTTL) :=
  ⟨Handoff.invariant_init maxHints hintTTL, rfl⟩

instance (h : Handoff) (phase : HandoffPhase) : Decidable (Persistent h phase) :=
  match phase with
  | .check _ _ _ => inferInstanceAs (Decidable (_ < _))
  | .clearHintsForNode _ => inferInstanceAs (Decidable (_ = _))
  | .storeHint _ | .snapshot _ | .next _ _ | .replay _ _ _ | .failed _ _ _ | .increment _ _ _ _
  | .removeHint _ _ _ => inferInstanceAs (Decidable True)

instance (s : Handoff × Topology) (env : HandoffEnv × TopologyEnv)
    (phase : HandoffPhase ⊕ TopologyPhase) : Decidable (PatientTurn s env phase) :=
  match phase with
  | .inl _ => inferInstanceAs (Decidable (_ ∧ _))
  | .inr (.setNormal _ _ _) => inferInstanceAs (Decidable (_ = _))
  | .inr (.lockAdd _) | .inr (.insertNode _) | .inr (.planAdd _) | .inr (.recordAdd _ _)
  | .inr (.startAdd _ _ _ _ _) | .inr (.monitorAdd _ _ _ _ _) | .inr (.lockRemove _ _)
  | .inr (.findNode _ _) | .inr (.countNodes _ _) | .inr (.setDraining _) | .inr (.setLeaving _)
  | .inr (.planRemove _) | .inr (.markInheritors _ _ _) | .inr (.recordRemove _ _)
  | .inr (.startRemove _ _ _ _ _) | .inr (.monitorRemove _ _ _ _ _) | .inr (.finish _ _)
  | .inr .fetchNodes | .inr (.rebuildRing _) | .inr (.executing _ _) =>
    inferInstanceAs (Decidable True)

instance (s : System) (t : Turn) : Decidable (Patient s t) :=
  match t with
  | .start _ _ _ => inferInstanceAs (Decidable True)
  | .advance _ _ => inferInstanceAs (Decidable (∀ _ ∈ _, _))

end Bootstrap

namespace Sample

/-- Nothing fails, but for what the node is said to answer. -/
def besides (env : HandoffEnv) : HandoffEnv × TopologyEnv := (env, calm)

/-- A call of the handler, or some of its turns. -/
def topologyCall (id turns : Nat) (request : TopologyRequest) : List Bootstrap.Turn :=
  .start id (besides (atTime 0)) (.inr request) ::
    List.replicate turns (.advance id (besides (atTime 0)))

/-- Turns of a call that stores or replays hints. -/
def hintCall (id : Nat) (request : HandoffRequest) (envs : List HandoffEnv) : List Bootstrap.Turn :=
  .start id (besides (atTime 0)) (.inl request) ::
    envs.map fun env => .advance id (besides env)

/-- The node `n` is stored and bootstraps, and a refresh puts it on the ring. -/
def bootstrapping : List Bootstrap.Turn :=
  topologyCall 0 5 (.addStorageNodeV2 ⟨"n", "host", 1, 1⟩) ++ topologyCall 1 2 .updateHashRing

/-- The node `n` does not answer a write. -/
def missed : List Bootstrap.Turn := hintCall 2 (.storeHint (hintFrom "t")) [atTime 1]

/-- The hint is replayed. -/
def delivered : List Bootstrap.Turn :=
  hintCall 3 (.replayHintsForNode "n")
    [atTime 2, atTime 2, answered 2 true, atTime 2, atTime 2]

/-- The monitor sees that nothing is left to stream. -/
def completes : List Bootstrap.Turn := [.advance 0 (besides (atTime 3))]

/-- The node as it is stored while it bootstraps. -/
def newNode : StorageNode := ⟨"n", "host", 1, .active, .bootstrapping, 1⟩

/-- The node cannot be reached. -/
def unreachable : Arrivals WriteAnswer [newNode] where
  answers := [(newNode, .transportError "down")]
  perm := by decide

end Sample

end PairDB.Coordinator
