import PairDB.Coordinator.HintedHandoff

/-!
# The replay of the hints in memory

`removeHint` panics when the list of the node is empty. A replay removes the hints of its copy one
by one, so all goes well as long as the list has a hint that all these removals but the last one
leave there (`Outlasts`).

* A replay that has all the turns should deliver the hints of a healthy node and leave none. The
  node that `replayHint` makes has no address, and hints with the same key and time are removed
  together (`drains_iff`).
* Overlapping replays of a node, and `ClearHintsForNode` during a replay, empty the list under a
  replay. Without these, and without two hints of one key and time, nothing panics
  (`turn_isSome_of_run`).
-/

namespace PairDB.Coordinator

open Infra

namespace HintedHandoffService

/-- The list keeps a hint until the last of the removals. -/
def Outlasts (list removals : List Hint) : Prop :=
  removals = [] ∨ ∃ hint ∈ list, ∀ removed ∈ removals.dropLast, sameHint hint removed = false

variable {list removals : List Hint} {hint : Hint}

theorem sameHint_iff {other : Hint} : sameHint hint other = true ↔
    hint.key = other.key ∧ hint.timestamp = other.timestamp := by
  simp [sameHint]

theorem sameHint_self (hint : Hint) : sameHint hint hint = true := sameHint_iff.mpr ⟨rfl, rfl⟩

theorem Outlasts.ne_nil (h : Outlasts list (hint :: removals)) : list ≠ [] := by
  rcases h with h | ⟨kept, hkept, -⟩
  · cases h
  · exact List.ne_nil_of_mem hkept

theorem Outlasts.tail (h : Outlasts list (hint :: removals)) : Outlasts list removals := by
  rcases h with h | ⟨kept, hkept, hrest⟩
  · cases h
  · cases removals with
    | nil => exact Or.inl rfl
    | cons first removals =>
      exact Or.inr ⟨kept, hkept, fun removed hmem => hrest removed (List.mem_cons_of_mem _ hmem)⟩

/-- The removals go on after the first one. -/
theorem outlasts_filter_iff (hne : list ≠ []) :
    Outlasts (list.filter fun other => !sameHint other hint) removals ↔
      Outlasts list (hint :: removals) := by
  cases removals with
  | nil =>
    obtain ⟨kept, hkept⟩ := List.exists_mem_of_ne_nil list hne
    exact iff_of_true (Or.inl rfl) (Or.inr ⟨kept, hkept, by simp⟩)
  | cons first removals =>
    simp only [Outlasts, List.cons_ne_nil, false_or, List.mem_filter, Bool.not_eq_true',
      List.dropLast_cons_cons, List.forall_mem_cons, and_assoc]

/-- A list outlasts the removal of its own hints if the last one is different from the others. -/
theorem outlasts_self_iff : Outlasts list list ↔
    ∀ last ∈ list.getLast?, ∀ other ∈ list.dropLast, sameHint last other = false := by
  rcases List.eq_nil_or_concat list with rfl | ⟨front, last, rfl⟩
  · exact iff_of_true (Or.inl rfl) (by simp)
  · simp only [Outlasts, List.concat_eq_append, List.append_eq_nil_iff, List.cons_ne_nil, and_false,
      false_or, List.dropLast_concat, List.getLast?_concat, Option.mem_some_iff, forall_eq']
    constructor
    · rintro ⟨kept, hkept, hothers⟩
      rcases List.mem_append.mp hkept with hfront | hlast
      · exact absurd (hothers kept hfront) (by simp [sameHint_self])
      · rwa [List.mem_singleton.mp hlast] at hothers
    · exact fun h => ⟨last, List.mem_append_right _ List.mem_cons_self, h⟩

theorem removeHint_isSome_iff {s : HintedHandoffService} {nodeID : String} :
    (s.removeHint nodeID hint).isSome = true ↔ s.hintsFor nodeID ≠ [] := by
  unfold removeHint
  dsimp only
  split
  · next h => simp [h]
  · next h => simp [h]

theorem removeHint_hintTTL {s s' : HintedHandoffService} {nodeID : String}
    (h : s.removeHint nodeID hint = some s') : s'.hintTTL = s.hintTTL := by
  unfold removeHint at h
  dsimp only at h
  split at h
  · cases h
  · cases h
    rfl

end HintedHandoffService

/-! ## A replay by itself -/

namespace Delivery

open HintedHandoffService

variable {network : Network} {clock : Nat → Int} {nodeID : String} {d d' : Delivery} {hint : Hint}
  {hints : List Hint}

/-- The node takes every request that is sent to its host and port. -/
def Healthy (network : Network) (node : StorageNode) : Prop :=
  ∃ serve, network node.addr = some serve ∧ ∀ req, (serve req).succeeded = true

/-- The requests that have arrived at an address. -/
def arrivedAt (d : Delivery) (addr : String) : List WireWriteRequest :=
  (d.arrived.filter fun p => p.1 = addr).map Prod.snd

/-- The replay ends, the hints have arrived at the node in their order, and none is left. -/
def Drains (network : Network) (clock : Nat → Int) (node : StorageNode) (d : Delivery) : Prop :=
  ∃ d', d.replayHintsForNode network clock node.nodeID = some d' ∧
    d'.arrivedAt node.addr =
      d.arrivedAt node.addr ++ (d.service.hintsFor node.nodeID).map writeRequest ∧
    d'.service.hintsFor node.nodeID = []

theorem removeHint_spec (h : d.removeHint nodeID hint = some d') :
    d'.arrived = d.arrived ∧ d'.service.hintTTL = d.service.hintTTL ∧
      d'.service.hintsFor nodeID =
        (d.service.hintsFor nodeID).filter fun other => !sameHint other hint := by
  obtain ⟨service, hservice, rfl⟩ := Option.map_eq_some_iff.mp h
  refine ⟨rfl, removeHint_hintTTL hservice, ?_⟩
  exact ((removeHint_eq_some hservice).2 nodeID).trans (if_pos rfl)

theorem removeHint_isSome_iff (d : Delivery) (nodeID : String) (hint : Hint) :
    (d.removeHint nodeID hint).isSome = true ↔ d.service.hintsFor nodeID ≠ [] := by
  rw [removeHint, Option.isSome_map]
  exact HintedHandoffService.removeHint_isSome_iff

/-! ### Everything is sent to the same address -/

theorem arrived_round {now : Int} (h : d.round network now nodeID hint = some d') :
    ∃ new, d'.arrived = d.arrived ++ new ∧ ∀ p ∈ new, p.1 = replayAddr := by
  have hsent : ∃ new, (d.sent network hint).arrived = d.arrived ++ new ∧
      ∀ p ∈ new, p.1 = replayAddr := by
    refine ⟨_, rfl, fun p hp => ?_⟩
    split at hp
    · rw [List.mem_singleton.mp hp]
    · cases hp
  unfold round at h
  dsimp only at h
  split at h
  · exact ⟨[], by rw [(removeHint_spec h).1, List.append_nil], by simp⟩
  · split at h
    · rwa [(removeHint_spec h).1]
    · split at h
      · rwa [(removeHint_spec h).1]
      · cases h
        exact hsent

theorem arrived_loop {i : Nat} (h : loop network clock nodeID i d hints = some d') :
    ∃ new, d'.arrived = d.arrived ++ new ∧ ∀ p ∈ new, p.1 = replayAddr := by
  induction hints generalizing i d with
  | nil =>
    cases h
    exact ⟨[], (List.append_nil _).symm, by simp⟩
  | cons hint hints ih =>
    obtain ⟨d₁, hround, hrest⟩ := Option.bind_eq_some_iff.mp h
    obtain ⟨new₁, heq₁, hnew₁⟩ := arrived_round hround
    obtain ⟨new₂, heq₂, hnew₂⟩ := ih hrest
    refine ⟨new₁ ++ new₂, by rw [heq₂, heq₁, List.append_assoc], fun p hp => ?_⟩
    exact (List.mem_append.mp hp).elim (hnew₁ p) (hnew₂ p)

/-- So nothing arrives at a node with another address. -/
theorem arrivedAt_loop {i : Nat} {addr : String} (haddr : addr ≠ replayAddr)
    (h : loop network clock nodeID i d hints = some d') : d'.arrivedAt addr = d.arrivedAt addr := by
  obtain ⟨new, heq, hnew⟩ := arrived_loop h
  have hnone : new.filter (fun p => p.1 = addr) = [] := by
    refine List.filter_eq_nil_iff.mpr fun p hp => ?_
    rw [hnew p hp, decide_eq_true_eq]
    exact haddr.symm
  rw [arrivedAt, heq, List.filter_append, hnone, List.append_nil]
  rfl

/-! ### A node with that address -/

/-- A hint that is not too old is sent, taken and removed. -/
theorem round_of_served {serve : WireWriteRequest → WriteAnswer}
    (hserve : network replayAddr = some serve) (htakes : ∀ req, (serve req).succeeded = true)
    {now : Int} (hfresh : now - hint.timestamp ≤ d.service.hintTTL) :
    d.round network now nodeID hint = (d.sent network hint).removeHint nodeID hint := by
  have hok : replayHint (d.client.request network replayAddr (writeRequest hint)).2 = .ok () := by
    rw [StorageClient.request_answer _ hserve]
    cases hanswer : serve (writeRequest hint) with
    | response success updated => rfl
    | transportError err =>
      have htaken := htakes (writeRequest hint)
      rw [hanswer] at htaken
      cases htaken
  unfold round
  rw [if_neg (not_lt.mpr hfresh)]
  simp only [hok]

/-- **The replay of a node with that address.** It ends if the list outlasts it; then every hint of
the copy has arrived, and what is left in the list is different from all of them. -/
theorem loop_of_served {serve : WireWriteRequest → WriteAnswer}
    (hserve : network replayAddr = some serve) (htakes : ∀ req, (serve req).succeeded = true)
    (nodeID : String) (i : Nat) (hfresh : ∀ j, ∀ hint ∈ hints, clock j - hint.timestamp ≤ d.service.hintTTL) :
    ((loop network clock nodeID i d hints).isSome = true ↔
      Outlasts (d.service.hintsFor nodeID) hints) ∧
    ∀ d', loop network clock nodeID i d hints = some d' →
      d'.arrived = d.arrived ++ hints.map (fun hint => (replayAddr, writeRequest hint)) ∧
      d'.service.hintsFor nodeID = (d.service.hintsFor nodeID).filter fun other =>
        hints.all fun hint => !sameHint other hint := by
  induction hints generalizing i d with
  | nil =>
    refine ⟨iff_of_true rfl (Or.inl rfl), ?_⟩
    rintro d' ⟨⟩
    exact ⟨by simp, by simp⟩
  | cons hint hints ih =>
    rw [loop, round_of_served hserve htakes (hfresh i hint List.mem_cons_self)]
    cases hremove : (d.sent network hint).removeHint nodeID hint with
    | none =>
      have hempty : d.service.hintsFor nodeID = [] := by
        by_contra hne
        have hsome := (removeHint_isSome_iff (d.sent network hint) nodeID hint).mpr hne
        rw [hremove] at hsome
        cases hsome
      refine ⟨iff_of_false (by simp) fun hout => hout.ne_nil hempty, ?_⟩
      rintro d' ⟨⟩
    | some d₁ =>
      obtain ⟨harrived, httl, hlist⟩ := removeHint_spec hremove
      have hne : d.service.hintsFor nodeID ≠ [] :=
        (removeHint_isSome_iff (d.sent network hint) nodeID hint).mp (by rw [hremove]; rfl)
      have hfresh₁ : ∀ j, ∀ other ∈ hints, clock j - other.timestamp ≤ d₁.service.hintTTL := by
        intro j other hother
        rw [httl]
        exact hfresh j other (List.mem_cons_of_mem _ hother)
      obtain ⟨hends, hspec⟩ := ih (i + 1) hfresh₁
      refine ⟨hends.trans ?_, fun d' hd' => ?_⟩
      · rw [hlist]
        exact outlasts_filter_iff hne
      · obtain ⟨harrived', hlist'⟩ := hspec d' hd'
        refine ⟨?_, ?_⟩
        · rw [harrived', harrived, sent, hserve]
          simp
        · rw [hlist', hlist, List.filter_filter]
          refine List.filter_congr fun other _ => ?_
          rw [List.all_cons, Bool.and_comm]

/-- **When a replay drains the hints of a healthy node.** For every list of hints, none of which is
too old during the replay: it ends, has delivered the hints in order and leaves none exactly if there
are none, or the node has the address without host and port and the last hint has another key or
time than the ones before it. -/
theorem drains_iff {node : StorageNode} (hhealthy : Healthy network node)
    (hfresh : ∀ i, ∀ hint ∈ d.service.hintsFor node.nodeID,
      clock i - hint.timestamp ≤ d.service.hintTTL) :
    Drains network clock node d ↔
      d.service.hintsFor node.nodeID = [] ∨
      node.addr = ":0" ∧ ∀ last ∈ (d.service.hintsFor node.nodeID).getLast?,
        ∀ other ∈ (d.service.hintsFor node.nodeID).dropLast, sameHint last other = false := by
  have haddr : replayAddr = ":0" := by decide
  rw [← outlasts_self_iff, ← haddr]
  by_cases hself : node.addr = replayAddr
  · obtain ⟨serve, hserve, htakes⟩ := hhealthy
    rw [hself] at hserve
    obtain ⟨hends, hspec⟩ := loop_of_served hserve htakes node.nodeID 0 hfresh
    have hiff : Drains network clock node d ↔ Outlasts (d.service.hintsFor node.nodeID)
        (d.service.hintsFor node.nodeID) := by
      rw [← hends]
      constructor
      · rintro ⟨d', hd', -⟩
        exact Option.isSome_iff_exists.mpr ⟨d', hd'⟩
      · intro hsome
        obtain ⟨d', hd'⟩ := Option.isSome_iff_exists.mp hsome
        obtain ⟨harrived, hlist⟩ := hspec d' hd'
        refine ⟨d', hd', ?_, ?_⟩
        · rw [arrivedAt, harrived, hself, List.filter_append, List.map_append]
          congr 1
          simp [List.filter_map, Function.comp_def]
        · rw [hlist]
          refine List.filter_eq_nil_iff.mpr fun other hother hall => ?_
          have := List.all_eq_true.mp hall other hother
          rw [sameHint_self] at this
          cases this
    rw [hiff]
    exact ⟨fun h => Or.inr ⟨hself, h⟩, fun h => h.elim (fun hnil => Or.inl hnil) And.right⟩
  · refine ⟨?_, fun h => ?_⟩
    · rintro ⟨d', hd', harrived, -⟩
      rw [arrivedAt_loop hself hd'] at harrived
      exact Or.inl (by simpa using harrived)
    · obtain hnil | ⟨h, -⟩ := h
      · refine ⟨d, ?_, ?_, hnil⟩
        · rw [replayHintsForNode, hnil]
          rfl
        · rw [hnil, List.map_nil, List.append_nil]
      · exact absurd h hself

end Delivery

namespace Sample

/-- The hint of a write at a time. -/
def waitingHint (ref : Nat) (timestamp : Int) : Hint :=
  ⟨ref, "node-3", "t", "k", [1], VectorClock.empty, timestamp⟩

/-- The service with some hints for a node, and a client without connections. -/
def holding (hints : List Hint) : Delivery where
  service := { HintedHandoffService.new 0 0 with hints := Map.ofList [("node-3", hints)] }
  client := ⟨[]⟩
  arrived := []

/-- A node at an address. -/
def nodeAt (host : String) (port : Int) : StorageNode :=
  { nodeID := "node-3", host, port, status := .active, state := .normal, virtualNodes := 1 }

/-- Only one address has a server, which takes everything. -/
def servedAt (addr : String) : Network := fun other =>
  if other = addr then some fun _ => .response true VectorClock.empty else none

theorem healthy_servedAt (node : StorageNode) : Delivery.Healthy (servedAt node.addr) node :=
  ⟨_, if_pos rfl, fun _ => rfl⟩

end Sample

open Sample in
theorem drains_two :
    Delivery.Drains (servedAt ":0") (fun _ => 5) (nodeAt "" 0)
      (holding [waitingHint 0 1, waitingHint 1 2]) := by
  refine (Delivery.drains_iff (healthy_servedAt (nodeAt "" 0)) fun _ => ?_).mpr (Or.inr ?_)
  · decide +kernel
  · decide +kernel

open Sample in
/-- A healthy node with a host and a port gets nothing, and its hint stays. And if a node could be
reached, two hints of one key and time would make the replay panic. -/
theorem replay_reaches_nothing :
    ((holding [waitingHint 0 1]).replayHintsForNode (servedAt "node-3:50052") (fun _ => 5)
        "node-3").map (fun d => (d.arrivedAt "node-3:50052", d.service.hintsFor "node-3")) =
      some ([], [waitingHint 0 1]) ∧
    ((holding [waitingHint 0 1, waitingHint 1 1]).replayHintsForNode (servedAt ":0") (fun _ => 5)
        "node-3").isNone := by
  decide +kernel

/-! ## Any interleaving -/

namespace Handoff

open HintedHandoffService

/-- The node and the hints that a replay has still to go through. -/
def remaining : HandoffPhase → Option (String × List Hint)
  | .next nodeID hints => some (nodeID, hints)
  | .replay nodeID hint rest => some (nodeID, hint :: rest)
  | .failed nodeID hint rest => some (nodeID, hint :: rest)
  | .increment nodeID hint rest _ => some (nodeID, hint :: rest)
  | .check nodeID hint rest => some (nodeID, hint :: rest)
  | .removeHint nodeID hint rest => some (nodeID, hint :: rest)
  | .storeHint _ => none
  | .clearHintsForNode _ => none
  | .snapshot _ => none

/-- The replays in progress. -/
def replays (phases : List HandoffPhase) : List (String × List Hint) :=
  phases.filterMap remaining

/-- What a turn should find: no hint of the node was ever stored with the same key and time, and no
other replay of the node is in progress when a replay begins or the node is cleared. -/
def Undisturbed (h : Handoff) (copies : List (String × List Hint)) (env : HandoffEnv) :
    HandoffPhase → Prop
  | .storeHint args => ∀ hint ∈ h.stored, hint.nodeID = args.nodeID →
      ¬ (hint.key = args.key ∧ hint.timestamp = env.now)
  | .clearHintsForNode nodeID => ∀ p ∈ copies, p.1 ≠ nodeID
  | .snapshot nodeID => ∀ p ∈ copies, p.1 ≠ nodeID
  | _ => True

/-- The condition on a step. -/
def Orderly (s : System) : Turn → Prop
  | .start _ _ _ => True
  | .advance id env => ∀ phase ∈ s.phase? id, Undisturbed s.state (replays s.phases) env phase

/-- The lists, and the replays in progress. -/
structure Safe (h : Handoff) (copies : List (String × List Hint)) : Prop where
  listed : ∀ nodeID, ∀ hint ∈ h.service.hintsFor nodeID, hint ∈ h.stored ∧ hint.nodeID = nodeID
  distinct : ∀ nodeID, (h.service.hintsFor nodeID).Pairwise fun a b => sameHint b a = false
  single : (copies.map Prod.fst).Nodup
  copied : ∀ p ∈ copies, ∀ hint ∈ p.2, hint ∈ h.stored ∧ hint.nodeID = p.1
  outlasts : ∀ p ∈ copies, Outlasts (h.service.hintsFor p.1) p.2

variable {h h' : Handoff} {copies copies' : List (String × List Hint)} {nodeID : String}
  {hint : Hint} {hints : List Hint}

theorem Safe.perm (hs : Safe h copies) (hp : copies.Perm copies') : Safe h copies' where
  listed := hs.listed
  distinct := hs.distinct
  single := (hp.map _).nodup_iff.mp hs.single
  copied p hmem := hs.copied p (hp.mem_iff.mpr hmem)
  outlasts p hmem := hs.outlasts p (hp.mem_iff.mpr hmem)

theorem Undisturbed.perm {env : HandoffEnv} {phase : HandoffPhase}
    (hu : Undisturbed h copies env phase) (hp : copies.Perm copies') :
    Undisturbed h copies' env phase := by
  cases phase with
  | clearHintsForNode nodeID => exact fun p hmem => hu p (hp.mem_iff.mpr hmem)
  | snapshot nodeID => exact fun p hmem => hu p (hp.mem_iff.mpr hmem)
  | storeHint args => exact hu
  | next | replay | failed | increment | check | removeHint => trivial

/-- A turn that changes only the history. -/
theorem Safe.congr (hs : Safe h copies) (hservice : ∀ nodeID, h'.service.hintsFor nodeID =
    h.service.hintsFor nodeID) (hstored : h'.stored = h.stored) : Safe h' copies := by
  refine ⟨?_, ?_, hs.single, ?_, ?_⟩
  · simpa only [hservice, hstored] using hs.listed
  · simpa only [hservice] using hs.distinct
  · simpa only [hstored] using hs.copied
  · simpa only [hservice] using hs.outlasts

/-- A replay ends. -/
theorem Safe.finish {p : String × List Hint} (hs : Safe h (p :: copies)) : Safe h copies where
  listed := hs.listed
  distinct := hs.distinct
  single := (List.nodup_cons.mp hs.single).2
  copied q hmem := hs.copied q (List.mem_cons_of_mem _ hmem)
  outlasts q hmem := hs.outlasts q (List.mem_cons_of_mem _ hmem)

/-- A replay goes on without a removal. -/
theorem Safe.advance (hs : Safe h ((nodeID, hint :: hints) :: copies)) :
    Safe h ((nodeID, hints) :: copies) where
  listed := hs.listed
  distinct := hs.distinct
  single := hs.single
  copied := by
    have hcopied := List.forall_mem_cons.mp hs.copied
    exact List.forall_mem_cons.mpr
      ⟨fun other hmem => hcopied.1 other (List.mem_cons_of_mem _ hmem), hcopied.2⟩
  outlasts := by
    have houtlasts := List.forall_mem_cons.mp hs.outlasts
    exact List.forall_mem_cons.mpr ⟨houtlasts.1.tail, houtlasts.2⟩

/-- The hints of a list are different, so a replay that begins is safe. -/
theorem Safe.snapshot (hs : Safe h copies) (hnone : ∀ p ∈ copies, p.1 ≠ nodeID) :
    Safe h ((nodeID, h.service.hintsFor nodeID) :: copies) where
  listed := hs.listed
  distinct := hs.distinct
  single := by
    rw [List.map_cons, List.nodup_cons]
    refine ⟨fun hmem => ?_, hs.single⟩
    obtain ⟨p, hp, heq⟩ := List.mem_map.mp hmem
    exact hnone p hp heq
  copied := List.forall_mem_cons.mpr ⟨hs.listed nodeID, hs.copied⟩
  outlasts := by
    refine List.forall_mem_cons.mpr ⟨outlasts_self_iff.mpr fun last hlast other hother => ?_,
      hs.outlasts⟩
    have hdistinct := hs.distinct nodeID
    obtain ⟨front, heq⟩ := List.getLast?_eq_some_iff.mp hlast
    dsimp only at hother
    rw [heq, List.dropLast_concat] at hother
    rw [heq, List.pairwise_append] at hdistinct
    exact hdistinct.2.2 other hother last List.mem_cons_self

/-- A hint is removed, which only the replay of its node notices. -/
theorem Safe.remove {service : HintedHandoffService}
    (hs : Safe h ((nodeID, hint :: hints) :: copies))
    (hremove : h.service.removeHint nodeID hint = some service) :
    Safe { h with service } ((nodeID, hints) :: copies) := by
  have hlists := (removeHint_eq_some hremove).2
  have hnew : service.hintsFor nodeID =
      (h.service.hintsFor nodeID).filter fun other => !sameHint other hint :=
    (hlists nodeID).trans (if_pos rfl)
  have hsub : ∀ other, (service.hintsFor other).Sublist (h.service.hintsFor other) := by
    intro other
    rw [hlists]
    split
    · exact List.filter_sublist
    · exact List.Sublist.refl _
  have houtlasts := List.forall_mem_cons.mp hs.outlasts
  refine ⟨fun other kept hmem => hs.listed other kept ((hsub other).subset hmem),
    fun other => (hs.distinct other).sublist (hsub other), hs.single, hs.advance.copied,
    List.forall_mem_cons.mpr ⟨?_, fun p hp => ?_⟩⟩
  · show Outlasts (service.hintsFor nodeID) hints
    rw [hnew]
    exact (outlasts_filter_iff houtlasts.1.ne_nil).mpr houtlasts.1
  · have hne : nodeID ≠ p.1 := fun heq =>
      (List.nodup_cons.mp hs.single).1 (List.mem_map.mpr ⟨p, hp, heq.symm⟩)
    show Outlasts (service.hintsFor p.1) p.2
    rw [hlists, if_neg hne]
    exact houtlasts.2 p hp

theorem Safe.clear (hs : Safe h copies) (hnone : ∀ p ∈ copies, p.1 ≠ nodeID) (cleared : List Hint) :
    Safe { h with service := h.service.clearHintsForNode nodeID, cleared } copies := by
  have hsub : ∀ other, ((h.service.clearHintsForNode nodeID).hintsFor other).Sublist
      (h.service.hintsFor other) := by
    intro other
    rw [hintsFor_clearHintsForNode]
    split
    · exact List.nil_sublist _
    · exact List.Sublist.refl _
  refine ⟨fun other kept hmem => hs.listed other kept ((hsub other).subset hmem),
    fun other => (hs.distinct other).sublist (hsub other), hs.single, hs.copied, fun p hp => ?_⟩
  show Outlasts ((h.service.clearHintsForNode nodeID).hintsFor p.1) p.2
  rw [hintsFor_clearHintsForNode, if_neg (hnone p hp).symm]
  exact hs.outlasts p hp

/-- The hint that is stored is different from all others of its node, so it outlasts the replay of
the node, if there is one. -/
theorem Safe.store {args : HintArgs} {now : Int} (hs : Safe h copies)
    (hfresh : ∀ hint ∈ h.stored, hint.nodeID = args.nodeID →
      ¬ (hint.key = args.key ∧ hint.timestamp = now)) (dropped : List Hint) :
    Safe { h with
      service := h.service.storeHint now args
      stored := h.stored ++ [h.service.newHint now args]
      dropped } copies := by
  have hnew : ∀ other ∈ h.stored, other.nodeID = args.nodeID →
      sameHint (h.service.newHint now args) other = false := by
    intro other hother hnode
    rw [Bool.eq_false_iff, Ne, sameHint_iff]
    exact fun heq => hfresh other hother hnode ⟨heq.1.symm, heq.2.symm⟩
  have hkept : ((if h.service.isFull args.nodeID then (h.service.hintsFor args.nodeID).tail
      else h.service.hintsFor args.nodeID).Sublist (h.service.hintsFor args.nodeID)) := by
    split
    · exact List.tail_sublist _
    · exact List.Sublist.refl _
  refine ⟨fun nodeID hint hmem => ?_, fun nodeID => ?_, hs.single, fun p hp hint hmem => ?_,
    fun p hp => ?_⟩
  · simp only [hintsFor_storeHint] at hmem
    split at hmem
    · next hnode =>
      subst hnode
      rcases List.mem_append.mp hmem with hmem | hmem
      · obtain ⟨hstored, hnode⟩ := hs.listed _ hint (hkept.subset hmem)
        exact ⟨List.mem_append_left _ hstored, hnode⟩
      · rw [List.mem_singleton.mp hmem]
        exact ⟨List.mem_append_right _ List.mem_cons_self, rfl⟩
    · obtain ⟨hstored, hnode⟩ := hs.listed _ hint hmem
      exact ⟨List.mem_append_left _ hstored, hnode⟩
  · simp only [hintsFor_storeHint]
    split
    · next hnode =>
      subst hnode
      refine List.pairwise_append.mpr ⟨(hs.distinct _).sublist hkept, List.pairwise_singleton _ _,
        fun other hother last hlast => ?_⟩
      obtain ⟨hstored, hnode⟩ := hs.listed _ other (hkept.subset hother)
      rw [List.mem_singleton.mp hlast]
      exact hnew other hstored hnode
    · exact hs.distinct nodeID
  · obtain ⟨hstored, hnode⟩ := hs.copied p hp hint hmem
    exact ⟨List.mem_append_left _ hstored, hnode⟩
  · simp only [hintsFor_storeHint]
    split
    · next hnode =>
      refine Or.inr ⟨_, List.mem_append_right _ List.mem_cons_self, fun other hother => ?_⟩
      obtain ⟨hstored, hcopied⟩ := hs.copied p hp other (List.mem_of_mem_dropLast hother)
      exact hnew other hstored (hcopied.trans hnode.symm)
    · exact hs.outlasts p hp

/-- **A turn keeps the replays safe.** -/
theorem safe_turn {env : HandoffEnv} {phase : HandoffPhase} {next : Option HandoffPhase}
    (hs : Safe h ((remaining phase).toList ++ copies))
    (hu : Undisturbed h ((remaining phase).toList ++ copies) env phase)
    (ht : h.turn env phase = some (h', next)) :
    Safe h' ((next.bind remaining).toList ++ copies) := by
  cases phase with
  | storeHint args =>
    cases ht
    exact hs.store hu _
  | clearHintsForNode nodeID =>
    cases ht
    exact hs.clear hu _
  | snapshot nodeID =>
    cases ht
    exact hs.snapshot hu
  | next nodeID hints =>
    cases hints with
    | nil =>
      cases ht
      exact hs.finish
    | cons hint rest =>
      rw [turn] at ht
      split at ht
      · cases ht
        exact hs.congr (fun _ => rfl) rfl
      · cases ht
        exact hs
  | replay nodeID hint rest =>
    rw [turn] at ht
    split at ht
    · cases ht
      exact hs.congr (fun _ => rfl) rfl
    · cases ht
      exact hs.congr (fun _ => rfl) rfl
  | failed nodeID hint rest =>
    cases ht
    exact hs
  | increment nodeID hint rest read =>
    cases ht
    exact hs.congr (fun _ => rfl) rfl
  | check nodeID hint rest =>
    cases ht
    split
    · exact hs
    · exact hs.advance
  | removeHint nodeID hint rest =>
    obtain ⟨service, hremove, hpair⟩ := Option.map_eq_some_iff.mp ht
    cases hpair
    exact hs.remove hremove

/-- **In a safe state no call panics**, whatever its turn finds. -/
theorem turn_isSome_of_safe {phase : HandoffPhase}
    (hs : Safe h ((remaining phase).toList ++ copies)) (env : HandoffEnv) :
    (h.turn env phase).isSome = true := by
  cases phase with
  | removeHint nodeID hint rest =>
    have hlist := (hs.outlasts (nodeID, hint :: rest) List.mem_cons_self).ne_nil
    rw [turn, Option.isSome_map]
    exact HintedHandoffService.removeHint_isSome_iff.mpr hlist
  | next nodeID hints =>
    cases hints with
    | nil => rfl
    | cons hint rest =>
      rw [turn]
      split <;> rfl
  | replay nodeID hint rest =>
    rw [turn]
    split <;> rfl
  | storeHint | clearHintsForNode | snapshot | failed | increment | check => rfl

theorem replays_cons (phase : HandoffPhase) (rest : List HandoffPhase) :
    replays (phase :: rest) = (remaining phase).toList ++ replays rest := by
  rw [replays, List.filterMap_cons]
  cases remaining phase <;> rfl

theorem replays_toList_append (next : Option HandoffPhase) (rest : List HandoffPhase) :
    replays (next.toList ++ rest) = (next.bind remaining).toList ++ replays rest := by
  cases next with
  | none => rfl
  | some phase => exact replays_cons phase rest

theorem safe_step {s s' : System} {t : Turn} (hs : Safe s.state (replays s.phases))
    (ho : Orderly s t) (hstep : step s t = some s') : Safe s'.state (replays s'.phases) := by
  cases t with
  | start id env request =>
    obtain ⟨hstate, hphases⟩ := Concurrent.step_start hstep
    rw [hstate, hphases, replays, List.filterMap_append]
    cases request <;> exact (List.append_nil (replays s.phases)).symm ▸ hs
  | advance id env =>
    obtain ⟨phase, next, rest, hphase, hturn, hbefore, hafter⟩ :=
      Concurrent.step_advance_perm hstep
    have hperm : (replays s.phases).Perm ((remaining phase).toList ++ replays rest) := by
      rw [← replays_cons]
      exact hbefore.filterMap _
    have hafter' : (replays s'.phases).Perm ((next.bind remaining).toList ++ replays rest) := by
      rw [← replays_toList_append]
      exact hafter.filterMap _
    exact (safe_turn (hs.perm hperm) ((ho phase hphase).perm hperm) hturn).perm hafter'.symm

theorem safe_init (maxHints hintTTL : Int) : Safe (init maxHints hintTTL) [] where
  listed nodeID hint hmem := by cases hmem
  distinct nodeID := List.Pairwise.nil
  single := List.nodup_nil
  copied p hmem := by cases hmem
  outlasts p hmem := by cases hmem

instance (h : Handoff) (copies : List (String × List Hint)) (env : HandoffEnv)
    (phase : HandoffPhase) : Decidable (Undisturbed h copies env phase) :=
  match phase with
  | .storeHint _ | .clearHintsForNode _ | .snapshot _ => inferInstanceAs (Decidable (∀ _ ∈ _, _))
  | .next _ _ | .replay _ _ _ | .failed _ _ _ | .increment _ _ _ _ | .check _ _ _
  | .removeHint _ _ _ => inferInstanceAs (Decidable True)

instance (s : System) (t : Turn) : Decidable (Orderly s t) :=
  match t with
  | .start _ _ _ => inferInstanceAs (Decidable True)
  | .advance _ _ => inferInstanceAs (Decidable (∀ _ ∈ _, _))

end Handoff

namespace Sample

open Handoff

/-- The node takes what it gets. -/
def taking : HandoffEnv := ⟨2, .response true VectorClock.empty⟩

/-- A hint is stored. -/
def hintStored : List Turn :=
  [.start 0 ⟨1, .transportError ""⟩ (.storeHint ⟨"n", "t", "k", [1], VectorClock.empty⟩),
    .advance 0 ⟨1, .transportError ""⟩]

/-- A replay copies the list. -/
def replayBegun (id : Nat) : List Turn :=
  [.start id taking (.replayHintsForNode "n"), .advance id taking]

/-- The next hint is looked at and sent. -/
def nextSent (id : Nat) : List Turn := [.advance id taking, .advance id taking]

/-- One replay, which is about to remove its hint. -/
def oneReplay : List Turn := hintStored ++ replayBegun 1 ++ nextSent 1

/-- Two replays copy the list; one of them removes the hint. -/
def overlapping : List Turn :=
  hintStored ++ replayBegun 1 ++ replayBegun 2 ++ nextSent 1 ++ nextSent 2 ++ [.advance 1 taking]

/-- The node is cleared while a hint is on its way. -/
def clearedMeanwhile : List Turn :=
  oneReplay ++ [.start 2 taking (.clearHintsForNode "n"), .advance 2 taking]

end Sample

end PairDB.Coordinator
