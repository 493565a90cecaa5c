import PairDB.Infra.Concurrent
import PairDB.Coordinator.CoordinatorService

/-!
# `service.HintedHandoffService`

The hints that are kept in memory, per node. `StoreHint`, `ClearHintsForNode` and the replays of the
hints of a node run concurrently; each takes the lock for a part of its work, and these parts are the
turns of the interleaving. A replay works on a copy of the list, but the copy has pointers to the
same hints: `ref` is the identity of a hint, and its counter `Retries` is kept under it.

The state of the interleaving also has a history: which hints were stored, which were written to
their node, and which left the store for the other reasons that there are.
-/

namespace PairDB.Coordinator

open Infra

/-- `Hint`, without the counter of its retries. -/
structure Hint where
  ref : Nat
  nodeID : String
  tenantID : String
  key : String
  value : List UInt8
  vectorClock : VectorClock
  timestamp : Int
  deriving DecidableEq, Repr

/-- `HintedHandoffService`. Times are in nanoseconds. -/
structure HintedHandoffService where
  hints : Map String (List Hint)
  maxHints : Nat
  hintTTL : Int
  retries : Nat → Nat
  nextRef : Nat
  maxHints_pos : 0 < maxHints

namespace HintedHandoffService

/-- `NewHintedHandoffService`. -/
def new (maxHints hintTTL : Int) : HintedHandoffService where
  hints := ∅
  maxHints := if maxHints ≤ 0 then 10000 else maxHints.toNat
  hintTTL := if hintTTL = 0 then 3 * 3600 * 1000000000 else hintTTL
  retries := fun _ => 0
  nextRef := 0
  maxHints_pos := by split <;> omega

/-- The list of a node. -/
def hintsFor (s : HintedHandoffService) (nodeID : String) : List Hint :=
  (s.hints.get? nodeID).getD []

/-- The hint that `StoreHint` makes. -/
def newHint (s : HintedHandoffService) (now : Int) (args : HintArgs) : Hint :=
  ⟨s.nextRef, args.nodeID, args.tenantID, args.key, args.value, args.vectorClock, now⟩

/-- The list is full. -/
def isFull (s : HintedHandoffService) (nodeID : String) : Bool :=
  (s.hintsFor nodeID).length ≥ s.maxHints

/-- `StoreHint`. -/
def storeHint (s : HintedHandoffService) (now : Int) (args : HintArgs) : HintedHandoffService :=
  let nodeHints := s.hintsFor args.nodeID
  let nodeHints := if s.isFull args.nodeID then nodeHints.tail else nodeHints
  { s with
    hints := s.hints.set args.nodeID (nodeHints ++ [s.newHint now args])
    nextRef := s.nextRef + 1 }

/-- The comparison of `removeHint`. -/
def sameHint (hint hintToRemove : Hint) : Bool :=
  hint.key = hintToRemove.key && hint.timestamp = hintToRemove.timestamp

/-- `removeHint`. It allocates for one hint less than the list has, so it panics on an empty list. -/
def removeHint (s : HintedHandoffService) (nodeID : String) (hintToRemove : Hint) :
    Option HintedHandoffService :=
  let nodeHints := s.hintsFor nodeID
  if nodeHints = [] then none
  else
    let newHints := nodeHints.filter fun hint => !sameHint hint hintToRemove
    some { s with
      hints := if newHints = [] then s.hints.remove nodeID else s.hints.set nodeID newHints }

/-- `ClearHintsForNode`. -/
def clearHintsForNode (s : HintedHandoffService) (nodeID : String) : HintedHandoffService :=
  { s with hints := s.hints.remove nodeID }

/-- `replayHint`. The response of the node is not looked at. -/
def replayHint : WriteAnswer → Except String Unit
  | .transportError err => .error err
  | .response _ _ => .ok ()

theorem hintsFor_storeHint (s : HintedHandoffService) (now : Int) (args : HintArgs)
    (nodeID : String) :
    (s.storeHint now args).hintsFor nodeID =
      if args.nodeID = nodeID then
        (if s.isFull nodeID then (s.hintsFor nodeID).tail else s.hintsFor nodeID) ++
          [s.newHint now args]
      else s.hintsFor nodeID := by
  simp only [storeHint, hintsFor, Map.get?_set]
  split
  · next h =>
    rw [h]
    rfl
  · rfl

theorem hintsFor_clearHintsForNode (s : HintedHandoffService) (cleared nodeID : String) :
    (s.clearHintsForNode cleared).hintsFor nodeID =
      if cleared = nodeID then [] else s.hintsFor nodeID := by
  simp only [clearHintsForNode, hintsFor, Map.get?_remove]
  split <;> rfl

theorem removeHint_eq_some {s s' : HintedHandoffService} {removedFrom : String} {hint : Hint}
    (h : s.removeHint removedFrom hint = some s') :
    s'.retries = s.retries ∧ ∀ nodeID, s'.hintsFor nodeID =
      if removedFrom = nodeID then
        (s.hintsFor nodeID).filter fun other => !sameHint other hint
      else s.hintsFor nodeID := by
  unfold removeHint at h
  dsimp only at h
  split at h
  · cases h
  · cases h
    refine ⟨rfl, fun nodeID => ?_⟩
    by_cases hnode : removedFrom = nodeID
    · subst hnode
      rw [if_pos rfl, hintsFor]
      dsimp only
      split
      · next hnil => rw [Map.get?_remove, if_pos rfl, hnil, Option.getD_none]
      · rw [Map.get?_set, if_pos rfl, Option.getD_some]
    · rw [if_neg hnode, hintsFor]
      dsimp only
      split
      · rw [Map.get?_remove, if_neg hnode, hintsFor]
      · rw [Map.get?_set, if_neg hnode, hintsFor]

end HintedHandoffService

/-! ## The interleaving -/

/-- The service and its history. -/
structure Handoff where
  service : HintedHandoffService
  /-- All hints that were stored. -/
  stored : List Hint
  /-- Hints that were sent to their node and answered with success. -/
  applied : List Hint
  /-- Hints that a replay found to be too old. -/
  expired : List Hint
  /-- Hints that were the oldest of a full list. -/
  dropped : List Hint
  /-- Hints of nodes that were cleared. -/
  cleared : List Hint
  /-- How often the replay of a hint has failed. -/
  failures : Nat → Nat

/-- What a call reads from its surroundings. -/
structure HandoffEnv where
  now : Int
  answer : WriteAnswer

/-- A call of the service. -/
inductive HandoffRequest where
  | storeHint (args : HintArgs)
  | clearHintsForNode (nodeID : String)
  | replayHintsForNode (nodeID : String)

/-- How far a call is; `rest` are the hints of the copy that come after `hint`. -/
inductive HandoffPhase where
  | storeHint (args : HintArgs)
  | clearHintsForNode (nodeID : String)
  /-- The list is copied. -/
  | snapshot (nodeID : String)
  /-- The next round of the loop. -/
  | next (nodeID : String) (hints : List Hint)
  /-- The hint is sent. -/
  | replay (nodeID : String) (hint : Hint) (rest : List Hint)
  /-- `hint.Retries` is read to be incremented. -/
  | failed (nodeID : String) (hint : Hint) (rest : List Hint)
  /-- `hint.Retries` is written. -/
  | increment (nodeID : String) (hint : Hint) (rest : List Hint) (read : Nat)
  /-- `hint.Retries` is compared with its limit. -/
  | check (nodeID : String) (hint : Hint) (rest : List Hint)
  | removeHint (nodeID : String) (hint : Hint) (rest : List Hint)

namespace Handoff

def init (maxHints hintTTL : Int) : Handoff where
  service := .new maxHints hintTTL
  stored := []
  applied := []
  expired := []
  dropped := []
  cleared := []
  failures := fun _ => 0

/-- The first phase of a call. -/
def enter (_ : HandoffEnv) : HandoffRequest → Option HandoffPhase
  | .storeHint args => some (.storeHint args)
  | .clearHintsForNode nodeID => some (.clearHintsForNode nodeID)
  | .replayHintsForNode nodeID => some (.snapshot nodeID)

/-- A turn of a call. -/
def turn (h : Handoff) (env : HandoffEnv) : HandoffPhase → Option (Handoff × Option HandoffPhase)
  | .storeHint args =>
    some ({ h with
      service := h.service.storeHint env.now args
      stored := h.stored ++ [h.service.newHint env.now args]
      dropped := h.dropped ++ if h.service.isFull args.nodeID then
        (h.service.hintsFor args.nodeID).head?.toList else [] }, none)
  | .clearHintsForNode nodeID =>
    some ({ h with
      service := h.service.clearHintsForNode nodeID
      cleared := h.cleared ++ h.service.hintsFor nodeID }, none)
  | .snapshot nodeID => some (h, some (.next nodeID (h.service.hintsFor nodeID)))
  | .next _ [] => some (h, none)
  | .next nodeID (hint :: rest) =>
    if env.now - hint.timestamp > h.service.hintTTL then
      some ({ h with expired := h.expired ++ [hint] }, some (.removeHint nodeID hint rest))
    else some (h, some (.replay nodeID hint rest))
  | .replay nodeID hint rest =>
    match HintedHandoffService.replayHint env.answer with
    | .ok () =>
      some ({ h with applied := h.applied ++ if env.answer.succeeded then [hint] else [] },
        some (.removeHint nodeID hint rest))
    | .error _ =>
      some ({ h with failures := Function.update h.failures hint.ref (h.failures hint.ref + 1) },
        some (.failed nodeID hint rest))
  | .failed nodeID hint rest =>
    some (h, some (.increment nodeID hint rest (h.service.retries hint.ref)))
  | .increment nodeID hint rest read =>
    some ({ h with
      service := { h.service with
        retries := Function.update h.service.retries hint.ref (read + 1) } },
      some (.check nodeID hint rest))
  | .check nodeID hint rest =>
    some (h, some (if h.service.retries hint.ref ≥ 10 then .removeHint nodeID hint rest
      else .next nodeID rest))
  | .removeHint nodeID hint rest =>
    (h.service.removeHint nodeID hint).map fun service =>
      ({ h with service }, some (.next nodeID rest))

abbrev System := Concurrent.System Handoff HandoffPhase

abbrev Turn := Concurrent.Turn HandoffEnv HandoffRequest

/-- A step of the interleaving. -/
def step (s : System) (t : Turn) : Option System := Concurrent.step enter turn s t

end Handoff

/-! ## One replay by itself -/

/-- The service with its client, and the requests that have arrived at an address. -/
structure Delivery where
  service : HintedHandoffService
  client : StorageClient
  arrived : List (String × WireWriteRequest)

namespace HintedHandoffService

/-- The address of the node that `replayHint` makes. It has neither `Host` nor `Port`. -/
def replayAddr : String := "" ++ ":" ++ toString (0 : Int)

/-- The request that `replayHint` leads to. -/
def writeRequest (hint : Hint) : WireWriteRequest :=
  ⟨hint.tenantID, hint.key, hint.value, hint.vectorClock⟩

/-- `hint.Retries++`. -/
def retried (s : HintedHandoffService) (hint : Hint) : HintedHandoffService :=
  { s with retries := Function.update s.retries hint.ref (s.retries hint.ref + 1) }

end HintedHandoffService

namespace Delivery

open HintedHandoffService

/-- `removeHint`, in the middle of a replay. -/
def removeHint (d : Delivery) (nodeID : String) (hint : Hint) : Option Delivery :=
  (d.service.removeHint nodeID hint).map fun service => { d with service }

/-- A hint is sent. -/
def sent (d : Delivery) (network : Network) (hint : Hint) : Delivery where
  service := d.service
  client := (d.client.request network replayAddr (writeRequest hint)).1
  arrived := d.arrived ++ if (network replayAddr).isSome then [(replayAddr, writeRequest hint)]
    else []

/-- A round of the loop of `replayHintsForNode`. -/
def round (network : Network) (now : Int) (nodeID : String) (d : Delivery) (hint : Hint) :
    Option Delivery :=
  if now - hint.timestamp > d.service.hintTTL then d.removeHint nodeID hint
  else
    let answer := (d.client.request network replayAddr (writeRequest hint)).2
    let d := d.sent network hint
    match replayHint answer with
    | .ok () => d.removeHint nodeID hint
    | .error _ =>
      let d := { d with service := d.service.retried hint }
      if d.service.retries hint.ref ≥ 10 then d.removeHint nodeID hint else some d

/-- The loop. The `i`-th hint is looked at when it is `clock i`. -/
def loop (network : Network) (clock : Nat → Int) (nodeID : String) :
    Nat → Delivery → List Hint → Option Delivery
  | _, d, [] => some d
  | i, d, hint :: hints =>
    (d.round network (clock i) nodeID hint).bind fun d => loop network clock nodeID (i + 1) d hints

/-- `replayHintsForNode`, when no other call has a turn. -/
def replayHintsForNode (d : Delivery) (network : Network) (clock : Nat → Int) (nodeID : String) :
    Option Delivery :=
  loop network clock nodeID 0 d (d.service.hintsFor nodeID)

end Delivery

/-! ### It is a call of the interleaving -/

namespace Handoff

open HintedHandoffService Concurrent

variable {h : Handoff} {d d' : Delivery} {network : Network} {nodeID : String} {hint : Hint}
  {rest : List Hint}

/-- The surroundings of the turns that do not look at them. -/
def noEnv (now : Int) : HandoffEnv := ⟨now, .transportError ""⟩

theorem turn_removeHint (h : Handoff) (env : HandoffEnv) (rest : List Hint)
    (hservice : h.service = d.service) (hremove : d.removeHint nodeID hint = some d') :
    ∃ h', h'.service = d'.service ∧
      h.turn env (.removeHint nodeID hint rest) = some (h', some (.next nodeID rest)) := by
  obtain ⟨service, hsome, rfl⟩ := Option.map_eq_some_iff.mp hremove
  refine ⟨{ h with service }, rfl, ?_⟩
  rw [turn, hservice, hsome]
  rfl

/-- The turns of a round. -/
theorem runTurns_round {now : Int} (hservice : h.service = d.service)
    (hround : d.round network now nodeID hint = some d') :
    ∃ envs h', h'.service = d'.service ∧
      runTurns turn envs h (.next nodeID (hint :: rest)) = some (h', some (.next nodeID rest)) := by
  unfold Delivery.round at hround
  split at hround
  · next hexpired =>
    have hnext : h.turn (noEnv now) (.next nodeID (hint :: rest)) =
        some ({ h with expired := h.expired ++ [hint] }, some (.removeHint nodeID hint rest)) := by
      rw [turn, hservice]
      exact if_pos hexpired
    obtain ⟨h', heq, hremove⟩ := turn_removeHint { h with expired := h.expired ++ [hint] }
      (noEnv now) rest hservice hround
    exact ⟨[noEnv now, noEnv now], h', heq, by
      rw [runTurns_cons hnext, runTurns_cons hremove, runTurns]⟩
  · next hfresh =>
    have hnext : h.turn (noEnv now) (.next nodeID (hint :: rest)) =
        some (h, some (.replay nodeID hint rest)) := by
      rw [turn, hservice]
      exact if_neg hfresh
    generalize hanswer : (d.client.request network replayAddr (writeRequest hint)).2 = answer
      at hround
    dsimp only at hround
    split at hround
    · next hok =>
      have hreplay : h.turn ⟨now, answer⟩ (.replay nodeID hint rest) =
          some ({ h with applied := h.applied ++ if answer.succeeded then [hint] else [] },
            some (.removeHint nodeID hint rest)) := by
        rw [turn]
        simp only [hok]
      obtain ⟨h', heq, hremove⟩ := turn_removeHint
        { h with applied := h.applied ++ if answer.succeeded then [hint] else [] } (noEnv now) rest
        (show h.service = (d.sent network hint).service from hservice) hround
      exact ⟨[noEnv now, ⟨now, answer⟩, noEnv now], h', heq, by
        rw [runTurns_cons hnext, runTurns_cons hreplay, runTurns_cons hremove, runTurns]⟩
    · next err herr =>
      -- the failure is counted, and the counter is looked at
      let failing : Handoff := { h with
        failures := Function.update h.failures hint.ref (h.failures hint.ref + 1) }
      let counted : Handoff := { failing with service := h.service.retried hint }
      have hreplay : h.turn ⟨now, answer⟩ (.replay nodeID hint rest) =
          some (failing, some (.failed nodeID hint rest)) := by
        rw [turn]
        simp only [herr]
        rfl
      have hfailed : failing.turn (noEnv now) (.failed nodeID hint rest) =
          some (failing, some (.increment nodeID hint rest (h.service.retries hint.ref))) := rfl
      have hincrement : failing.turn (noEnv now)
          (.increment nodeID hint rest (h.service.retries hint.ref)) =
          some (counted, some (.check nodeID hint rest)) := rfl
      have hservice' : counted.service = (d.service.retried hint) :=
        congrArg (HintedHandoffService.retried · hint) hservice
      split at hround
      · next hlimit =>
        have hcheck : counted.turn (noEnv now) (.check nodeID hint rest) =
            some (counted, some (.removeHint nodeID hint rest)) := by
          rw [turn, hservice']
          exact congrArg (fun p => some (counted, some p)) (if_pos hlimit)
        obtain ⟨h', heq, hremove⟩ := turn_removeHint counted (noEnv now) rest hservice' hround
        refine ⟨[noEnv now, ⟨now, answer⟩, noEnv now, noEnv now, noEnv now, noEnv now], h', heq, ?_⟩
        rw [runTurns_cons hnext, runTurns_cons hreplay, runTurns_cons hfailed,
          runTurns_cons hincrement, runTurns_cons hcheck, runTurns_cons hremove, runTurns]
      · next hlimit =>
        cases hround
        have hcheck : counted.turn (noEnv now) (.check nodeID hint rest) =
            some (counted, some (.next nodeID rest)) := by
          rw [turn, hservice']
          exact congrArg (fun p => some (counted, some p)) (if_neg hlimit)
        refine ⟨[noEnv now, ⟨now, answer⟩, noEnv now, noEnv now, noEnv now], counted, hservice', ?_⟩
        rw [runTurns_cons hnext, runTurns_cons hreplay, runTurns_cons hfailed,
          runTurns_cons hincrement, runTurns_cons hcheck, runTurns]

/-- **A replay by itself is a call of the interleaving** that has all the turns. -/
theorem runTurns_replayHintsForNode {clock : Nat → Int} (hservice : h.service = d.service)
    (hreplay : d.replayHintsForNode network clock nodeID = some d') :
    ∃ envs h', h'.service = d'.service ∧
      runTurns turn envs h (.snapshot nodeID) = some (h', none) := by
  have hloop : ∀ {hints : List Hint} {i : Nat} {h : Handoff} {d : Delivery},
      h.service = d.service → Delivery.loop network clock nodeID i d hints = some d' →
      ∃ envs h', h'.service = d'.service ∧
        runTurns turn envs h (.next nodeID hints) = some (h', none) := by
    intro hints
    induction hints with
    | nil =>
      intro i h d hservice h'
      cases h'
      exact ⟨[noEnv (clock i)], h, hservice, rfl⟩
    | cons hint hints ih =>
      intro i h d hservice hsome
      obtain ⟨d₁, hround, hrest⟩ := Option.bind_eq_some_iff.mp hsome
      obtain ⟨envs₁, h₁, heq₁, hturns₁⟩ := runTurns_round hservice hround
      obtain ⟨envs₂, h₂, heq₂, hturns₂⟩ := ih heq₁ hrest
      exact ⟨envs₁ ++ envs₂, h₂, heq₂, (runTurns_append hturns₁).trans hturns₂⟩
  obtain ⟨envs, h', heq, hturns⟩ := hloop hservice hreplay
  refine ⟨noEnv (clock 0) :: envs, h', heq, ?_⟩
  rw [← hservice] at hturns
  exact (runTurns_cons rfl envs).trans hturns

end Handoff

end PairDB.Coordinator
