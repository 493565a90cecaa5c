import PairDB.Coordinator.StorageClient
import PairDB.Infra.MachineInt
import PairDB.Infra.Map

/-!
# `service.HintReplayService` over `store.PostgresHintStore`

The second store of hints, a table. Before a node becomes `NORMAL` its hints are read in batches and
sent to it. A hint that was sent is deleted; one that failed stays, and is in the next batch again,
unless its `replay_count` has reached the limit. Nothing ever increments `replay_count`, so the loop
can go on for ever: what the node and the table answer in every round is a list, and the replay is
`none` if the list ends before the loop does.
-/

namespace PairDB.Coordinator

open Infra

/-- `model.Hint`. Times are in nanoseconds. -/
structure StoredHint where
  hintID : String
  targetNodeID : String
  tenantID : String
  key : String
  value : List UInt8
  vectorClock : String
  timestamp : Int
  createdAt : Int
  replayCount : Int
  deriving DecidableEq, Repr

/-- The table `hints`. -/
structure HintStore where
  hints : List StoredHint
  deriving DecidableEq, Repr

namespace HintStore

def empty : HintStore := ⟨[]⟩

/-- `StoreHint`. -/
def storeHint (s : HintStore) (hint : StoredHint) : Except String HintStore :=
  if s.hints.any fun other => other.hintID = hint.hintID then
    .error "failed to store hint: duplicate key value"
  else .ok ⟨s.hints ++ [hint]⟩

/-- `GetHintsForNode`. -/
def getHintsForNode (s : HintStore) (targetNodeID : String) (limit : Nat) : List StoredHint :=
  ((s.hints.filter fun hint => hint.targetNodeID = targetNodeID).insertionSort fun a b =>
    a.createdAt ≤ b.createdAt).take limit

/-- `DeleteHint`. -/
def deleteHint (s : HintStore) (hintID : String) : Except String HintStore :=
  if s.hints.any fun hint => hint.hintID = hintID then
    .ok ⟨s.hints.filter fun hint => hint.hintID ≠ hintID⟩
  else .error "hint not found"

/-- `GetHintCount`. -/
def getHintCount (s : HintStore) (targetNodeID : String) : Nat :=
  s.hints.countP fun hint => hint.targetNodeID = targetNodeID

end HintStore

/-! ## The request to the node -/

/-- `client.WriteRequest`. -/
structure NodeWriteRequest where
  tenantID : String
  key : String
  value : List UInt8
  vectorClock : String
  timestamp : Int
  deriving DecidableEq, Repr

/-- `time.Time.UnixNano`, in the arithmetic of `int64`. -/
def unixNano (timestamp : Int) : Int := int64 timestamp

/-- The request that `StorageNodeClient.Write` sends. Its clock is made from the timestamp. -/
def StorageNodeClient.wireRequest (req : NodeWriteRequest) : WireWriteRequest where
  tenantID := req.tenantID
  key := req.key
  value := req.value
  vectorClock := ⟨[⟨"coordinator-1", unixNano req.timestamp⟩]⟩

/-- The request that `replayHint` hands to the client. -/
def HintReplayService.writeRequest (hint : StoredHint) : NodeWriteRequest where
  tenantID := hint.tenantID
  key := hint.key
  value := hint.value
  vectorClock := hint.vectorClock
  timestamp := hint.timestamp

/-! ## The replay -/

namespace HintReplayService

/-- `batchSize`. -/
def batchSize : Nat := 100

/-- `maxRetries`. -/
def maxRetries : Int := 3

/-- What happens to one hint of a batch: the answer of the node, and whether the table cannot be
written. -/
structure Attempt where
  answer : WriteAnswer
  deleteFails : Bool

/-- What happens to a batch: whether it cannot be read, and what happens to its hints. -/
structure Round where
  getError : Option String
  attempts : Nat → Attempt

/-- `replayHint`. Other than the replay of the hints in memory, it looks at the response. -/
def replayHint : WriteAnswer → Except String Unit
  | .transportError err => .error ("failed to write hint: " ++ err)
  | .response true _ => .ok ()
  | .response false _ => .error "hint write unsuccessful: "

/-- The table and the hints that the node has taken. -/
structure Replay where
  store : HintStore
  written : List StoredHint
  deriving DecidableEq, Repr

/-- `DeleteHint`, an error of which is only logged. -/
def Replay.delete (r : Replay) (attempt : Attempt) (hintID : String) : Replay :=
  if attempt.deleteFails then r
  else { r with store := (r.store.deleteHint hintID).toOption.getD r.store }

/-- One round of the loop over a batch. -/
def Replay.attempt (r : Replay) (attempt : Attempt) (hint : StoredHint) : Replay :=
  match replayHint attempt.answer with
  | .ok () => Replay.delete { r with written := r.written ++ [hint] } attempt hint.hintID
  | .error _ => if hint.replayCount ≥ maxRetries then r.delete attempt hint.hintID else r

/-- The loop over a batch, from its `i`-th hint on. -/
def Replay.batch (attempts : Nat → Attempt) : (i : Nat) → Replay → List StoredHint → Replay
  | _, r, [] => r
  | i, r, hint :: hints => Replay.batch attempts (i + 1) (r.attempt (attempts i) hint) hints

/-- The loop over the batches. -/
def Replay.loop (nodeID : String) : List Round → Replay → Option (Except String Unit × Replay)
  | [], _ => none
  | round :: rounds, r =>
    match round.getError with
    | some err => some (.error ("failed to get hints: " ++ err), r)
    | none =>
      match r.store.getHintsForNode nodeID batchSize with
      | [] => some (.ok (), r)
      | hint :: hints =>
        Replay.loop nodeID rounds (r.batch round.attempts 0 (hint :: hints))

/-- `ReplayHintsForNode`. -/
def replayHintsForNode (store : HintStore) (nodeID : String) (countError : Option String)
    (rounds : List Round) : Option (Except String Unit × Replay) :=
  match countError with
  | some err => some (.error ("failed to get hint count: " ++ err), ⟨store, []⟩)
  | none =>
    if store.getHintCount nodeID = 0 then some (.ok (), ⟨store, []⟩)
    else Replay.loop nodeID rounds ⟨store, []⟩

/-- Only a table that cannot be read makes a replay fail. -/
theorem Replay.loop_eq_ok {nodeID : String} :
    ∀ {rounds : List Round} {r : Replay} {result : Except String Unit × Replay},
      (∀ round ∈ rounds, round.getError = none) → Replay.loop nodeID rounds r = some result →
      result.1 = .ok ()
  | [], _, _, _, h => by cases h
  | round :: rounds, r, result, hread, h => by
    rw [Replay.loop, hread round List.mem_cons_self] at h
    dsimp only at h
    split at h
    · cases h
      rfl
    · exact Replay.loop_eq_ok (fun other hmem => hread other (List.mem_cons_of_mem _ hmem)) h

theorem replayHintsForNode_eq_ok {store : HintStore} {nodeID : String} {rounds : List Round}
    {result : Except String Unit × Replay} (hread : ∀ round ∈ rounds, round.getError = none)
    (h : replayHintsForNode store nodeID none rounds = some result) : result.1 = .ok () := by
  unfold replayHintsForNode at h
  dsimp only at h
  split at h
  · cases h
    rfl
  · exact Replay.loop_eq_ok hread h

end HintReplayService

end PairDB.Coordinator
