import PairDB.Infra.Concurrent
import PairDB.StorageNode.Concurrent
import PairDB.StorageNode.Streaming

/-!
# Live streaming: mutations beside the streams of a node

`StartStreaming` files a stream and executes it in the background: the ranges are scanned one after
the other, then the state goes on to `streaming`, `syncing` and `completed`. A `Write` calls
`InterceptWrite` after it has put its entry into the memtable and the cache; `Delete` and `Repair`
do not. `InterceptWrite` holds the read lock of the manager while it visits the streams, so that none
is added or removed meanwhile, but the state of a stream can change between two visits.

The state has a history beside the storage and the streams: how many ranges of a stream have been
scanned, which mutations a stream is owed, and which it was handed. A live write is handed over when
its goroutine is started.
-/

namespace PairDB.StorageNode

open Infra

/-- What a turn reads from its surroundings. -/
structure LiveEnv where
  call : CallEnv
  /-- The order in which the streams are visited. -/
  streamsOrder : RangeOrder (String × Nat)
  /-- Whether the stream fails that goes on. -/
  streamFails : Bool

/-- A call on the node. -/
inductive LiveRequest where
  | serve (request : Request)
  | startStreaming (sourceNodeID targetNodeID : String) (keyRanges : List StreamKeyRange)
  | stopStreaming (targetNodeID : String)

/-- How far a call is. -/
inductive LivePhase where
  /-- A read, or a mutation that is not in the memtable yet. -/
  | serve (phase : Concurrent.Phase)
  /-- A mutation that is in the memtable, under its number. -/
  | applied (number : Nat) (entry : CommitLogEntry)
  | intercept (number : Nat) (entry : CommitLogEntry)
  /-- `InterceptWrite` has still these streams to visit. -/
  | visit (number : Nat) (entry : CommitLogEntry) (rest : List Nat)
  | start (sourceNodeID targetNodeID : String) (keyRanges : List StreamKeyRange)
  | stop (targetNodeID : String)
  | executeStreaming (ref : Nat)

/-- A node that streams, and its history. -/
structure LiveNode where
  storage : StorageService
  streaming : StreamingManager
  /-- How many calls hold the read lock of the manager. -/
  readers : Nat
  /-- How many ranges of a stream have been scanned. -/
  scanned : Nat → Nat
  /-- How many mutations have been applied. -/
  mutations : Nat
  /-- A stream and the number of a mutation that was applied when the range had been scanned. -/
  owed : List (Nat × Nat)
  /-- A stream and the number of a mutation that was handed to `sendToTargetNode`. -/
  handed : List (Nat × Nat)

namespace LiveNode

def init (storage : StorageService) : LiveNode where
  storage := storage
  streaming := .new
  readers := 0
  scanned := fun _ => 0
  mutations := 0
  owed := []
  handed := []

/-- `computeKeyHash`. -/
def computeKeyHash (hash : String → UInt64) (tenantID key : String) : UInt64 :=
  hash (buildKey tenantID key)

/-- The bulk copy of the stream has scanned a range with the key. -/
def scannedKey (l : LiveNode) (keyHash : UInt64) (ref : Nat) : Bool :=
  match l.streaming.contexts[ref]? with
  | none => false
  | some streamCtx => keyInRanges keyHash (streamCtx.keyRanges.take (l.scanned ref))

/-- The streams that are filed. -/
def registered (l : LiveNode) : List Nat := l.streaming.activeStreams.toPairs.map Prod.snd

/-- The streams that a mutation is owed to if it is applied now. -/
def due (hash : String → UInt64) (l : LiveNode) (entry : CommitLogEntry) : List Nat :=
  l.registered.filter (l.scannedKey (computeKeyHash hash entry.tenantID entry.key))

/-- The first phase of a call. -/
def enter (env : LiveEnv) : LiveRequest → Option LivePhase
  | .serve request => (Concurrent.enter env.call request).map .serve
  | .startStreaming sourceNodeID targetNodeID keyRanges =>
    some (.start sourceNodeID targetNodeID keyRanges)
  | .stopStreaming targetNodeID => some (.stop targetNodeID)

/-- A turn of `ExecuteStreaming`: a range is scanned, or the state goes on. -/
def execute (l : LiveNode) (ref : Nat) (fails : Bool) : LiveNode × Option LivePhase :=
  match l.streaming.contexts[ref]? with
  | none => (l, none)
  | some streamCtx =>
    if streamCtx.state = .copying ∧ l.scanned ref < streamCtx.keyRanges.length ∧ fails = false then
      ({ l with scanned := Function.update l.scanned ref (l.scanned ref + 1) },
        some (.executeStreaming ref))
    else
      -- a copy whose ranges have all been scanned does not fail any more
      match l.streaming.execute ref (fails && (streamCtx.state ≠ .copying ||
          l.scanned ref < streamCtx.keyRanges.length)) with
      | none => (l, none)
      | some streaming => ({ l with streaming }, some (.executeStreaming ref))

/-- A turn of a call. A call that waits for the lock of the manager has none. -/
def turn (hash : String → UInt64) (l : LiveNode) (env : LiveEnv) :
    LivePhase → Option (LiveNode × Option LivePhase)
  | .serve (.store entry) =>
    (Concurrent.turn l.storage env.call (.store entry)).map fun (storage, _) =>
      ({ l with
        storage
        mutations := l.mutations + 1
        owed := l.owed ++ (l.due hash entry).map fun ref => (ref, l.mutations) },
        some (.applied l.mutations entry))
  | .serve phase =>
    (Concurrent.turn l.storage env.call phase).map fun (storage, next) =>
      ({ l with storage }, next.map .serve)
  | .applied number entry =>
    -- whether the memtable is full is asked in the same turn
    (Concurrent.turn l.storage env.call (.updateCache entry)).map fun (storage, _) =>
      ({ l with storage },
        if entry.operationType = .write then some (.intercept number entry) else none)
  | .intercept number entry =>
    some ({ l with readers := l.readers + 1 },
      some (.visit number entry
        ((env.streamsOrder.visit l.streaming.activeStreams.toPairs).map Prod.snd)))
  | .visit _ _ [] => some ({ l with readers := l.readers - 1 }, none)
  | .visit number entry (ref :: rest) =>
    match l.streaming.contexts[ref]? with
    | none => some (l, some (.visit number entry rest))
    | some streamCtx =>
      if streamCtx.state = .streaming ∧
          keyInRanges (computeKeyHash hash entry.tenantID entry.key) streamCtx.keyRanges then
        some ({ l with handed := l.handed ++ [(ref, number)] }, some (.visit number entry rest))
      else some (l, some (.visit number entry rest))
  | .start sourceNodeID targetNodeID keyRanges =>
    if l.readers = 0 then
      let (streaming, success) := l.streaming.startStreaming sourceNodeID targetNodeID keyRanges
      some ({ l with streaming },
        if success then some (.executeStreaming l.streaming.contexts.length) else none)
    else none
  | .stop targetNodeID =>
    if l.readers = 0 then
      some ({ l with streaming := l.streaming.stopStreaming targetNodeID }, none)
    else none
  | .executeStreaming ref => some (l.execute ref env.streamFails)

abbrev System := Infra.Concurrent.System LiveNode LivePhase

abbrev Turn := Infra.Concurrent.Turn LiveEnv LiveRequest

/-- A step of an interleaving. -/
def step (hash : String → UInt64) (s : System) (t : Turn) : Option System :=
  Infra.Concurrent.step enter (turn hash) s t

end LiveNode

end PairDB.StorageNode
