import PairDB.Infra.Concurrent
import PairDB.Infra.MachineInt

/-!
# `workerpool.WorkerPool`

A bounded queue of tasks and a fixed number of workers. A submission, a worker and a call of `Stop`
are calls that take turns: a `select`, an operation on a counter and the execution of a task are
turns of their own. A `select` takes any case that is ready, so the choice belongs to the
surroundings (`PoolEnv`), and a turn with a choice that is not ready is not possible.

The channels are a queue of at most `queueSize` tasks, and `stopChan`, from which everybody can
receive once it is closed. The pool never looks at a task, so a task is the submission that it came
with, and what becomes of its execution belongs to the surroundings too.

The history has the submissions that were made, the tasks that went into the queue and those that
were executed, and what the submissions returned.
-/

namespace PairDB.StorageNode

open Infra

/-- How a task is handed to the pool. `triggerFlushAsync` of the storage service calls `TrySubmit`,
and flushes itself if that returns false. -/
inductive SubmitMethod where
  | submit
  | submitWithContext
  | trySubmit
  | triggerFlushAsync
  deriving DecidableEq, Repr

/-- A submission; it is `late` if `stopChan` was closed when it began. -/
structure Submission where
  number : Nat
  method : SubmitMethod
  late : Bool
  deriving DecidableEq, Repr

/-- Why a task is not accepted. -/
inductive Rejection where
  | stopped
  | queueFull
  | canceled (ctxErr : String)
  deriving DecidableEq, Repr

/-- The cases of the `select` statements. -/
inductive SelectCase where
  | stopChan
  | ctxDone
  | taskQueue
  | default
  deriving DecidableEq, Repr

/-- How the function of a task ends. -/
inductive TaskOutcome where
  | returnsNil
  | returnsError (message : String)
  | panics (reason : String)
  deriving DecidableEq, Repr

/-- What a turn reads from its surroundings. `ctxErr` is there if the context of the call is done, and
`timeout` if the time of `Stop` is over. -/
structure PoolEnv where
  choice : SelectCase
  ctxErr : Option String
  outcome : TaskOutcome
  timeout : Bool

/-- `Config`. -/
structure PoolConfig where
  name : String
  maxWorkers : Int
  queueSize : Int

/-- How far the function of `stopOnce` is. -/
inductive StopOnce where
  | fresh
  | running
  | finished
  deriving DecidableEq, Repr

/-- `WorkerPool`, and its history. -/
structure WorkerPool where
  name : String
  maxWorkers : Nat
  queueSize : Nat
  taskQueue : List Submission
  /-- `stopChan` is closed. -/
  stopChan : Bool
  stopOnce : StopOnce
  /-- The workers that have not returned. -/
  wg : Nat
  activeWorkers : Int
  totalTasks : UInt64
  completedTasks : UInt64
  failedTasks : UInt64
  rejectedTasks : UInt64
  /-- How many submissions have been made. -/
  submissions : Nat
  accepted : List Submission
  executed : List Submission
  returned : List (Submission × Option Rejection)

/-- How far a call is. -/
inductive PoolPhase where
  | enter (method : SubmitMethod)
  /-- The first `select` of `Submit`. -/
  | checkStopped (s : Submission)
  /-- The second `select` of `Submit`. -/
  | offer (s : Submission)
  /-- The `select` of `SubmitWithContext` and of `TrySubmit`. -/
  | select (s : Submission)
  | countAccepted (s : Submission)
  | countRejected (s : Submission) (cause : Rejection)
  /-- `triggerFlushAsync` flushes itself. -/
  | flushInline
  /-- The `select` of a worker. -/
  | receive
  | executeTask (s : Submission)
  | safeExecute (s : Submission)
  | countResult (err : Option String)
  | leaveTask
  | stop
  | waitForWorkers
  deriving DecidableEq, Repr

/-- A call: a submission, or `Stop`. -/
inductive PoolRequest where
  | submit (method : SubmitMethod)
  | stop

/-- The error of `Submit` and `SubmitWithContext`. -/
def Rejection.message (name : String) : Rejection → String
  | .stopped => "worker pool '" ++ name ++ "' is stopped"
  | .queueFull => "worker pool '" ++ name ++ "' queue is full"
  | .canceled ctxErr => ctxErr

/-- `safeExecute`: a panic is an error. -/
def TaskOutcome.safeExecute : TaskOutcome → Option String
  | .returnsNil => none
  | .returnsError message => some message
  | .panics reason => some ("task panicked: " ++ reason)

namespace WorkerPool

/-- `NewWorkerPool`; the workers are in `start`. -/
def new (cfg : PoolConfig) : WorkerPool where
  name := cfg.name
  maxWorkers := if cfg.maxWorkers ≤ 0 then 10 else cfg.maxWorkers.toNat
  queueSize := if cfg.queueSize ≤ 0 then 100 else cfg.queueSize.toNat
  taskQueue := []
  stopChan := false
  stopOnce := .fresh
  wg := if cfg.maxWorkers ≤ 0 then 10 else cfg.maxWorkers.toNat
  activeWorkers := 0
  totalTasks := 0
  completedTasks := 0
  failedTasks := 0
  rejectedTasks := 0
  submissions := 0
  accepted := []
  executed := []
  returned := []

/-- The queue takes one more task. -/
def HasRoom (p : WorkerPool) : Prop := p.taskQueue.length < p.queueSize

instance (p : WorkerPool) : Decidable p.HasRoom := inferInstanceAs (Decidable (_ < _))

/-- A task goes into the queue. -/
def send (p : WorkerPool) (s : Submission) : WorkerPool :=
  { p with taskQueue := p.taskQueue ++ [s], accepted := p.accepted ++ [s] }

/-- The first phase of a call. -/
def enter (_ : PoolEnv) : PoolRequest → Option PoolPhase
  | .submit method => some (.enter method)
  | .stop => some .stop

/-- What the call of `TrySubmit` in `triggerFlushAsync` is followed by. -/
def afterRejection (s : Submission) : Option PoolPhase :=
  if s.method = .triggerFlushAsync then some .flushInline else none

/-- The `select` of `SubmitWithContext` and of `TrySubmit`. Only the former listens to its context,
and only the latter has a default, which is taken if no other case is ready. -/
def select (p : WorkerPool) (env : PoolEnv) (s : Submission) :
    Option (WorkerPool × Option PoolPhase) :=
  match env.choice with
  | .stopChan => if p.stopChan then some (p, some (.countRejected s .stopped)) else none
  | .ctxDone =>
    if s.method = .submitWithContext then
      env.ctxErr.map fun ctxErr => (p, some (.countRejected s (.canceled ctxErr)))
    else none
  | .taskQueue => if p.HasRoom then some (p.send s, some (.countAccepted s)) else none
  | .default =>
    if s.method ≠ .submitWithContext ∧ p.stopChan = false ∧ ¬ p.HasRoom then
      some (p, some (.countRejected s .queueFull))
    else none

/-- The `select` of a worker. -/
def receive (p : WorkerPool) (env : PoolEnv) : Option (WorkerPool × Option PoolPhase) :=
  match env.choice with
  | .stopChan => if p.stopChan then some ({ p with wg := p.wg - 1 }, none) else none
  | .taskQueue =>
    match p.taskQueue with
    | [] => none
    | s :: taskQueue => some ({ p with taskQueue }, some (.executeTask s))
  | .ctxDone | .default => none

/-- A turn of a call. -/
def turn (p : WorkerPool) (env : PoolEnv) : PoolPhase → Option (WorkerPool × Option PoolPhase)
  | .enter method =>
    let s : Submission := ⟨p.submissions, method, p.stopChan⟩
    some ({ p with submissions := p.submissions + 1 },
      some (if method = .submit then .checkStopped s else .select s))
  | .checkStopped s =>
    some (p, some (if p.stopChan then .countRejected s .stopped else .offer s))
  | .offer s =>
    if p.HasRoom then some (p.send s, some (.countAccepted s))
    else some (p, some (.countRejected s .queueFull))
  | .select s => p.select env s
  | .countAccepted s =>
    some ({ p with totalTasks := p.totalTasks + 1, returned := p.returned ++ [(s, none)] }, none)
  | .countRejected s cause =>
    some ({ p with
      rejectedTasks := p.rejectedTasks + 1
      returned := p.returned ++ [(s, some cause)] }, afterRejection s)
  | .flushInline => some (p, none)
  | .receive => p.receive env
  | .executeTask s =>
    some ({ p with activeWorkers := int32 (p.activeWorkers + 1) }, some (.safeExecute s))
  | .safeExecute s =>
    some ({ p with executed := p.executed ++ [s] }, some (.countResult env.outcome.safeExecute))
  | .countResult (some _) =>
    some ({ p with failedTasks := p.failedTasks + 1 }, some .leaveTask)
  | .countResult none =>
    some ({ p with completedTasks := p.completedTasks + 1 }, some .leaveTask)
  | .leaveTask => some ({ p with activeWorkers := int32 (p.activeWorkers - 1) }, some .receive)
  | .stop =>
    match p.stopOnce with
    | .fresh => some ({ p with stopChan := true, stopOnce := .running }, some .waitForWorkers)
    -- a second call waits for the first one
    | .running => none
    | .finished => some (p, none)
  | .waitForWorkers =>
    if p.wg = 0 ∨ env.timeout then some ({ p with stopOnce := .finished }, none) else none

/-- A pool with calls in progress. -/
abbrev System := Infra.Concurrent.System WorkerPool PoolPhase

/-- A call begins, or it has a turn. -/
abbrev Turn := Infra.Concurrent.Turn PoolEnv PoolRequest

/-- A new pool with its workers. -/
def start (cfg : PoolConfig) : System where
  state := new cfg
  calls := (List.range (new cfg).maxWorkers).map fun i => (i, .receive)
  nodup := by
    rw [List.map_map]
    exact List.nodup_range.map fun _ _ h => h

/-- A step of an interleaving. -/
def step (s : System) (t : Turn) : Option System := Infra.Concurrent.step enter turn s t

end WorkerPool

end PairDB.StorageNode
