import PairDB.Infra.Concurrent
import PairDB.StorageNode.Compaction

/-!
# `CompactionService`: the scheduler, the queue and the workers

A tick of the scheduler (`checkCompactionNeeded`) looks at one level after the other and offers jobs
to the queue, which holds a hundred. A worker takes the first job of the queue, merges its inputs and
registers the output, takes the inputs out of their level, deletes their files, and waits for the
next job. Flushes add tables to level 0. All of them run concurrently; the lock of the
`SSTableService` covers one access to the levels.
-/

namespace PairDB.StorageNode

open Infra

/-- What a turn reads from its surroundings: the size of a Bloom filter, and what a job reads. -/
structure SchedulerEnv where
  bloom : BloomParams
  compaction : CompactionEnv

/-- A tick, a worker that is started, or a flush. -/
inductive SchedulerRequest where
  | tick
  | worker
  | flush (nanos : Int) (io : TableIO) (mt : MemTable)

/-- What a tick has still to do. -/
inductive LevelCheck where
  | checkL0
  | shouldCompactLevel (level : Nat)
  | triggerLevelCompaction (level : Nat)
  deriving DecidableEq, Repr

/-- How far a call is. -/
inductive SchedulerPhase where
  | tick (checks : List LevelCheck)
  /-- A worker without a job. -/
  | waiting
  | mergeSSTables (job : CompactionJob)
  /-- The output is registered. -/
  | removeTables (job : CompactionJob)
  | deleteFiles (job : CompactionJob)
  | flush (nanos : Int) (io : TableIO) (mt : MemTable)

/-- The job that a worker runs. -/
def SchedulerPhase.job? : SchedulerPhase → Option CompactionJob
  | .mergeSSTables job | .removeTables job | .deleteFiles job => some job
  | .tick _ | .waiting | .flush _ _ _ => none

/-- `CompactionService`: the tables and the queue. -/
structure CompactionService where
  sstables : SSTableService
  jobQueue : List CompactionJob

namespace CompactionService

/-- The capacity of the queue. -/
def queueSize : Nat := 100

/-- A job is offered to the queue. -/
def offer (s : CompactionService) (job : CompactionJob) : CompactionService :=
  if s.jobQueue.length < queueSize then { s with jobQueue := s.jobQueue ++ [job] } else s

/-- The first phase of a call. -/
def enter (_ : SchedulerEnv) : SchedulerRequest → Option SchedulerPhase
  | .tick => some (.tick [.checkL0, .shouldCompactLevel 1, .shouldCompactLevel 2,
      .shouldCompactLevel 3])
  | .worker => some .waiting
  | .flush nanos io mt => some (.flush nanos io mt)

/-- The jobs that a check offers. -/
def offered (cfg : CompactionConfig) (s : CompactionService) : LevelCheck → List CompactionJob
  | .checkL0 =>
    if cfg.l0Trigger ≤ (s.sstables.getTablesForLevel 0).length then [s.sstables.levelJob 0] else []
  | .shouldCompactLevel _ => []
  | .triggerLevelCompaction level => s.sstables.triggerLevelCompaction level

/-- What a check adds to the tick. -/
def checksAfter (cfg : CompactionConfig) (s : CompactionService) : LevelCheck → List LevelCheck
  | .shouldCompactLevel level =>
    if s.sstables.shouldCompactLevel cfg level then [.triggerLevelCompaction level] else []
  | .checkL0 | .triggerLevelCompaction _ => []

/-- The merge of a job, to the registration of its output. -/
def merge (s : SSTableService) (job : CompactionJob) (env : SchedulerEnv) :
    SSTableService × Except Fault Unit :=
  if job.inputTables = [] then (s, .error (.err "no input tables to compact"))
  else
    match s.cursors job env.compaction with
    | .error e => (s, .error e)
    | .ok cursors =>
      match (SSTableWriter.new env.bloom).bind (StorageNode.merge SSTableWriter.write cursors) with
      | .error e => (s, .error e)
      | .ok w =>
        let path := s.compactedPath job.outputLevel env.compaction.nanos
        match env.compaction.io with
        | .fails message left =>
          ({ s with files := Function.update s.files path left }, .error (.err message))
        | .complete =>
          let written := { s with files := Function.update s.files path w.finalize }
          (written.addTable job.outputLevel (s.compactedMetadata job env.compaction w), .ok ())

/-- A turn of a call. A panic ends the process. -/
def turn (cfg : CompactionConfig) (s : CompactionService) (env : SchedulerEnv) :
    SchedulerPhase → Option (CompactionService × Option SchedulerPhase)
  | .tick [] => some (s, none)
  | .tick (check :: rest) =>
    some ((s.offered cfg check).foldl offer s, some (.tick (s.checksAfter cfg check ++ rest)))
  | .waiting =>
    match s.jobQueue with
    | [] => none
    | job :: jobQueue => some ({ s with jobQueue }, some (.mergeSSTables job))
  | .mergeSSTables job =>
    match merge s.sstables job env with
    | (_, .error (.panic _)) => none
    | (sstables, .error (.err _)) => some ({ s with sstables }, some .waiting)
    | (sstables, .ok ()) => some ({ s with sstables }, some (.removeTables job))
  | .removeTables job =>
    some ({ s with
      sstables := s.sstables.removeTables job.level
        (job.inputTables.map SSTableMetadata.sstableID) }, some (.deleteFiles job))
  | .deleteFiles job =>
    some ({ s with sstables := s.sstables.deleteFiles job.inputTables }, some .waiting)
  | .flush nanos io mt =>
    match s.sstables.writeFromMemTable nanos io mt with
    | (_, .error (.panic _)) => none
    | (sstables, _) => some ({ s with sstables }, none)

abbrev System := Infra.Concurrent.System CompactionService SchedulerPhase

abbrev Turn := Infra.Concurrent.Turn SchedulerEnv SchedulerRequest

/-- A step of an interleaving. -/
def step (cfg : CompactionConfig) (s : System) (t : Turn) : Option System :=
  Infra.Concurrent.step enter (turn cfg) s t

/-- The jobs that are queued or running. -/
def pending (s : CompactionService) (phases : List SchedulerPhase) : List CompactionJob :=
  s.jobQueue ++ phases.filterMap SchedulerPhase.job?

/-- A worker that nobody interrupts does what `mergeSSTables` does. -/
theorem merge_eq (s : SSTableService) (job : CompactionJob) (env : SchedulerEnv) :
    s.mergeSSTables env.bloom job env.compaction =
      match merge s job env with
      | (s', .error e) => (s', .error e)
      | (s', .ok ()) => ((s'.removeTables job.level
          (job.inputTables.map SSTableMetadata.sstableID)).deleteFiles job.inputTables, .ok ()) := by
  unfold SSTableService.mergeSSTables merge
  split
  · rfl
  · cases s.cursors job env.compaction with
    | error e => rfl
    | ok cursors =>
      dsimp only
      cases (SSTableWriter.new env.bloom).bind (StorageNode.merge SSTableWriter.write cursors) with
      | error e => rfl
      | ok w => cases env.compaction.io <;> rfl

end CompactionService

end PairDB.StorageNode
