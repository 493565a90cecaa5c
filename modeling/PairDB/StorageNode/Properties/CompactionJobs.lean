import PairDB.Infra.Run
import PairDB.StorageNode.CompactionScheduler

/-!
# One compaction job for a table

The inputs of a job are all tables of a level when the scheduler looks at it, whether there is a job
for them already or not. So a second tick offers the same tables again while the first job is queued
or running.

If a job is offered only when no other job of its level is queued or running, no table is an input of
two of them (`inputs_disjoint`): a table says which level it is in, and a job has the tables of its
level.
-/

namespace PairDB.StorageNode

open Infra

namespace SSTableService

variable {s : SSTableService}

/-- Every registered table says which level it is in. -/
def Labelled (s : SSTableService) : Prop :=
  ∀ level, ∀ table ∈ s.levels level, table.level = level

theorem Labelled.addTable (h : s.Labelled) {level : Nat} {table : SSTableMetadata}
    (htable : table.level = level) : (s.addTable level table).Labelled := by
  intro level' table' hmem
  simp only [SSTableService.addTable, Function.update_apply] at hmem
  split at hmem
  · next heq =>
    rcases List.mem_append.mp hmem with hmem | hmem
    · rw [heq]
      exact h level table' hmem
    · rw [heq, List.mem_singleton.mp hmem]
      exact htable
  · exact h level' table' hmem

theorem Labelled.removeTables (h : s.Labelled) (level : Nat) (tableIDs : List String) :
    (s.removeTables level tableIDs).Labelled := by
  intro level' table hmem
  simp only [SSTableService.removeTables, Function.update_apply] at hmem
  split at hmem
  · next heq =>
    rw [heq]
    exact h level table (List.mem_filter.mp hmem).1
  · exact h level' table hmem

theorem Labelled.writeFromMemTable (h : s.Labelled) (nanos : Int) (io : TableIO) (mt : MemTable) :
    (s.writeFromMemTable nanos io mt).1.Labelled := by
  unfold SSTableService.writeFromMemTable
  split
  · exact h
  · split
    · exact h
    · exact h.addTable (s := s) rfl

end SSTableService

namespace CompactionService

variable {cfg : CompactionConfig} {s s' : CompactionService} {env : SchedulerEnv}
  {phase : SchedulerPhase} {next : Option SchedulerPhase} {rest : List SchedulerPhase}

theorem labelled_merge {sstables : SSTableService} (h : sstables.Labelled) (job : CompactionJob)
    (env : SchedulerEnv) : (merge sstables job env).1.Labelled := by
  unfold merge
  split
  · exact h
  · split
    · exact h
    · split
      · exact h
      · dsimp only
        split
        · exact h
        · exact SSTableService.Labelled.addTable (s := { sstables with files := _ }) h rfl

/-- What holds between the turns. -/
structure Scheduled (s : CompactionService) (phases : List SchedulerPhase) : Prop where
  labelled : s.sstables.Labelled
  /-- A job has tables of its level. -/
  inputs : ∀ job ∈ s.pending phases, ∀ table ∈ job.inputTables, table.level = job.level
  /-- There is at most one job for a level. -/
  distinct : ((s.pending phases).map CompactionJob.level).Nodup

/-- Only the jobs matter, in any order. -/
theorem Scheduled.of_perm {phases phases' : List SchedulerPhase} (h : Scheduled s phases)
    (hlabelled : s'.sstables.Labelled) (hperm : (s.pending phases).Perm (s'.pending phases')) :
    Scheduled s' phases' where
  labelled := hlabelled
  inputs job hjob := h.inputs job (hperm.mem_iff.mpr hjob)
  distinct := (hperm.map _).nodup_iff.mp h.distinct

/-- A job ends. -/
theorem Scheduled.of_sublist {phases phases' : List SchedulerPhase} (h : Scheduled s phases)
    (hlabelled : s'.sstables.Labelled) (hsub : (s'.pending phases').Sublist (s.pending phases)) :
    Scheduled s' phases' where
  labelled := hlabelled
  inputs job hjob := h.inputs job (hsub.subset hjob)
  distinct := h.distinct.sublist (hsub.map _)

theorem Scheduled.perm {phases phases' : List SchedulerPhase} (h : Scheduled s phases)
    (hperm : phases.Perm phases') : Scheduled s phases' :=
  h.of_perm h.labelled ((hperm.filterMap _).append_left _)

/-- The condition: a job is offered only if no other job of its level is queued or running. -/
def LevelFree (cfg : CompactionConfig) (s : CompactionService) (phases : List SchedulerPhase) :
    SchedulerPhase → Prop
  | .tick (check :: _) => ∀ job ∈ s.offered cfg check, ∀ other ∈ s.pending phases,
    other.level ≠ job.level
  | _ => True

/-- A check offers at most one job, with the tables of its level. -/
theorem offered_cases (cfg : CompactionConfig) (s : CompactionService) (check : LevelCheck) :
    s.offered cfg check = [] ∨ ∃ level, s.offered cfg check = [s.sstables.levelJob level] := by
  cases check with
  | checkL0 =>
    simp only [offered]
    split
    · exact Or.inr ⟨0, rfl⟩
    · exact Or.inl rfl
  | shouldCompactLevel level => exact Or.inl rfl
  | triggerLevelCompaction level =>
    simp only [offered, SSTableService.triggerLevelCompaction]
    split
    · exact Or.inl rfl
    · exact Or.inr ⟨level, rfl⟩

/-- A job is offered. -/
theorem Scheduled.offer {phases : List SchedulerPhase} (h : Scheduled s phases) {level : Nat}
    (hfree : ∀ other ∈ s.pending phases, other.level ≠ level) :
    Scheduled (s.offer (s.sstables.levelJob level)) phases := by
  unfold CompactionService.offer
  split
  · -- the new job stands between the queue and the running jobs
    have hperm : (pending { s with jobQueue := s.jobQueue ++ [s.sstables.levelJob level] }
        phases).Perm (s.sstables.levelJob level :: s.pending phases) := by
      simp only [pending, List.append_assoc, List.singleton_append]
      exact List.perm_middle
    refine ⟨h.labelled, fun job hjob => ?_, ?_⟩
    · rcases List.mem_cons.mp (hperm.mem_iff.mp hjob) with rfl | hjob
      · exact h.labelled level
      · exact h.inputs job hjob
    · refine (hperm.map _).nodup_iff.mpr (List.nodup_cons.mpr ⟨fun hmem => ?_, h.distinct⟩)
      obtain ⟨other, hother, heq⟩ := List.mem_map.mp hmem
      exact hfree other hother heq
  · exact h

/-- A call that runs no job goes on without one. -/
theorem Scheduled.idle (h : Scheduled s (phase :: rest)) (hphase : phase.job? = none)
    (hnext : ∀ p ∈ next, p.job? = none) : Scheduled s (next.toList ++ rest) := by
  refine h.of_perm h.labelled ?_
  simp only [pending, List.filterMap_cons_none hphase, List.filterMap_append]
  cases next with
  | none => exact .refl _
  | some p => simp [hnext p rfl]

/-- A worker goes on with its job, or is done with it. -/
theorem Scheduled.work {job : CompactionJob} {sstables : SSTableService}
    (h : Scheduled s (phase :: rest)) (hphase : phase.job? = some job)
    (hlabelled : sstables.Labelled) (hnext : ∀ p ∈ next, p.job? = some job ∨ p.job? = none) :
    Scheduled { s with sstables } (next.toList ++ rest) := by
  refine h.of_sublist hlabelled ?_
  simp only [pending, List.filterMap_cons_some hphase, List.filterMap_append]
  refine List.Sublist.append_left ?_ _
  cases next with
  | none => exact List.sublist_cons_self _ _
  | some p =>
    rcases hnext p rfl with hp | hp
    · simp [hp]
    · simp [hp]

theorem scheduled_turn (h : Scheduled s (phase :: rest))
    (hfree : LevelFree cfg s (phase :: rest) phase)
    (ht : turn cfg s env phase = some (s', next)) : Scheduled s' (next.toList ++ rest) := by
  cases phase with
  | tick checks =>
    cases checks with
    | nil =>
      cases ht
      exact h.idle rfl (by simp)
    | cons check checks =>
      cases ht
      have hnext : ∀ p ∈ some (SchedulerPhase.tick (s.checksAfter cfg check ++ checks)),
          p.job? = none := by
        rintro p ⟨⟩
        rfl
      rcases offered_cases cfg s check with hnone | ⟨level, hone⟩
      · rw [hnone]
        exact h.idle rfl hnext
      · rw [hone]
        have hoffer := h.offer (hfree (s.sstables.levelJob level) (by rw [hone]; simp))
        exact hoffer.idle rfl hnext
  | waiting =>
    simp only [turn] at ht
    split at ht
    · cases ht
    · next job jobQueue hqueue =>
      cases ht
      refine h.of_perm h.labelled ?_
      simp only [pending, hqueue, Option.toList_some, List.cons_append]
      exact List.perm_middle.symm
  | mergeSSTables job =>
    have hlabelled := labelled_merge h.labelled job env
    simp only [turn] at ht
    split at ht
    · cases ht
    · next sstables message hmerge =>
      cases ht
      rw [hmerge] at hlabelled
      refine h.work rfl hlabelled ?_
      rintro p ⟨⟩
      exact Or.inr rfl
    · next sstables hmerge =>
      cases ht
      rw [hmerge] at hlabelled
      refine h.work rfl hlabelled ?_
      rintro p ⟨⟩
      exact Or.inl rfl
  | removeTables job =>
    cases ht
    refine h.work rfl (h.labelled.removeTables _ _) ?_
    rintro p ⟨⟩
    exact Or.inl rfl
  | deleteFiles job =>
    cases ht
    refine h.work rfl h.labelled ?_
    rintro p ⟨⟩
    exact Or.inr rfl
  | flush nanos io mt =>
    have hlabelled := h.labelled.writeFromMemTable nanos io mt
    simp only [turn] at ht
    split at ht
    · cases ht
    · next sstables result hwrite =>
      cases ht
      rw [hwrite] at hlabelled
      exact (h.idle rfl (by simp)).of_perm hlabelled (.refl _)

/-! ## Runs -/

/-- The condition on a step. -/
def LevelFreeTurn (cfg : CompactionConfig) (s : System) : Turn → Prop
  | .start _ _ _ => True
  | .advance id _ => ∀ phase ∈ s.phase? id, LevelFree cfg s.state s.phases phase

instance (s : CompactionService) (phases : List SchedulerPhase) :
    DecidablePred (LevelFree cfg s phases) := by
  intro phase
  unfold LevelFree
  split <;> infer_instance

instance (s : System) : DecidablePred (LevelFreeTurn cfg s) := by
  intro turn
  unfold LevelFreeTurn
  split <;> infer_instance

theorem scheduled_step (s : System) (turn : Turn) (s' : System)
    (h : Scheduled s.state s.phases) (hfree : LevelFreeTurn cfg s turn)
    (hstep : step cfg s turn = some s') : Scheduled s'.state s'.phases := by
  cases turn with
  | start id env request =>
    obtain ⟨hstate, hphases⟩ := Concurrent.step_start hstep
    rw [hstate, hphases]
    refine h.of_perm h.labelled ?_
    have hnone : ((enter env request).toList).filterMap SchedulerPhase.job? = [] := by
      cases request <;> rfl
    rw [pending, pending, List.filterMap_append, hnone, List.append_nil]
  | advance id env =>
    obtain ⟨phase, next, rest, hphase, hturn, hbefore, hafter⟩ :=
      Concurrent.step_advance_perm hstep
    have hfree' : LevelFree cfg s.state (phase :: rest) phase := by
      have hpending : ∀ job ∈ s.state.pending (phase :: rest), job ∈ s.state.pending s.phases :=
        fun job hjob => ((hbefore.filterMap _).append_left _).mem_iff.mpr hjob
      have hold := hfree phase hphase
      cases phase with
      | tick checks =>
        cases checks with
        | nil => trivial
        | cons check checks =>
          exact fun job hjob other hother => hold job hjob other (hpending other hother)
      | _ => trivial
    exact (scheduled_turn (h.perm hbefore) hfree' hturn).perm hafter.symm

/-- From an empty queue, in every interleaving of ticks, workers and flushes in which a job is
offered only if no other job of its level is queued or running: no table is an input of two jobs
that are queued or running. -/
theorem inputs_disjoint {sstables : SSTableService} {turns : List Turn} {s : System}
    (hlabelled : sstables.Labelled)
    (hfree : AllSteps (step cfg) (LevelFreeTurn cfg) (.quiet ⟨sstables, []⟩) turns)
    (hr : run (step cfg) (.quiet ⟨sstables, []⟩) turns = some s) :
    (s.state.pending s.phases).Pairwise fun a b => ∀ table ∈ a.inputTables,
      table ∉ b.inputTables := by
  have hinit : Scheduled ⟨sstables, []⟩ [] := ⟨hlabelled, by simp [pending], by simp [pending]⟩
  have hscheduled : Scheduled s.state s.phases :=
    run_invariant (I := fun s : System => Scheduled s.state s.phases) scheduled_step hinit hfree hr
  have hlevels := hscheduled.distinct
  rw [List.Nodup, List.pairwise_map] at hlevels
  refine hlevels.imp_of_mem ?_
  intro a b ha hb hne table hta htb
  exact hne ((hscheduled.inputs a ha table hta).symm.trans (hscheduled.inputs b hb table htb))

end CompactionService

namespace Sample

/-- The scheduler takes level 0 as soon as it has a table. -/
def hasty : CompactionConfig := ⟨1, 1000, 1000, 1000, 10⟩

def quickly : SchedulerEnv := ⟨⟨8, 1⟩, ⟨7, 7, .complete, fun _ => RangeOrder.asHeld Bytes⟩⟩

/-- A call and its turns. -/
def schedulerCall (id turns : Nat) (request : SchedulerRequest) : List CompactionService.Turn :=
  .start id quickly request :: List.replicate turns (.advance id quickly)

/-- A memtable with one entry is flushed. -/
def flushOne : List CompactionService.Turn :=
  schedulerCall 0 1 (.flush 1 .complete (MemTable.new.put ⟨"t:k", some [1], ⟨[]⟩, 1, false⟩))

/-- After a tick a worker takes the job. -/
def tickOnce : List CompactionService.Turn :=
  flushOne ++ schedulerCall 1 5 .tick ++ schedulerCall 2 1 .worker

/-- The next tick comes when the job has not been run. -/
def tickTwice : List CompactionService.Turn := tickOnce ++ schedulerCall 3 5 .tick

end Sample

open Sample in
set_option maxRecDepth 10000 in
theorem inputs_disjoint_tickOnce :
    ∃ s, run (CompactionService.step hasty) (.quiet ⟨.new "d" ⟨8, 1⟩, []⟩) tickOnce = some s ∧
      (s.state.pending s.phases).map (fun job => job.inputTables.length) = [1] ∧
      (s.state.pending s.phases).Pairwise fun a b => ∀ table ∈ a.inputTables,
        table ∉ b.inputTables := by
  have hrun : (run (CompactionService.step hasty) (.quiet ⟨.new "d" ⟨8, 1⟩, []⟩) tickOnce).map
      (fun s => (s.state.pending s.phases).map fun job => job.inputTables.length) = some [1] := by
    decide +kernel
  have hall : AllSteps (CompactionService.step hasty) (CompactionService.LevelFreeTurn hasty)
      (.quiet ⟨.new "d" ⟨8, 1⟩, []⟩) tickOnce := by
    decide +kernel
  obtain ⟨s, hs, hjobs⟩ := Option.map_eq_some_iff.mp hrun
  refine ⟨s, hs, hjobs, CompactionService.inputs_disjoint ?_ hall hs⟩
  intro level table hmem
  cases hmem

open Sample in
set_option maxRecDepth 10000 in
/-- The flushed table is an input of the job that a worker runs, and of one in the queue. -/
theorem table_of_two_jobs_tickTwice :
    ∃ s, run (CompactionService.step hasty) (.quiet ⟨.new "d" ⟨8, 1⟩, []⟩) tickTwice = some s ∧
      ∃ table, (s.state.pending s.phases).map CompactionJob.inputTables = [[table], [table]] := by
  have hrun : (run (CompactionService.step hasty) (.quiet ⟨.new "d" ⟨8, 1⟩, []⟩) tickTwice).map
      (fun s => decide (∃ table ∈ s.state.sstables.levels 0,
        (s.state.pending s.phases).map CompactionJob.inputTables = [[table], [table]])) =
      some true := by
    decide +kernel
  obtain ⟨s, hs, hdec⟩ := Option.map_eq_some_iff.mp hrun
  obtain ⟨table, -, htable⟩ := of_decide_eq_true hdec
  exact ⟨s, hs, table, htable⟩

end PairDB.StorageNode
