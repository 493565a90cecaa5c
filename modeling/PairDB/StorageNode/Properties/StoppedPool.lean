import PairDB.StorageNode.Properties.WorkerPool

/-!
# A stopped worker pool

`Stop` closes `stopChan`, and from then on every `select` on it is ready. `Submit` asks for it alone
before it offers its task, so that a submission that begins later is rejected. `SubmitWithContext` and
`TrySubmit` ask for it and for room in the queue in one `select`, which takes any case that is ready:
every choice rejects the task exactly if the queue is full, whether the pool is stopped or not
(`select_rejects_iff`).

* `stopped_pool_rejects`: if the queue is full whenever such a `select` is reached by a submission
  that began after the close, then every such submission is rejected. If moreover nothing is sent after
  the close and the workers return from an empty queue only, no accepted task is left behind.
* `flush_accepted_after_stop`: otherwise a flush is accepted when no worker is left to run it.
-/

namespace PairDB.StorageNode

open Infra

namespace PoolPhase

/-- The submission that is in progress. -/
def submission? : PoolPhase → Option Submission
  | .checkStopped s | .offer s | .select s | .countAccepted s | .countRejected s _ => some s
  | _ => none

/-- The submission that has passed the check of `Submit` or was accepted. -/
def passed? : PoolPhase → Option Submission
  | .offer s | .countAccepted s => some s
  | _ => none

/-- A worker. -/
def isWorker : PoolPhase → Bool
  | .receive | .executeTask _ | .safeExecute _ | .countResult _ | .leaveTask => true
  | _ => false

end PoolPhase

namespace WorkerPool

variable {p p' : WorkerPool} {env : PoolEnv} {phase : PoolPhase} {next : Option PoolPhase}
  {phases phases' rest : List PoolPhase}

/-- When the `select` of `SubmitWithContext` and of `TrySubmit` rejects a task whatever it takes. That
`stopChan` is closed does not matter. -/
theorem select_rejects_iff {s : Submission} :
    (∀ env p' next, p.select env s = some (p', next) →
      ∃ cause, next = some (.countRejected s cause)) ↔ ¬ p.HasRoom := by
  constructor
  · intro hall hroom
    have hsend : p.select ⟨.taskQueue, none, .returnsNil, false⟩ s =
        some (p.send s, some (.countAccepted s)) := if_pos hroom
    obtain ⟨cause, hcause⟩ := hall _ _ _ hsend
    cases hcause
  · intro hfull env p' next h
    rcases select_eq_some h with ⟨hroom, -, -⟩ | ⟨-, hrejected⟩
    · exact absurd hroom hfull
    · exact hrejected

/-! ## Submissions that begin after the close -/

/-- A condition on the turns. -/
def OnTurn (P : WorkerPool → PoolEnv → PoolPhase → Prop) (s : System) : Turn → Prop
  | .start _ _ _ => True
  | .advance id env => ∀ phase ∈ s.phase? id, P s.state env phase

instance (P : WorkerPool → PoolEnv → PoolPhase → Prop)
    [∀ p env phase, Decidable (P p env phase)] (s : System) : DecidablePred (OnTurn P s) := by
  intro t
  unfold OnTurn
  split <;> infer_instance

/-- The queue is full when a submission that began after the close comes to its `select`. -/
def FullWhenLate (p : WorkerPool) (_ : PoolEnv) : PoolPhase → Prop
  | .select s => s.late = true → ¬ p.HasRoom
  | _ => True

instance (p : WorkerPool) (env : PoolEnv) : DecidablePred (FullWhenLate p env) := by
  intro phase
  unfold FullWhenLate
  split <;> infer_instance

/-- `stopChan` is closed if the submission is late, and a late one has not passed. -/
structure Timely (p : WorkerPool) (phase : PoolPhase) : Prop where
  stopped : ∀ s ∈ phase.submission?, s.late = true → p.stopChan = true
  passed : ∀ s ∈ phase.passed?, s.late = false

/-- What holds between the turns. -/
structure Rejecting (p : WorkerPool) (phases : List PoolPhase) : Prop where
  accepted : ∀ s ∈ p.accepted, s.late = false
  returned : ∀ a ∈ p.returned, a.1.late = true → a.2 ≠ none
  timely : ∀ phase ∈ phases, Timely p phase

/-- `stopChan` is never opened again. -/
theorem stopChan_of_turn (h : turn p env phase = some (p', next)) (hstop : p.stopChan = true) :
    p'.stopChan = true := by
  cases phase with
  | offer s =>
    simp only [turn] at h
    split at h <;> cases h <;> exact hstop
  | select s =>
    rcases select_eq_some h with ⟨-, rfl, -⟩ | ⟨rfl, -⟩ <;> exact hstop
  | receive =>
    rcases receive_eq_some h with ⟨-, -, rfl, -⟩ | ⟨s, taskQueue, -, rfl, -⟩ <;> exact hstop
  | countResult err =>
    cases err <;> cases h <;> exact hstop
  | stop =>
    simp only [turn] at h
    split at h
    · cases h
      rfl
    · cases h
    · cases h
      exact hstop
  | waitForWorkers =>
    simp only [turn] at h
    split at h
    · cases h
      exact hstop
    · cases h
  | _ =>
    cases h
    exact hstop

/-- A turn that accepts and returns nothing late. -/
theorem Rejecting.after (h : Rejecting p (phase :: rest))
    (hturn : turn p env phase = some (p', next))
    (haccepted : ∀ s ∈ p'.accepted, s ∈ p.accepted ∨ s.late = false)
    (hreturned : ∀ a ∈ p'.returned, a ∈ p.returned ∨ (a.1.late = true → a.2 ≠ none))
    (hnext : ∀ q ∈ next, Timely p' q) : Rejecting p' (next.toList ++ rest) where
  accepted s hs := (haccepted s hs).elim (h.accepted s) id
  returned a ha := (hreturned a ha).elim (h.returned a) id
  timely q hq := by
    rcases List.mem_append.mp hq with hq | hq
    · exact hnext q (Option.mem_toList.mp hq)
    · have hold := h.timely q (List.mem_cons_of_mem _ hq)
      exact ⟨fun s hs hlate => stopChan_of_turn hturn (hold.stopped s hs hlate), hold.passed⟩

theorem submission?_of_passed? {q : PoolPhase} {s : Submission} (h : s ∈ q.passed?) :
    s ∈ q.submission? := by
  cases q <;> first | exact h | cases h

/-- The phases of a worker and of `Stop` have no submission. -/
theorem timely_of_none {q : PoolPhase} (h : q.submission? = none) : Timely p q where
  stopped s hs := by
    rw [h] at hs
    cases hs
  passed s hs := by
    have hs' := submission?_of_passed? hs
    rw [h] at hs'
    cases hs'

theorem timely_of_some {q : PoolPhase} {s : Submission} (h : q.submission? = some s)
    (hstop : s.late = true → p.stopChan = true) (hpassed : q.passed? = none ∨ s.late = false) :
    Timely p q where
  stopped t ht := by
    rw [h] at ht
    cases ht
    exact hstop
  passed t ht := by
    rcases hpassed with hnone | hlate
    · rw [hnone] at ht
      cases ht
    · have ht' := submission?_of_passed? ht
      rw [h] at ht'
      cases ht'
      exact hlate

theorem rejecting_send {s : Submission} (h : Rejecting p (phase :: rest))
    (hturn : turn p env phase = some (p.send s, some (.countAccepted s)))
    (hlate : s.late = false) : Rejecting (p.send s) (.countAccepted s :: rest) := by
  refine h.after hturn (fun t ht => ?_) (fun a ha => Or.inl ha) ?_
  · rcases List.mem_append.mp ht with ht | ht
    · exact Or.inl ht
    · exact Or.inr (List.mem_singleton.mp ht ▸ hlate)
  · rintro q ⟨⟩
    refine timely_of_some rfl (fun hl => ?_) (Or.inr hlate)
    rw [hlate] at hl
    cases hl

theorem rejecting_turn (h : Rejecting p (phase :: rest)) (hfull : FullWhenLate p env phase)
    (hturn : turn p env phase = some (p', next)) : Rejecting p' (next.toList ++ rest) := by
  have hhead := h.timely phase List.mem_cons_self
  -- for the turns that leave the history alone and go on without a submission
  have hplain : p'.accepted = p.accepted → p'.returned = p.returned →
      (∀ q ∈ next, q.submission? = none) → Rejecting p' (next.toList ++ rest) :=
    fun haccepted hreturned hnext => h.after hturn (fun s hs => Or.inl (haccepted ▸ hs))
      (fun a ha => Or.inl (hreturned ▸ ha)) fun q hq => timely_of_none (hnext q hq)
  cases phase with
  | enter method =>
    have hturn' := hturn
    cases hturn
    refine h.after hturn' (fun s hs => Or.inl hs) (fun a ha => Or.inl ha) ?_
    rintro q ⟨⟩
    by_cases hm : method = .submit
    · rw [if_pos hm]
      exact timely_of_some rfl id (Or.inl rfl)
    · rw [if_neg hm]
      exact timely_of_some rfl id (Or.inl rfl)
  | checkStopped s =>
    have hstopped := hhead.stopped s rfl
    have hturn' := hturn
    cases hturn
    refine h.after hturn' (fun t ht => Or.inl ht) (fun a ha => Or.inl ha) ?_
    rintro q ⟨⟩
    by_cases hstop : p.stopChan = true
    · rw [if_pos hstop]
      exact timely_of_some rfl hstopped (Or.inl rfl)
    · -- a late submission does not get here
      rw [if_neg hstop]
      have hlate : s.late = false := Bool.eq_false_iff.mpr fun hl => hstop (hstopped hl)
      exact timely_of_some rfl hstopped (Or.inr hlate)
  | offer s =>
    have hturn' := hturn
    simp only [turn] at hturn
    split at hturn
    · cases hturn
      exact rejecting_send h hturn' (hhead.passed s rfl)
    · cases hturn
      refine h.after hturn' (fun t ht => Or.inl ht) (fun a ha => Or.inl ha) ?_
      rintro q ⟨⟩
      exact timely_of_some rfl (hhead.stopped s rfl) (Or.inl rfl)
  | select s =>
    rcases select_eq_some hturn with ⟨hroom, rfl, rfl⟩ | ⟨rfl, cause, rfl⟩
    · have hlate : s.late = false := Bool.eq_false_iff.mpr fun hl => hfull hl hroom
      exact rejecting_send h hturn hlate
    · refine h.after hturn (fun t ht => Or.inl ht) (fun a ha => Or.inl ha) ?_
      rintro q ⟨⟩
      exact timely_of_some rfl (hhead.stopped s rfl) (Or.inl rfl)
  | countAccepted s =>
    have hlate := hhead.passed s rfl
    have hturn' := hturn
    cases hturn
    refine h.after hturn' (fun t ht => Or.inl ht) (fun a ha => ?_) (by simp)
    rcases List.mem_append.mp ha with ha | ha
    · exact Or.inl ha
    · refine Or.inr fun hl => ?_
      rw [List.mem_singleton.mp ha, hlate] at hl
      cases hl
  | countRejected s cause =>
    have hturn' := hturn
    cases hturn
    refine h.after hturn' (fun t ht => Or.inl ht) (fun a ha => ?_) fun q hq => timely_of_none ?_
    · rcases List.mem_append.mp ha with ha | ha
      · exact Or.inl ha
      · refine Or.inr fun _ => ?_
        rw [List.mem_singleton.mp ha]
        simp
    · unfold afterRejection at hq
      split at hq <;> cases hq
      rfl
  | flushInline =>
    cases hturn
    exact hplain rfl rfl (by simp)
  | receive =>
    rcases receive_eq_some hturn with ⟨-, -, rfl, rfl⟩ | ⟨s, taskQueue, -, rfl, rfl⟩
    · exact hplain rfl rfl (by simp)
    · exact hplain rfl rfl (by rintro q ⟨⟩; rfl)
  | executeTask s =>
    cases hturn
    exact hplain rfl rfl (by rintro q ⟨⟩; rfl)
  | safeExecute s =>
    cases hturn
    exact hplain rfl rfl (by rintro q ⟨⟩; rfl)
  | countResult err =>
    cases err <;> cases hturn <;> exact hplain rfl rfl (by rintro q ⟨⟩; rfl)
  | leaveTask =>
    cases hturn
    exact hplain rfl rfl (by rintro q ⟨⟩; rfl)
  | stop =>
    simp only [turn] at hturn
    split at hturn <;> cases hturn
    · exact hplain rfl rfl (by rintro q ⟨⟩; rfl)
    · exact hplain rfl rfl (by simp)
  | waitForWorkers =>
    simp only [turn] at hturn
    split at hturn <;> cases hturn
    exact hplain rfl rfl (by simp)

theorem rejecting_step {s s' : System} {t : Turn} (h : Rejecting s.state s.phases)
    (hfull : OnTurn FullWhenLate s t) (hstep : step s t = some s') :
    Rejecting s'.state s'.phases := by
  refine Concurrent.invariant_step ?_ ?_ ?_ h hstep
  · intro state phases phases' hperm hold
    exact ⟨hold.accepted, hold.returned, fun q hq => hold.timely q (hperm.mem_iff.mpr hq)⟩
  · intro env request hold
    refine ⟨hold.accepted, hold.returned, fun q hq => ?_⟩
    rcases List.mem_append.mp hq with hq | hq
    · refine timely_of_none ?_
      cases request <;> cases Option.mem_toList.mp hq <;> rfl
    · exact hold.timely q hq
  · intro id env phase next rest ht hphase _ hturn hold
    subst ht
    exact rejecting_turn hold (hfull phase hphase) hturn

/-- After the close no submission waits: its `select` can take `stopChan`. -/
theorem exists_turn_of_late (h : Timely p phase) {s : Submission} (hs : s ∈ phase.submission?)
    (hlate : s.late = true) : ∃ env, (turn p env phase).isSome = true := by
  refine ⟨⟨.stopChan, none, .returnsNil, false⟩, ?_⟩
  cases phase with
  | offer s =>
    simp only [turn]
    split <;> rfl
  | select t =>
    simp [turn, select, h.stopped s hs hlate]
  | checkStopped _ | countAccepted _ | countRejected _ _ => rfl
  | _ => cases hs

/-! ## Tasks that are left behind -/

/-- Nothing is sent after the close, and a worker returns from an empty queue only. -/
def DrainsFirst (p : WorkerPool) (env : PoolEnv) : PoolPhase → Prop
  | .offer _ | .select _ => p.stopChan = true → ¬ p.HasRoom
  | .receive => env.choice = .stopChan → p.taskQueue = []
  | _ => True

instance (p : WorkerPool) (env : PoolEnv) : DecidablePred (DrainsFirst p env) := by
  intro phase
  unfold DrainsFirst
  split <;> infer_instance

/-- A worker has returned only if `stopChan` is closed and the queue is empty. -/
structure Drained (p : WorkerPool) (phases : List PoolPhase) : Prop where
  workers : p.wg = phases.countP PoolPhase.isWorker
  some : 0 < p.maxWorkers
  left : p.wg < p.maxWorkers → p.stopChan = true ∧ p.taskQueue = []

/-- A turn after which there are as many workers as before. -/
theorem Drained.after (h : Drained p (phase :: rest)) (hwg : p'.wg = p.wg)
    (hmax : p'.maxWorkers = p.maxWorkers)
    (hnext : next.toList.countP PoolPhase.isWorker = [phase].countP PoolPhase.isWorker)
    (hleft : p.stopChan = true → p.taskQueue = [] → p'.stopChan = true ∧ p'.taskQueue = []) :
    Drained p' (next.toList ++ rest) where
  workers := by
    rw [hwg, h.workers, List.countP_append, hnext, ← List.countP_append, List.singleton_append]
  some := hmax ▸ h.some
  left hlt := by
    obtain ⟨hstop, hempty⟩ := h.left (by rw [← hwg, ← hmax]; exact hlt)
    exact hleft hstop hempty

theorem drained_turn (h : Drained p (phase :: rest)) (hdrain : DrainsFirst p env phase)
    (hturn : turn p env phase = some (p', next)) : Drained p' (next.toList ++ rest) := by
  have hsame : p.stopChan = true → p.taskQueue = [] → p.stopChan = true ∧ p.taskQueue = [] :=
    fun hstop hempty => ⟨hstop, hempty⟩
  cases phase with
  | enter method =>
    cases hturn
    refine h.after rfl rfl ?_ hsame
    by_cases hm : method = .submit
    · simp [hm, PoolPhase.isWorker]
    · simp [hm, PoolPhase.isWorker]
  | checkStopped s =>
    cases hturn
    refine h.after rfl rfl ?_ hsame
    by_cases hstop : p.stopChan = true
    · simp [hstop, PoolPhase.isWorker]
    · simp [hstop, PoolPhase.isWorker]
  | offer s =>
    simp only [turn] at hturn
    split at hturn
    · next hroom =>
      cases hturn
      exact h.after rfl rfl rfl fun hstop _ => absurd hroom (hdrain hstop)
    · cases hturn
      exact h.after rfl rfl rfl hsame
  | select s =>
    rcases select_eq_some hturn with ⟨hroom, rfl, rfl⟩ | ⟨rfl, cause, rfl⟩
    · exact h.after rfl rfl rfl fun hstop _ => absurd hroom (hdrain hstop)
    · exact h.after rfl rfl rfl hsame
  | countAccepted s =>
    cases hturn
    exact h.after rfl rfl rfl hsame
  | countRejected s cause =>
    cases hturn
    refine h.after rfl rfl ?_ hsame
    unfold afterRejection
    split <;> rfl
  | flushInline =>
    cases hturn
    exact h.after rfl rfl rfl hsame
  | receive =>
    rcases receive_eq_some hturn with ⟨hchoice, hstop, rfl, rfl⟩ | ⟨s, taskQueue, hqueue, rfl, rfl⟩
    · -- the worker returns
      refine ⟨?_, h.some, fun _ => ⟨hstop, hdrain hchoice⟩⟩
      have hworkers := h.workers
      rw [List.countP_cons_of_pos rfl] at hworkers
      show p.wg - 1 = rest.countP PoolPhase.isWorker
      omega
    · refine h.after rfl rfl rfl fun _ hempty => ?_
      rw [hempty] at hqueue
      cases hqueue
  | executeTask s =>
    cases hturn
    exact h.after rfl rfl rfl hsame
  | safeExecute s =>
    cases hturn
    exact h.after rfl rfl rfl hsame
  | countResult err =>
    cases err <;> cases hturn <;> exact h.after rfl rfl rfl hsame
  | leaveTask =>
    cases hturn
    exact h.after rfl rfl rfl hsame
  | stop =>
    simp only [turn] at hturn
    split at hturn <;> cases hturn
    · exact h.after rfl rfl rfl fun _ hempty => ⟨rfl, hempty⟩
    · exact h.after rfl rfl rfl hsame
  | waitForWorkers =>
    simp only [turn] at hturn
    split at hturn <;> cases hturn
    exact h.after rfl rfl rfl hsame

theorem drained_step {s s' : System} {t : Turn} (h : Drained s.state s.phases)
    (hdrain : OnTurn DrainsFirst s t) (hstep : step s t = some s') :
    Drained s'.state s'.phases := by
  refine Concurrent.invariant_step ?_ ?_ ?_ h hstep
  · intro state phases phases' hperm hold
    exact ⟨hold.workers.trans (hperm.countP_eq _), hold.some, hold.left⟩
  · intro env request hold
    refine ⟨?_, hold.some, hold.left⟩
    cases request <;> exact hold.workers
  · intro id env phase next rest ht hphase _ hturn hold
    subst ht
    exact drained_turn hold (hdrain phase hphase) hturn

theorem drained_start (cfg : PoolConfig) : Drained (start cfg).state (start cfg).phases := by
  have hphases : (start cfg).phases = List.replicate (new cfg).maxWorkers .receive := by
    simp [start, Concurrent.System.phases, List.map_map, Function.comp_def]
  refine ⟨?_, ?_, fun hlt => absurd hlt (lt_irrefl _)⟩
  · rw [hphases, List.countP_replicate]
    rfl
  · show 0 < (new cfg).maxWorkers
    unfold new
    dsimp only
    split <;> omega

/-- The tasks at workers are gone with the workers. -/
theorem task?_role_of_not_isWorker {phase : PoolPhase} (h : phase.isWorker = false) :
    phase.role.task? = none := by
  cases phase <;> first | rfl | cases h

/-- **A stopped pool.** In every interleaving in which the queue is full whenever a submission that
began after the close comes to its `select`, no such submission is accepted, every one that returns
is told so, and none has to wait. If moreover nothing is sent after the close and the workers return from an empty
queue only, then every accepted task has been executed when no worker is left. -/
theorem stopped_pool_rejects {cfg : PoolConfig} {turns : List Turn} {s : System}
    (hfull : AllSteps step (OnTurn FullWhenLate) (start cfg) turns)
    (hrun : run step (start cfg) turns = some s) :
    (∀ t ∈ s.state.accepted, t.late = false) ∧
      (∀ a ∈ s.state.returned, a.1.late = true → a.2 ≠ none) ∧
      (∀ phase ∈ s.phases, ∀ t ∈ phase.submission?, t.late = true →
        ∃ env, (turn s.state env phase).isSome = true) ∧
      (AllSteps step (OnTurn DrainsFirst) (start cfg) turns →
        (∀ phase ∈ s.phases, phase.isWorker = false) →
          ∀ t ∈ s.state.accepted, t ∈ s.state.executed) := by
  have hstart : Rejecting (start cfg).state (start cfg).phases := by
    refine ⟨by rintro t ⟨⟩, by rintro a ⟨⟩, fun phase hphase => ?_⟩
    obtain ⟨c, hc, rfl⟩ := List.mem_map.mp hphase
    obtain ⟨i, -, rfl⟩ := List.mem_map.mp hc
    exact timely_of_none rfl
  have hrejecting : Rejecting s.state s.phases :=
    run_invariant (I := fun s : System => Rejecting s.state s.phases)
      (fun _ _ _ h hfull hstep => rejecting_step h hfull hstep) hstart hfull hrun
  refine ⟨hrejecting.accepted, hrejecting.returned, fun phase hphase t ht hlate =>
    exists_turn_of_late (hrejecting.timely phase hphase) ht hlate, fun hdrain hnone t ht => ?_⟩
  have hdrained : Drained s.state s.phases :=
    run_invariant (I := fun s : System => Drained s.state s.phases)
      (fun _ _ _ h hdrain hstep => drained_step h hdrain hstep) (drained_start cfg) hdrain hrun
  obtain ⟨l, hkeeps, hacc⟩ := accounted_run hrun
  have hempty : s.state.taskQueue = [] := by
    refine (hdrained.left ?_).2
    have hzero : s.phases.countP PoolPhase.isWorker = 0 :=
      List.countP_eq_zero.mpr fun q hq => by simp [hnone q hq]
    rw [hdrained.workers, hzero]
    exact hdrained.some
  have htasks : (s.phases.map PoolPhase.role).filterMap Role.task? = [] := by
    rw [List.filterMap_map, List.filterMap_eq_nil_iff]
    exact fun q hq => task?_role_of_not_isWorker (hnone q hq)
  have hperm := hacc.tasks
  rw [← hkeeps.taskQueue, hempty, htasks, List.append_nil, List.append_nil, ← hkeeps.accepted,
    ← hkeeps.executed] at hperm
  exact hperm.mem_iff.mp ht

end WorkerPool

namespace Sample

/-- A task is accepted, the pool is stopped, and a flush finds the queue full. Then the worker
executes the task and returns. -/
def stoppedInOrder : List WorkerPool.Turn :=
  poolCall 1 (.submit .trySubmit) [.default, .taskQueue, .default] ++
    poolCall 2 .stop [.default] ++
    poolCall 3 (.submit .triggerFlushAsync) [.default, .stopChan, .default, .default] ++
    workerTurns [.taskQueue, .default, .default, .default, .default, .stopChan]

/-- The pool is stopped and the worker returns. Then the `select` of a flush takes the queue. -/
def flushAfterStop : List WorkerPool.Turn :=
  poolCall 1 .stop [.default] ++ workerTurns [.stopChan] ++
    poolCall 2 (.submit .triggerFlushAsync) [.default, .taskQueue, .default]

end Sample

open Sample in
theorem stopped_pool_rejects_inOrder : ∃ s,
    run WorkerPool.step (WorkerPool.start poolConfig) stoppedInOrder = some s ∧
      s.state.returned = [(⟨0, .trySubmit, false⟩, none),
        (⟨1, .triggerFlushAsync, true⟩, some .stopped)] ∧
      (∀ t ∈ s.state.accepted, t.late = false) ∧ ∀ t ∈ s.state.accepted, t ∈ s.state.executed := by
  have hrun : (run WorkerPool.step (WorkerPool.start poolConfig) stoppedInOrder).map (fun s =>
      decide (s.state.returned = [(⟨0, .trySubmit, false⟩, none),
          (⟨1, .triggerFlushAsync, true⟩, some .stopped)] ∧
        ∀ phase ∈ s.phases, phase.isWorker = false)) = some true := by
    decide +kernel
  have hfull : AllSteps WorkerPool.step (WorkerPool.OnTurn WorkerPool.FullWhenLate)
      (WorkerPool.start poolConfig) stoppedInOrder := by decide +kernel
  have hdrain : AllSteps WorkerPool.step (WorkerPool.OnTurn WorkerPool.DrainsFirst)
      (WorkerPool.start poolConfig) stoppedInOrder := by decide +kernel
  obtain ⟨s, hs, hdec⟩ := Option.map_eq_some_iff.mp hrun
  obtain ⟨hreturned, hnone⟩ := of_decide_eq_true hdec
  obtain ⟨haccepted, -, -, hexecuted⟩ := WorkerPool.stopped_pool_rejects hfull hs
  exact ⟨s, hs, hreturned, haccepted, hexecuted hdrain hnone⟩

open Sample in
/-- A flush that begins after the close is accepted, and there is no worker to execute it. -/
theorem flush_accepted_after_stop : ∃ s,
    run WorkerPool.step (WorkerPool.start poolConfig) flushAfterStop = some s ∧
      s.state.returned = [(⟨0, .triggerFlushAsync, true⟩, none)] ∧
      s.state.taskQueue = [⟨0, .triggerFlushAsync, true⟩] ∧ s.state.executed = [] ∧
      ∀ phase ∈ s.phases, phase.isWorker = false := by
  have hrun : (run WorkerPool.step (WorkerPool.start poolConfig) flushAfterStop).map (fun s =>
      decide (s.state.returned = [(⟨0, .triggerFlushAsync, true⟩, none)] ∧
        s.state.taskQueue = [⟨0, .triggerFlushAsync, true⟩] ∧ s.state.executed = [] ∧
        ∀ phase ∈ s.phases, phase.isWorker = false)) = some true := by
    decide +kernel
  obtain ⟨s, hs, hdec⟩ := Option.map_eq_some_iff.mp hrun
  exact ⟨s, hs, of_decide_eq_true hdec⟩

end PairDB.StorageNode
