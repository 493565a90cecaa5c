import PairDB.StorageNode.WorkerPool

/-!
# The counters of the worker pool

The counters are updated before, after and outside of the channel operations. `Ledger` is the pool as
an accountant sees it, with counters that do not overflow, and `Move` is what a turn can do to it.
The turns of the pool are such moves (`move_of_turn`), and `Accounted` says for every position of
every call which counter lags behind by it. `pool_accounting_exact` is what is left of that when no
submission and no execution is in progress.
-/

namespace PairDB.StorageNode

open Infra

/-! ## The ledger -/

/-- The tasks and the counters. -/
structure Ledger where
  taskQueue : List Submission
  accepted : List Submission
  executed : List Submission
  active : Int
  total : Nat
  completed : Nat
  failed : Nat
  rejected : Nat
  submissions : Nat

/-- What a call is to the ledger. -/
inductive Role where
  | idle
  /-- A submission that is neither accepted nor rejected yet. -/
  | undecided (s : Submission)
  /-- A submission that was accepted and is not counted yet. -/
  | accepted
  | rejected
  /-- A worker with a task. -/
  | taken (s : Submission)
  | running (s : Submission)
  /-- A worker with a result that is not counted yet. -/
  | result
  | leaving
  deriving DecidableEq

namespace Role

def undecided? : Role → Option Submission
  | .undecided s => some s
  | _ => none

def isUndecided : Role → Bool
  | .undecided _ => true
  | _ => false

/-- The task that was taken from the queue and not executed yet. -/
def task? : Role → Option Submission
  | .taken s | .running s => some s
  | _ => none

/-- The worker counts as active. -/
def isActive : Role → Bool
  | .running _ | .result | .leaving => true
  | _ => false

end Role

namespace Ledger

/-- What a turn can do to the ledger, and to the role of its call. -/
inductive Move : Ledger → Role → Ledger → Role → Prop where
  | keep (l : Ledger) (role : Role) : Move l role l role
  | enter (l : Ledger) (s : Submission) (h : s.number = l.submissions) :
      Move l .idle { l with submissions := l.submissions + 1 } (.undecided s)
  | send (l : Ledger) (s : Submission) :
      Move l (.undecided s)
        { l with taskQueue := l.taskQueue ++ [s], accepted := l.accepted ++ [s] } .accepted
  | reject (l : Ledger) (s : Submission) : Move l (.undecided s) l .rejected
  | countAccepted (l : Ledger) : Move l .accepted { l with total := l.total + 1 } .idle
  | countRejected (l : Ledger) : Move l .rejected { l with rejected := l.rejected + 1 } .idle
  | receive (l : Ledger) (s : Submission) (taskQueue : List Submission)
      (h : l.taskQueue = s :: taskQueue) : Move l .idle { l with taskQueue } (.taken s)
  | executeTask (l : Ledger) (s : Submission) :
      Move l (.taken s) { l with active := l.active + 1 } (.running s)
  | safeExecute (l : Ledger) (s : Submission) :
      Move l (.running s) { l with executed := l.executed ++ [s] } .result
  | complete (l : Ledger) : Move l .result { l with completed := l.completed + 1 } .leaving
  | fail (l : Ledger) : Move l .result { l with failed := l.failed + 1 } .leaving
  | leave (l : Ledger) : Move l .leaving { l with active := l.active - 1 } .idle

/-- What holds between the turns. -/
structure Accounted (l : Ledger) (roles : List Role) : Prop where
  /-- A task that was accepted has been executed, or it is in the queue or at a worker. -/
  tasks : l.accepted.Perm (l.executed ++ (l.taskQueue ++ roles.filterMap Role.task?))
  /-- Submissions have different numbers. -/
  nodup : ((l.accepted ++ roles.filterMap Role.undecided?).map Submission.number).Nodup
  below : ∀ s ∈ l.accepted ++ roles.filterMap Role.undecided?, s.number < l.submissions
  total : l.total + roles.count .accepted = l.accepted.length
  results : l.completed + l.failed + roles.count .result = l.executed.length
  submissions : l.rejected + roles.count .rejected + l.accepted.length +
    roles.countP Role.isUndecided = l.submissions
  active : l.active = roles.countP Role.isActive

variable {l l' : Ledger} {role role' : Role} {roles roles' rest : List Role}

theorem Accounted.perm (hperm : roles.Perm roles') (h : Accounted l roles) :
    Accounted l roles' where
  tasks := h.tasks.trans (((hperm.filterMap _).append_left _).append_left _)
  nodup := (((hperm.filterMap _).append_left _).map _).nodup_iff.mp h.nodup
  below s hs := h.below s (((hperm.filterMap _).append_left _).mem_iff.mpr hs)
  total := by rw [← hperm.count_eq, h.total]
  results := by rw [← hperm.count_eq, h.results]
  submissions := by rw [← hperm.count_eq, ← hperm.countP_eq, h.submissions]
  active := by rw [← hperm.countP_eq, h.active]

/-- An idle call is not in the ledger. -/
theorem accounted_idle_cons : Accounted l (.idle :: rest) ↔ Accounted l rest := by
  constructor
  · intro h
    exact ⟨h.tasks, h.nodup, h.below, by simpa using h.total, by simpa using h.results,
      by simpa [List.countP_cons, Role.isUndecided] using h.submissions, by simpa [List.countP_cons, Role.isActive] using h.active⟩
  · intro h
    exact ⟨h.tasks, h.nodup, h.below, by simpa using h.total, by simpa using h.results,
      by simpa [List.countP_cons, Role.isUndecided] using h.submissions, by simpa [List.countP_cons, Role.isActive] using h.active⟩

/-- A submission gets a number that no other one has. -/
theorem accounted_enter (h : Accounted l rest) {s : Submission} (hs : s.number = l.submissions) :
    Accounted { l with submissions := l.submissions + 1 } (.undecided s :: rest) := by
  have hmiddle : (l.accepted ++ s :: rest.filterMap Role.undecided?).Perm
      (s :: (l.accepted ++ rest.filterMap Role.undecided?)) := List.perm_middle
  have hsum := h.submissions
  refine ⟨h.tasks, (hmiddle.map _).nodup_iff.mpr ?_, fun t ht => ?_, by simpa using h.total,
    by simpa using h.results, ?_, by simpa [List.countP_cons, Role.isActive] using h.active⟩
  · rw [List.map_cons, List.nodup_cons]
    refine ⟨fun hmem => ?_, h.nodup⟩
    obtain ⟨t, ht, heq⟩ := List.mem_map.mp hmem
    exact absurd (h.below t ht) (by omega)
  · rcases List.mem_cons.mp (hmiddle.mem_iff.mp ht) with rfl | hold
    · exact hs ▸ Nat.lt_succ_self _
    · exact Nat.lt_succ_of_lt (h.below t hold)
  · simp [List.countP_cons, Role.isUndecided]
    omega

theorem accounted_send {s : Submission} (h : Accounted l (.undecided s :: rest)) :
    Accounted { l with taskQueue := l.taskQueue ++ [s], accepted := l.accepted ++ [s] }
      (.accepted :: rest) := by
  have hsame : l.accepted ++ [s] ++ rest.filterMap Role.undecided? =
      l.accepted ++ s :: rest.filterMap Role.undecided? := by simp
  have htotal := h.total
  have hsum := h.submissions
  simp [List.countP_cons, Role.isUndecided] at htotal hsum
  refine ⟨?_, ?_, ?_, ?_, by simpa using h.results, ?_, by simpa [List.countP_cons, Role.isActive] using h.active⟩
  · refine (h.tasks.append_right [s]).trans ?_
    simp only [List.append_assoc]
    exact (List.perm_append_comm.append_left _).append_left _
  · exact hsame ▸ h.nodup
  · exact hsame ▸ h.below
  · simp
    omega
  · simp [Role.isUndecided]
    omega

theorem accounted_receive {s : Submission} {taskQueue : List Submission}
    (h : Accounted l rest) (hqueue : l.taskQueue = s :: taskQueue) :
    Accounted { l with taskQueue } (.taken s :: rest) := by
  refine ⟨h.tasks.trans ?_, h.nodup, h.below, by simpa using h.total, by simpa using h.results,
    by simpa [List.countP_cons, Role.isUndecided] using h.submissions, by simpa [List.countP_cons, Role.isActive] using h.active⟩
  rw [hqueue]
  exact List.Perm.append_left _ List.perm_middle.symm

theorem accounted_safeExecute {s : Submission} (h : Accounted l (.running s :: rest)) :
    Accounted { l with executed := l.executed ++ [s] } (.result :: rest) := by
  refine ⟨h.tasks.trans ?_, h.nodup, h.below, by simpa using h.total, ?_,
    by simpa [List.countP_cons, Role.isUndecided] using h.submissions, by simpa [List.countP_cons, Role.isActive] using h.active⟩
  · simp only [List.append_assoc]
    exact List.Perm.append_left _ List.perm_middle
  · have hresults := h.results
    simp at hresults ⊢
    omega

/-- Every move keeps the account. -/
theorem Accounted.move (h : Accounted l (role :: rest)) (hmove : Move l role l' role') :
    Accounted l' (role' :: rest) := by
  cases hmove with
  | keep => exact h
  | enter s hs => exact accounted_enter (accounted_idle_cons.mp h) hs
  | send s => exact accounted_send h
  | reject s =>
    have hsum := h.submissions
    simp [List.countP_cons, Role.isUndecided] at hsum
    refine ⟨h.tasks, ?_, fun t ht => h.below t ?_, by simpa using h.total, by simpa using h.results,
      ?_, by simpa [List.countP_cons, Role.isActive] using h.active⟩
    · have hsub : (l.accepted ++ rest.filterMap Role.undecided?).Sublist
          (l.accepted ++ s :: rest.filterMap Role.undecided?) :=
        List.Sublist.append_left (List.sublist_cons_self _ _) _
      exact h.nodup.sublist (hsub.map _)
    · exact (List.Sublist.append_left (List.sublist_cons_self _ _) _).subset ht
    · simp [Role.isUndecided]
      omega
  | countAccepted =>
    refine accounted_idle_cons.mpr ⟨h.tasks, h.nodup, h.below, ?_, by simpa using h.results,
      by simpa [List.countP_cons, Role.isUndecided] using h.submissions, by simpa [List.countP_cons, Role.isActive] using h.active⟩
    have htotal := h.total
    simp at htotal
    show l.total + 1 + _ = l.accepted.length
    omega
  | countRejected =>
    refine accounted_idle_cons.mpr ⟨h.tasks, h.nodup, h.below, by simpa using h.total,
      by simpa using h.results, ?_, by simpa [List.countP_cons, Role.isActive] using h.active⟩
    have hsum := h.submissions
    simp [Role.isUndecided] at hsum
    show l.rejected + 1 + _ + l.accepted.length + _ = l.submissions
    omega
  | receive s taskQueue hqueue => exact accounted_receive (accounted_idle_cons.mp h) hqueue
  | executeTask s =>
    refine ⟨h.tasks, h.nodup, h.below, by simpa using h.total, by simpa using h.results,
      by simpa [List.countP_cons, Role.isUndecided] using h.submissions, ?_⟩
    have hactive := h.active
    simp [List.countP_cons, Role.isActive] at hactive ⊢
    omega
  | safeExecute s => exact accounted_safeExecute h
  | complete =>
    refine ⟨h.tasks, h.nodup, h.below, by simpa using h.total, ?_,
      by simpa [List.countP_cons, Role.isUndecided] using h.submissions, by simpa [List.countP_cons, Role.isActive] using h.active⟩
    have hresults := h.results
    simp at hresults ⊢
    omega
  | fail =>
    refine ⟨h.tasks, h.nodup, h.below, by simpa using h.total, ?_,
      by simpa [List.countP_cons, Role.isUndecided] using h.submissions, by simpa [List.countP_cons, Role.isActive] using h.active⟩
    have hresults := h.results
    simp at hresults ⊢
    omega
  | leave =>
    refine accounted_idle_cons.mpr ⟨h.tasks, h.nodup, h.below, by simpa using h.total,
      by simpa using h.results, by simpa [List.countP_cons, Role.isUndecided] using h.submissions, ?_⟩
    have hactive := h.active
    simp [List.countP_cons, Role.isActive] at hactive ⊢
    omega

end Ledger

/-! ## The pool and its ledger -/

/-- What a phase is to the ledger. -/
def PoolPhase.role : PoolPhase → Role
  | .enter _ | .flushInline | .receive | .stop | .waitForWorkers => .idle
  | .checkStopped s | .offer s | .select s => .undecided s
  | .countAccepted _ => .accepted
  | .countRejected _ _ => .rejected
  | .executeTask s => .taken s
  | .safeExecute s => .running s
  | .countResult _ => .result
  | .leaveTask => .leaving

/-- A submission is in progress. -/
def PoolPhase.submitting : PoolPhase → Bool
  | .enter _ | .checkStopped _ | .offer _ | .select _ | .countAccepted _ | .countRejected _ _ => true
  | _ => false

/-- The execution of a task is in progress. -/
def PoolPhase.executing : PoolPhase → Bool
  | .executeTask _ | .safeExecute _ | .countResult _ | .leaveTask => true
  | _ => false

theorem PoolPhase.role_eq_idle {phase : PoolPhase} (hsubmit : phase.submitting = false)
    (hexecute : phase.executing = false) : phase.role = .idle := by
  cases phase <;> simp_all [submitting, executing, role]

/-- What the end of a turn is to the ledger. -/
def roleAfter (next : Option PoolPhase) : Role := (next.map PoolPhase.role).getD .idle

namespace WorkerPool

/-- The counters of the pool are the ones of the ledger, as far as they fit. -/
structure Keeps (p : WorkerPool) (l : Ledger) : Prop where
  taskQueue : p.taskQueue = l.taskQueue
  accepted : p.accepted = l.accepted
  executed : p.executed = l.executed
  submissions : p.submissions = l.submissions
  total : p.totalTasks = UInt64.ofNat l.total
  completed : p.completedTasks = UInt64.ofNat l.completed
  failed : p.failedTasks = UInt64.ofNat l.failed
  rejected : p.rejectedTasks = UInt64.ofNat l.rejected
  active : p.activeWorkers = int32 l.active

variable {p p' : WorkerPool} {l : Ledger} {env : PoolEnv} {phase : PoolPhase}
  {next : Option PoolPhase} {phases phases' rest : List PoolPhase}

theorem ofNat_succ (n : Nat) : UInt64.ofNat n + 1 = UInt64.ofNat (n + 1) :=
  (UInt64.ofNat_add n 1).symm

theorem keeps_send (h : p.Keeps l) (s : Submission) :
    (p.send s).Keeps { l with taskQueue := l.taskQueue ++ [s], accepted := l.accepted ++ [s] } :=
  { h with
    taskQueue := congrArg (· ++ [s]) h.taskQueue
    accepted := congrArg (· ++ [s]) h.accepted }

/-- A `select` that is not rejected sends. -/
theorem select_eq_some {s : Submission} (h : p.select env s = some (p', next)) :
    (p.HasRoom ∧ p' = p.send s ∧ next = some (.countAccepted s)) ∨
      (p' = p ∧ ∃ cause, next = some (.countRejected s cause)) := by
  unfold select at h
  split at h
  · split at h
    · cases h
      exact Or.inr ⟨rfl, _, rfl⟩
    · cases h
  · split at h
    · obtain ⟨ctxErr, -, heq⟩ := Option.map_eq_some_iff.mp h
      cases heq
      exact Or.inr ⟨rfl, _, rfl⟩
    · cases h
  · split at h
    · next hroom =>
      cases h
      exact Or.inl ⟨hroom, rfl, rfl⟩
    · cases h
  · split at h
    · cases h
      exact Or.inr ⟨rfl, _, rfl⟩
    · cases h

/-- A worker returns or takes the first task. -/
theorem receive_eq_some (h : p.receive env = some (p', next)) :
    (env.choice = .stopChan ∧ p.stopChan = true ∧ p' = { p with wg := p.wg - 1 } ∧ next = none) ∨
      ∃ s taskQueue, p.taskQueue = s :: taskQueue ∧ p' = { p with taskQueue } ∧
        next = some (.executeTask s) := by
  unfold receive at h
  split at h
  · next hchoice =>
    split at h
    · next hstop =>
      cases h
      exact Or.inl ⟨hchoice, hstop, rfl, rfl⟩
    · cases h
  · split at h
    · cases h
    · next s taskQueue hqueue =>
      cases h
      exact Or.inr ⟨s, taskQueue, hqueue, rfl, rfl⟩
  · cases h
  · cases h

/-- **Every turn is a move of the ledger.** -/
theorem move_of_turn (h : p.Keeps l) (hturn : turn p env phase = some (p', next)) :
    ∃ l', p'.Keeps l' ∧ Ledger.Move l phase.role l' (roleAfter next) := by
  cases phase with
  | enter method =>
    cases hturn
    refine ⟨{ l with submissions := l.submissions + 1 },
      { h with submissions := congrArg (· + 1) h.submissions }, ?_⟩
    have hmove := Ledger.Move.enter l ⟨p.submissions, method, p.stopChan⟩ h.submissions
    by_cases hm : method = .submit
    · rw [if_pos hm]
      exact hmove
    · rw [if_neg hm]
      exact hmove
  | checkStopped s =>
    cases hturn
    refine ⟨l, h, ?_⟩
    by_cases hstop : p.stopChan = true
    · rw [if_pos hstop]
      exact Ledger.Move.reject l s
    · rw [if_neg hstop]
      exact Ledger.Move.keep l _
  | offer s =>
    simp only [turn] at hturn
    split at hturn
    · cases hturn
      exact ⟨_, keeps_send h s, Ledger.Move.send l s⟩
    · cases hturn
      exact ⟨l, h, Ledger.Move.reject l s⟩
  | select s =>
    rcases select_eq_some hturn with ⟨-, rfl, rfl⟩ | ⟨rfl, cause, rfl⟩
    · exact ⟨_, keeps_send h s, Ledger.Move.send l s⟩
    · exact ⟨l, h, Ledger.Move.reject l s⟩
  | countAccepted s =>
    cases hturn
    refine ⟨{ l with total := l.total + 1 }, { h with total := ?_ }, Ledger.Move.countAccepted l⟩
    exact (congrArg (· + 1) h.total).trans (ofNat_succ _)
  | countRejected s cause =>
    cases hturn
    refine ⟨{ l with rejected := l.rejected + 1 }, { h with rejected := ?_ }, ?_⟩
    · exact (congrArg (· + 1) h.rejected).trans (ofNat_succ _)
    · have hidle : roleAfter (afterRejection s) = .idle := by
        unfold afterRejection
        split <;> rfl
      rw [hidle]
      exact Ledger.Move.countRejected l
  | flushInline =>
    cases hturn
    exact ⟨l, h, Ledger.Move.keep l _⟩
  | receive =>
    rcases receive_eq_some hturn with ⟨-, -, rfl, rfl⟩ | ⟨s, taskQueue, hqueue, rfl, rfl⟩
    · exact ⟨l, { h with }, Ledger.Move.keep l _⟩
    · exact ⟨{ l with taskQueue }, { h with taskQueue := rfl },
        Ledger.Move.receive l s taskQueue (h.taskQueue.symm.trans hqueue)⟩
  | executeTask s =>
    cases hturn
    refine ⟨{ l with active := l.active + 1 }, { h with active := ?_ }, Ledger.Move.executeTask l s⟩
    exact (congrArg (fun x => int32 (x + 1)) h.active).trans Int.bmod_add_bmod
  | safeExecute s =>
    cases hturn
    exact ⟨{ l with executed := l.executed ++ [s] },
      { h with executed := congrArg (· ++ [s]) h.executed }, Ledger.Move.safeExecute l s⟩
  | countResult err =>
    cases err with
    | none =>
      cases hturn
      refine ⟨{ l with completed := l.completed + 1 }, { h with completed := ?_ },
        Ledger.Move.complete l⟩
      exact (congrArg (· + 1) h.completed).trans (ofNat_succ _)
    | some message =>
      cases hturn
      refine ⟨{ l with failed := l.failed + 1 }, { h with failed := ?_ }, Ledger.Move.fail l⟩
      exact (congrArg (· + 1) h.failed).trans (ofNat_succ _)
  | leaveTask =>
    cases hturn
    refine ⟨{ l with active := l.active - 1 }, { h with active := ?_ }, Ledger.Move.leave l⟩
    exact (congrArg (fun x => int32 (x - 1)) h.active).trans Int.bmod_sub_bmod
  | stop =>
    simp only [turn] at hturn
    split at hturn
    · cases hturn
      exact ⟨l, { h with }, Ledger.Move.keep l _⟩
    · cases hturn
    · cases hturn
      exact ⟨l, h, Ledger.Move.keep l _⟩
  | waitForWorkers =>
    simp only [turn] at hturn
    split at hturn
    · cases hturn
      exact ⟨l, { h with }, Ledger.Move.keep l _⟩
    · cases hturn

/-- The pool has a ledger that accounts for all calls. -/
def Accounted (p : WorkerPool) (phases : List PoolPhase) : Prop :=
  ∃ l, p.Keeps l ∧ l.Accounted (phases.map PoolPhase.role)

theorem accounted_turn (h : Accounted p (phase :: rest))
    (hturn : turn p env phase = some (p', next)) : Accounted p' (next.toList ++ rest) := by
  obtain ⟨l, hkeeps, hacc⟩ := h
  obtain ⟨l', hkeeps', hmove⟩ := move_of_turn hkeeps hturn
  refine ⟨l', hkeeps', ?_⟩
  have hacc' := Ledger.Accounted.move hacc hmove
  cases next with
  | none => exact Ledger.accounted_idle_cons.mp hacc'
  | some phase' => exact hacc'

theorem accounted_step {s s' : System} {t : Turn} (h : Accounted s.state s.phases)
    (hstep : step s t = some s') : Accounted s'.state s'.phases := by
  refine Concurrent.invariant_step ?_ ?_ ?_ h hstep
  · rintro state phases phases' hperm ⟨l, hkeeps, hacc⟩
    exact ⟨l, hkeeps, hacc.perm (hperm.map _)⟩
  · rintro env request ⟨l, hkeeps, hacc⟩
    refine ⟨l, hkeeps, ?_⟩
    cases request <;> exact Ledger.accounted_idle_cons.mpr hacc
  · intro id env phase next rest _ _ _ hturn hrest
    exact accounted_turn hrest hturn

/-- A new pool with any number of workers is accounted for. -/
theorem accounted_start (cfg : PoolConfig) : Accounted (start cfg).state (start cfg).phases := by
  refine ⟨⟨[], [], [], 0, 0, 0, 0, 0, 0⟩, ⟨rfl, rfl, rfl, rfl, rfl, rfl, rfl, rfl, rfl⟩, ?_⟩
  have hphases : (start cfg).phases.map PoolPhase.role =
      List.replicate (new cfg).maxWorkers .idle := by
    simp [start, Concurrent.System.phases, List.map_map, Function.comp_def, PoolPhase.role]
  rw [hphases]
  generalize (new cfg).maxWorkers = n
  induction n with
  | zero => exact ⟨List.Perm.nil, List.nodup_nil, by simp, rfl, rfl, rfl, rfl⟩
  | succ n ih => exact Ledger.accounted_idle_cons.mpr ih

theorem accounted_run {cfg : PoolConfig} {turns : List Turn} {s : System}
    (hrun : run step (start cfg) turns = some s) : Accounted s.state s.phases :=
  run_invariant (P := fun _ _ => True) (I := fun s : System => Accounted s.state s.phases)
    (fun _ _ _ h _ hstep => accounted_step h hstep) (accounted_start cfg) (allSteps_trivial _ _) hrun

/-- **The accounting of the pool.** In every interleaving, a task that is executed was accepted and
is executed once. Whenever no submission and no execution is in progress, every accepted task has
been counted as completed or failed or is in the queue, every submission has been counted as accepted
or rejected, and no worker counts as active. The counters have 64 bits; up to that many submissions
the equations are equations of numbers. -/
theorem pool_accounting_exact {cfg : PoolConfig} {turns : List Turn} {s : System}
    (hrun : run step (start cfg) turns = some s) :
    (s.state.executed.map Submission.number).Nodup ∧
      (∀ t ∈ s.state.executed, t ∈ s.state.accepted) ∧
      ((∀ phase ∈ s.phases, phase.submitting = false ∧ phase.executing = false) →
        s.state.totalTasks = s.state.completedTasks + s.state.failedTasks +
            UInt64.ofNat s.state.taskQueue.length ∧
          s.state.totalTasks + s.state.rejectedTasks = UInt64.ofNat s.state.submissions ∧
          s.state.activeWorkers = 0 ∧
          (s.state.submissions < 2 ^ 64 →
            s.state.totalTasks.toNat = s.state.completedTasks.toNat +
                s.state.failedTasks.toNat + s.state.taskQueue.length ∧
              s.state.totalTasks.toNat + s.state.rejectedTasks.toNat = s.state.submissions)) := by
  obtain ⟨l, hkeeps, hacc⟩ := accounted_run hrun
  have hsub : ∀ t ∈ l.executed, t ∈ l.accepted := fun t ht =>
    hacc.tasks.mem_iff.mpr (List.mem_append_left _ ht)
  refine ⟨?_, ?_, fun hquiet => ?_⟩
  · -- the tasks that were executed are among the accepted ones, which have different numbers
    rw [hkeeps.executed]
    have haccepted := (List.map_append ▸ hacc.nodup : (l.accepted.map Submission.number ++ _).Nodup)
    have htasks := (hacc.tasks.map Submission.number).nodup_iff.mp haccepted.of_append_left
    rw [List.map_append] at htasks
    exact htasks.of_append_left
  · rw [hkeeps.executed, hkeeps.accepted]
    exact hsub
  · have hidle : ∀ role ∈ s.phases.map PoolPhase.role, role = .idle := by
      intro role hrole
      obtain ⟨phase, hphase, rfl⟩ := List.mem_map.mp hrole
      obtain ⟨hsubmit, hexecute⟩ := hquiet phase hphase
      exact PoolPhase.role_eq_idle hsubmit hexecute
    obtain ⟨n, hn⟩ : ∃ n, s.phases.map PoolPhase.role = List.replicate n .idle :=
      ⟨_, List.eq_replicate_of_mem hidle⟩
    rw [hn] at hacc
    have htasks := hacc.tasks.length_eq
    have htotal := hacc.total
    have hresults := hacc.results
    have hsum := hacc.submissions
    have hactive := hacc.active
    simp [List.filterMap_replicate, Role.task?, Role.isUndecided, Role.isActive, List.count_replicate,
      List.countP_replicate] at htasks htotal hresults hsum hactive
    have hqueue : l.total = l.completed + l.failed + l.taskQueue.length := by omega
    have hall : l.total + l.rejected = l.submissions := by omega
    rw [hkeeps.total, hkeeps.completed, hkeeps.failed, hkeeps.rejected, hkeeps.taskQueue,
      hkeeps.submissions, hkeeps.active, hactive]
    refine ⟨?_, ?_, by decide, fun hlt => ?_⟩
    · rw [hqueue, UInt64.ofNat_add, UInt64.ofNat_add]
    · rw [← hall, UInt64.ofNat_add]
    · have hfits : ∀ n, n ≤ l.submissions → (UInt64.ofNat n).toNat = n := fun n hle => by
        rw [UInt64.toNat_ofNat']
        exact Nat.mod_eq_of_lt (by omega)
      rw [hfits _ (by omega), hfits _ (by omega), hfits _ (by omega), hfits _ (by omega)]
      exact ⟨hqueue, hall⟩

/-! ## The queue -/

/-- The queue is not longer than its size, and it is the end of the accepted tasks. -/
structure Queued (size : Nat) (p : WorkerPool) : Prop where
  size_eq : p.queueSize = size
  length_le : p.taskQueue.length ≤ size
  suffix : p.taskQueue <:+ p.accepted

theorem Queued.send {size : Nat} (h : p.Queued size) (hroom : p.HasRoom) (s : Submission) :
    (p.send s).Queued size := by
  refine ⟨h.size_eq, ?_, List.suffix_append_self_iff.mpr h.suffix⟩
  rw [HasRoom, h.size_eq] at hroom
  simpa [WorkerPool.send] using hroom

theorem queued_turn {size : Nat} (h : p.Queued size) (hturn : turn p env phase = some (p', next)) :
    p'.Queued size := by
  cases phase with
  | offer s =>
    simp only [turn] at hturn
    split at hturn
    · next hroom =>
      cases hturn
      exact h.send hroom s
    · cases hturn
      exact h
  | select s =>
    rcases select_eq_some hturn with ⟨hroom, rfl, -⟩ | ⟨rfl, -⟩
    · exact h.send hroom s
    · exact h
  | receive =>
    rcases receive_eq_some hturn with ⟨-, -, rfl, -⟩ | ⟨s, taskQueue, hqueue, rfl, -⟩
    · exact ⟨h.size_eq, h.length_le, h.suffix⟩
    · obtain ⟨hsize, hlen, hsuffix⟩ := h
      rw [hqueue] at hlen hsuffix
      exact ⟨hsize, Nat.le_of_succ_le hlen, (List.suffix_cons s taskQueue).trans hsuffix⟩
  | countResult err => cases err <;> cases hturn <;> exact ⟨h.size_eq, h.length_le, h.suffix⟩
  | stop | waitForWorkers =>
    simp only [turn] at hturn
    split at hturn <;> cases hturn <;> exact ⟨h.size_eq, h.length_le, h.suffix⟩
  | _ =>
    cases hturn
    exact ⟨h.size_eq, h.length_le, h.suffix⟩

end WorkerPool

namespace Sample

def poolConfig : PoolConfig := ⟨"pool", 1, 1⟩

/-- The surroundings of a turn with the given choice; the tasks panic. -/
def choosing (choice : SelectCase) : PoolEnv := ⟨choice, none, .panics "boom", false⟩

/-- A call and the choices of its turns. -/
def poolCall (id : Nat) (request : PoolRequest) (choices : List SelectCase) :
    List WorkerPool.Turn :=
  .start id (choosing .default) request :: choices.map fun choice => .advance id (choosing choice)

/-- The turns of the worker. -/
def workerTurns (choices : List SelectCase) : List WorkerPool.Turn :=
  choices.map fun choice => .advance 0 (choosing choice)

/-- A task is accepted and panics, a second one is accepted, and a third one finds the queue full. -/
def threeTasks : List WorkerPool.Turn :=
  poolCall 1 (.submit .submit) [.default, .default, .default, .default] ++
    workerTurns [.taskQueue, .default, .default, .default, .default] ++
    poolCall 2 (.submit .submitWithContext) [.default, .taskQueue, .default] ++
    poolCall 3 (.submit .trySubmit) [.default, .default, .default]

end Sample

open Sample in
theorem pool_accounting_exact_threeTasks : ∃ s,
    run WorkerPool.step (WorkerPool.start poolConfig) threeTasks = some s ∧
      s.state.totalTasks = 2 ∧ s.state.failedTasks = 1 ∧ s.state.rejectedTasks = 1 ∧
      s.state.totalTasks.toNat = s.state.completedTasks.toNat + s.state.failedTasks.toNat +
        s.state.taskQueue.length := by
  have hrun : (run WorkerPool.step (WorkerPool.start poolConfig) threeTasks).map (fun s =>
      decide (s.state.totalTasks = 2 ∧ s.state.failedTasks = 1 ∧ s.state.rejectedTasks = 1 ∧
        s.state.submissions = 3 ∧
        ∀ phase ∈ s.phases, phase.submitting = false ∧ phase.executing = false)) = some true := by
    decide +kernel
  obtain ⟨s, hs, hdec⟩ := Option.map_eq_some_iff.mp hrun
  obtain ⟨htotal, hfailed, hrejected, hsubmissions, hquiet⟩ := of_decide_eq_true hdec
  obtain ⟨-, -, hexact⟩ := WorkerPool.pool_accounting_exact hs
  obtain ⟨-, -, -, hnat⟩ := hexact hquiet
  exact ⟨s, hs, htotal, hfailed, hrejected, (hnat (by rw [hsubmissions]; decide)).1⟩

end PairDB.StorageNode
