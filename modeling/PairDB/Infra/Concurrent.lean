import PairDB.Infra.Run

/-!
# Concurrent calls

Calls of a service take turns. Between two turns a call is in a phase; a turn is atomic, changes the
shared state and takes the call to its next phase, or ends it. Any call in progress can have the
next turn, so a run is an interleaving.

The calls are kept in the order of their last turns. `step_start` and `step_advance` say what a step
does to the list of phases. A call that has all the turns (`runAlone`) is a call of the sequential
service (`run_of_runAlone`).
-/

namespace Infra.Concurrent

variable {σ φ ε ρ : Type*}

/-- The shared state, and the calls in progress under their identifiers. -/
structure System (σ φ : Type*) where
  state : σ
  calls : List (Nat × φ)
  nodup : (calls.map Prod.fst).Nodup

/-- A call begins, or it has a turn. Each comes with what it reads from its surroundings. -/
inductive Turn (ε ρ : Type*) where
  | start (id : Nat) (env : ε) (request : ρ)
  | advance (id : Nat) (env : ε)

namespace System

/-- No call is in progress. -/
def quiet (state : σ) : System σ φ := ⟨state, [], List.nodup_nil⟩

/-- The phases of the calls in progress, the one with the latest turn at the end. -/
def phases (s : System σ φ) : List φ := s.calls.map Prod.snd

/-- The phase of a call. -/
def phase? (s : System σ φ) (id : Nat) : Option φ :=
  (s.calls.find? fun c => c.1 = id).map Prod.snd

/-- The phases of the calls that had their last turn before the call. -/
def before (s : System σ φ) (id : Nat) : List φ :=
  (s.calls.takeWhile fun c => c.1 ≠ id).map Prod.snd

/-- The phases of the calls that had their last turn after the call. -/
def after (s : System σ φ) (id : Nat) : List φ :=
  (s.calls.dropWhile fun c => c.1 ≠ id).tail.map Prod.snd

/-- A call begins with a phase. -/
def begin (s : System σ φ) (id : Nat) (phase : φ) : Option (System σ φ) :=
  if h : id ∈ s.calls.map Prod.fst then none
  else
    some { s with
      calls := s.calls ++ [(id, phase)]
      nodup := by
        rw [List.map_append]
        refine List.nodup_append.mpr ⟨s.nodup, List.nodup_singleton _, ?_⟩
        intro i hi j hj
        rw [List.mem_singleton.mp hj]
        rintro rfl
        exact h hi }

theorem nodup_move (s : System σ φ) (id : Nat) (next : Option φ) :
    ((s.calls.filter (fun c => c.1 ≠ id) ++ next.toList.map fun phase => (id, phase)).map
      Prod.fst).Nodup := by
  have hrest : ((s.calls.filter fun c => c.1 ≠ id).map Prod.fst).Nodup :=
    s.nodup.sublist (List.filter_sublist.map _)
  cases next with
  | none => simpa using hrest
  | some phase =>
    rw [List.map_append]
    refine List.nodup_append.mpr ⟨hrest, List.nodup_singleton _, ?_⟩
    intro i hi j hj
    rw [List.mem_map] at hi
    obtain ⟨c, hc, rfl⟩ := hi
    rw [List.mem_singleton.mp hj]
    simpa using (List.mem_filter.mp hc).2

/-- After its turn a call is in the phase `next`, or it has ended. -/
def move (s : System σ φ) (id : Nat) (state : σ) (next : Option φ) : System σ φ where
  state := state
  calls := s.calls.filter (fun c => c.1 ≠ id) ++ next.toList.map fun phase => (id, phase)
  nodup := s.nodup_move id next

end System

/-- A step of the interleaving. `enter` gives the first phase of a call, unless the call ends at
once. `turn` is a turn; it is `none` if the call cannot go on. -/
def step (enter : ε → ρ → Option φ) (turn : σ → ε → φ → Option (σ × Option φ)) (s : System σ φ) :
    Turn ε ρ → Option (System σ φ)
  | .start id env request =>
    match enter env request with
    | none => some s
    | some phase => s.begin id phase
  | .advance id env =>
    (s.phase? id).bind fun phase =>
      (turn s.state env phase).map fun (state, next) => s.move id state next

section

variable {enter : ε → ρ → Option φ} {turn : σ → ε → φ → Option (σ × Option φ)}
  {s s' : System σ φ}

/-- The call stands between the ones that had their turns before and after it. -/
theorem System.phases_eq {id : Nat} {phase : φ} (h : s.phase? id = some phase) :
    s.phases = s.before id ++ phase :: s.after id ∧
      ∀ state next, (s.move id state next).phases =
        s.before id ++ s.after id ++ next.toList := by
  obtain ⟨c, hfind, rfl⟩ := Option.map_eq_some_iff.mp h
  obtain ⟨hc, l, r, hcalls, hl⟩ := List.find?_eq_some_iff_append.mp hfind
  have hid : c.1 = id := by simpa using hc
  have hl' : ∀ d ∈ l, decide (d.1 ≠ id) = true := fun d hd => by simpa using hl d hd
  -- the identifiers are distinct, so the call is not met again
  have hr : ∀ d ∈ r, decide (d.1 ≠ id) = true := by
    intro d hd
    have hnd := s.nodup
    rw [hcalls, List.map_append, List.map_cons, List.nodup_append] at hnd
    have hnotin := (List.nodup_cons.mp hnd.2.1).1
    rw [decide_eq_true_eq]
    rintro rfl
    exact hnotin (hid ▸ List.mem_map_of_mem hd)
  have hbefore : s.before id = l.map Prod.snd := by
    rw [System.before, hcalls, List.takeWhile_append_of_pos hl']
    simp [hid]
  have hafter : s.after id = r.map Prod.snd := by
    rw [System.after, hcalls, List.dropWhile_append_of_pos hl']
    simp [hid]
  constructor
  · rw [hbefore, hafter, System.phases, hcalls, List.map_append, List.map_cons]
  · intro state next
    have hfilter : s.calls.filter (fun d => d.1 ≠ id) = l ++ r := by
      rw [hcalls, List.filter_append, List.filter_eq_self.mpr hl',
        List.filter_cons_of_neg (by simp [hid]), List.filter_eq_self.mpr hr]
    rw [hbefore, hafter, System.phases, System.move]
    simp only [hfilter, List.map_append]
    cases next <;> rfl

theorem step_start {id : Nat} {env : ε} {request : ρ}
    (h : step enter turn s (.start id env request) = some s') :
    s'.state = s.state ∧ s'.phases = s.phases ++ (enter env request).toList := by
  simp only [step] at h
  cases he : enter env request with
  | none =>
    rw [he] at h
    cases h
    exact ⟨rfl, by simp⟩
  | some phase =>
    simp only [he, System.begin] at h
    split at h
    · cases h
    · cases h
      exact ⟨rfl, by simp [System.phases]⟩

theorem step_advance {id : Nat} {env : ε} (h : step enter turn s (.advance id env) = some s') :
    ∃ phase next, s.phase? id = some phase ∧ turn s.state env phase = some (s'.state, next) ∧
      s.phases = s.before id ++ phase :: s.after id ∧
      s'.phases = s.before id ++ s.after id ++ next.toList := by
  simp only [step] at h
  obtain ⟨phase, hphase, h⟩ := Option.bind_eq_some_iff.mp h
  obtain ⟨⟨state, next⟩, hturn, rfl⟩ := Option.map_eq_some_iff.mp h
  obtain ⟨hbefore, hafter⟩ := System.phases_eq hphase
  exact ⟨phase, next, hphase, hturn, hbefore, hafter state next⟩

/-- The same, for invariants that do not look at the order of the calls. -/
theorem step_advance_perm {id : Nat} {env : ε} (h : step enter turn s (.advance id env) = some s') :
    ∃ phase next rest, s.phase? id = some phase ∧ turn s.state env phase = some (s'.state, next) ∧
      s.phases.Perm (phase :: rest) ∧ s'.phases.Perm (next.toList ++ rest) := by
  obtain ⟨phase, next, hphase, hturn, hbefore, hafter⟩ := step_advance h
  refine ⟨phase, next, s.before id ++ s.after id, hphase, hturn, ?_, ?_⟩
  · rw [hbefore]
    exact List.perm_middle
  · rw [hafter]
    exact List.perm_append_comm

/--
**The invariant rule for a step.**

`I` speaks of the shared state and of the phases of the calls in progress, in any order. A step keeps
it if the first phase of a call does and the turn of a call does.
-/
theorem invariant_step {I : σ → List φ → Prop} {t : Turn ε ρ}
    (hperm : ∀ {state : σ} {phases phases' : List φ}, phases.Perm phases' → I state phases →
      I state phases')
    (hstart : ∀ env request, I s.state s.phases → I s.state ((enter env request).toList ++ s.phases))
    (hturn : ∀ {id env phase next rest}, t = .advance id env → s.phase? id = some phase →
      s.phases.Perm (phase :: rest) → turn s.state env phase = some (s'.state, next) →
      I s.state (phase :: rest) → I s'.state (next.toList ++ rest))
    (h : I s.state s.phases) (hstep : step enter turn s t = some s') : I s'.state s'.phases := by
  cases t with
  | start id env request =>
    obtain ⟨hstate, hphases⟩ := step_start hstep
    rw [hstate, hphases]
    exact hperm List.perm_append_comm (hstart env request h)
  | advance id env =>
    obtain ⟨phase, next, rest, hphase, hnext, hbefore, hafter⟩ := step_advance_perm hstep
    exact hperm hafter.symm (hturn rfl hphase hbefore hnext (hperm hbefore h))

/-- **The invariant rule for the shared state.** What every turn keeps holds after every run. -/
theorem run_state_invariant {I : σ → Prop} {turns : List (Turn ε ρ)}
    (hrun : run (step enter turn) s turns = some s') (h : I s.state)
    (hturn : ∀ state env phase state' next, I state →
      turn state env phase = some (state', next) → I state') : I s'.state := by
  refine run_invariant (P := fun _ _ => True) (I := fun s : System σ φ => I s.state) ?_ h
    (allSteps_trivial _ _) hrun
  intro s t s' h _ hstep
  cases t with
  | start id env request => rwa [(step_start hstep).1]
  | advance id env =>
    obtain ⟨phase, next, -, hnext, -⟩ := step_advance hstep
    exact hturn _ _ _ _ _ h hnext

/-! ## One call alone -/

/-- The only call in progress is in this phase. -/
def System.single (state : σ) (id : Nat) (phase : φ) : System σ φ :=
  ⟨state, [(id, phase)], List.nodup_singleton _⟩

theorem step_single (id : Nat) (env : ε) (state : σ) (phase : φ) :
    step enter turn (System.single state id phase) (.advance id env) =
      (turn state env phase).map fun r => r.2.elim (System.quiet r.1) (System.single r.1 id) := by
  cases ht : turn state env phase with
  | none => simp [step, System.single, System.phase?, ht]
  | some r =>
    obtain ⟨state', next⟩ := r
    cases next <;>
      simp [step, System.single, System.phase?, System.move, System.quiet, ht]

/-- A call that has all the turns, one after another. -/
def runAlone (turn : σ → ε → φ → Option (σ × Option φ)) (env : ε) : Nat → σ → φ → Option σ
  | 0, _, _ => none
  | fuel + 1, state, phase =>
    (turn state env phase).bind fun r => r.2.elim (some r.1) (runAlone turn env fuel r.1)

theorem run_of_runAlone {env : ε} {state' : σ} (id : Nat) :
    ∀ {fuel : Nat} {state : σ} {phase : φ}, runAlone turn env fuel state phase = some state' →
      ∃ k, run (step enter turn) (System.single state id phase)
        (List.replicate k (.advance id env)) = some (System.quiet state')
  | 0, _, _, h => by cases h
  | fuel + 1, state, phase, h => by
    obtain ⟨⟨state₁, next⟩, hturn, h⟩ := Option.bind_eq_some_iff.mp h
    have hstep : step enter turn (System.single state id phase) (.advance id env) = _ :=
      step_single id env state phase
    rw [hturn, Option.map_some] at hstep
    cases next with
    | none =>
      cases h
      exact ⟨1, run_cons.mpr ⟨_, hstep, rfl⟩⟩
    | some phase₁ =>
      obtain ⟨k, hk⟩ := run_of_runAlone id h
      exact ⟨k + 1, run_cons.mpr ⟨_, hstep, hk⟩⟩

/-- The turns of a call one after another, each in its own surroundings. A call that has ended has no
more turns. -/
def runTurns (turn : σ → ε → φ → Option (σ × Option φ)) :
    List ε → σ → φ → Option (σ × Option φ)
  | [], state, phase => some (state, some phase)
  | env :: envs, state, phase =>
    (turn state env phase).bind fun r =>
      match r.2 with
      | some next => runTurns turn envs r.1 next
      | none => if envs.isEmpty then some (r.1, none) else none

theorem runTurns_cons {env : ε} {state state' : σ} {phase next : φ}
    (h : turn state env phase = some (state', some next)) (envs : List ε) :
    runTurns turn (env :: envs) state phase = runTurns turn envs state' next := by
  rw [runTurns, h]
  rfl

theorem runTurns_append {envs' : List ε} {state' : σ} {phase' : φ} :
    ∀ {envs : List ε} {state : σ} {phase : φ},
      runTurns turn envs state phase = some (state', some phase') →
      runTurns turn (envs ++ envs') state phase = runTurns turn envs' state' phase'
  | [], _, _, h => by
    cases h
    rfl
  | env :: envs, state, phase, h => by
    obtain ⟨⟨state₁, next⟩, ht, h⟩ := Option.bind_eq_some_iff.mp h
    cases next with
    | none =>
      simp only at h
      split at h <;> cases h
    | some next =>
      rw [List.cons_append, runTurns_cons ht]
      exact runTurns_append h

/-- What a turn preserves holds as long as the call is in progress. `I` speaks of the surroundings
of the turns so far. -/
theorem runTurns_invariant {I : List ε → σ → φ → Prop}
    (hturn : ∀ pre state phase env state' next, I pre state phase →
      turn state env phase = some (state', some next) → I (pre ++ [env]) state' next) :
    ∀ (envs pre : List ε) (state : σ) (phase : φ) {state' : σ} {phase' : φ}, I pre state phase →
      runTurns turn envs state phase = some (state', some phase') →
        I (pre ++ envs) state' phase'
  | [], pre, state, phase, _, _, hI, h => by
    cases h
    rw [List.append_nil]
    exact hI
  | env :: envs, pre, state, phase, _, _, hI, h => by
    obtain ⟨⟨state₁, next⟩, ht, h⟩ := Option.bind_eq_some_iff.mp h
    cases next with
    | none =>
      simp only at h
      split at h <;> cases h
    | some next =>
      have hrest := runTurns_invariant hturn envs (pre ++ [env]) state₁ next
        (hturn pre state phase env state₁ next hI ht) h
      rwa [List.append_assoc] at hrest

/-- It is a run of the system in which no other call has a turn. -/
theorem run_single_iff (id : Nat) {state' : σ} {phase' : φ} :
    ∀ {envs : List ε} {state : σ} {phase : φ},
      run (step enter turn) (System.single state id phase) (envs.map (.advance id)) =
          some (System.single state' id phase') ↔
        runTurns turn envs state phase = some (state', some phase')
  | [], state, phase => by simp [runTurns, System.single]
  | env :: envs, state, phase => by
    simp only [List.map_cons, run, step_single, runTurns]
    rcases turn state env phase with _ | ⟨state₁, next⟩
    · simp
    · cases next with
      | some next => exact run_single_iff id
      | none =>
        -- a call that has ended has no more turns
        cases envs with
        | nil => simp [System.quiet, System.single]
        | cons env' envs => simp [run, step, System.quiet, System.phase?]

end

/-! ## Two services beside each other -/

section Beside

variable {σ' φ' ε' ρ' : Type*} {enter : ε → ρ → Option φ} {enter' : ε' → ρ' → Option φ'}
  {turn : σ → ε → φ → Option (σ × Option φ)} {turn' : σ' → ε' → φ' → Option (σ' × Option φ')}

/-- A call of one of the two services. -/
def enterBeside (enter : ε → ρ → Option φ) (enter' : ε' → ρ' → Option φ') (env : ε × ε') :
    ρ ⊕ ρ' → Option (φ ⊕ φ')
  | .inl request => (enter env.1 request).map .inl
  | .inr request => (enter' env.2 request).map .inr

/-- A turn of a call of one of the two services leaves the state of the other one alone. -/
def turnBeside (turn : σ → ε → φ → Option (σ × Option φ))
    (turn' : σ' → ε' → φ' → Option (σ' × Option φ')) (s : σ × σ') (env : ε × ε') :
    φ ⊕ φ' → Option ((σ × σ') × Option (φ ⊕ φ'))
  | .inl phase => (turn s.1 env.1 phase).map fun r => ((r.1, s.2), r.2.map .inl)
  | .inr phase => (turn' s.2 env.2 phase).map fun r => ((s.1, r.1), r.2.map .inr)

/-- The phases of the calls of the first service. -/
def lefts (phases : List (φ ⊕ φ')) : List φ := phases.filterMap Sum.getLeft?

theorem lefts_append (phases phases' : List (φ ⊕ φ')) :
    lefts (phases ++ phases') = lefts phases ++ lefts phases' := List.filterMap_append

theorem lefts_enterBeside (env : ε × ε') (request : ρ ⊕ ρ') :
    lefts (enterBeside enter enter' env request).toList =
      (request.elim (fun r => enter env.1 r) fun _ => none).toList := by
  cases request with
  | inl request => cases h : enter env.1 request <;> simp [enterBeside, lefts, h]
  | inr request => cases h : enter' env.2 request <;> simp [enterBeside, lefts, h]

/-- What a turn is for the first service: one of its own turns, or nothing. -/
theorem turnBeside_left {s s' : σ × σ'} {env : ε × ε'} {phase : φ ⊕ φ'}
    {next : Option (φ ⊕ φ')} (h : turnBeside turn turn' s env phase = some (s', next)) :
    (∃ p q, phase = .inl p ∧ turn s.1 env.1 p = some (s'.1, q) ∧ lefts next.toList = q.toList) ∨
      ((∃ p, phase = .inr p) ∧ s'.1 = s.1 ∧ lefts next.toList = []) := by
  cases phase with
  | inl p =>
    obtain ⟨⟨s₁, q⟩, hturn, hpair⟩ := Option.map_eq_some_iff.mp h
    cases hpair
    refine Or.inl ⟨p, q, rfl, hturn, ?_⟩
    cases q <;> rfl
  | inr p =>
    obtain ⟨⟨s₁, q⟩, hturn, hpair⟩ := Option.map_eq_some_iff.mp h
    cases hpair
    refine Or.inr ⟨⟨p, rfl⟩, rfl, ?_⟩
    cases q <;> rfl

end Beside

end Infra.Concurrent
