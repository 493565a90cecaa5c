import PairDB.Infra.Run
import PairDB.StorageNode.LiveStreaming

/-!
# Mutations between the bulk copy and the end of a stream

A stream is owed every mutation of its keys that is applied after the range of the key has been
scanned and while the stream is filed. `InterceptWrite` hands over a write only if it finds the
stream in the state `streaming`, and nobody hands over a deletion or a repair.

So all that is owed is handed over if no deletion or repair is owed to a stream, and the interception
of a write finds every stream that it is owed to filed, and then in the state `streaming`
(`owed_is_handed`). The invariant: what is owed has been handed over, or the call that is to do it is
still on its way (`Carries`).
-/

namespace PairDB.StorageNode

open Infra

/-! ## The ranges of a stream do not change -/

namespace StreamingManager

variable {sm sm' : StreamingManager}

/-- The ranges of a context, filed or not. -/
def ranges? (sm : StreamingManager) (ref : Nat) : Option (List StreamKeyRange) :=
  sm.contexts[ref]?.map StreamContext.keyRanges

/-- The contexts keep their ranges. -/
def Keeps (sm sm' : StreamingManager) : Prop :=
  ∀ ref ranges, sm.ranges? ref = some ranges → sm'.ranges? ref = some ranges

theorem keeps_execute {ref : Nat} {fails : Bool} (h : sm.execute ref fails = some sm') :
    Keeps sm sm' := by
  obtain ⟨-, hcontexts⟩ := execute_eq_some h
  intro i ranges hranges
  have hsame := congrArg (Option.map Prod.snd) (hcontexts i)
  rw [Option.map_map, Option.map_map] at hsame
  exact hsame.trans hranges

theorem keeps_startStreaming (source target : String) (ranges : List StreamKeyRange) :
    Keeps sm (sm.startStreaming source target ranges).1 := by
  rcases startStreaming_cases source target ranges with h | h
  · rw [h]
    exact fun _ _ h => h
  · rw [h]
    intro ref ranges' hranges
    obtain ⟨streamCtx, hctx, -⟩ := Option.map_eq_some_iff.mp hranges
    unfold ranges? at hranges ⊢
    rwa [List.getElem?_append_left (List.getElem?_eq_some_iff.mp hctx).1]

theorem keeps_stopStreaming (target : String) : Keeps sm (sm.stopStreaming target) := by
  unfold stopStreaming
  split <;> exact fun _ _ h => h

end StreamingManager

/-! ## Calls on their way -/

namespace LivePhase

/-- The mutation of the call, once it is applied. -/
def mutation? : LivePhase → Option (Nat × CommitLogEntry)
  | .applied number entry | .intercept number entry | .visit number entry _ => some (number, entry)
  | _ => none

/-- The call is still to visit the stream with the mutation. -/
def Carries (ref number : Nat) : LivePhase → Prop
  | .applied n _ | .intercept n _ => n = number
  | .visit n _ rest => n = number ∧ ref ∈ rest
  | _ => False

/-- The mutation has just been applied. -/
def isApplied : LivePhase → Bool
  | .applied _ _ => true
  | _ => false

end LivePhase

namespace LiveNode

variable {hash : String → UInt64} {l l' : LiveNode} {env : LiveEnv} {phase : LivePhase}
  {next : Option LivePhase} {rest : List LivePhase}

/-- What holds between the turns. -/
structure Covered (hash : String → UInt64) (l : LiveNode) (phases : List LivePhase) : Prop where
  /-- Numbers are given in the order of the mutations. -/
  number : ∀ p ∈ phases, ∀ m ∈ p.mutation?, m.1 < l.mutations
  owedNumber : ∀ pair ∈ l.owed, pair.2 < l.mutations
  /-- A stream that is owed a mutation has its key. -/
  inRange : ∀ p ∈ phases, ∀ m ∈ p.mutation?, ∀ ref, (ref, m.1) ∈ l.owed →
    ∃ ranges, l.streaming.ranges? ref = some ranges ∧
      keyInRanges (computeKeyHash hash m.2.tenantID m.2.key) ranges = true
  /-- Only writes are owed. -/
  write : ∀ p ∈ phases, p.isApplied = true → ∀ m ∈ p.mutation?, m.2.operationType ≠ .write →
    ∀ ref, (ref, m.1) ∉ l.owed
  covered : ∀ pair ∈ l.owed, pair ∈ l.handed ∨ ∃ p ∈ phases, p.Carries pair.1 pair.2

theorem Covered.perm {phases phases' : List LivePhase} (h : Covered hash l phases)
    (hperm : phases.Perm phases') : Covered hash l phases' where
  number p hp := h.number p (hperm.mem_iff.mpr hp)
  owedNumber := h.owedNumber
  inRange p hp := h.inRange p (hperm.mem_iff.mpr hp)
  write p hp := h.write p (hperm.mem_iff.mpr hp)
  covered pair hpair := (h.covered pair hpair).imp_right fun ⟨p, hp, hcarries⟩ =>
    ⟨p, hperm.mem_iff.mp hp, hcarries⟩

/-- The condition: no deletion and no repair is owed to a stream, and a write finds the streams that
it is owed to filed, and then in the state `streaming`. -/
def InTime (hash : String → UInt64) (l : LiveNode) : LivePhase → Prop
  | .serve (.store entry) => entry.operationType = .write ∨ l.due hash entry = []
  | .intercept number _ => ∀ pair ∈ l.owed, pair.2 = number → pair.1 ∈ l.registered
  | .visit number _ (ref :: _) => (ref, number) ∈ l.owed →
    ∀ streamCtx ∈ l.streaming.contexts[ref]?, streamCtx.state = .streaming
  | _ => True

/-- A turn that applies no mutation. -/
theorem Covered.turn (h : Covered hash l (phase :: rest)) (howed : l'.owed = l.owed)
    (hmutations : l'.mutations = l.mutations) (hhanded : l.handed ⊆ l'.handed)
    (hkeeps : l.streaming.Keeps l'.streaming)
    (hnext : ∀ p ∈ next, p.isApplied = false ∧ p.mutation? = phase.mutation?)
    (hcarries : ∀ ref number, phase.Carries ref number → (ref, number) ∈ l.owed →
      (ref, number) ∈ l'.handed ∨ ∃ p ∈ next, p.Carries ref number) :
    Covered hash l' (next.toList ++ rest) := by
  -- a mutation that is on its way was on its way before
  have hbefore : ∀ p ∈ next.toList ++ rest, ∀ m ∈ p.mutation?, ∃ q ∈ phase :: rest,
      m ∈ q.mutation? := by
    intro p hp m hm
    rcases List.mem_append.mp hp with hp | hp
    · rw [(hnext p (Option.mem_toList.mp hp)).2] at hm
      exact ⟨phase, List.mem_cons_self, hm⟩
    · exact ⟨p, List.mem_cons_of_mem _ hp, hm⟩
  refine ⟨?_, ?_, ?_, ?_, ?_⟩
  · intro p hp m hm
    obtain ⟨q, hq, hmq⟩ := hbefore p hp m hm
    rw [hmutations]
    exact h.number q hq m hmq
  · rw [howed, hmutations]
    exact h.owedNumber
  · intro p hp m hm ref href
    obtain ⟨q, hq, hmq⟩ := hbefore p hp m hm
    rw [howed] at href
    obtain ⟨ranges, hranges, hkey⟩ := h.inRange q hq m hmq ref href
    exact ⟨ranges, hkeeps ref ranges hranges, hkey⟩
  · intro p hp happlied
    rw [howed]
    rcases List.mem_append.mp hp with hp | hp
    · rw [(hnext p (Option.mem_toList.mp hp)).1] at happlied
      cases happlied
    · exact h.write p (List.mem_cons_of_mem _ hp) happlied
  · intro pair hpair
    rw [howed] at hpair
    rcases h.covered pair hpair with hdone | ⟨p, hp, hpair'⟩
    · exact Or.inl (hhanded hdone)
    · rcases List.mem_cons.mp hp with rfl | hp
      · refine (hcarries pair.1 pair.2 hpair' hpair).imp_right ?_
        rintro ⟨q, hq, hqpair⟩
        exact ⟨q, List.mem_append_left _ (Option.mem_toList.mpr hq), hqpair⟩
      · exact Or.inr ⟨p, List.mem_append_right _ hp, hpair'⟩

/-- A turn of a call that has no mutation on its way. -/
theorem Covered.idle (h : Covered hash l (phase :: rest)) (howed : l'.owed = l.owed)
    (hmutations : l'.mutations = l.mutations) (hhanded : l'.handed = l.handed)
    (hkeeps : l.streaming.Keeps l'.streaming) (hphase : phase.mutation? = none)
    (hnext : ∀ p ∈ next, p.mutation? = none) : Covered hash l' (next.toList ++ rest) := by
  refine h.turn howed hmutations (hhanded ▸ List.Subset.refl _) hkeeps ?_ ?_
  · intro p hp
    refine ⟨?_, by rw [hnext p hp, hphase]⟩
    cases p with
    | applied => cases hnext _ hp
    | _ => rfl
  · intro ref number hcarries
    cases phase with
    | applied | intercept | visit => cases hphase
    | _ => exact hcarries.elim

/-- A stream that is owed the mutation has the key. -/
theorem keyInRanges_of_due {entry : CommitLogEntry} {ref : Nat} (h : ref ∈ l.due hash entry) :
    ∃ ranges, l.streaming.ranges? ref = some ranges ∧
      keyInRanges (computeKeyHash hash entry.tenantID entry.key) ranges = true := by
  obtain ⟨-, hscanned⟩ := List.mem_filter.mp h
  unfold scannedKey at hscanned
  split at hscanned
  · cases hscanned
  · next streamCtx hctx =>
    refine ⟨streamCtx.keyRanges, by rw [StreamingManager.ranges?, hctx, Option.map_some], ?_⟩
    unfold keyInRanges at hscanned ⊢
    rw [List.any_eq_true] at hscanned ⊢
    obtain ⟨r, hr, hkey⟩ := hscanned
    exact ⟨r, List.mem_of_mem_take hr, hkey⟩

/-- A mutation is applied. -/
theorem covered_store {entry : CommitLogEntry} {storage : StorageService}
    (h : Covered hash l (.serve (.store entry) :: rest))
    (hintime : entry.operationType = .write ∨ l.due hash entry = []) :
    Covered hash { l with
        storage
        mutations := l.mutations + 1
        owed := l.owed ++ (l.due hash entry).map fun ref => (ref, l.mutations) }
      (.applied l.mutations entry :: rest) := by
  -- the mutations on their way have smaller numbers
  have hold : ∀ p ∈ rest, ∀ m ∈ p.mutation?, ∀ ref,
      (ref, m.1) ∈ l.owed ++ (l.due hash entry).map (fun ref => (ref, l.mutations)) →
        (ref, m.1) ∈ l.owed := by
    intro p hp m hm ref href
    rcases List.mem_append.mp href with href | href
    · exact href
    · obtain ⟨ref', -, heq⟩ := List.mem_map.mp href
      have hlt := h.number p (List.mem_cons_of_mem _ hp) m hm
      rw [← (Prod.mk.inj heq).2] at hlt
      exact absurd hlt (Nat.lt_irrefl _)
  -- and the new number is owed only what is due now
  have hnew : ∀ ref,
      (ref, l.mutations) ∈ l.owed ++ (l.due hash entry).map (fun ref => (ref, l.mutations)) →
        ref ∈ l.due hash entry := by
    intro ref href
    rcases List.mem_append.mp href with href | href
    · exact absurd (h.owedNumber _ href) (Nat.lt_irrefl _)
    · obtain ⟨ref', hdue, heq⟩ := List.mem_map.mp href
      rw [← (Prod.mk.inj heq).1]
      exact hdue
  refine ⟨?_, ?_, ?_, ?_, ?_⟩
  · intro p hp m hm
    rcases List.mem_cons.mp hp with rfl | hp
    · cases hm
      exact Nat.lt_succ_self _
    · exact Nat.lt_succ_of_lt (h.number p (List.mem_cons_of_mem _ hp) m hm)
  · intro pair hpair
    rcases List.mem_append.mp hpair with hpair | hpair
    · exact Nat.lt_succ_of_lt (h.owedNumber pair hpair)
    · obtain ⟨ref, -, rfl⟩ := List.mem_map.mp hpair
      exact Nat.lt_succ_self _
  · intro p hp m hm ref href
    rcases List.mem_cons.mp hp with rfl | hp
    · cases hm
      exact keyInRanges_of_due (hnew ref href)
    · exact h.inRange p (List.mem_cons_of_mem _ hp) m hm ref (hold p hp m hm ref href)
  · intro p hp happlied m hm hother ref href
    rcases List.mem_cons.mp hp with rfl | hp
    · cases hm
      have hdue := hnew ref href
      rw [hintime.resolve_left hother] at hdue
      cases hdue
    · exact h.write p (List.mem_cons_of_mem _ hp) happlied m hm hother ref
        (hold p hp m hm ref href)
  · intro pair hpair
    rcases List.mem_append.mp hpair with hpair | hpair
    · refine (h.covered pair hpair).imp_right ?_
      rintro ⟨p, hp, hcarries⟩
      rcases List.mem_cons.mp hp with rfl | hp
      · exact hcarries.elim
      · exact ⟨p, List.mem_cons_of_mem _ hp, hcarries⟩
    · obtain ⟨ref, -, rfl⟩ := List.mem_map.mp hpair
      exact Or.inr ⟨_, List.mem_cons_self, rfl⟩

/-- A turn of `ExecuteStreaming` keeps the ranges, and the history of the mutations. -/
theorem execute_spec (l : LiveNode) (ref : Nat) (fails : Bool) :
    (l.execute ref fails).1.owed = l.owed ∧ (l.execute ref fails).1.handed = l.handed ∧
      (l.execute ref fails).1.mutations = l.mutations ∧
      l.streaming.Keeps (l.execute ref fails).1.streaming ∧
      ∀ p ∈ (l.execute ref fails).2, p.mutation? = none := by
  unfold execute
  split
  · exact ⟨rfl, rfl, rfl, fun _ _ h => h, by simp⟩
  · split
    · refine ⟨rfl, rfl, rfl, fun _ _ h => h, ?_⟩
      rintro p ⟨⟩
      rfl
    · split
      · exact ⟨rfl, rfl, rfl, fun _ _ h => h, by simp⟩
      · next streaming hexecute =>
        refine ⟨rfl, rfl, rfl, StreamingManager.keeps_execute hexecute, ?_⟩
        rintro p ⟨⟩
        rfl

/-- A visit of `InterceptWrite`. -/
theorem covered_visit {number ref : Nat} {entry : CommitLogEntry} {refs : List Nat}
    (h : Covered hash l (.visit number entry (ref :: refs) :: rest))
    (hintime : l.InTime hash (.visit number entry (ref :: refs)))
    (ht : l.turn hash env (.visit number entry (ref :: refs)) = some (l', next)) :
    Covered hash l' (next.toList ++ rest) := by
  have hrange : (ref, number) ∈ l.owed → ∃ streamCtx, l.streaming.contexts[ref]? = some streamCtx ∧
      streamCtx.state = .streaming ∧
        keyInRanges (computeKeyHash hash entry.tenantID entry.key) streamCtx.keyRanges = true := by
    intro howed
    obtain ⟨ranges, hranges, hkey⟩ := h.inRange _ List.mem_cons_self (number, entry) rfl ref howed
    obtain ⟨streamCtx, hctx, rfl⟩ := Option.map_eq_some_iff.mp hranges
    exact ⟨streamCtx, hctx, hintime howed streamCtx hctx, hkey⟩
  -- the other streams are still to be visited
  have hothers : ∀ ref' number', (LivePhase.visit number entry (ref :: refs)).Carries ref' number' →
      ref' = ref ∧ number' = number ∨
        ∃ p ∈ some (LivePhase.visit number entry refs), p.Carries ref' number' := by
    rintro ref' number' ⟨hnumber, hmem⟩
    rcases List.mem_cons.mp hmem with rfl | hmem
    · exact Or.inl ⟨rfl, hnumber.symm⟩
    · exact Or.inr ⟨_, rfl, hnumber, hmem⟩
  have hnext : ∀ p ∈ some (LivePhase.visit number entry refs), p.isApplied = false ∧
      p.mutation? = (LivePhase.visit number entry (ref :: refs)).mutation? := by
    rintro p ⟨⟩
    exact ⟨rfl, rfl⟩
  simp only [LiveNode.turn] at ht
  split at ht
  · next hnone =>
    cases ht
    refine h.turn rfl rfl (List.Subset.refl _) (fun _ _ h => h) hnext ?_
    intro ref' number' hcarries howed
    rcases hothers ref' number' hcarries with ⟨rfl, rfl⟩ | hcarries
    · obtain ⟨streamCtx, hctx, -⟩ := hrange howed
      rw [hnone] at hctx
      cases hctx
    · exact Or.inr hcarries
  · next streamCtx hctx =>
    split at ht
    · cases ht
      refine h.turn rfl rfl (List.subset_append_left _ _) (fun _ _ h => h) hnext ?_
      intro ref' number' hcarries howed
      rcases hothers ref' number' hcarries with ⟨rfl, rfl⟩ | hcarries
      · exact Or.inl (List.mem_append_right _ List.mem_cons_self)
      · exact Or.inr hcarries
    · next hnot =>
      cases ht
      refine h.turn rfl rfl (List.Subset.refl _) (fun _ _ h => h) hnext ?_
      intro ref' number' hcarries howed
      rcases hothers ref' number' hcarries with ⟨rfl, rfl⟩ | hcarries
      · obtain ⟨streamCtx', hctx', hstreaming⟩ := hrange howed
        rw [hctx, Option.some.injEq] at hctx'
        subst hctx'
        exact absurd hstreaming hnot
      · exact Or.inr hcarries

theorem covered_turn (h : Covered hash l (phase :: rest)) (hintime : l.InTime hash phase)
    (ht : l.turn hash env phase = some (l', next)) : Covered hash l' (next.toList ++ rest) := by
  cases phase with
  | serve phase =>
    cases phase with
    | store entry =>
      cases ht
      exact covered_store h hintime
    | append | updateCache | askCache | askMemTable | askSSTables | fillCache =>
      simp only [LiveNode.turn] at ht
      obtain ⟨⟨storage, next'⟩, -, heq⟩ := Option.map_eq_some_iff.mp ht
      cases heq
      refine h.idle rfl rfl rfl (fun _ _ h => h) rfl ?_
      intro p hp
      obtain ⟨q, -, rfl⟩ := Option.map_eq_some_iff.mp hp
      rfl
  | applied number entry =>
    simp only [LiveNode.turn] at ht
    obtain ⟨⟨storage, next'⟩, -, heq⟩ := Option.map_eq_some_iff.mp ht
    cases heq
    split
    · refine h.turn rfl rfl (List.Subset.refl _) (fun _ _ h => h) ?_ ?_
      · rintro p ⟨⟩
        exact ⟨rfl, rfl⟩
      · rintro ref number' hcarries -
        exact Or.inr ⟨_, rfl, hcarries⟩
    · next hother =>
      refine h.turn rfl rfl (List.Subset.refl _) (fun _ _ h => h) (by simp) ?_
      rintro ref number' rfl howed
      exact absurd howed (h.write _ List.mem_cons_self rfl _ rfl hother ref)
  | intercept number entry =>
    cases ht
    refine h.turn rfl rfl (List.Subset.refl _) (fun _ _ h => h) ?_ ?_
    · rintro p ⟨⟩
      exact ⟨rfl, rfl⟩
    · rintro ref number' rfl howed
      refine Or.inr ⟨_, rfl, rfl, ?_⟩
      exact ((env.streamsOrder.perm _).map Prod.snd).mem_iff.mpr (hintime _ howed rfl)
  | visit number entry refs =>
    cases refs with
    | nil =>
      cases ht
      refine h.turn rfl rfl (List.Subset.refl _) (fun _ _ h => h) (by simp) ?_
      rintro ref number' ⟨-, hmem⟩
      cases hmem
    | cons ref refs => exact covered_visit h hintime ht
  | start source target ranges =>
    simp only [LiveNode.turn] at ht
    split at ht
    · cases ht
      refine h.idle rfl rfl rfl (StreamingManager.keeps_startStreaming _ _ _) rfl ?_
      intro p hp
      split at hp
      · cases hp
        rfl
      · cases hp
    · cases ht
  | stop target =>
    simp only [LiveNode.turn] at ht
    split at ht
    · cases ht
      exact h.idle rfl rfl rfl (StreamingManager.keeps_stopStreaming _) rfl (by simp)
    · cases ht
  | executeStreaming ref =>
    obtain ⟨howed, hhanded, hmutations, hkeeps, hnext⟩ := l.execute_spec ref env.streamFails
    have heq : l.execute ref env.streamFails = (l', next) := Option.some.inj ht
    rw [heq] at howed hhanded hmutations hkeeps hnext
    exact h.idle howed hmutations hhanded hkeeps rfl hnext

/-! ## Runs -/

/-- The condition on a step. -/
def InTimeTurn (hash : String → UInt64) (s : System) : Turn → Prop
  | .start _ _ _ => True
  | .advance id _ => ∀ phase ∈ s.phase? id, s.state.InTime hash phase

theorem covered_step (s : System) (turn : Turn) (s' : System)
    (h : Covered hash s.state s.phases) (hintime : InTimeTurn hash s turn)
    (hstep : step hash s turn = some s') : Covered hash s'.state s'.phases := by
  cases turn with
  | start id env request =>
    obtain ⟨hstate, hphases⟩ := Concurrent.step_start hstep
    rw [hstate, hphases]
    cases hp : enter env request with
    | none => simpa using h
    | some p =>
      have hmutation : p.mutation? = none := by
        cases request with
        | serve request =>
          obtain ⟨phase, -, rfl⟩ := Option.map_eq_some_iff.mp hp
          rfl
        | startStreaming | stopStreaming =>
          cases hp
          rfl
      -- as if the call had come from a phase without a mutation
      have hidle : Covered hash s.state (.stop "" :: s.phases) := by
        refine ⟨?_, h.owedNumber, ?_, ?_, ?_⟩
        · rintro q hq m hm
          rcases List.mem_cons.mp hq with rfl | hq
          · cases hm
          · exact h.number q hq m hm
        · rintro q hq m hm
          rcases List.mem_cons.mp hq with rfl | hq
          · cases hm
          · exact h.inRange q hq m hm
        · rintro q hq happlied
          rcases List.mem_cons.mp hq with rfl | hq
          · cases happlied
          · exact h.write q hq happlied
        · intro pair hpair
          refine (h.covered pair hpair).imp_right ?_
          rintro ⟨q, hq, hcarries⟩
          exact ⟨q, List.mem_cons_of_mem _ hq, hcarries⟩
      have hnext : ∀ q ∈ some p, q.mutation? = none := by
        rintro q ⟨⟩
        exact hmutation
      exact (hidle.idle rfl rfl rfl (fun _ _ h => h) rfl hnext).perm List.perm_append_comm
  | advance id env =>
    obtain ⟨phase, next, rest, hphase, hturn, hbefore, hafter⟩ :=
      Concurrent.step_advance_perm hstep
    exact (covered_turn (h.perm hbefore) (hintime phase hphase) hturn).perm hafter.symm

/-- In every interleaving of mutations, reads and streams whose turns all meet the condition: a
mutation that is owed to a stream has been handed to it, or its call is still to visit the stream. -/
theorem owed_is_handed {storage : StorageService} {turns : List Turn} {s : System}
    (hintime : AllSteps (step hash) (InTimeTurn hash) (.quiet (init storage)) turns)
    (hr : run (step hash) (.quiet (init storage)) turns = some s) :
    ∀ pair ∈ s.state.owed, pair ∈ s.state.handed ∨ ∃ p ∈ s.phases, p.Carries pair.1 pair.2 := by
  have hinit : Covered hash (init storage) [] :=
    ⟨by simp, by simp [init], by simp, by simp, by simp [init]⟩
  exact (run_invariant (I := fun s : System => Covered hash s.state s.phases) covered_step hinit
    hintime hr).covered

/-! ## Decidable instances -/

instance (hash : String → UInt64) (l : LiveNode) : DecidablePred (l.InTime hash) := by
  intro phase
  unfold InTime
  split <;> infer_instance

instance (hash : String → UInt64) (s : System) : DecidablePred (InTimeTurn hash s) := by
  intro turn
  unfold InTimeTurn
  split <;> infer_instance

end LiveNode

namespace Sample

/-- A point of the ring is the last letter of the key. -/
def lastLetter (s : String) : UInt64 := ((s.toList.getLastD 'a').toNat).toUInt64

def emptyStorage : StorageService :=
  (Node.init (CommitLogService.new ⟨1000, false⟩ ∅ 1 1) 100 1000 "data" ⟨8, 1⟩).service

def steady : LiveEnv := ⟨⟨5, none, .complete, 0, ⟨0, []⟩⟩, .asHeld _, false⟩

/-- A call and its turns. -/
def liveCall (id turns : Nat) (request : LiveRequest) : List LiveNode.Turn :=
  .start id steady request :: List.replicate turns (.advance id steady)

/-- The stream to `n` has every key up to `z`. It goes on for some turns. -/
def streamTo (turns : Nat) : List LiveNode.Turn :=
  liveCall 0 turns (.startStreaming "m" "n" [⟨0, 122⟩])

def writeK : LiveRequest := .serve (.write "t" "k" (some [1]) ⟨[]⟩)

def deleteK : LiveRequest := .serve (.delete "t" "k" ⟨[]⟩)

/-- The write comes when the state is `streaming`. -/
def writtenWhileStreaming : List LiveNode.Turn := streamTo 3 ++ liveCall 1 6 writeK

/-- The range has been scanned, but the state is still `copying`. -/
def writtenWhileCopying : List LiveNode.Turn := streamTo 2 ++ liveCall 1 6 writeK

/-- The stream has completed, and it is still filed. -/
def writtenAfterwards : List LiveNode.Turn := streamTo 5 ++ liveCall 1 6 writeK

def deletedWhileStreaming : List LiveNode.Turn := streamTo 3 ++ liveCall 1 3 deleteK

/-- The stream is owed a mutation that it was not handed, and no call is going to do it. -/
def Slipped (s : LiveNode.System) : Prop :=
  s.state.owed = [(0, 0)] ∧ s.state.handed = [] ∧ ∀ p ∈ s.phases, p.mutation?.isNone = true

instance : DecidablePred Slipped := fun _ => inferInstanceAs (Decidable (_ ∧ _ ∧ _))

end Sample

open Sample in
set_option maxRecDepth 10000 in
theorem owed_is_handed_writtenWhileStreaming :
    ∃ s, run (LiveNode.step lastLetter) (.quiet (LiveNode.init emptyStorage))
        writtenWhileStreaming = some s ∧ (0, 0) ∈ s.state.handed := by
  have hrun : (run (LiveNode.step lastLetter) (.quiet (LiveNode.init emptyStorage))
      writtenWhileStreaming).map (fun s => decide ((0, 0) ∈ s.state.owed ∧
        ∀ p ∈ s.phases, p.mutation?.isNone = true)) = some true := by
    decide +kernel
  have hall : AllSteps (LiveNode.step lastLetter) (LiveNode.InTimeTurn lastLetter)
      (.quiet (LiveNode.init emptyStorage)) writtenWhileStreaming := by
    decide +kernel
  obtain ⟨s, hs, hdec⟩ := Option.map_eq_some_iff.mp hrun
  obtain ⟨howed, hnone⟩ := of_decide_eq_true hdec
  refine ⟨s, hs, (LiveNode.owed_is_handed hall hs (0, 0) howed).resolve_right ?_⟩
  rintro ⟨p, hp, hcarries⟩
  have hp' := hnone p hp
  cases p with
  | applied | intercept | visit => cases hp'
  | _ => exact hcarries

open Sample in
set_option maxRecDepth 10000 in
/-- A write slips through before the state is `streaming`, and after it is not any more; a deletion
slips through in any state. -/
theorem mutations_slip_through :
    (∃ s, run (LiveNode.step lastLetter) (.quiet (LiveNode.init emptyStorage))
      writtenWhileCopying = some s ∧ Slipped s) ∧
    (∃ s, run (LiveNode.step lastLetter) (.quiet (LiveNode.init emptyStorage))
      writtenAfterwards = some s ∧ Slipped s) ∧
    (∃ s, run (LiveNode.step lastLetter) (.quiet (LiveNode.init emptyStorage))
      deletedWhileStreaming = some s ∧ Slipped s) := by
  have hrun : ∀ turns ∈ [writtenWhileCopying, writtenAfterwards, deletedWhileStreaming],
      (run (LiveNode.step lastLetter) (.quiet (LiveNode.init emptyStorage)) turns).map
        (fun s => decide (Slipped s)) = some true := by
    decide +kernel
  have hslips : ∀ turns ∈ [writtenWhileCopying, writtenAfterwards, deletedWhileStreaming],
      ∃ s, run (LiveNode.step lastLetter) (.quiet (LiveNode.init emptyStorage)) turns = some s ∧
        Slipped s := by
    intro turns hturns
    obtain ⟨s, hs, hdec⟩ := Option.map_eq_some_iff.mp (hrun turns hturns)
    exact ⟨s, hs, of_decide_eq_true hdec⟩
  exact ⟨hslips _ (by simp), hslips _ (by simp), hslips _ (by simp)⟩

end PairDB.StorageNode
