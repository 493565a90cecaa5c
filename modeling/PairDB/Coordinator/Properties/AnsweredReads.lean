import PairDB.Coordinator.Properties.QuorumRead

/-!
# When a read answers

`readFromReplicasWithRepair` counts the replicas that returned a value, not those that answered. A
replica that does not have the key answers, but it counts like one that failed. So a read can fail
for want of a quorum although enough replicas answered, and this is the only way in which it can
(`answersReads_iff`).

The value that a read returns is never behind another one: `DetectConflicts` ends on a response that
no other response is After.
-/

namespace PairDB.Coordinator

open Infra VectorClockOps

/-! ## Answers -/

namespace ReadAnswer

/-- The replica answered, with or without a value. -/
def answered : ReadAnswer → Bool
  | .transportError _ => false
  | .response _ _ _ => true

/-- The replica returned a value. -/
def hasValue : ReadAnswer → Bool
  | .transportError _ => false
  | .response success value _ => success && value.length > 0

/-- The clock of the answer. -/
def clock : ReadAnswer → VectorClock
  | .transportError _ => VectorClock.empty
  | .response _ _ vectorClock => vectorClock

/-- The value of the answer. -/
def value : ReadAnswer → List UInt8
  | .transportError _ => []
  | .response _ value _ => value

theorem answered_of_hasValue {a : ReadAnswer} (h : a.hasValue = true) : a.answered = true := by
  cases a with
  | transportError err => cases h
  | response success value clock => rfl

end ReadAnswer

/-- What is recorded for an answer. -/
theorem collectRead_spec (p : StorageNode × ReadAnswer) :
    (collectRead p).nodeID = p.1.nodeID ∧ (collectRead p).counts = p.2.hasValue ∧
      (collectRead p).vectorClock = p.2.clock ∧ (collectRead p).value = p.2.value ∧
      (collectRead p).timestamp = 0 := by
  obtain ⟨node, answer⟩ := p
  cases answer with
  | transportError err => exact ⟨rfl, rfl, rfl, rfl, rfl⟩
  | response success value clock =>
    refine ⟨rfl, ?_, rfl, rfl, rfl⟩
    simp only [StorageResponse.counts, collectRead, StorageClient.read, ReadAnswer.hasValue]
    cases success <;> simp

/-! ## The response that is kept -/

/-- A response with a value that no other one is After. -/
structure Maximal (responses : List StorageResponse) (latest : StorageResponse) : Prop where
  mem : latest ∈ responses
  counts : latest.counts = true
  maximal : ∀ resp ∈ responses, resp.counts = true →
    compare resp.vectorClock latest.vectorClock ≠ .after

/-- With equal timestamps only a response that is After replaces the latest one. -/
theorem detectFound_latest {latest resp : StorageResponse} {conflict : Bool}
    (htime : resp.timestamp = latest.timestamp) :
    (detectFound (some latest, conflict) resp).1 =
      if compare resp.vectorClock latest.vectorClock = .after then some resp else some latest := by
  unfold detectFound
  cases h : compare resp.vectorClock latest.vectorClock with
  | after => simp [h]
  | concurrent => simp [h, htime]
  | before => simp [h]
  | identical => simp [h]

/-- What the loop holds after the responses so far. -/
def Held (seen : List StorageResponse) (latest : Option StorageResponse) : Prop :=
  match latest with
  | none => ∀ resp ∈ seen, resp.counts = false
  | some latest => Maximal seen latest

theorem held_detectStep {seen : List StorageResponse} {acc : Option StorageResponse × Bool}
    {resp : StorageResponse} {time : Int} (hseen : ∀ r ∈ seen, r.timestamp = time)
    (htime : resp.timestamp = time) (h : Held seen acc.1) :
    Held (seen ++ [resp]) (detectStep acc resp).1 := by
  obtain ⟨latest, conflict⟩ := acc
  cases hc : resp.counts with
  | false =>
    rw [detectStep_of_not_counts hc]
    cases latest with
    | none =>
      intro r hr
      rcases List.mem_append.mp hr with hr | hr
      · exact h r hr
      · rwa [List.mem_singleton.mp hr]
    | some latest =>
      refine ⟨List.mem_append_left _ h.mem, h.counts, fun r hr hcounts => ?_⟩
      rcases List.mem_append.mp hr with hr | hr
      · exact h.maximal r hr hcounts
      · rw [List.mem_singleton.mp hr, hc] at hcounts
        cases hcounts
  | true =>
    rw [detectStep_of_counts hc]
    cases latest with
    | none =>
      refine ⟨List.mem_append_right _ (List.mem_singleton_self resp), hc, fun r hr hcounts => ?_⟩
      rcases List.mem_append.mp hr with hr | hr
      · rw [h r hr] at hcounts
        cases hcounts
      · rw [List.mem_singleton.mp hr, compare_eq_identical_iff.mpr rfl]
        decide
    | some latest =>
      rw [detectFound_latest (htime.trans (hseen latest h.mem).symm)]
      split
      · next hafter =>
        refine ⟨List.mem_append_right _ (List.mem_singleton_self resp), hc, fun r hr hcounts => ?_⟩
        rcases List.mem_append.mp hr with hr | hr
        · -- what was not After the old one cannot be After the new one
          intro hr'
          refine h.maximal r hr hcounts ?_
          rw [compare_eq_after_iff] at hafter hr' ⊢
          exact hafter.trans hr'
        · rw [List.mem_singleton.mp hr, compare_eq_identical_iff.mpr rfl]
          decide
      · next hafter =>
        refine ⟨List.mem_append_left _ h.mem, h.counts, fun r hr hcounts => ?_⟩
        rcases List.mem_append.mp hr with hr | hr
        · exact h.maximal r hr hcounts
        · rwa [List.mem_singleton.mp hr]

theorem held_foldl_detectStep {responses seen : List StorageResponse}
    {acc : Option StorageResponse × Bool} {time : Int}
    (htime : ∀ r ∈ seen ++ responses, r.timestamp = time) (h : Held seen acc.1) : Held (seen ++ responses) (responses.foldl detectStep acc).1 := by
  induction responses generalizing seen acc with
  | nil => rwa [List.append_nil]
  | cons resp responses ih =>
    have hstep := held_detectStep (fun r hr => htime r (by simp [hr])) (htime resp (by simp)) h
    have hrest := ih (by simpa using htime) hstep
    rwa [List.append_assoc, List.singleton_append] at hrest

/-- **`DetectConflicts` finds a maximal response, unless no response has a value.** -/
theorem held_detectConflicts {responses : List StorageResponse} {time : Int}
    (htime : ∀ r ∈ responses, r.timestamp = time) :
    Held responses (detectConflicts responses).1 := by
  have hheld := @held_foldl_detectStep responses [] (none, false) time htime
    (fun r hr => absurd hr (by simp))
  rw [List.nil_append] at hheld
  unfold detectConflicts
  dsimp only
  split
  · next hnone => rwa [Option.isNone_iff_eq_none.mp hnone] at hheld
  · exact hheld

theorem timestamp_collectRead (answers : List (StorageNode × ReadAnswer)) :
    ∀ r ∈ answers.map collectRead, r.timestamp = 0 := by
  intro r hr
  obtain ⟨p, -, rfl⟩ := List.mem_map.mp hr
  exact (collectRead_spec p).2.2.2.2

/-! ## The two outcomes of a read -/

variable {replicas : List StorageNode} {key consistency : String}
  {arrivals : Arrivals ReadAnswer replicas}

theorem countP_counts_collectRead (answers : List (StorageNode × ReadAnswer)) :
    ((answers.map collectRead).countP fun resp => resp.success && resp.found) =
      answers.countP fun p => p.2.hasValue := by
  rw [List.countP_map]
  exact List.countP_congr fun p _ => by
    rw [Function.comp_apply]
    exact Bool.eq_iff_iff.mp (collectRead_spec p).2.1

/-- Too few values: the read fails. -/
theorem read_of_lt (h : (arrivals.answers.countP fun p => p.2.hasValue) <
    ConsistencyService.getRequiredReplicas consistency replicas.length) :
    (readFromReplicasWithRepair replicas key consistency arrivals).err =
      some (quorumNotReached (arrivals.answers.countP fun p => p.2.hasValue)
        (ConsistencyService.getRequiredReplicas consistency replicas.length)) := by
  rw [readFromReplicasWithRepair, countP_counts_collectRead, if_pos]
  rw [Bool.not_eq_true', ← Bool.not_eq_true, ConsistencyService.isQuorumReached_iff]
  exact not_le.mpr h

/-- Enough values: the read returns what `DetectConflicts` keeps. -/
theorem read_of_le (h : ConsistencyService.getRequiredReplicas consistency replicas.length ≤
    arrivals.answers.countP fun p => p.2.hasValue) :
    readFromReplicasWithRepair replicas key consistency arrivals =
      match detectConflicts (arrivals.answers.map collectRead) with
      | (none, _) =>
        { result := { success := false, key, value := [], vectorClock := VectorClock.empty,
                      errorMessage := "key not found" }
          err := some "key not found"
          repair := none }
      | (some latest, hasConflict) =>
        { result := { success := true, key, value := latest.value,
                      vectorClock := latest.vectorClock, errorMessage := "" }
          err := none
          repair := if hasConflict then some latest else none } := by
  have hreached : ¬ (!ConsistencyService.isQuorumReached
      (arrivals.answers.countP fun p => p.2.hasValue) replicas.length consistency) = true := by
    rw [Bool.not_eq_true', Bool.not_eq_false, ConsistencyService.isQuorumReached_iff]
    exact h
  rw [readFromReplicasWithRepair, countP_counts_collectRead]
  exact if_neg hreached

theorem head?_quorumNotReached (successCount requiredReplicas : Nat) :
    (quorumNotReached successCount requiredReplicas).toList.head? = some 'q' := by
  have hq : ∀ l : List Char, ("quorum not reached: ".toList ++ l).head? = some 'q' := by
    intro l
    rw [List.head?_append, show "quorum not reached: ".toList.head? = some 'q' by decide]
    exact Option.some_or
  have hchars : (quorumNotReached successCount requiredReplicas).toList =
      "quorum not reached: ".toList ++ ((toString successCount).toList ++
        ("/".toList ++ (toString requiredReplicas).toList)) := by
    unfold quorumNotReached
    rw [String.toList_append, String.toList_append, String.toList_append, List.append_assoc,
      List.append_assoc]
  exact (congrArg List.head? hchars).trans (hq _)

theorem keyNotFound_ne_quorumNotReached (successCount requiredReplicas : Nat) :
    "key not found" ≠ quorumNotReached successCount requiredReplicas := by
  intro h
  have hk : "key not found".toList.head? = some 'k' := by decide
  have hq := head?_quorumNotReached successCount requiredReplicas
  rw [← h] at hq
  exact absurd (hk.symm.trans hq) (by decide)

/--
What a read owes to its answers. If enough replicas answered and one of them with a value, it
succeeds with the value of one of them, whose clock no other value's clock is After. It fails for
want of a quorum only if too few replicas answered.
-/
def AnswersReads (replicas : List StorageNode) (key consistency : String)
    (arrivals : Arrivals ReadAnswer replicas) : Prop :=
  let required := ConsistencyService.getRequiredReplicas consistency replicas.length
  let ret := readFromReplicasWithRepair replicas key consistency arrivals
  (required ≤ (arrivals.answers.countP fun p => p.2.answered) →
    (∃ p ∈ arrivals.answers, p.2.hasValue = true) →
    ret.err = none ∧ ret.result.success = true ∧
      ∃ p ∈ arrivals.answers, p.2.hasValue = true ∧ ret.result.value = p.2.value ∧
        ret.result.vectorClock = p.2.clock ∧
        ∀ q ∈ arrivals.answers, q.2.hasValue = true →
          compare q.2.clock ret.result.vectorClock ≠ .after) ∧
  ((∃ successCount requiredReplicas,
      ret.err = some (quorumNotReached successCount requiredReplicas)) →
    (arrivals.answers.countP fun p => p.2.answered) < required)

/-- A read with enough values returns a maximal one. -/
theorem read_maximal (h : ConsistencyService.getRequiredReplicas consistency replicas.length ≤
      arrivals.answers.countP fun p => p.2.hasValue)
    (hvalue : ∃ p ∈ arrivals.answers, p.2.hasValue = true) :
    (readFromReplicasWithRepair replicas key consistency arrivals).err = none ∧
      (readFromReplicasWithRepair replicas key consistency arrivals).result.success = true ∧
      ∃ p ∈ arrivals.answers, p.2.hasValue = true ∧
        (readFromReplicasWithRepair replicas key consistency arrivals).result.value = p.2.value ∧
        (readFromReplicasWithRepair replicas key consistency arrivals).result.vectorClock =
          p.2.clock ∧
        ∀ q ∈ arrivals.answers, q.2.hasValue = true → compare q.2.clock
          (readFromReplicasWithRepair replicas key consistency arrivals).result.vectorClock ≠
            .after := by
  have hheld := held_detectConflicts (timestamp_collectRead arrivals.answers)
  rw [read_of_le h]
  rcases hdetect : detectConflicts (arrivals.answers.map collectRead) with ⟨latest | _, conflict⟩
  · obtain ⟨p, hp, hhas⟩ := hvalue
    rw [hdetect] at hheld
    have hnot := hheld (collectRead p) (List.mem_map_of_mem hp)
    rw [(collectRead_spec p).2.1, hhas] at hnot
    cases hnot
  · next latest =>
    rw [hdetect] at hheld
    obtain ⟨hmem, hcounts, hmax⟩ := hheld
    obtain ⟨p, hp, rfl⟩ := List.mem_map.mp hmem
    obtain ⟨-, hhas, hclock, hval, -⟩ := collectRead_spec p
    refine ⟨rfl, rfl, p, hp, hhas ▸ hcounts, hval, hclock, fun q hq hqhas => ?_⟩
    obtain ⟨-, hqcounts, hqclock, -, -⟩ := collectRead_spec q
    rw [← hqclock]
    exact hmax _ (List.mem_map_of_mem hq) (hqcounts.trans hqhas)

/--
**When a read answers.** A read does what it owes exactly if, whenever enough replicas answer, enough
of them have a value.
-/
theorem answersReads_iff (replicas : List StorageNode) (key consistency : String)
    (arrivals : Arrivals ReadAnswer replicas) :
    AnswersReads replicas key consistency arrivals ↔
      (ConsistencyService.getRequiredReplicas consistency replicas.length ≤
          (arrivals.answers.countP fun p => p.2.answered) →
        ConsistencyService.getRequiredReplicas consistency replicas.length ≤
          arrivals.answers.countP fun p => p.2.hasValue) := by
  constructor
  · rintro ⟨-, hfails⟩ hanswered
    by_contra hfew
    exact absurd hanswered (not_le.mpr (hfails ⟨_, _, read_of_lt (not_le.mp hfew)⟩))
  · intro h
    refine ⟨fun hanswered hvalue => read_maximal (h hanswered) hvalue, ?_⟩
    rintro ⟨successCount, requiredReplicas, herr⟩
    by_contra hanswered
    rw [read_of_le (h (not_lt.mp hanswered))] at herr
    rcases hdetect : detectConflicts (arrivals.answers.map collectRead) with ⟨latest | _, conflict⟩
    · rw [hdetect] at herr
      exact keyNotFound_ne_quorumNotReached _ _ (Option.some.inj herr)
    · rw [hdetect] at herr
      cases herr

/-- One of three replicas has the value and the other two do not have the key. -/
def oneOfThree : Arrivals ReadAnswer threeNodes where
  answers := [(plainNode "1", .response true [1] ⟨[⟨"a", 1⟩]⟩),
    (plainNode "2", .response false [] VectorClock.empty),
    (plainNode "3", .response false [] VectorClock.empty)]
  perm := by decide

/-- All three replicas answer, and the read fails for want of a quorum. -/
theorem oneOfThree_not_answered :
    (readFromReplicasWithRepair threeNodes "k" "quorum" oneOfThree).err =
        some "quorum not reached: 1/2" ∧
      (oneOfThree.answers.countP fun p => p.2.answered) = 3 ∧
      ConsistencyService.getRequiredReplicas "quorum" threeNodes.length = 2 ∧
      ¬ AnswersReads threeNodes "k" "quorum" oneOfThree := by
  have herr : (readFromReplicasWithRepair threeNodes "k" "quorum" oneOfThree).err =
      some "quorum not reached: 1/2" := by decide
  refine ⟨herr, by decide, by decide, ?_⟩
  rintro ⟨-, hfails⟩
  exact absurd (hfails ⟨1, 2, herr⟩) (by decide)

end PairDB.Coordinator
