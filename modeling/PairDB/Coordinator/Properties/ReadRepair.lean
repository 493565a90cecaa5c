import PairDB.Coordinator.Properties.AnsweredReads
import PairDB.Coordinator.Properties.Conflicts
import PairDB.Coordinator.ReadRepair

/-!
# What a read repair brings up to date

A repair is started only if `DetectConflicts` met two concurrent clocks, so a replica that is only
behind, or that has no value, stays as it is. And the repair writes to a node without host and port.
What saves it is the hint that is stored when this write fails.

`bringsUpToDate_iff` says when every replica that answered is brought up to date: they all have the
same clock already, or there is a conflict, the writes fail, and `Equals` tells the clocks apart in
the same way as `Compare`.
-/

namespace PairDB.Coordinator

open Infra VectorClockOps

/-- The replica answered with a value that has the given clock. -/
def ReadAnswer.Holds (answer : ReadAnswer) (vectorClock : VectorClock) : Prop :=
  answer.hasValue = true ∧ compare answer.clock vectorClock = .identical

instance (answer : ReadAnswer) (vectorClock : VectorClock) :
    Decidable (answer.Holds vectorClock) := inferInstanceAs (Decidable (_ ∧ _))

/-- The call failed, so that a hint is stored. -/
def WriteAnswer.failed : WriteAnswer → Bool
  | .transportError _ => true
  | .response _ _ => false

theorem WriteAnswer.failed_iff {answer : WriteAnswer} :
    answer.failed = true ↔ ∃ err, answer = .transportError err := by
  cases answer <;> simp [failed]

/--
What a repair owes. A replica that answered without the returned clock has been sent the returned
version at its own address, or there is a hint for it. A replica that has the clock is sent nothing.
-/
def BringsUpToDate (replicas : List StorageNode) (tenantID key consistency : String)
    (arrivals : Arrivals ReadAnswer replicas) (answers : Nat → WriteAnswer) : Prop :=
  let result := (readFromReplicasWithRepair replicas key consistency arrivals).result
  let effects := repairOfRead replicas tenantID key consistency arrivals answers
  ∀ p ∈ arrivals.answers, p.2.answered = true →
    (¬ p.2.Holds result.vectorClock →
      ⟨⟨p.1.nodeID, p.1.host, p.1.port⟩, result.value, result.vectorClock⟩ ∈ effects.writes ∨
      ⟨p.1.nodeID, tenantID, key, result.value, result.vectorClock⟩ ∈ effects.hints) ∧
    (p.2.Holds result.vectorClock → ∀ w ∈ effects.writes, w.node.nodeID ≠ p.1.nodeID)

/-- All replicas that answered have the clock of the latest response. -/
def Agreed (answers : List (StorageNode × ReadAnswer)) (latest : StorageResponse) : Prop :=
  ∀ p ∈ answers, p.2.answered = true → p.2.Holds latest.vectorClock

/-- The replicas that do not have the clock are those whose clock is not `Equals`, and the write to
each of them fails, unless it has neither host nor port. -/
def Reached (answers : List (StorageNode × ReadAnswer)) (latest : StorageResponse)
    (repairs : Nat → WriteAnswer) : Prop :=
  ∀ p ∈ answers.zipIdx, p.1.2.answered = true →
    (p.1.2.Holds latest.vectorClock ↔ p.1.2.clock.equals latest.vectorClock = true) ∧
    (p.1.2.Holds latest.vectorClock ∨ (repairs p.2).failed = true ∨
      p.1.1.host = "" ∧ p.1.1.port = 0)

/-- What `DetectConflicts` says about the responses, and what becomes of the repair. -/
def Repairable (answers : List (StorageNode × ReadAnswer)) (repairs : Nat → WriteAnswer) : Prop :=
  match detectConflicts (answers.map collectRead) with
  | (none, _) => True
  | (some latest, hasConflict) =>
    Agreed answers latest ∨ hasConflict = true ∧ Reached answers latest repairs

instance (answers : List (StorageNode × ReadAnswer)) (latest : StorageResponse) :
    Decidable (Agreed answers latest) := inferInstanceAs (Decidable (∀ _ ∈ _, _ → _))

instance (answers : List (StorageNode × ReadAnswer)) (latest : StorageResponse)
    (repairs : Nat → WriteAnswer) : Decidable (Reached answers latest repairs) :=
  inferInstanceAs (Decidable (∀ _ ∈ _, _ → _))

instance (answers : List (StorageNode × ReadAnswer)) (repairs : Nat → WriteAnswer) :
    Decidable (Repairable answers repairs) := by
  unfold Repairable
  split <;> infer_instance

/-! ## One clock -/

/-- Where all clocks are the same, there is no conflict. -/
theorem not_conflict_of_agreed {answers : List (StorageNode × ReadAnswer)}
    {latest : StorageResponse} (h : Agreed answers latest) :
    (detectConflicts (answers.map collectRead)).2 = false := by
  rw [Bool.eq_false_iff]
  intro hconflict
  obtain ⟨r, hr, r', hr', hc, hc', hconcurrent⟩ := exists_concurrent_of_conflict hconflict
  have hclock : ∀ r ∈ answers.map collectRead, r.counts = true →
      r.vectorClock.timestamp = latest.vectorClock.timestamp := by
    intro r hr hc
    obtain ⟨p, hp, rfl⟩ := List.mem_map.mp hr
    obtain ⟨-, hcounts, hcl, -, -⟩ := collectRead_spec p
    rw [hcounts] at hc
    rw [hcl]
    exact compare_eq_identical_iff.mp (h p hp (ReadAnswer.answered_of_hasValue hc)).2
  rw [compare_eq_concurrent_iff, hclock r hr hc, hclock r' hr' hc'] at hconcurrent
  exact hconcurrent.1 le_rfl

/-! ## The responses of different replicas -/

section

variable {replicas : List StorageNode} {tenantID key consistency : String}
  {arrivals : Arrivals ReadAnswer replicas} {repairs : Nat → WriteAnswer}

/-- The position of an answer is determined by the id of its replica. -/
theorem index_eq_of_nodeID_eq (hnd : (replicas.map StorageNode.nodeID).Nodup) {i j : Nat}
    {p q : StorageNode × ReadAnswer} (hp : arrivals.answers[i]? = some p)
    (hq : arrivals.answers[j]? = some q) (hid : p.1.nodeID = q.1.nodeID) : i = j := by
  have hids : (arrivals.answers.map fun p => p.1.nodeID).Nodup := by
    have hperm := arrivals.perm.map StorageNode.nodeID
    rw [List.map_map] at hperm
    exact hperm.nodup_iff.mpr hnd
  have hi := congrArg (Option.map fun p : StorageNode × ReadAnswer => p.1.nodeID) hp
  have hj := congrArg (Option.map fun p : StorageNode × ReadAnswer => p.1.nodeID) hq
  rw [← List.getElem?_map] at hi hj
  rw [Option.map_some] at hi hj
  obtain ⟨hlt, -⟩ := List.getElem?_eq_some_iff.mp hi
  exact (List.getElem?_inj hlt hids).mp (hi.trans (by rw [hid, hj]))

/-- A write for the id of a replica is for its response, and goes to no host and no port. -/
theorem mem_writes_of_nodeID (hnd : (replicas.map StorageNode.nodeID).Nodup)
    {latest : StorageResponse} {i : Nat} {p : StorageNode × ReadAnswer}
    (hp : arrivals.answers[i]? = some p) :
    (∃ w ∈ (performReadRepair tenantID key latest (arrivals.answers.map collectRead)
      repairs).writes, w.node.nodeID = p.1.nodeID) ↔
      p.2.clock.equals latest.vectorClock = false := by
  constructor
  · rintro ⟨w, hw, hid⟩
    obtain ⟨resp, hresp, hne, rfl⟩ := mem_writes_performReadRepair.mp hw
    obtain ⟨q, hq, rfl⟩ := List.mem_map.mp hresp
    obtain ⟨hqid, -, hqclock, -, -⟩ := collectRead_spec q
    obtain ⟨j, hj⟩ := List.mem_iff_getElem?.mp hq
    have hji := index_eq_of_nodeID_eq hnd hj hp (hqid.symm.trans hid)
    rw [hji, hp] at hj
    cases hj
    rwa [← hqclock]
  · intro hne
    obtain ⟨hid, -, hclock, -, -⟩ := collectRead_spec p
    refine ⟨_, mem_writes_performReadRepair.mpr ⟨collectRead p,
      List.mem_map_of_mem (List.mem_of_getElem? hp), ?_, rfl⟩, hid⟩
    rwa [hclock]

theorem mem_hints_of_nodeID (hnd : (replicas.map StorageNode.nodeID).Nodup)
    {latest : StorageResponse} {i : Nat} {p : StorageNode × ReadAnswer}
    (hp : arrivals.answers[i]? = some p) :
    (⟨p.1.nodeID, tenantID, key, latest.value, latest.vectorClock⟩ : HintArgs) ∈
      (performReadRepair tenantID key latest (arrivals.answers.map collectRead) repairs).hints ↔
      p.2.clock.equals latest.vectorClock = false ∧ (repairs i).failed = true := by
  rw [mem_hints_performReadRepair, WriteAnswer.failed_iff]
  constructor
  · rintro ⟨j, resp, hresp, hne, hfailed, heq⟩
    rw [List.getElem?_map, Option.map_eq_some_iff] at hresp
    obtain ⟨q, hq, rfl⟩ := hresp
    obtain ⟨hqid, -, hqclock, -, -⟩ := collectRead_spec q
    have hid : p.1.nodeID = q.1.nodeID := (congrArg HintArgs.nodeID heq).trans hqid
    have hij := index_eq_of_nodeID_eq hnd hp hq hid
    subst hij
    rw [hp] at hq
    cases hq
    exact ⟨hqclock ▸ hne, hfailed⟩
  · rintro ⟨hne, hfailed⟩
    obtain ⟨hid, -, hclock, -, -⟩ := collectRead_spec p
    refine ⟨i, collectRead p, ?_, hclock.symm ▸ hne, hfailed, by rw [hid]⟩
    rw [List.getElem?_map, hp]
    rfl

/-- A read that succeeds has enough values, and a latest response. -/
theorem exists_latest_of_ok
    (hok : (readFromReplicasWithRepair replicas key consistency arrivals).err = none) :
    ∃ latest hasConflict, detectConflicts (arrivals.answers.map collectRead) =
        (some latest, hasConflict) ∧
      (readFromReplicasWithRepair replicas key consistency arrivals).result.value = latest.value ∧
      (readFromReplicasWithRepair replicas key consistency arrivals).result.vectorClock =
        latest.vectorClock ∧
      (readFromReplicasWithRepair replicas key consistency arrivals).repair =
        if hasConflict then some latest else none := by
  have henough : ConsistencyService.getRequiredReplicas consistency replicas.length ≤
      arrivals.answers.countP fun p => p.2.hasValue := by
    by_contra hfew
    rw [read_of_lt (not_le.mp hfew)] at hok
    cases hok
  rw [read_of_le henough] at hok ⊢
  rcases hdetect : detectConflicts (arrivals.answers.map collectRead) with ⟨latest | latest, conflict⟩
  · rw [hdetect] at hok
    cases hok
  · exact ⟨latest, conflict, rfl, rfl, rfl, rfl⟩

/-- With a conflict, a repair owes to each replica what `Reached` says. -/
theorem bringsUpToDate_of_conflict (hnd : (replicas.map StorageNode.nodeID).Nodup)
    {latest : StorageResponse} :
    (∀ p ∈ arrivals.answers, p.2.answered = true →
      (¬ p.2.Holds latest.vectorClock →
        ⟨⟨p.1.nodeID, p.1.host, p.1.port⟩, latest.value, latest.vectorClock⟩ ∈
          (performReadRepair tenantID key latest (arrivals.answers.map collectRead)
            repairs).writes ∨
        ⟨p.1.nodeID, tenantID, key, latest.value, latest.vectorClock⟩ ∈
          (performReadRepair tenantID key latest (arrivals.answers.map collectRead)
            repairs).hints) ∧
      (p.2.Holds latest.vectorClock → ∀ w ∈ (performReadRepair tenantID key latest
        (arrivals.answers.map collectRead) repairs).writes, w.node.nodeID ≠ p.1.nodeID)) ↔
      Reached arrivals.answers latest repairs := by
  constructor
  · rintro h ⟨p, i⟩ hp hanswered
    have hget := List.mem_zipIdx_iff_getElem?.mp hp
    obtain ⟨hsend, hnone⟩ := h p (List.mem_of_getElem? hget) hanswered
    by_cases hholds : p.2.Holds latest.vectorClock
    · refine ⟨iff_of_true hholds ?_, Or.inl hholds⟩
      by_contra hne
      have hsent : ∃ w ∈ (performReadRepair tenantID key latest
          (arrivals.answers.map collectRead) repairs).writes, w.node.nodeID = p.1.nodeID :=
        (mem_writes_of_nodeID hnd hget).mpr (Bool.not_eq_true _ ▸ hne)
      obtain ⟨w, hw, hid⟩ := hsent
      exact hnone hholds w hw hid
    · rcases hsend hholds with hw | hh
      · have hne := (mem_writes_of_nodeID hnd hget).mp ⟨_, hw, rfl⟩
        obtain ⟨resp, -, -, heq⟩ := mem_writes_performReadRepair.mp hw
        simp only [RepairWrite.mk.injEq, RepairNode.mk.injEq] at heq
        exact ⟨iff_of_false hholds (by simp [hne]), Or.inr (Or.inr ⟨heq.1.2.1, heq.1.2.2⟩)⟩
      · obtain ⟨hne, hfailed⟩ := (mem_hints_of_nodeID hnd hget).mp hh
        exact ⟨iff_of_false hholds (by simp [hne]), Or.inr (Or.inl hfailed)⟩
  · intro h p hp hanswered
    obtain ⟨i, hget⟩ := List.mem_iff_getElem?.mp hp
    obtain ⟨hequals, hreached⟩ := h (p, i) (List.mem_zipIdx_iff_getElem?.mpr hget) hanswered
    refine ⟨fun hnot => ?_, fun hholds w hw hid => ?_⟩
    · have hne : p.2.clock.equals latest.vectorClock = false := by
        rw [← Bool.not_eq_true, ← hequals]
        exact hnot
      rcases hreached with hholds | hfailed | ⟨hhost, hport⟩
      · exact absurd hholds hnot
      · exact Or.inr ((mem_hints_of_nodeID hnd hget).mpr ⟨hne, hfailed⟩)
      · obtain ⟨hid, -, hclock, -, -⟩ := collectRead_spec p
        refine Or.inl (mem_writes_performReadRepair.mpr
          ⟨collectRead p, List.mem_map_of_mem hp, hclock.symm ▸ hne, ?_⟩)
        rw [hid, hhost, hport]
    · have hne := (mem_writes_of_nodeID hnd hget).mp ⟨w, hw, hid⟩
      rw [hequals.mp hholds] at hne
      cases hne

/--
**When a repair brings every replica up to date.** A read with different replicas succeeds. Its
repair does what it owes if and only if all replicas that answered have the same clock, or there is
a conflict and the replicas without the clock are the ones whose writes are sent, and fail.
-/
theorem bringsUpToDate_iff (hnd : (replicas.map StorageNode.nodeID).Nodup)
    (hok : (readFromReplicasWithRepair replicas key consistency arrivals).err = none) :
    BringsUpToDate replicas tenantID key consistency arrivals repairs ↔
      Repairable arrivals.answers repairs := by
  obtain ⟨latest, hasConflict, hdetect, hvalue, hclock, hrepair⟩ := exists_latest_of_ok hok
  unfold BringsUpToDate repairOfRead Repairable
  dsimp only
  rw [hrepair, hvalue, hclock, hdetect]
  cases hasConflict with
  | false =>
    simp only [Bool.false_eq_true, if_false, false_and, or_false]
    refine forall_congr' fun p => forall_congr' fun _ => forall_congr' fun _ => ?_
    simp
  | true =>
    have hnot : ¬ Agreed arrivals.answers latest := by
      intro hagreed
      have hfalse := not_conflict_of_agreed hagreed
      rw [hdetect] at hfalse
      cases hfalse
    simp only [if_true, true_and, hnot, false_or]
    exact bringsUpToDate_of_conflict hnd

end

/-! ## Instances -/

/-- Two replicas have concurrent versions, and the third one does not answer. -/
def concurrentPair : Arrivals ReadAnswer threeNodes where
  answers := [(plainNode "1", .response true [1] ⟨[⟨"a", 1⟩]⟩),
    (plainNode "2", .response true [2] ⟨[⟨"b", 1⟩]⟩), (plainNode "3", .transportError "unavailable")]
  perm := by decide

theorem bringsUpToDate_concurrentPair :
    BringsUpToDate threeNodes "t" "k" "quorum" concurrentPair
      (fun _ => .transportError "failed to connect to :0") :=
  (bringsUpToDate_iff (by decide) (by decide)).mpr (by decide)

/-- All three replicas answer, and the third one is behind. -/
def thirdBehind : Arrivals ReadAnswer threeNodes where
  answers := [(plainNode "1", .response true [2] ⟨[⟨"a", 2⟩]⟩),
    (plainNode "2", .response true [2] ⟨[⟨"a", 2⟩]⟩), (plainNode "3", .response true [1] ⟨[⟨"a", 1⟩]⟩)]
  perm := by decide

/-- The replica that is behind is neither sent anything nor is there a hint for it. Where there is a
conflict, the write goes to a node without host and port. -/
theorem thirdBehind_not_repaired :
    ((readFromReplicasWithRepair threeNodes "k" "quorum" thirdBehind).err = none ∧
      ∀ answers, repairOfRead threeNodes "t" "k" "quorum" thirdBehind answers = ⟨[], []⟩ ∧
        ¬ BringsUpToDate threeNodes "t" "k" "quorum" thirdBehind answers) ∧
      ∀ answers, (repairOfRead threeNodes "t" "k" "quorum" concurrentPair answers).writes.map
        RepairWrite.node = [⟨"n2", "", 0⟩, ⟨"n3", "", 0⟩] := by
  have heffects : ∀ answers,
      repairOfRead threeNodes "t" "k" "quorum" thirdBehind answers = ⟨[], []⟩ := fun _ => rfl
  refine ⟨⟨by decide, fun answers => ⟨heffects answers, fun h => ?_⟩⟩, fun answers => rfl⟩
  have hthird := (h (plainNode "3", .response true [1] ⟨[⟨"a", 1⟩]⟩) (by decide) rfl).1 (by decide)
  rw [heffects] at hthird
  rcases hthird with hw | hh
  · cases hw
  · cases hh

end PairDB.Coordinator
