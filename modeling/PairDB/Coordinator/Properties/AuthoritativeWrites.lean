import PairDB.Coordinator.CoordinatorService

/-!
# Which replicas an acknowledgement counts

A write is sent to all nodes of the write set, also to those that are bootstrapping or leaving. It
should be acknowledged by the `NORMAL` ones: by a majority of them at level `quorum`, by each of them
at level `all`. `GetRequiredReplicasForWriteSet` computes these numbers, but they only go into the
log and into the text of the error. The decision is made by `IsQuorumReached` with the number of all
successes and the size of the write set.

`acknowledged_iff_authoritative` says for which write sets the two agree, whatever nodes answer.
-/

namespace PairDB.Coordinator

/-- The decision of `writeToReplicasWithHints`. -/
theorem success_iff {replicas : List StorageNode} {tenantID key : String} {value : List UInt8}
    {vectorClock : VectorClock} {consistency : String} {arrivals : Arrivals WriteAnswer replicas} :
    (writeToReplicasWithHints replicas tenantID key value vectorClock consistency
      arrivals).result.success = true ↔
      ConsistencyService.getRequiredReplicas consistency replicas.length ≤
        arrivals.answers.countP fun p => p.2.succeeded := by
  rw [writeToReplicasWithHints, ← ConsistencyService.isQuorumReached_iff, ← countP_collectWrite]
  split <;> simp_all

/-- The number of authoritative nodes. -/
def authoritative (replicas : List StorageNode) : Nat :=
  replicas.countP fun node => node.state = .normal

/-- The number of successes of authoritative nodes. -/
def authoritativeSuccesses (answers : List (StorageNode × WriteAnswer)) : Nat :=
  answers.countP fun p => p.1.state = .normal && p.2.succeeded

/-- The number of successes of other nodes. -/
def otherSuccesses (answers : List (StorageNode × WriteAnswer)) : Nat :=
  answers.countP fun p => !decide (p.1.state = .normal) && p.2.succeeded

theorem countP_succeeded (answers : List (StorageNode × WriteAnswer)) :
    answers.countP (fun p => p.2.succeeded) =
      authoritativeSuccesses answers + otherSuccesses answers := by
  induction answers with
  | nil => rfl
  | cons p answers ih =>
    simp only [authoritativeSuccesses, otherSuccesses, List.countP_cons] at ih ⊢
    by_cases hstate : p.1.state = .normal <;> cases p.2.succeeded <;> simp [hstate] <;> omega

/-! ## Write sets in which some nodes are not authoritative -/

/-- Answers in which the first `k` authoritative nodes succeed, and the other nodes as `others`
says. -/
def answering (others : Bool) : (k : Nat) → List StorageNode → List (StorageNode × WriteAnswer)
  | _, [] => []
  | k, node :: nodes =>
    if node.state = .normal then
      (node, .response (k ≠ 0) VectorClock.empty) :: answering others (k - 1) nodes
    else (node, .response others VectorClock.empty) :: answering others k nodes

theorem map_fst_answering (others : Bool) (k : Nat) (nodes : List StorageNode) :
    (answering others k nodes).map Prod.fst = nodes := by
  induction nodes generalizing k with
  | nil => rfl
  | cons node nodes ih =>
    rw [answering]
    split <;> rw [List.map_cons, ih]

theorem authoritativeSuccesses_answering (others : Bool) (k : Nat) (nodes : List StorageNode) :
    authoritativeSuccesses (answering others k nodes) = min k (authoritative nodes) := by
  induction nodes generalizing k with
  | nil => simp [answering, authoritativeSuccesses, authoritative]
  | cons node nodes ih =>
    simp only [authoritativeSuccesses, authoritative] at ih ⊢
    rw [answering]
    split
    · next hstate =>
      rw [List.countP_cons, List.countP_cons, ih]
      by_cases hk : k = 0 <;> simp [hstate, hk, WriteAnswer.succeeded]
      omega
    · next hstate =>
      rw [List.countP_cons, List.countP_cons, ih]
      simp [hstate]

theorem otherSuccesses_answering (others : Bool) (k : Nat) (nodes : List StorageNode) :
    otherSuccesses (answering others k nodes) + authoritative nodes =
      if others then nodes.length else authoritative nodes := by
  induction nodes generalizing k with
  | nil => cases others <;> rfl
  | cons node nodes ih =>
    simp only [otherSuccesses, authoritative] at ih ⊢
    rw [answering]
    split
    · next hstate =>
      have hrest := ih (k - 1)
      rw [List.countP_cons, List.countP_cons, List.length_cons]
      cases others <;> simp [hstate] at hrest ⊢ <;> omega
    · next hstate =>
      have hrest := ih k
      rw [List.countP_cons, List.countP_cons, List.length_cons]
      cases others <;> simp [hstate, WriteAnswer.succeeded] at hrest ⊢ <;> omega

/-- The answers as they arrive in the order of the write set. -/
def answeringArrivals (others : Bool) (k : Nat) (replicas : List StorageNode) :
    Arrivals WriteAnswer replicas where
  answers := answering others k replicas
  perm := by rw [map_fst_answering]

section

variable {replicas : List StorageNode} {arrivals : Arrivals WriteAnswer replicas}

theorem authoritative_le_length : authoritative replicas ≤ replicas.length := List.countP_le_length

theorem authoritative_eq_length_iff :
    authoritative replicas = replicas.length ↔ ∀ node ∈ replicas, node.state = .normal := by
  simp [authoritative, List.countP_eq_length]

theorem authoritative_eq_zero_iff :
    authoritative replicas = 0 ↔ ∀ node ∈ replicas, node.state ≠ .normal := by
  simp [authoritative, List.countP_eq_zero]

/-- In a write set of authoritative nodes only these succeed. -/
theorem otherSuccesses_eq_zero (h : ∀ node ∈ replicas, node.state = .normal) :
    otherSuccesses arrivals.answers = 0 := by
  rw [otherSuccesses, List.countP_eq_zero]
  intro p hp
  have hmem : p.1 ∈ replicas := arrivals.perm.mem_iff.mp (List.mem_map_of_mem hp)
  simp [h p.1 hmem]

/-- All authoritative nodes succeed exactly if there are as many successes as there are such
nodes. -/
theorem forall_succeeded_iff :
    (∀ p ∈ arrivals.answers, p.1.state = .normal → p.2.succeeded = true) ↔
      authoritative replicas ≤ authoritativeSuccesses arrivals.answers := by
  have hauth : authoritative replicas =
      arrivals.answers.countP fun p => p.1.state = .normal := by
    rw [authoritative, ← arrivals.perm.countP_eq, List.countP_map]
    rfl
  rw [hauth, authoritativeSuccesses]
  generalize arrivals.answers = answers
  induction answers with
  | nil => simp
  | cons p answers ih =>
    have hle : answers.countP (fun p => p.1.state = .normal && p.2.succeeded) ≤
        answers.countP fun p => p.1.state = .normal :=
      List.countP_mono_left fun q _ hq => by simp_all
    simp only [List.forall_mem_cons, List.countP_cons, ih]
    by_cases hstate : p.1.state = .normal
    · cases p.2.succeeded with
      | true => simp [hstate]
      | false =>
        simp only [hstate, decide_true, if_true]
        simp
        omega
    · simp [hstate]

end

/-- **When an acknowledgement means what it should.** At level `quorum` the decision is that of a
majority of the authoritative nodes for every set of answers exactly if all nodes of the write set
are authoritative (or none is, and then nothing is asked for). At level `all` it is that of all
authoritative nodes exactly if all nodes are authoritative. -/
theorem acknowledged_iff_authoritative (replicas : List StorageNode) (tenantID key : String)
    (value : List UInt8) (vectorClock : VectorClock) :
    ((∀ arrivals : Arrivals WriteAnswer replicas, 0 < authoritative replicas →
        ((writeToReplicasWithHints replicas tenantID key value vectorClock "quorum"
            arrivals).result.success = true ↔
          QuorumCalculator.calculateQuorum (authoritative replicas) ≤
            authoritativeSuccesses arrivals.answers)) ↔
      (∀ node ∈ replicas, node.state = .normal) ∨ ∀ node ∈ replicas, node.state ≠ .normal) ∧
    ((∀ arrivals : Arrivals WriteAnswer replicas,
        ((writeToReplicasWithHints replicas tenantID key value vectorClock "all"
            arrivals).result.success = true ↔
          ∀ p ∈ arrivals.answers, p.1.state = .normal → p.2.succeeded = true)) ↔
      ∀ node ∈ replicas, node.state = .normal) := by
  have hquorum : ∀ n, ConsistencyService.getRequiredReplicas "quorum" n = n / 2 + 1 := fun n => by
    simp [ConsistencyService.getRequiredReplicas, QuorumCalculator.getRequiredReplicasSimple,
      QuorumCalculator.getRequiredReplicas, QuorumCalculator.calculateQuorum]
  have hall : ∀ n, ConsistencyService.getRequiredReplicas "all" n = n := fun n => by
    simp [ConsistencyService.getRequiredReplicas, QuorumCalculator.getRequiredReplicasSimple,
      QuorumCalculator.getRequiredReplicas]
  have hle : authoritative replicas ≤ replicas.length := authoritative_le_length
  simp only [success_iff, countP_succeeded, hquorum, hall, QuorumCalculator.calculateQuorum,
    forall_succeeded_iff]
  refine ⟨⟨fun h => ?_, ?_⟩, ⟨fun h => ?_, fun hnormal arrivals => ?_⟩⟩
  · rw [← authoritative_eq_length_iff, ← authoritative_eq_zero_iff]
    by_contra hmixed
    have hpos : 0 < authoritative replicas := by omega
    -- one success short of a majority, with all others; and a bare majority with none of them
    have hshort := h (answeringArrivals true (authoritative replicas / 2) replicas) hpos
    have hbare := h (answeringArrivals false (authoritative replicas / 2 + 1) replicas) hpos
    have hothers := otherSuccesses_answering true (authoritative replicas / 2) replicas
    have hnone := otherSuccesses_answering false (authoritative replicas / 2 + 1) replicas
    simp only [answeringArrivals, authoritativeSuccesses_answering] at hshort hbare
    simp only [if_true, Bool.false_eq_true, if_false] at hothers hnone
    omega
  · rintro (hnormal | hother) arrivals hpos
    · have hlen := authoritative_eq_length_iff.mpr hnormal
      rw [otherSuccesses_eq_zero hnormal, hlen]
      omega
    · rw [authoritative_eq_zero_iff.mpr hother] at hpos
      omega
  · rw [← authoritative_eq_length_iff]
    have hbare := h (answeringArrivals false (authoritative replicas) replicas)
    have hnone := otherSuccesses_answering false (authoritative replicas) replicas
    simp only [answeringArrivals, authoritativeSuccesses_answering] at hbare
    simp only [Bool.false_eq_true, if_false] at hnone
    omega
  · rw [otherSuccesses_eq_zero hnormal, authoritative_eq_length_iff.mpr hnormal]
    omega

namespace Sample

/-- A node in a state of its life cycle. -/
def nodeIn (nodeID : String) (state : NodeState) : StorageNode :=
  { nodeID, host := nodeID, port := 50052, status := .active, state, virtualNodes := 1 }

/-- The write set while a node is added. -/
def bootstrapSet : List StorageNode :=
  [nodeIn "a" .normal, nodeIn "b" .normal, nodeIn "c" .bootstrapping]

/-- The write set while one node is added and one removed. -/
def changingSet : List StorageNode :=
  [nodeIn "a" .normal, nodeIn "b" .bootstrapping, nodeIn "c" .leaving]

end Sample

open Sample in
/-- One `NORMAL` node of two and the bootstrapping one are a quorum. The only `NORMAL` node alone is
none, and all `NORMAL` nodes are not `all`. -/
theorem acknowledgement_counts_other_nodes :
    ((writeToReplicasWithHints bootstrapSet "t" "k" [1] VectorClock.empty "quorum"
        (answeringArrivals true 1 bootstrapSet)).result.success = true ∧
      authoritativeSuccesses (answeringArrivals true 1 bootstrapSet).answers = 1 ∧
      QuorumCalculator.calculateQuorum (authoritative bootstrapSet) = 2) ∧
    ((writeToReplicasWithHints changingSet "t" "k" [1] VectorClock.empty "quorum"
        (answeringArrivals false 1 changingSet)).result.success = false ∧
      authoritativeSuccesses (answeringArrivals false 1 changingSet).answers = 1 ∧
      QuorumCalculator.calculateQuorum (authoritative changingSet) = 1) ∧
    (writeToReplicasWithHints bootstrapSet "t" "k" [1] VectorClock.empty "all"
        (answeringArrivals false 2 bootstrapSet)).result.success = false ∧
      authoritativeSuccesses (answeringArrivals false 2 bootstrapSet).answers =
        authoritative bootstrapSet := by
  decide +kernel

end PairDB.Coordinator
