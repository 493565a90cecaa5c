import PairDB.Coordinator.CoordinatorService

/-!
# `performReadRepair`

The repair step of a read. It goes through all responses, those of failed calls included, and sends
the latest version to the node of every response whose clock is not `Equals` to the latest one. The
node is made from the id in the response: it has no host and no port.
-/

namespace PairDB.Coordinator

/-- `&model.StorageNode{NodeID: resp.NodeID}`: the fields that the client reads. -/
structure RepairNode where
  nodeID : String
  host : String
  port : Int
  deriving DecidableEq, Repr

/-- A call of `StorageClient.Write`. -/
structure RepairWrite where
  node : RepairNode
  value : List UInt8
  vectorClock : VectorClock
  deriving DecidableEq, Repr

/-- What a repair does: the writes that it sends and the hints that it stores. -/
structure RepairEffects where
  writes : List RepairWrite
  hints : List HintArgs
  deriving DecidableEq, Repr

/-- A round of the loop of `performReadRepair`. `answer` is the answer to the write, if there is
one. -/
def repairResponse (tenantID key : String) (latest resp : StorageResponse) (answer : WriteAnswer) :
    RepairEffects :=
  if resp.vectorClock.equals latest.vectorClock then ⟨[], []⟩
  else
    { writes := [⟨⟨resp.nodeID, "", 0⟩, latest.value, latest.vectorClock⟩]
      hints :=
        match answer with
        | .transportError _ => [⟨resp.nodeID, tenantID, key, latest.value, latest.vectorClock⟩]
        | .response _ _ => [] }

/-- `performReadRepair`. The write for the response at position `i` is answered by `answers i`. -/
def performReadRepair (tenantID key : String) (latest : StorageResponse)
    (allResponses : List StorageResponse) (answers : Nat → WriteAnswer) : RepairEffects :=
  let rounds := allResponses.zipIdx.map fun p => repairResponse tenantID key latest p.1 (answers p.2)
  { writes := rounds.flatMap RepairEffects.writes
    hints := rounds.flatMap RepairEffects.hints }

/-- The repair of a read, when it has finished. -/
def repairOfRead (replicas : List StorageNode) (tenantID key consistency : String)
    (arrivals : Arrivals ReadAnswer replicas) (answers : Nat → WriteAnswer) : RepairEffects :=
  match (readFromReplicasWithRepair replicas key consistency arrivals).repair with
  | none => ⟨[], []⟩
  | some latest =>
    performReadRepair tenantID key latest (arrivals.answers.map collectRead) answers

/-! ## What is sent for which response -/

variable {tenantID key : String} {latest : StorageResponse} {allResponses : List StorageResponse}
  {answers : Nat → WriteAnswer}

theorem mem_writes_performReadRepair {w : RepairWrite} :
    w ∈ (performReadRepair tenantID key latest allResponses answers).writes ↔
      ∃ resp ∈ allResponses, resp.vectorClock.equals latest.vectorClock = false ∧
        w = ⟨⟨resp.nodeID, "", 0⟩, latest.value, latest.vectorClock⟩ := by
  simp only [performReadRepair, List.mem_flatMap, List.mem_map]
  constructor
  · rintro ⟨_, ⟨⟨resp, i⟩, hp, rfl⟩, hw⟩
    unfold repairResponse at hw
    split at hw
    · cases hw
    · next hne =>
      refine ⟨resp, List.fst_mem_of_mem_zipIdx hp, ?_, List.mem_singleton.mp hw⟩
      exact Bool.not_eq_true _ ▸ hne
  · rintro ⟨resp, hresp, hne, rfl⟩
    obtain ⟨i, hi, rfl⟩ := List.mem_iff_getElem.mp hresp
    refine ⟨_, ⟨(allResponses[i], i), List.mem_zipIdx_iff_getElem?.mpr ?_, rfl⟩, ?_⟩
    · exact List.getElem?_eq_getElem hi
    · simp [repairResponse, hne]

theorem mem_hints_performReadRepair {hint : HintArgs} :
    hint ∈ (performReadRepair tenantID key latest allResponses answers).hints ↔
      ∃ i resp, allResponses[i]? = some resp ∧
        resp.vectorClock.equals latest.vectorClock = false ∧
        (∃ err, answers i = .transportError err) ∧
        hint = ⟨resp.nodeID, tenantID, key, latest.value, latest.vectorClock⟩ := by
  simp only [performReadRepair, List.mem_flatMap, List.mem_map]
  constructor
  · rintro ⟨_, ⟨⟨resp, i⟩, hp, rfl⟩, hh⟩
    unfold repairResponse at hh
    split at hh
    · cases hh
    · next hne =>
      cases hanswer : answers i with
      | response success updated =>
        simp only [hanswer] at hh
        cases hh
      | transportError err =>
        simp only [hanswer, List.mem_singleton] at hh
        exact ⟨i, resp, List.mem_zipIdx_iff_getElem?.mp hp, Bool.not_eq_true _ ▸ hne, ⟨err, hanswer⟩,
          hh⟩
  · rintro ⟨i, resp, hresp, hne, ⟨err, hanswer⟩, rfl⟩
    refine ⟨_, ⟨(resp, i), List.mem_zipIdx_iff_getElem?.mpr hresp, rfl⟩, ?_⟩
    simp [repairResponse, hne, hanswer]

end PairDB.Coordinator
