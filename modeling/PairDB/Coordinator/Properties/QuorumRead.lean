import PairDB.Infra.Quorum
import PairDB.Coordinator.Routing
import PairDB.Coordinator.CoordinatorService

/-!
# A read that overlaps an acknowledged write returns it

The number of replicas that acknowledged the write and the number that answered the read are
together more than there are replicas, so one replica is in both groups. From then on it is a
statement about the loop of `DetectConflicts`: among responses that are all either the write or
older than it, the loop ends on the write as soon as it meets it once, in whatever order the
responses arrive.
-/

namespace PairDB.Coordinator

open Infra VectorClockOps

/-! ## The loop of `DetectConflicts` -/

section DetectConflicts

/-- The loop looks at the response. -/
abbrev StorageResponse.counts (resp : StorageResponse) : Bool := resp.success && resp.found

variable (w : Version)

/-- The response carries the version `w`. -/
def Carries (resp : StorageResponse) : Prop :=
  resp.value = w.value ∧ resp.vectorClock = w.vectorClock

/-- The response carries `w` or something that `w` comes After. -/
def UpTo (resp : StorageResponse) : Prop :=
  Carries w resp ∨ compare w.vectorClock resp.vectorClock = .after

variable {w}

theorem detectStep_of_not_counts {acc : Option StorageResponse × Bool} {resp : StorageResponse}
    (h : resp.counts = false) : detectStep acc resp = acc := by
  unfold detectStep
  rw [if_pos]
  rwa [← Bool.not_and, Bool.not_eq_true']

theorem detectStep_of_counts {acc : Option StorageResponse × Bool} {resp : StorageResponse}
    (h : resp.counts = true) : detectStep acc resp = detectFound acc resp := by
  unfold detectStep
  rw [if_neg]
  rwa [← Bool.not_and, Bool.not_eq_true', Bool.not_eq_false]

/-- Once the loop holds `w`, no response takes it away. -/
theorem detectStep_of_carries {acc : Option StorageResponse × Bool} {latest resp : StorageResponse}
    (hacc : acc.1 = some latest) (hlatest : Carries w latest)
    (hresp : resp.counts = true → UpTo w resp) : detectStep acc resp = acc := by
  cases hc : resp.counts with
  | false => exact detectStep_of_not_counts hc
  | true =>
    rw [detectStep_of_counts hc]
    simp only [detectFound, hacc, hlatest.2]
    rcases hresp hc with hsame | hafter
    · rw [hsame.2, compare_eq_identical_iff.mpr rfl]
    · rw [compare_eq_before_iff_after.mpr hafter]

/-- A response with `w` is taken over, whatever the loop holds. -/
theorem carries_detectStep {acc : Option StorageResponse × Bool} {resp : StorageResponse}
    (hacc : ∀ latest, acc.1 = some latest → UpTo w latest) (hc : resp.counts = true)
    (hresp : Carries w resp) :
    ∃ latest, (detectStep acc resp).1 = some latest ∧ Carries w latest := by
  rw [detectStep_of_counts hc, detectFound]
  cases hl : acc.1 with
  | none => exact ⟨resp, rfl, hresp⟩
  | some latest =>
    simp only [hresp.2]
    rcases hacc latest hl with hsame | hafter
    · rw [hsame.2, compare_eq_identical_iff.mpr rfl]
      exact ⟨latest, hl, hsame⟩
    · rw [hafter]
      exact ⟨resp, rfl, hresp⟩

/-- The loop only ever holds responses it has met. -/
theorem upTo_detectStep {acc : Option StorageResponse × Bool} {resp : StorageResponse}
    (hacc : ∀ latest, acc.1 = some latest → UpTo w latest)
    (hresp : resp.counts = true → UpTo w resp) :
    ∀ latest, (detectStep acc resp).1 = some latest → UpTo w latest := by
  intro latest h
  cases hc : resp.counts with
  | false => exact hacc latest (by rwa [detectStep_of_not_counts hc] at h)
  | true =>
    have hup := hresp hc
    rw [detectStep_of_counts hc, detectFound] at h
    split at h
    · cases h
      exact hup
    · next held hheld =>
      split at h
      · cases h
        exact hup
      · exact hacc latest h
      · -- concurrent responses: the timestamp chooses one of the two
        simp only at h
        split at h
        · cases h
          exact hup
        · cases h
          exact hacc _ hheld
      · exact hacc latest h

theorem foldl_detectStep_of_carries {responses : List StorageResponse}
    {acc : Option StorageResponse × Bool} {latest : StorageResponse}
    (hacc : acc.1 = some latest) (hlatest : Carries w latest)
    (hall : ∀ resp ∈ responses, resp.counts = true → UpTo w resp) :
    responses.foldl detectStep acc = acc := by
  induction responses with
  | nil => rfl
  | cons resp responses ih =>
    rw [List.forall_mem_cons] at hall
    rw [List.foldl_cons, detectStep_of_carries hacc hlatest hall.1]
    exact ih hall.2

/-- The whole loop: one response with `w` among responses up to `w`. -/
theorem carries_foldl_detectStep {responses : List StorageResponse}
    {acc : Option StorageResponse × Bool}
    (hacc : ∀ latest, acc.1 = some latest → UpTo w latest)
    (hall : ∀ resp ∈ responses, resp.counts = true → UpTo w resp)
    (hsome : ∃ resp ∈ responses, resp.counts = true ∧ Carries w resp) :
    ∃ latest, (responses.foldl detectStep acc).1 = some latest ∧ Carries w latest := by
  induction responses generalizing acc with
  | nil => simp at hsome
  | cons resp responses ih =>
    rw [List.forall_mem_cons] at hall
    obtain ⟨hresp, hrest⟩ := hall
    rw [List.foldl_cons]
    by_cases hhere : resp.counts = true ∧ Carries w resp
    · obtain ⟨latest, hlatest, hw⟩ := carries_detectStep hacc hhere.1 hhere.2
      exact ⟨latest, by rw [foldl_detectStep_of_carries hlatest hw hrest, hlatest], hw⟩
    · refine ih (upTo_detectStep hacc hresp) hrest ?_
      obtain ⟨r, hr, hcarries⟩ := hsome
      rcases List.mem_cons.mp hr with rfl | hr
      · exact absurd hcarries hhere
      · exact ⟨r, hr, hcarries⟩

theorem detectConflicts_carries {responses : List StorageResponse}
    (hall : ∀ resp ∈ responses, resp.counts = true → UpTo w resp)
    (hsome : ∃ resp ∈ responses, resp.counts = true ∧ Carries w resp) :
    ∃ latest, (detectConflicts responses).1 = some latest ∧ Carries w latest := by
  have hnone : ∀ latest, ((none, false) : Option StorageResponse × Bool).1 = some latest →
      UpTo w latest := fun _ h => by cases h
  obtain ⟨latest, hlatest, hw⟩ := carries_foldl_detectStep hnone hall hsome
  refine ⟨latest, ?_, hw⟩
  unfold detectConflicts
  simp only [hlatest, Option.isNone_some, Bool.false_eq_true, if_false]

end DetectConflicts

/-! ## The two operations -/

/-- An acknowledged write has as many successes as its level requires. -/
theorem required_le_of_acknowledged {replicas : List StorageNode} {tenantID key : String}
    {value : List UInt8} {vectorClock : VectorClock} {consistency : String}
    {arrivals : Arrivals WriteAnswer replicas}
    (h : (writeToReplicasWithHints replicas tenantID key value vectorClock consistency
      arrivals).err = none) :
    ConsistencyService.getRequiredReplicas consistency replicas.length
      ≤ arrivals.answers.countP fun p => (collectWrite p).success := by
  unfold writeToReplicasWithHints at h
  simp only at h
  split at h
  · cases h
  · next hreached =>
    rw [Bool.not_eq_true', Bool.not_eq_false, ConsistencyService.isQuorumReached_iff,
      List.countP_map] at hreached
    exact hreached

/-- A read that does not fail has enough answers and returns what `DetectConflicts` chose. -/
theorem of_read_ok {replicas : List StorageNode} {key consistency : String}
    {arrivals : Arrivals ReadAnswer replicas}
    (h : (readFromReplicasWithRepair replicas key consistency arrivals).err = none) :
    ConsistencyService.getRequiredReplicas consistency replicas.length
      ≤ arrivals.answers.countP (fun p => (collectRead p).counts) ∧
    ∀ latest, (detectConflicts (arrivals.answers.map collectRead)).1 = some latest →
      (readFromReplicasWithRepair replicas key consistency arrivals).result
        = { success := true, key, value := latest.value, vectorClock := latest.vectorClock,
            errorMessage := "" } := by
  unfold readFromReplicasWithRepair at h ⊢
  simp only at h ⊢
  split at h
  · cases h
  · next hreached =>
    rw [if_neg hreached]
    rw [Bool.not_eq_true', Bool.not_eq_false, ConsistencyService.isQuorumReached_iff,
      List.countP_map] at hreached
    refine ⟨hreached, fun latest hlatest => ?_⟩
    split
    · next hd => rw [hd] at hlatest; cases hlatest
    · next hd => rw [hd] at hlatest; cases hlatest; rfl

/-- A response to a read that counts comes from a server that holds the version it carries. -/
theorem carries_of_counts {servers : Servers} {node : StorageNode} {answer : ReadAnswer}
    (hanswer : answer = servers.readAnswer node ∨ ∃ err, answer = .transportError err)
    (hc : (collectRead (node, answer)).counts = true) :
    ∃ v, servers node.addr = some v ∧ Carries v (collectRead (node, answer)) := by
  rcases hanswer with rfl | ⟨err, rfl⟩
  · unfold Servers.readAnswer at hc ⊢
    split at hc
    · simp [collectRead, StorageClient.read] at hc
    · next v hv => exact ⟨v, hv, by simp [collectRead, StorageClient.read, Carries]⟩
  · simp [collectRead, StorageClient.read, StorageClient.failure] at hc

/--
**Quorum intersection.**

The write `w` was acknowledged at level `lw`, every server that reported success holds it, and it
comes After everything else that the replicas hold. Then a read at level `lr` that does not fail
returns `w`, whichever replicas answer and in whatever order.
-/
theorem read_returns_acknowledged_write {routing : RoutingService} {tenantID key : String}
    {n : Nat} {writeReplicas readReplicas : List StorageNode} {lw lr : String} {servers : Servers}
    {w : Version}
    (hwriteReplicas : routing.getWriteReplicas tenantID key n = .ok writeReplicas)
    (hreadReplicas : routing.getReadReplicas tenantID key n = .ok readReplicas)
    (hlevels : ConsistencyService.getRequiredReplicas lw n
      + ConsistencyService.getRequiredReplicas lr n > n)
    (hlatest : ∀ node ∈ readReplicas, ∀ v, servers node.addr = some v → v ≠ w →
      compare w.vectorClock v.vectorClock = .after)
    (stores : Arrivals WriteAnswer writeReplicas)
    (hacknowledged : (writeToReplicasWithHints writeReplicas tenantID key w.value w.vectorClock lw
      stores).err = none)
    (hstored : ∀ p ∈ stores.answers, (collectWrite p).success = true → servers p.1.addr = some w)
    (reads : Arrivals ReadAnswer readReplicas)
    (hanswers : ∀ p ∈ reads.answers,
      p.2 = servers.readAnswer p.1 ∨ ∃ err, p.2 = .transportError err)
    (hok : (readFromReplicasWithRepair readReplicas key lr reads).err = none) :
    (readFromReplicasWithRepair readReplicas key lr reads).result
      = { success := true, key, value := w.value, vectorClock := w.vectorClock,
          errorMessage := "" } := by
  have hsame := RoutingService.getReadReplicas_eq_getWriteReplicas hwriteReplicas hreadReplicas
  subst hsame
  have hlen := RoutingService.length_getWriteReplicas hwriteReplicas
  obtain ⟨hreadCount, hresult⟩ := of_read_ok hok
  have hwriteCount := required_le_of_acknowledged hacknowledged
  rw [hlen] at hreadCount hwriteCount
  -- a replica that acknowledged the write and answered the read
  obtain ⟨node, stored, answer, hstore, hsuccess, hread, hcounts⟩ :=
    exists_counted_in_both (RoutingService.nodup_getWriteReplicas hwriteReplicas) stores.perm
      reads.perm (p := fun p => (collectWrite p).success) (q := fun p => (collectRead p).counts)
      (by omega)
  have hupTo : ∀ resp ∈ reads.answers.map collectRead, resp.counts = true → UpTo w resp := by
    intro resp hresp hc
    obtain ⟨p, hp, rfl⟩ := List.mem_map.mp hresp
    obtain ⟨v, hv, hcarries⟩ := carries_of_counts (hanswers p hp) hc
    by_cases hvw : v = w
    · exact Or.inl (hvw ▸ hcarries)
    · refine Or.inr ?_
      rw [hcarries.2]
      exact hlatest p.1 (reads.perm.mem_iff.mp (List.mem_map_of_mem hp)) v hv hvw
  have hcarries : Carries w (collectRead (node, answer)) := by
    obtain ⟨v, hv, hcarries⟩ := carries_of_counts (hanswers _ hread) hcounts
    rw [hstored _ hstore hsuccess] at hv
    cases hv
    exact hcarries
  obtain ⟨latest, hdetect, hw⟩ :=
    detectConflicts_carries hupTo ⟨_, List.mem_map_of_mem hread, hcounts, hcarries⟩
  rw [hresult latest hdetect, hw.1, hw.2]

/-! ## An instance -/

/-- A node with one virtual node. -/
def plainNode (i : String) : StorageNode :=
  { nodeID := "n" ++ i, host := "10.0.0." ++ i, port := 50052, status := .active, state := .normal,
    virtualNodes := 1 }

/-- The ring of the given nodes, with a hash that is the second character. -/
def plainRouting (nodes : List StorageNode) : RoutingService :=
  let hash (s : String) : UInt64 := UInt64.ofNat ((s.toList.getD 1 '0').toNat)
  { hash
    hashRing := nodes.foldl (fun ch node => ch.addNode hash node.nodeID node.virtualNodes)
      ConsistentHasher.new
    listStorageNodes := .ok nodes }

def threeNodes : List StorageNode := [plainNode "1", plainNode "2", plainNode "3"]

/-- The third node has missed the write. -/
def staleThird : Servers := fun addr =>
  if addr = "10.0.0.3:50052" then some ⟨[1], ⟨[⟨"a", 1⟩]⟩⟩ else some ⟨[2], ⟨[⟨"a", 2⟩]⟩⟩

def twoStored : Arrivals WriteAnswer threeNodes where
  answers := [(plainNode "1", .response true ⟨[⟨"a", 2⟩]⟩),
    (plainNode "2", .response true ⟨[⟨"a", 2⟩]⟩), (plainNode "3", .transportError "unavailable")]
  perm := by decide

/-- The stale node answers first and the first node not at all. -/
def staleFirst : Arrivals ReadAnswer threeNodes where
  answers := [(plainNode "3", staleThird.readAnswer (plainNode "3")),
    (plainNode "2", staleThird.readAnswer (plainNode "2")),
    (plainNode "1", .transportError "unavailable")]
  perm := by decide

theorem read_returns_acknowledged_write_staleFirst :
    (readFromReplicasWithRepair threeNodes "k" "quorum" staleFirst).result
      = { success := true, key := "k", value := [2], vectorClock := ⟨[⟨"a", 2⟩]⟩,
          errorMessage := "" } := by
  refine @read_returns_acknowledged_write (plainRouting threeNodes) "t" "k" 3 threeNodes threeNodes
    "quorum" "quorum" staleThird ⟨[2], ⟨[⟨"a", 2⟩]⟩⟩ rfl rfl (by decide) ?_ twoStored (by decide)
    (by decide) staleFirst ?_ (by decide)
  · intro node hnode v hv hne
    unfold staleThird at hv
    split at hv
    · cases hv
      decide
    · cases hv
      exact absurd rfl hne
  · intro p hp
    rcases List.mem_cons.mp hp with rfl | hp
    · exact Or.inl rfl
    · rcases List.mem_cons.mp hp with rfl | hp
      · exact Or.inl rfl
      · cases List.mem_singleton.mp hp
        exact Or.inr ⟨_, rfl⟩

end PairDB.Coordinator
