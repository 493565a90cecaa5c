import PairDB.Coordinator.Idempotency

/-!
# Retried and concurrent writes

* A retry should be recognised. `RedisIdempotencyStore` gives back a JSON object as a map, and
  `IdempotencyService.Get` wants a pointer to an `IdempotencyResponse`, so no retry ever is. With a
  store that gives back what it was given, every retry is (`retry_recognised`).
* Of the requests with one idempotency key at most one should write. The lookup and the record are
  turns of their own, with the write between them, so this holds only if no other request with the
  key is between its lookup and its record, and every write that is made is recorded
  (`writes_at_most_once_of_run`).
-/

namespace PairDB.Coordinator

open Infra

/-- The store gives back the response that it was given, with its type. -/
def StoreFormat.Typed (format : StoreFormat) : Prop :=
  ∀ r, format.unmarshal (format.marshal r) = .ok (.response r)

theorem IdempotencyStore.lookup_eq_some {store : IdempotencyStore} {now : Int} {storeKey : String}
    {data : Bytes} : store.lookup now storeKey = some data ↔
      ∃ expiry, store.get? storeKey = some (data, expiry) ∧ ∀ e ∈ expiry, now < e := by
  unfold lookup
  cases hget : store.get? storeKey with
  | none => simp
  | some entry =>
    obtain ⟨stored, expiry⟩ := entry
    cases expiry with
    | none => simp
    | some e => by_cases hlt : now < e <;> simp [hlt]

theorem IdempotencyStore.get?_put (store : IdempotencyStore) (now ttl : Int)
    (storeKey other : String) (data : Bytes) : (store.put now ttl storeKey data).get? other =
      if storeKey = other then some (data, if ttl > 0 then some (now + ttl) else none)
      else store.get? other :=
  Map.get?_set _ _ _ _

/-- `Get` finds a response if the entry has not expired and has the right type. -/
theorem IdempotencyService.get_eq_some {svc : IdempotencyService} {store : IdempotencyStore}
    {now : Int} {getError : Option String} {storeKey : String} {r : IdempotencyResponse} :
    svc.get store now getError storeKey = .ok (some r) ↔
      getError = none ∧ ∃ data, store.lookup now storeKey = some data ∧
        svc.format.unmarshal data = .ok (.response r) := by
  unfold get
  cases getError with
  | some err => simp
  | none =>
    cases hlookup : store.lookup now storeKey with
    | none => simp
    | some data =>
      rcases hdata : svc.format.unmarshal data with err | value
      · simp [hdata]
      · cases value <;> simp [hdata]

/-- Where a request that is past its lookup puts its response. -/
def WritePhase.place? : WritePhase → Option String
  | .get _ => none
  | .write _ _ storeKey | .store _ _ storeKey _ => some storeKey

/-- The request, if it is at its lookup. -/
def WritePhase.lookup? : WritePhase → Option WriteRequest
  | .get req => some req
  | .write _ _ _ | .store _ _ _ _ => none

namespace Deduplicated

variable {svc : IdempotencyService} {s s' : Deduplicated} {env : WriteEnv} {req : WriteRequest}
  {consistency storeKey : String}

/-! ## What a turn does -/

/-- Where the response of a request goes. -/
def place (env : WriteEnv) (req : WriteRequest) : String :=
  if req.idempotencyKey ≠ "" then req.storeKey
  else buildStoreKey req.tenantID req.key env.generated

theorem check_of_get {r : IdempotencyResponse} (hkey : req.idempotencyKey ≠ "")
    (hlevel : ConsistencyService.normalizeConsistencyLevel env.defaultLevel req.consistency =
      .ok consistency)
    (hget : svc.get s.store env.now env.getError req.storeKey = .ok (some r)) :
    s.check svc env req = .error (.ok (duplicate req r)) := by
  simp [check, hlevel, hkey, hget]

/-- A request goes on if it finds no response. -/
theorem check_eq_ok (h : s.check svc env req = .ok (consistency, storeKey)) :
    storeKey = place env req ∧ (req.idempotencyKey ≠ "" → ∀ r,
      svc.get s.store env.now env.getError req.storeKey ≠ .ok (some r)) := by
  unfold check at h
  split at h
  · cases h
  · unfold place
    by_cases hkey : req.idempotencyKey ≠ ""
    · rw [if_pos hkey] at h
      rw [if_pos hkey]
      split at h
      · next hget =>
        cases h
        exact ⟨rfl, fun _ r => by simp [hget]⟩
      · next hget =>
        cases h
        exact ⟨rfl, fun _ r => by simp [hget]⟩
      · cases h
    · rw [if_neg hkey] at h
      cases h
      exact ⟨(if_neg hkey).symm, fun h => absurd h hkey⟩

/-- The answers of the replicas are enough for the level. -/
def ReachesQuorum (env : WriteEnv) (req : WriteRequest) (consistency : String) : Prop :=
  ∀ nodes ∈ (replicas env req).toOption, ConsistencyService.isQuorumReached
    ((env.answers nodes).answers.countP fun p => p.2.succeeded) nodes.length consistency

/-- The write to the replicas: it is not made, it is made and fails, or it is made and succeeds. -/
theorem execute_cases {answer : Except String WriteResult}
    (h : s.execute env req consistency = (s', answer)) :
    s'.store = s.store ∧
      ((s'.writes = s.writes ∧ ∃ err, answer = .error err) ∨
        (s'.writes = s.writes ++ [req] ∧ ¬ ReachesQuorum env req consistency ∧
          ∃ err, answer = .error err) ∨
        (s'.writes = s.writes ++ [req] ∧ ∃ result, answer = .ok result ∧
          result.consistency = consistency ∧ result.isDuplicate = false)) := by
  unfold execute at h
  cases hreplicas : replicas env req with
  | error err =>
    rw [hreplicas] at h
    cases h
    exact ⟨rfl, Or.inl ⟨rfl, err, rfl⟩⟩
  | ok rs =>
    rw [hreplicas] at h
    cases h
    refine ⟨rfl, Or.inr ?_⟩
    simp only [writeReplicas, writeToReplicasWithHints, countP_collectWrite]
    by_cases hquorum : ConsistencyService.isQuorumReached
        ((env.answers rs).answers.countP fun p => p.2.succeeded) rs.length consistency = true
    · exact Or.inr ⟨trivial, by simp [hquorum]⟩
    · refine Or.inl ⟨trivial, fun hreach => hquorum (hreach rs ?_), by simp [hquorum]⟩
      simp [hreplicas, Except.toOption]

/-- A request that is answered at once has found a response. -/
theorem check_eq_error {result : WriteResult} (h : s.check svc env req = .error (.ok result)) :
    ∃ r, svc.get s.store env.now env.getError req.storeKey = .ok (some r) ∧
      result = duplicate req r := by
  unfold check at h
  split at h
  · cases h
  · split at h
    · split at h
      · cases h
      · cases h
      · next r hget =>
        cases h
        exact ⟨r, hget, rfl⟩
    · cases h

/-- A request that succeeds has found a response, or it has written. -/
theorem writeKeyValue_eq_ok {result : WriteResult}
    (h : s.writeKeyValue svc env req = (s', .ok result)) :
    (s' = s ∧ ∃ r, svc.get s.store env.now env.getError req.storeKey = .ok (some r) ∧
      result = duplicate req r) ∨
    (∃ s₁ : Deduplicated, s₁.writes = s.writes ++ [req] ∧ result.isDuplicate = false ∧
      s' = s₁.storeResponse svc env req result.consistency (place env req) result) := by
  rcases hcheck : s.check svc env req with answer | ⟨consistency, k⟩
  · simp only [writeKeyValue, hcheck, Prod.mk.injEq] at h
    obtain ⟨rfl, rfl⟩ := h
    exact Or.inl ⟨rfl, check_eq_error hcheck⟩
  · obtain ⟨rfl, -⟩ := check_eq_ok hcheck
    rcases hex : s.execute env req consistency with ⟨s₁, answer⟩
    simp only [writeKeyValue, hcheck, hex] at h
    obtain ⟨-, ⟨-, err, rfl⟩ | ⟨-, -, err, rfl⟩ | ⟨hwrites, res, rfl, hconsistency, hdup⟩⟩ :=
      execute_cases hex
    · cases h
    · cases h
    · cases h
      exact Or.inr ⟨s₁, hwrites, hdup, by rw [hconsistency]⟩

/-- What a turn of a request can do. -/
theorem turn_cases {phase : WritePhase} {next : Option WritePhase}
    (h : turn svc s env phase = some (s', next)) :
    (∃ req, phase = .get req ∧ s' = s ∧ ∀ p ∈ next, ∃ consistency,
      p = .write req consistency (place env req) ∧ (req.idempotencyKey ≠ "" → ∀ r,
        svc.get s.store env.now env.getError req.storeKey ≠ .ok (some r))) ∨
    (∃ req consistency storeKey, phase = .write req consistency storeKey ∧ s'.store = s.store ∧
      ((s'.writes = s.writes ∧ next = none) ∨
        (s'.writes = s.writes ++ [req] ∧ (ReachesQuorum env req consistency → next ≠ none) ∧
          ∀ p ∈ next, ∃ result, p = .store req consistency storeKey result))) ∨
    (∃ req consistency storeKey result, phase = .store req consistency storeKey result ∧
      s' = s.storeResponse svc env req consistency storeKey result ∧ next = none) := by
  cases phase with
  | get req =>
    refine Or.inl ⟨req, rfl, ?_⟩
    simp only [turn] at h
    cases hcheck : s.check svc env req with
    | error answer =>
      rw [hcheck] at h
      cases h
      exact ⟨rfl, by simp⟩
    | ok found =>
      obtain ⟨consistency, storeKey⟩ := found
      rw [hcheck] at h
      cases h
      obtain ⟨rfl, hmiss⟩ := check_eq_ok hcheck
      refine ⟨rfl, ?_⟩
      rintro p ⟨⟩
      exact ⟨consistency, rfl, hmiss⟩
  | write req consistency storeKey =>
    refine Or.inr (Or.inl ⟨req, consistency, storeKey, rfl, ?_⟩)
    simp only [turn] at h
    rcases hex : s.execute env req consistency with ⟨s₁, answer⟩
    obtain ⟨hstore, hwrites⟩ := execute_cases hex
    rw [hex] at h
    rcases hwrites with ⟨hwrites, err, rfl⟩ | ⟨hwrites, hquorum, err, rfl⟩ |
      ⟨hwrites, result, rfl, -⟩
    · cases h
      exact ⟨hstore, Or.inl ⟨hwrites, rfl⟩⟩
    · cases h
      exact ⟨hstore, Or.inr ⟨hwrites, fun hreach => absurd hreach hquorum, by simp⟩⟩
    · cases h
      exact ⟨hstore, Or.inr ⟨hwrites, by simp, by simp⟩⟩
  | store req consistency storeKey result =>
    refine Or.inr (Or.inr ⟨req, consistency, storeKey, result, rfl, ?_⟩)
    simp only [turn] at h
    cases h
    exact ⟨rfl, rfl⟩

/-! ## Retries -/

/-- The entry of a place is the response `r`, and it does not expire before `last` is over. -/
def Holds (svc : IdempotencyService) (storeKey : String) (r : IdempotencyResponse) (last : Int)
    (s : Deduplicated) : Prop :=
  ∃ data expiry, s.store.get? storeKey = some (data, expiry) ∧
    svc.format.unmarshal data = .ok (.response r) ∧ ∀ e ∈ expiry, last < e

theorem Holds.get {r : IdempotencyResponse} {last now : Int} (h : Holds svc storeKey r last s)
    (hnow : now ≤ last) : svc.get s.store now none storeKey = .ok (some r) := by
  obtain ⟨data, expiry, hget, htyped, hexpiry⟩ := h
  refine IdempotencyService.get_eq_some.mpr ⟨rfl, data, ?_, htyped⟩
  exact IdempotencyStore.lookup_eq_some.mpr
    ⟨expiry, hget, fun e he => lt_of_le_of_lt hnow (hexpiry e he)⟩

/-- The turns of the requests that come meanwhile: the store answers, and no key is generated that
leads to the place. -/
def Meanwhile (storeKey : String) (last : Int) (s : System) : Turn → Prop
  | .start _ _ _ => True
  | .advance id env => env.getError = none ∧ env.now ≤ last ∧
    ∀ req ∈ (s.phase? id).bind WritePhase.lookup?, req.idempotencyKey = "" →
      place env req ≠ storeKey

instance (storeKey : String) (last : Int) (s : System) :
    (t : Turn) → Decidable (Meanwhile storeKey last s t)
  | .start _ _ _ => inferInstanceAs (Decidable True)
  | .advance _ _ => inferInstanceAs (Decidable (_ ∧ _ ∧ _))

/-- A turn in the meanwhile leaves the entry as it is. -/
theorem holds_turn {r : IdempotencyResponse} {last : Int} {phase : WritePhase}
    {next : Option WritePhase} (hholds : Holds svc storeKey r last s)
    (hplace : phase.place? ≠ some storeKey) (hget : env.getError = none) (hnow : env.now ≤ last)
    (hfresh : ∀ req, phase = .get req → req.idempotencyKey = "" → place env req ≠ storeKey)
    (ht : turn svc s env phase = some (s', next)) :
    Holds svc storeKey r last s' ∧ ∀ p ∈ next, p.place? ≠ some storeKey := by
  rcases turn_cases ht with ⟨req, rfl, rfl, hnext⟩ | ⟨req, consistency, k, rfl, hstore, hnext⟩ |
    ⟨req, consistency, k, result, rfl, rfl, rfl⟩
  · refine ⟨hholds, fun p hp => ?_⟩
    obtain ⟨consistency, rfl, hmiss⟩ := hnext p hp
    simp only [WritePhase.place?, ne_eq, Option.some.injEq]
    by_cases hkey : req.idempotencyKey = ""
    · exact hfresh req rfl hkey
    · -- a request with this place would have found the entry
      rintro rfl
      rw [place, if_pos hkey] at hholds
      rw [hget] at hmiss
      exact hmiss hkey r (hholds.get hnow)
  · refine ⟨?_, fun p hp => ?_⟩
    · rw [Holds, hstore]
      exact hholds
    · rcases hnext with ⟨-, rfl⟩ | ⟨-, -, hnext⟩
      · cases hp
      · obtain ⟨result, rfl⟩ := hnext p hp
        exact hplace
  · refine ⟨?_, by simp⟩
    unfold storeResponse
    split
    · exact hholds
    · obtain ⟨data, expiry, hentry, hrest⟩ := hholds
      refine ⟨data, expiry, ?_, hrest⟩
      have hne : k ≠ storeKey := fun heq => hplace (congrArg some heq)
      rw [IdempotencyStore.get?_put, if_neg hne]
      exact hentry

/-- The entry is there, and no request is about to replace it. -/
def Kept (svc : IdempotencyService) (storeKey : String) (r : IdempotencyResponse) (last : Int)
    (s : System) : Prop :=
  Holds svc storeKey r last s.state ∧ ∀ p ∈ s.phases, p.place? ≠ some storeKey

theorem kept_step {r : IdempotencyResponse} {last : Int} (s : System) (t : Turn) (s' : System)
    (hkept : Kept svc storeKey r last s) (hmean : Meanwhile storeKey last s t)
    (hstep : step svc s t = some s') : Kept svc storeKey r last s' := by
  obtain ⟨hholds, hplaces⟩ := hkept
  cases t with
  | start id env req =>
    obtain ⟨hstate, hphases⟩ := Concurrent.step_start hstep
    refine ⟨hstate ▸ hholds, ?_⟩
    rw [hphases]
    intro p hp
    rcases List.mem_append.mp hp with hp | hp
    · exact hplaces p hp
    · rw [List.mem_singleton.mp hp]
      exact nofun
  | advance id env =>
    obtain ⟨hget, hnow, hfresh⟩ := hmean
    obtain ⟨phase, next, rest, hphase, hturn, hbefore, hafter⟩ := Concurrent.step_advance_perm hstep
    have hplace : ∀ p ∈ phase :: rest, p.place? ≠ some storeKey :=
      fun p hp => hplaces p (hbefore.mem_iff.mpr hp)
    obtain ⟨hholds', hnext⟩ := holds_turn hholds (hplace phase List.mem_cons_self) hget hnow
      (fun req heq => hfresh req (by simp [hphase, heq, WritePhase.lookup?])) hturn
    refine ⟨hholds', fun p hp => ?_⟩
    rcases List.mem_append.mp (hafter.mem_iff.mp hp) with hp | hp
    · exact hnext p (Option.mem_toList.mp hp)
    · exact hplace p (List.mem_cons_of_mem _ hp)

/-- A request that succeeds leaves its response in the store. -/
theorem holds_of_succeeded {result : WriteResult} {last : Int} (htyped : svc.format.Typed)
    (hkey : req.idempotencyKey ≠ "") (hset : env.setError = none)
    (h : s.writeKeyValue svc env req = (s', .ok result))
    (hlast : (s'.store.lookup last req.storeKey).isSome) :
    ∃ r, Holds svc req.storeKey r last s' ∧ r.success = result.success ∧
      r.replicaCount = result.replicaCount ∧ r.consistency = result.consistency := by
  obtain ⟨data, hlookup⟩ := Option.isSome_iff_exists.mp hlast
  obtain ⟨expiry, hentry, hexpiry⟩ := IdempotencyStore.lookup_eq_some.mp hlookup
  rcases writeKeyValue_eq_ok h with ⟨rfl, r, hget, rfl⟩ | ⟨s₁, -, -, rfl⟩
  · -- the request was a retry itself
    obtain ⟨-, data', hlookup', hdata⟩ := IdempotencyService.get_eq_some.mp hget
    obtain ⟨expiry', hentry', -⟩ := IdempotencyStore.lookup_eq_some.mp hlookup'
    obtain rfl : data' = data := by
      rw [hentry] at hentry'
      cases hentry'
      rfl
    exact ⟨r, ⟨data', expiry, hentry, hdata, hexpiry⟩, rfl, rfl, rfl⟩
  · have hput : svc.format.marshal (responseOf env req result.consistency result) = data := by
      rw [place, if_pos hkey, storeResponse, hset] at hentry
      rw [IdempotencyStore.get?_put, if_pos rfl, Option.some.injEq, Prod.mk.injEq] at hentry
      exact hentry.1
    refine ⟨responseOf env req result.consistency result, ⟨data, expiry, hentry, ?_, hexpiry⟩,
      rfl, rfl, rfl⟩
    rw [← hput]
    exact htyped _

/-- The format of `RedisIdempotencyStore` has no responses. -/
theorem unmarshal_redisFormat_ne (formatTime : Int → String) (data : Bytes)
    (r : IdempotencyResponse) : (redisFormat formatTime).unmarshal data ≠ .ok (.response r) := by
  simp only [redisFormat]
  split <;> simp

/--
**A retry is recognised.** After a request has succeeded, requests of all kinds run in any
interleaving. A request with the same tenant, key and idempotency key, before the entry expires,
returns what was stored and writes nothing, if the store gives back responses with their type.
`RedisIdempotencyStore` does not: with it no request is ever recognised, and each one that succeeds
has written.
-/
theorem retry_recognised {s₁ : Deduplicated} {s₂ : System} {result : WriteResult}
    {env' : WriteEnv} {req' : WriteRequest} {turns : List Turn} (hkey : req.idempotencyKey ≠ "")
    (hset : env.setError = none) (hfirst : s.writeKeyValue svc env req = (s₁, .ok result))
    (hrun : run (step svc) (.quiet s₁) turns = some s₂)
    (hmean : AllSteps (step svc) (Meanwhile req.storeKey env'.now) (.quiet s₁) turns)
    (hlast : (s₁.store.lookup env'.now req.storeKey).isSome)
    (hsame : req'.tenantID = req.tenantID ∧ req'.key = req.key ∧
      req'.idempotencyKey = req.idempotencyKey) (hget : env'.getError = none)
    (hlevel : ∃ level, ConsistencyService.normalizeConsistencyLevel env'.defaultLevel
      req'.consistency = .ok level) :
    (svc.format.Typed → ∃ answer, s₂.state.writeKeyValue svc env' req' = (s₂.state, .ok answer) ∧
      answer.isDuplicate = true ∧ answer.success = result.success ∧
      answer.replicaCount = result.replicaCount ∧ answer.consistency = result.consistency) ∧
    (∀ formatTime, svc.format = redisFormat formatTime → ∀ s₃ answer,
      s₂.state.writeKeyValue svc env' req' = (s₃, .ok answer) →
        answer.isDuplicate = false ∧ s₃.writes = s₂.state.writes ++ [req']) := by
  constructor
  · intro htyped
    obtain ⟨r, hholds, hsuccess, hcount, hconsistency⟩ :=
      holds_of_succeeded htyped hkey hset hfirst hlast
    have hkept : Kept svc req.storeKey r env'.now s₂ :=
      run_invariant kept_step ⟨hholds, by simp [Concurrent.System.quiet,
        Concurrent.System.phases]⟩ hmean hrun
    obtain ⟨level, hlevel⟩ := hlevel
    have hplace : req'.storeKey = req.storeKey := by
      rw [WriteRequest.storeKey, hsame.1, hsame.2.1, hsame.2.2, WriteRequest.storeKey]
    have hfound : svc.get s₂.state.store env'.now env'.getError req'.storeKey = .ok (some r) := by
      rw [hplace, hget]
      exact hkept.1.get le_rfl
    refine ⟨duplicate req' r, ?_, rfl, hsuccess, hcount, hconsistency⟩
    rw [writeKeyValue, check_of_get (hsame.2.2 ▸ hkey) hlevel hfound]
  · intro formatTime hredis s₃ answer hanswer
    rcases writeKeyValue_eq_ok hanswer with ⟨-, r, hfound, -⟩ | ⟨s', hwrites, hdup, rfl⟩
    · obtain ⟨-, data, -, hdata⟩ := IdempotencyService.get_eq_some.mp hfound
      rw [hredis] at hdata
      exact absurd hdata (unmarshal_redisFormat_ne formatTime data r)
    · refine ⟨hdup, ?_⟩
      rw [← hwrites, storeResponse]
      split <;> rfl

end Deduplicated

/-! ### A store that keeps the type -/

namespace TypedFormat

open Json

/-- The fields of a response, with the time as a number. -/
def fields (r : IdempotencyResponse) : List (String × Json) :=
  [("Success", .bool r.success), ("Key", .str r.key),
    ("VectorClock", encodeBytes (some r.vectorClock)), ("ReplicaCount", .num r.replicaCount),
    ("Consistency", .str r.consistency), ("Timestamp", .num r.timestamp)]

/-- Decoding into an `IdempotencyResponse`. -/
def ofFields (fs : List (String × Json)) : Option IdempotencyResponse :=
  (decodeBool (field "Success" fs)).bind fun success =>
  (decodeString (field "Key" fs)).bind fun key =>
  (decodeBytes (field "VectorClock" fs)).bind fun vectorClock =>
  (decodeInt (field "ReplicaCount" fs)).bind fun replicaCount =>
  (decodeString (field "Consistency" fs)).bind fun consistency =>
  (decodeInt (field "Timestamp" fs)).map fun timestamp =>
    { success, key, vectorClock := vectorClock.getD [], replicaCount := replicaCount.toNat,
      consistency, timestamp }

theorem ofFields_fields (r : IdempotencyResponse) : ofFields (fields r) = some r := by
  simp +decide [ofFields, fields, field]

end TypedFormat

/-- A store that decodes JSON into the type that was stored. -/
def typedFormat : StoreFormat where
  marshal r := Json.bytes (.obj (TypedFormat.fields r))
  unmarshal data :=
    match (Json.ofBytes data).bind fun v => Json.decodeStruct TypedFormat.ofFields (some v) with
    | none => .error "failed to unmarshal data"
    | some r => .ok (.response r)

theorem typed_typedFormat : typedFormat.Typed := by
  intro r
  simp only [typedFormat, Json.ofBytes_bytes, Option.bind_some, Json.decodeStruct_obj,
    TypedFormat.ofFields_fields]

namespace Deduplicated

namespace Sample

def node : StorageNode :=
  { nodeID := "n", host := "n", port := 50052, status := .active, state := .normal,
    virtualNodes := 1 }

/-- A cluster of one node, which stores every write. -/
def healthy : WriteEnv where
  now := 0
  coordinator := "c"
  defaultLevel := "quorum"
  getError := none
  setError := none
  generated := "g"
  tenant := .ok 1
  routing := ⟨fun _ => 0, ConsistentHasher.new.addNode (fun _ => 0) "n" 1, .ok [node]⟩
  existing := none
  order := .asHeld _
  answers replicas :=
    { answers := replicas.map fun replica => (replica, .response true VectorClock.empty)
      perm := by simp [Function.comp_def] }

def put : WriteRequest := ⟨"t", "k", [1], "one", "i"⟩

def service (format : StoreFormat) : IdempotencyService := ⟨format, 10⟩

/-- What the first request comes to. -/
def first (format : StoreFormat) : Deduplicated × Except String WriteResult :=
  init.writeKeyValue (service format) healthy put

end Sample

open Sample in
/-- A request and its retry, with another request between them. -/
theorem retry_recognised_after_another : ∃ (s₂ : System) (answer : WriteResult),
    run (step (service typedFormat)) (.quiet (first typedFormat).1)
      [.start 0 healthy { put with key := "l" }, .advance 0 healthy] = some s₂ ∧
    s₂.state.writeKeyValue (service typedFormat) { healthy with now := 5 } { put with value := [2] } =
      (s₂.state, .ok answer) ∧ answer.isDuplicate = true := by
  have hfirst : (first typedFormat).2.toOption.isSome = true := by decide +kernel
  have hrun : (run (step (service typedFormat)) (.quiet (first typedFormat).1)
      [.start 0 healthy { put with key := "l" }, .advance 0 healthy]).isSome = true := by
    decide +kernel
  obtain ⟨result, hresult⟩ : ∃ result, (first typedFormat).2 = .ok result := by
    cases h : (first typedFormat).2 with
    | error err => simp [h, Except.toOption] at hfirst
    | ok result => exact ⟨result, rfl⟩
  obtain ⟨s₂, hs₂⟩ := Option.isSome_iff_exists.mp hrun
  have hok : init.writeKeyValue (service typedFormat) healthy put =
      ((first typedFormat).1, .ok result) := Prod.ext rfl hresult
  obtain ⟨answer, hanswer, hdup, -⟩ := (@retry_recognised (service typedFormat) init healthy put _ s₂
    result { healthy with now := 5 } { put with value := [2] } _ (by decide) rfl hok hs₂
    (by decide +kernel) (by decide +kernel) ⟨rfl, rfl, rfl⟩ rfl ⟨"one", rfl⟩).1 typed_typedFormat
  exact ⟨s₂, answer, hs₂, hanswer, hdup⟩

open Sample in
/-- With Redis the retry writes again. -/
theorem retry_writes_again :
    (first (redisFormat fun _ => "")).2.toOption.map WriteResult.success = some true ∧
    ((first (redisFormat fun _ => "")).1.store.lookup 5 put.storeKey).isSome = true ∧
    ((first (redisFormat fun _ => "")).1.writeKeyValue (service (redisFormat fun _ => ""))
      { healthy with now := 5 } put).2.toOption.map WriteResult.isDuplicate = some false ∧
    ((first (redisFormat fun _ => "")).1.writeKeyValue (service (redisFormat fun _ => ""))
      { healthy with now := 5 } put).1.writes = [put, put] := by
  decide +kernel

end Deduplicated

/-! ## Concurrent requests -/

/-- The request has an idempotency key, and its responses are kept in this place. -/
def WriteRequest.Carries (storeKey : String) (req : WriteRequest) : Prop :=
  req.idempotencyKey ≠ "" ∧ req.storeKey = storeKey

instance (storeKey : String) (req : WriteRequest) : Decidable (req.Carries storeKey) :=
  inferInstanceAs (Decidable (_ ∧ _))

namespace WritePhase

/-- A request with the key is about to write. -/
def Writing (storeKey : String) : WritePhase → Prop
  | .write req _ _ => req.Carries storeKey
  | .get _ | .store _ _ _ _ => False

/-- A request with the key is between its lookup and its record. -/
def Pending (storeKey : String) : WritePhase → Prop
  | .get _ => False
  | .write req _ _ | .store req _ _ _ => req.Carries storeKey

/-- A request with a key puts its response where it looked for one. -/
def Placed : WritePhase → Prop
  | .get _ => True
  | .write req _ storeKey | .store req _ storeKey _ =>
    req.idempotencyKey ≠ "" → req.storeKey = storeKey

instance (storeKey : String) : DecidablePred (Writing storeKey)
  | .write req _ _ => inferInstanceAs (Decidable (req.Carries storeKey))
  | .get _ | .store _ _ _ _ => inferInstanceAs (Decidable False)

instance (storeKey : String) : DecidablePred (Pending storeKey)
  | .get _ => inferInstanceAs (Decidable False)
  | .write req _ _ | .store req _ _ _ => inferInstanceAs (Decidable (req.Carries storeKey))

end WritePhase

namespace Deduplicated

variable {svc : IdempotencyService} {s s' : Deduplicated} {env : WriteEnv} {req : WriteRequest}
  {consistency storeKey : String} {rest : List WritePhase} {next : Option WritePhase}

/-- How many requests with the key have written or are about to. -/
def executions (storeKey : String) (s : Deduplicated) (phases : List WritePhase) : Nat :=
  s.writes.countP (fun req => req.Carries storeKey) +
    phases.countP fun p => p.Writing storeKey

@[simp] theorem executions_get : executions storeKey s (.get req :: rest) =
    executions storeKey s rest := by
  have hnot : ¬ WritePhase.Writing storeKey (.get req) := id
  simp [executions, hnot]

@[simp] theorem executions_store {k : String} {result : WriteResult} :
    executions storeKey s (.store req consistency k result :: rest) =
      executions storeKey s rest := by
  have hnot : ¬ WritePhase.Writing storeKey (.store req consistency k result) := id
  simp [executions, hnot]

theorem executions_write {k : String} : executions storeKey s (.write req consistency k :: rest) =
    executions storeKey s rest + if req.Carries storeKey then 1 else 0 := by
  have hiff : WritePhase.Writing storeKey (.write req consistency k) ↔ req.Carries storeKey :=
    Iff.rfl
  simp [executions, List.countP_cons, hiff, Nat.add_assoc]

theorem executions_of_writes (hwrites : s'.writes = s.writes ++ [req]) :
    executions storeKey s' rest =
      executions storeKey s rest + if req.Carries storeKey then 1 else 0 := by
  rw [executions, executions, hwrites, List.countP_append, List.countP_singleton]
  simp only [decide_eq_true_eq]
  omega

theorem executions_congr (hwrites : s'.writes = s.writes) :
    executions storeKey s' rest = executions storeKey s rest := by
  rw [executions, executions, hwrites]

/-- What the state and the phases have in common in every run. -/
structure Invariant (svc : IdempotencyService) (storeKey : String) (s : Deduplicated)
    (phases : List WritePhase) : Prop where
  placed : ∀ p ∈ phases, p.Placed
  typed : ∀ k data expiry, s.store.get? k = some (data, expiry) →
    ∃ r, svc.format.unmarshal data = .ok (.response r)
  once : executions storeKey s phases ≤ 1
  /-- A request that has written has left a response, or will do so. -/
  recorded : 0 < executions storeKey s phases →
    s.store.get? storeKey ≠ none ∨ ∃ p ∈ phases, p.Pending storeKey

theorem Invariant.perm {phases phases' : List WritePhase} (h : Invariant svc storeKey s phases)
    (hperm : phases.Perm phases') : Invariant svc storeKey s phases' := by
  have hcount : executions storeKey s phases' = executions storeKey s phases := by
    rw [executions, executions, hperm.countP_eq]
  refine ⟨fun p hp => h.placed p (hperm.mem_iff.mpr hp), h.typed, hcount ▸ h.once, ?_⟩
  rw [hcount]
  intro hpos
  rcases h.recorded hpos with hstored | ⟨p, hp, hpending⟩
  · exact Or.inl hstored
  · exact Or.inr ⟨p, hperm.mem_iff.mp hp, hpending⟩

/-- A turn of a request, when no other request with its key is between its lookup and its record,
the entry has not expired, the replicas answer, and the store works. -/
def Undisturbed (s : Deduplicated) (phases : List WritePhase) (env : WriteEnv) : WritePhase → Prop
  | .get req => req.idempotencyKey ≠ "" → env.getError = none ∧
    (∀ p ∈ phases, ¬ p.Pending req.storeKey) ∧
    ∀ entry ∈ s.store.get? req.storeKey, ∀ e ∈ entry.2, env.now < e
  | .write req consistency _ => ReachesQuorum env req consistency
  | .store _ _ _ _ => env.setError = none

/-- The lookup of an undisturbed request finds what was stored. -/
theorem executions_eq_zero
    (hI : Invariant svc req.storeKey s (.get req :: rest)) (hkey : req.idempotencyKey ≠ "")
    (hc : Undisturbed s (.get req :: rest) env (.get req))
    (hmiss : ∀ r, svc.get s.store env.now env.getError req.storeKey ≠ .ok (some r)) :
    executions req.storeKey s (.get req :: rest) = 0 := by
  obtain ⟨hget, hnone, hexpiry⟩ := hc hkey
  by_contra hpos
  rcases hI.recorded (Nat.pos_of_ne_zero hpos) with hstored | ⟨p, hp, hpending⟩
  · obtain ⟨⟨data, expiry⟩, hentry⟩ := Option.ne_none_iff_exists'.mp hstored
    obtain ⟨r, hr⟩ := hI.typed _ data expiry hentry
    refine hmiss r (IdempotencyService.get_eq_some.mpr ⟨hget, data, ?_, hr⟩)
    exact IdempotencyStore.lookup_eq_some.mpr ⟨expiry, hentry, hexpiry _ hentry⟩
  · exact hnone p hp hpending

theorem invariant_get (hI : Invariant svc storeKey s (.get req :: rest))
    (hc : Undisturbed s (.get req :: rest) env (.get req))
    (hnext : ∀ p ∈ next, ∃ consistency, p = .write req consistency (place env req) ∧
      (req.idempotencyKey ≠ "" → ∀ r,
        svc.get s.store env.now env.getError req.storeKey ≠ .ok (some r))) :
    Invariant svc storeKey s (next.toList ++ rest) := by
  have hplaced : ∀ p ∈ rest, p.Placed := fun p hp => hI.placed p (List.mem_cons_of_mem _ hp)
  have honce := hI.once
  have hrecorded := hI.recorded
  simp only [executions_get, List.exists_mem_cons_iff, WritePhase.Pending, false_or]
    at honce hrecorded
  cases next with
  | none => exact ⟨hplaced, hI.typed, honce, hrecorded⟩
  | some p =>
    obtain ⟨consistency, rfl, hmiss⟩ := hnext p rfl
    have hplace : WritePhase.Placed (.write req consistency (place env req)) :=
      fun hkey => (if_pos hkey).symm
    refine ⟨List.forall_mem_cons.mpr ⟨hplace, hplaced⟩, hI.typed, ?_, ?_⟩
    · rw [Option.toList_some, List.singleton_append, executions_write]
      split
      · -- nobody has written with this key
        next hcarries =>
        obtain ⟨hkey, rfl⟩ := hcarries
        have hzero := executions_eq_zero hI hkey hc (hmiss hkey)
        rw [executions_get] at hzero
        omega
      · exact honce
    · rw [Option.toList_some, List.singleton_append, executions_write]
      split
      · next hcarries => exact fun _ => Or.inr ⟨_, List.mem_cons_self, hcarries⟩
      · intro hpos
        exact (hrecorded hpos).imp_right fun ⟨p, hp, hpending⟩ =>
          ⟨p, List.mem_cons_of_mem _ hp, hpending⟩

theorem invariant_write {k : String}
    (hI : Invariant svc storeKey s (.write req consistency k :: rest))
    (hc : ReachesQuorum env req consistency) (hstore : s'.store = s.store)
    (hnext : (s'.writes = s.writes ∧ next = none) ∨
      (s'.writes = s.writes ++ [req] ∧ (ReachesQuorum env req consistency → next ≠ none) ∧
        ∀ p ∈ next, ∃ result, p = .store req consistency k result)) :
    Invariant svc storeKey s' (next.toList ++ rest) := by
  have hplaced : ∀ p ∈ rest, p.Placed := fun p hp => hI.placed p (List.mem_cons_of_mem _ hp)
  have htyped : ∀ k data expiry, s'.store.get? k = some (data, expiry) →
      ∃ r, svc.format.unmarshal data = .ok (.response r) := by
    rw [hstore]
    exact hI.typed
  have honce := hI.once
  have hrecorded := hI.recorded
  rw [executions_write] at honce hrecorded
  rcases hnext with ⟨hwrites, rfl⟩ | ⟨hwrites, hsome, hnext⟩
  · -- the request gives up before it writes
    refine ⟨hplaced, htyped, ?_, ?_⟩
    · rw [Option.toList_none, List.nil_append, executions_congr hwrites]
      omega
    · rw [Option.toList_none, List.nil_append, executions_congr hwrites, hstore]
      intro hpos
      have hnot : ¬ req.Carries storeKey := by
        intro hcarries
        rw [if_pos hcarries] at honce
        omega
      rcases hrecorded (Nat.add_pos_left hpos _) with hstored | ⟨p, hp, hpending⟩
      · exact Or.inl hstored
      · rcases List.mem_cons.mp hp with rfl | hp
        · exact absurd hpending hnot
        · exact Or.inr ⟨p, hp, hpending⟩
  · obtain ⟨p, rfl⟩ := Option.ne_none_iff_exists'.mp (hsome hc)
    obtain ⟨result, rfl⟩ := hnext p rfl
    have hplace : WritePhase.Placed (.write req consistency k) := hI.placed _ List.mem_cons_self
    refine ⟨List.forall_mem_cons.mpr ⟨hplace, hplaced⟩, htyped, ?_, ?_⟩
    · rw [Option.toList_some, List.singleton_append, executions_store,
        executions_of_writes hwrites]
      exact honce
    · rw [Option.toList_some, List.singleton_append, executions_store,
        executions_of_writes hwrites, hstore]
      intro hpos
      rcases hrecorded hpos with hstored | ⟨p, hp, hpending⟩
      · exact Or.inl hstored
      · rcases List.mem_cons.mp hp with rfl | hp
        · exact Or.inr ⟨_, List.mem_cons_self, hpending⟩
        · exact Or.inr ⟨p, List.mem_cons_of_mem _ hp, hpending⟩

theorem invariant_store {k : String} {result : WriteResult} (htyped : svc.format.Typed)
    (hI : Invariant svc storeKey s (.store req consistency k result :: rest))
    (hset : env.setError = none) :
    Invariant svc storeKey (s.storeResponse svc env req consistency k result) rest := by
  have hentry : ∀ k', (s.storeResponse svc env req consistency k result).store.get? k' =
      if k = k' then some (svc.format.marshal (responseOf env req consistency result),
        if svc.ttl > 0 then some (env.now + svc.ttl) else none) else s.store.get? k' := by
    intro k'
    rw [storeResponse, hset]
    exact IdempotencyStore.get?_put _ _ _ _ _ _
  have hwrites : (s.storeResponse svc env req consistency k result).writes = s.writes := by
    rw [storeResponse, hset]
  have honce := hI.once
  have hrecorded := hI.recorded
  rw [executions_store] at honce hrecorded
  refine ⟨fun p hp => hI.placed p (List.mem_cons_of_mem _ hp), ?_, ?_, ?_⟩
  · intro k' data expiry hget
    rw [hentry] at hget
    split at hget
    · cases hget
      exact ⟨_, htyped _⟩
    · exact hI.typed k' data expiry hget
  · rw [executions_congr hwrites]
    exact honce
  · rw [executions_congr hwrites, hentry]
    intro hpos
    rcases hrecorded hpos with hstored | ⟨p, hp, hpending⟩
    · refine Or.inl ?_
      split
      · exact Option.some_ne_none _
      · exact hstored
    · rcases List.mem_cons.mp hp with rfl | hp
      · -- the request leaves its response where it looked for one
        have hplace : req.storeKey = k := hI.placed _ List.mem_cons_self hpending.1
        rw [if_pos (hplace.symm.trans hpending.2)]
        exact Or.inl (Option.some_ne_none _)
      · exact Or.inr ⟨p, hp, hpending⟩

/-- One turn. -/
theorem invariant_turn {phase : WritePhase} (htyped : svc.format.Typed)
    (hI : Invariant svc storeKey s (phase :: rest))
    (hc : Undisturbed s (phase :: rest) env phase)
    (ht : turn svc s env phase = some (s', next)) :
    Invariant svc storeKey s' (next.toList ++ rest) := by
  rcases turn_cases ht with ⟨req, rfl, rfl, hnext⟩ | ⟨req, consistency, k, rfl, hstore, hnext⟩ |
    ⟨req, consistency, k, result, rfl, rfl, rfl⟩
  · exact invariant_get hI hc hnext
  · exact invariant_write hI hc hstore hnext
  · exact invariant_store htyped hI hc

/-- The turn is undisturbed. -/
def UndisturbedTurn (s : System) : Turn → Prop
  | .start _ _ _ => True
  | .advance id env => ∀ phase ∈ s.phase? id, Undisturbed s.state s.phases env phase

instance (env : WriteEnv) (req : WriteRequest) (consistency : String) :
    Decidable (ReachesQuorum env req consistency) :=
  inferInstanceAs (Decidable (∀ nodes ∈ (replicas env req).toOption, _ = true))

instance (s : Deduplicated) (phases : List WritePhase) (env : WriteEnv) :
    (phase : WritePhase) → Decidable (Undisturbed s phases env phase)
  | .get _ => inferInstanceAs (Decidable (_ → _ ∧ _ ∧ _))
  | .write req consistency _ => inferInstanceAs (Decidable (ReachesQuorum env req consistency))
  | .store _ _ _ _ => inferInstanceAs (Decidable (_ = _))

instance (s : System) : (t : Turn) → Decidable (UndisturbedTurn s t)
  | .start _ _ _ => inferInstanceAs (Decidable True)
  | .advance id env =>
    inferInstanceAs (Decidable (∀ phase ∈ s.phase? id, Undisturbed s.state s.phases env phase))

theorem invariant_step (htyped : svc.format.Typed) (s : System) (t : Turn) (s' : System)
    (hI : Invariant svc storeKey s.state s.phases) (hc : UndisturbedTurn s t)
    (hstep : step svc s t = some s') : Invariant svc storeKey s'.state s'.phases := by
  cases t with
  | start id env req =>
    obtain ⟨hstate, hphases⟩ := Concurrent.step_start hstep
    rw [hstate, hphases]
    refine Invariant.perm ?_ List.perm_append_comm
    refine ⟨List.forall_mem_cons.mpr ⟨trivial, hI.placed⟩, hI.typed, ?_, ?_⟩
    · exact executions_get.trans_le hI.once
    · intro hpos
      exact (hI.recorded (executions_get ▸ hpos)).imp_right fun ⟨p, hp, hpending⟩ =>
        ⟨p, List.mem_cons_of_mem _ hp, hpending⟩
  | advance id env =>
    obtain ⟨phase, next, rest, hphase, hturn, hbefore, hafter⟩ := Concurrent.step_advance_perm hstep
    have hturnOk : Undisturbed s.state (phase :: rest) env phase := by
      have hundisturbed := hc phase hphase
      cases phase with
      | get req =>
        intro hkey
        obtain ⟨hget, hnone, hexpiry⟩ := hundisturbed hkey
        exact ⟨hget, fun p hp => hnone p (hbefore.mem_iff.mpr hp), hexpiry⟩
      | write req consistency k => exact hundisturbed
      | store req consistency k result => exact hundisturbed
    exact (invariant_turn htyped (hI.perm hbefore) hturnOk hturn).perm hafter.symm

theorem invariant_init : Invariant svc storeKey init [] where
  placed := by simp
  typed := by simp [init, Map.get?_empty]
  once := by simp [executions, init]
  recorded := by simp [executions, init]

/-- Every turn of the run is undisturbed. -/
def Undisturbedly (svc : IdempotencyService) (turns : List Turn) : Prop :=
  AllSteps (step svc) UndisturbedTurn (.quiet init) turns

/--
**At most one write for an idempotency key.** Requests run in any interleaving, over a store that
gives back what it was given. If at the lookup of a request no other request with its key is between
its own lookup and its record, and the entry has not expired, and every write reaches its quorum,
then of the requests with one tenant, key and idempotency key at most one writes.
-/
theorem writes_at_most_once_of_run {turns : List Turn} {s : System} (htyped : svc.format.Typed)
    (hrun : run (step svc) (.quiet init) turns = some s) (hc : Undisturbedly svc turns)
    (hkey : req.idempotencyKey ≠ "") :
    s.state.writes.countP (fun w => w.tenantID = req.tenantID ∧ w.key = req.key ∧
      w.idempotencyKey = req.idempotencyKey) ≤ 1 := by
  have hI : Invariant svc req.storeKey s.state s.phases :=
    run_invariant (invariant_step htyped) invariant_init hc hrun
  calc s.state.writes.countP _
      ≤ s.state.writes.countP (fun w => w.Carries req.storeKey) := by
        refine List.countP_mono_left fun w _ hw => ?_
        simp only [decide_eq_true_eq] at hw ⊢
        obtain ⟨htenant, hname, hidem⟩ := hw
        refine ⟨hidem ▸ hkey, ?_⟩
        rw [WriteRequest.storeKey, htenant, hname, hidem, WriteRequest.storeKey]
    _ ≤ executions req.storeKey s.state s.phases := Nat.le_add_right _ _
    _ ≤ 1 := hI.once

namespace Sample

/-- A request after another one with its key has ended. -/
def oneAfterAnother : List Turn :=
  [.start 0 healthy put, .advance 0 healthy, .advance 0 healthy, .advance 0 healthy, .start 1 healthy put,
    .advance 1 healthy]

/-- Both requests look for a response before one of them leaves it. -/
def overlapping : List Turn :=
  [.start 0 healthy put, .start 1 healthy put, .advance 0 healthy, .advance 1 healthy, .advance 0 healthy,
    .advance 0 healthy, .advance 1 healthy]

end Sample

open Sample in
theorem writes_at_most_once_oneAfterAnother :
    ∃ s, run (step (service typedFormat)) (.quiet init) oneAfterAnother = some s ∧
      Undisturbedly (service typedFormat) oneAfterAnother ∧
      s.state.writes.countP (fun w => w.tenantID = put.tenantID ∧ w.key = put.key ∧
        w.idempotencyKey = put.idempotencyKey) ≤ 1 := by
  have hsome : (run (step (service typedFormat)) (.quiet init) oneAfterAnother).isSome = true := by
    decide +kernel
  obtain ⟨s, hs⟩ := Option.isSome_iff_exists.mp hsome
  have hc : Undisturbedly (service typedFormat) oneAfterAnother := by
    unfold Undisturbedly
    decide +kernel
  exact ⟨s, hs, hc, writes_at_most_once_of_run typed_typedFormat hs hc (by decide)⟩

open Sample in
/-- The record of the first request comes too late for the second one. -/
theorem overlapping_requests_write_twice : typedFormat.Typed ∧
    ∃ s, run (step (service typedFormat)) (.quiet init) overlapping = some s ∧
      s.state.writes.countP (fun w => w.tenantID = put.tenantID ∧ w.key = put.key ∧
        w.idempotencyKey = put.idempotencyKey) = 2 := by
  have hwrites : (run (step (service typedFormat)) (.quiet init) overlapping).map
      (fun s => s.state.writes) = some [put, put] := by
    decide +kernel
  obtain ⟨s, hs, hw⟩ := Option.map_eq_some_iff.mp hwrites
  refine ⟨typed_typedFormat, s, hs, ?_⟩
  rw [hw]
  decide

end Deduplicated

end PairDB.Coordinator
