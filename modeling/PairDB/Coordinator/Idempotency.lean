import PairDB.Infra.Concurrent
import PairDB.Infra.JsonDecode
import PairDB.Coordinator.CoordinatorService
import PairDB.Coordinator.Routing
import PairDB.Coordinator.WriteProtocol

/-!
# `service.IdempotencyService` and `WriteKeyValue`

`WriteKeyValue` looks for the response of an earlier request with the same idempotency key, writes
to the replicas if there is none, and stores its own response. These are the three turns of a call;
requests to any coordinator run concurrently, and the coordinators share the store.

The store behind the service has an untyped interface: what it gives back has some dynamic type, and
the service accepts only a pointer to an `IdempotencyResponse`. How a store keeps and gives back a
response is its format; `redisFormat` is the one of `RedisIdempotencyStore`.
-/

namespace PairDB.Coordinator

open Infra

/-- `IdempotencyResponse`. -/
structure IdempotencyResponse where
  success : Bool
  key : String
  vectorClock : Bytes
  replicaCount : Nat
  consistency : String
  timestamp : Int
  deriving DecidableEq, Repr

/-- A value of type `interface{}`. -/
inductive Dynamic where
  | nil
  | response (r : IdempotencyResponse)
  /-- What `encoding/json` decodes into an empty interface. -/
  | json (v : Json)

/-- How a store keeps a response, and what it gives back. -/
structure StoreFormat where
  marshal : IdempotencyResponse → Bytes
  unmarshal : Bytes → Except String Dynamic

/-- `json.Marshal` of a response. -/
def IdempotencyResponse.toJson (formatTime : Int → String) (r : IdempotencyResponse) : Json :=
  .obj [("Success", .bool r.success), ("Key", .str r.key),
    ("VectorClock", Json.encodeBytes (some r.vectorClock)), ("ReplicaCount", .num r.replicaCount),
    ("Consistency", .str r.consistency), ("Timestamp", .str (formatTime r.timestamp))]

/-- `RedisIdempotencyStore`: JSON, decoded into an empty interface. -/
def redisFormat (formatTime : Int → String) : StoreFormat where
  marshal r := Json.bytes (r.toJson formatTime)
  unmarshal data :=
    match Json.ofBytes data with
    | none => .error "failed to unmarshal data"
    | some .null => .ok .nil
    | some v => .ok (.json v)

/-! ## The service -/

/-- `buildStoreKey`. -/
def buildStoreKey (tenantID key idempotencyKey : String) : String :=
  "idempotency:" ++ tenantID ++ ":" ++ key ++ ":" ++ idempotencyKey

/-- The entries of the store, with the time at which they expire. -/
abbrev IdempotencyStore := Map String (Bytes × Option Int)

namespace IdempotencyStore

/-- The bytes under a key, unless they have expired. -/
def lookup (store : IdempotencyStore) (now : Int) (storeKey : String) : Option Bytes :=
  (store.get? storeKey).bind fun (data, expiry) =>
    if expiry.elim true fun e => now < e then some data else none

/-- `Set`. A `ttl` of zero means that the entry does not expire. -/
def put (store : IdempotencyStore) (now ttl : Int) (storeKey : String) (data : Bytes) :
    IdempotencyStore :=
  store.set storeKey (data, if ttl > 0 then some (now + ttl) else none)

end IdempotencyStore

/-- `IdempotencyService`. -/
structure IdempotencyService where
  format : StoreFormat
  ttl : Int

/-- `IdempotencyService.Get`. -/
def IdempotencyService.get (svc : IdempotencyService) (store : IdempotencyStore) (now : Int)
    (getError : Option String) (storeKey : String) : Except String (Option IdempotencyResponse) :=
  match getError with
  | some err => .error ("failed to get idempotency response: " ++ err)
  | none =>
    match store.lookup now storeKey with
    | none => .ok none
    | some data =>
      match svc.format.unmarshal data with
      | .error err => .error ("failed to get idempotency response: " ++ err)
      | .ok .nil => .ok none
      | .ok (.response r) => .ok (some r)
      | .ok (.json _) => .error "invalid idempotency response type"

/-! ## `WriteKeyValue` -/

/-- The arguments of `WriteKeyValue`. -/
structure WriteRequest where
  tenantID : String
  key : String
  value : List UInt8
  consistency : String
  idempotencyKey : String
  deriving DecidableEq, Repr

/-- Where a response of the request is kept. -/
def WriteRequest.storeKey (req : WriteRequest) : String :=
  buildStoreKey req.tenantID req.key req.idempotencyKey

/-- What a turn of a request reads from its surroundings. -/
structure WriteEnv where
  now : Int
  coordinator : String
  defaultLevel : String
  /-- The errors of the store. -/
  getError : Option String
  setError : Option String
  /-- The key that `Generate` makes. -/
  generated : String
  /-- `GetTenant`: the replication factor. -/
  tenant : Except String Nat
  routing : RoutingService
  /-- What `readExistingValue` finds. -/
  existing : Option Version
  order : RangeOrder (String × Int)
  answers : (replicas : List StorageNode) → Arrivals WriteAnswer replicas

/-- What the requests share, and the writes to replicas that were made. -/
structure Deduplicated where
  store : IdempotencyStore
  vcService : String → VectorClockService
  writes : List WriteRequest

/-- How far a request is. `storeKey` is where its response goes. -/
inductive WritePhase where
  | get (req : WriteRequest)
  | write (req : WriteRequest) (consistency storeKey : String)
  | store (req : WriteRequest) (consistency storeKey : String) (result : WriteResult)

namespace Deduplicated

/-- Every coordinator has just started, and the store is empty. -/
def init : Deduplicated := ⟨∅, VectorClockService.new, []⟩

/-- The result for a request that was recognised. -/
def duplicate (req : WriteRequest) (cached : IdempotencyResponse) : WriteResult where
  success := cached.success
  key := req.key
  vectorClock := VectorClock.empty
  replicaCount := cached.replicaCount
  consistency := cached.consistency
  isDuplicate := true
  errorMessage := ""

/-- What the first turn comes to: an answer, or the level and the place of the response. -/
def check (svc : IdempotencyService) (s : Deduplicated) (env : WriteEnv) (req : WriteRequest) :
    Except (Except String WriteResult) (String × String) :=
  match ConsistencyService.normalizeConsistencyLevel env.defaultLevel req.consistency with
  | .error err => .error (.error err)
  | .ok consistency =>
    if req.idempotencyKey ≠ "" then
      match svc.get s.store env.now env.getError req.storeKey with
      -- an error of the lookup is only logged
      | .error _ => .ok (consistency, req.storeKey)
      | .ok none => .ok (consistency, req.storeKey)
      | .ok (some cached) => .error (.ok (duplicate req cached))
    else .ok (consistency, buildStoreKey req.tenantID req.key env.generated)

/-- The replicas of the request. -/
def replicas (env : WriteEnv) (req : WriteRequest) : Except String (List StorageNode) :=
  match env.tenant with
  | .error err => .error ("failed to get tenant configuration: " ++ err)
  | .ok replicationFactor =>
    match env.routing.getWriteReplicas req.tenantID req.key replicationFactor with
    | .error err => .error ("failed to get write replicas: " ++ err)
    | .ok replicas => .ok replicas

/-- The write to the replicas, with the clock it carries. -/
def writeReplicas (s : Deduplicated) (env : WriteEnv) (req : WriteRequest) (consistency : String)
    (replicas : List StorageNode) : WriteReturn :=
  writeToReplicasWithHints replicas req.tenantID req.key req.value
    (nextClock env.order req.tenantID (s.vcService env.coordinator) env.existing).1 consistency
    (env.answers replicas)

/-- The second turn. A write that does not reach its quorum has reached some replicas all the
same. -/
def execute (s : Deduplicated) (env : WriteEnv) (req : WriteRequest) (consistency : String) :
    Deduplicated × Except String WriteResult :=
  match replicas env req with
  | .error err => (s, .error err)
  | .ok replicas =>
    let written := s.writeReplicas env req consistency replicas
    let vcService := (nextClock env.order req.tenantID (s.vcService env.coordinator)
      env.existing).2
    ({ s with
      vcService := Function.update s.vcService env.coordinator vcService
      writes := s.writes ++ [req] },
      match written.err with
      | some err => .error err
      | none => .ok written.result)

/-- The response that is stored. -/
def responseOf (env : WriteEnv) (req : WriteRequest) (consistency : String) (result : WriteResult) :
    IdempotencyResponse where
  success := result.success
  key := req.key
  vectorClock := []
  replicaCount := result.replicaCount
  consistency := consistency
  timestamp := env.now

/-- The third turn. An error of the store is only logged. -/
def storeResponse (svc : IdempotencyService) (s : Deduplicated) (env : WriteEnv)
    (req : WriteRequest) (consistency storeKey : String) (result : WriteResult) : Deduplicated :=
  match env.setError with
  | some _ => s
  | none =>
    let data := svc.format.marshal (responseOf env req consistency result)
    { s with store := s.store.put env.now svc.ttl storeKey data }

/-- `WriteKeyValue`, when no other request comes between its turns. -/
def writeKeyValue (svc : IdempotencyService) (s : Deduplicated) (env : WriteEnv)
    (req : WriteRequest) : Deduplicated × Except String WriteResult :=
  match s.check svc env req with
  | .error answer => (s, answer)
  | .ok (consistency, storeKey) =>
    match s.execute env req consistency with
    | (s, .error err) => (s, .error err)
    | (s, .ok result) => (s.storeResponse svc env req consistency storeKey result, .ok result)

/-! ## Concurrent requests -/

/-- The first phase of a request. -/
def enter (_ : WriteEnv) (req : WriteRequest) : Option WritePhase := some (.get req)

/-- A turn of a request. -/
def turn (svc : IdempotencyService) (s : Deduplicated) (env : WriteEnv) :
    WritePhase → Option (Deduplicated × Option WritePhase)
  | .get req =>
    match s.check svc env req with
    | .error _ => some (s, none)
    | .ok (consistency, storeKey) => some (s, some (.write req consistency storeKey))
  | .write req consistency storeKey =>
    match s.execute env req consistency with
    | (s, .error _) => some (s, none)
    | (s, .ok result) => some (s, some (.store req consistency storeKey result))
  | .store req consistency storeKey result =>
    some (s.storeResponse svc env req consistency storeKey result, none)

abbrev System := Concurrent.System Deduplicated WritePhase

abbrev Turn := Concurrent.Turn WriteEnv WriteRequest

/-- A step of the interleaving. -/
def step (svc : IdempotencyService) (s : System) (t : Turn) : Option System :=
  Concurrent.step enter (turn svc) s t

end Deduplicated

end PairDB.Coordinator
