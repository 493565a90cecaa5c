import PairDB.Infra.Concurrent
import PairDB.Infra.Map

/-!
# `service.TenantService`, `store.InMemoryCache` and the table `tenants`

A tenant is read through a cache that holds pointers: whoever gets a tenant from the cache gets the
record itself. `UpdateReplicationFactor` writes to that record before it writes to the table. The
records of a coordinator are kept in a heap, and a pointer is an index (`ref`).

The second half has the same calls as turns of an interleaving, on any number of coordinators that
share the table. It also keeps which rows the coordinators have read.
-/

namespace PairDB.Coordinator

open Infra

/-- `model.Tenant`. Times are in nanoseconds. -/
structure Tenant where
  tenantID : String
  replicationFactor : Int
  createdAt : Int
  updatedAt : Int
  version : Int
  deriving DecidableEq, Repr

/-! ## The table -/

/-- The table `tenants`, by its primary key. -/
structure TenantTable where
  rows : Map String Tenant
  keyed : ∀ tenantID row, rows.get? tenantID = some row → row.tenantID = tenantID

namespace TenantTable

/-- `PostgresMetadataStore.GetTenant`. -/
def getTenant (table : TenantTable) (queryError : Option String) (tenantID : String) :
    Except String Tenant :=
  match queryError with
  | some err => .error ("failed to get tenant: " ++ err)
  | none =>
    match table.rows.get? tenantID with
    | none => .error "failed to get tenant: no rows in result set"
    | some row => .ok row

/-- The row is replaced by one with other columns. -/
def replace (table : TenantTable) (row tenant : Tenant) : TenantTable where
  rows := table.rows.set tenant.tenantID
    { row with
      tenantID := tenant.tenantID
      replicationFactor := tenant.replicationFactor
      updatedAt := tenant.updatedAt
      version := tenant.version }
  keyed tenantID other h := by
    rw [Map.get?_set] at h
    split at h
    · next heq =>
      cases h
      exact heq
    · exact table.keyed tenantID other h

/-- `PostgresMetadataStore.UpdateTenant`. The table has a constraint on the replication factor. -/
def updateTenant (table : TenantTable) (execError : Option String) (tenant : Tenant) :
    Except String TenantTable :=
  match execError with
  | some err => .error err
  | none =>
    match table.rows.get? tenant.tenantID with
    | none => .error "tenant not found or version mismatch"
    | some row =>
      if row.version ≠ tenant.version - 1 then .error "tenant not found or version mismatch"
      else if tenant.replicationFactor < 1 ∨ tenant.replicationFactor > 5 then
        .error "new row for relation \"tenants\" violates check constraint"
      else .ok (table.replace row tenant)

end TenantTable

/-! ## The cache -/

/-- `cacheItem`. The value is a pointer to a tenant. -/
structure CacheItem where
  value : Nat
  expiresAt : Int
  deriving DecidableEq, Repr

/-- `InMemoryCache`. -/
structure InMemoryCache where
  data : Map String CacheItem
  maxSize : Int

namespace InMemoryCache

/-- `Get`. -/
def get (c : InMemoryCache) (now : Int) (key : String) : Option Nat :=
  match c.data.get? key with
  | none => none
  | some item => if now > item.expiresAt then none else some item.value

/-- The eviction of `Set`: an item that has expired, then any item. The two loops walk the map in
orders of their own. -/
def evict (c : InMemoryCache) (now : Int) (order order' : RangeOrder String) :
    Map String CacheItem :=
  if (c.data.keys.length : Int) ≥ c.maxSize then
    let data := ((order.visit c.data.keys).find? fun key =>
      (c.data.get? key).any fun item => now > item.expiresAt).elim c.data c.data.remove
    if (data.keys.length : Int) ≥ c.maxSize then
      (order'.visit data.keys).head?.elim data data.remove
    else data
  else c.data

/-- `Set`. -/
def set (c : InMemoryCache) (now : Int) (order order' : RangeOrder String) (key : String)
    (value : Nat) (ttl : Int) : InMemoryCache :=
  { c with data := (c.evict now order order').set key ⟨value, now + ttl⟩ }

/-- `Delete`. -/
def delete (c : InMemoryCache) (key : String) : InMemoryCache := { c with data := c.data.remove key }

/-- `cleanup`, once. -/
def cleanup (c : InMemoryCache) (now : Int) : InMemoryCache :=
  { c with
    data := c.data.keys.foldl (fun data key =>
      if (data.get? key).any fun item => now > item.expiresAt then data.remove key else data) c.data }

/-- No operation but `Set` adds an item. -/
theorem get?_evict {c : InMemoryCache} {now : Int} {order order' : RangeOrder String} {key : String}
    {item : CacheItem} (h : (c.evict now order order').get? key = some item) :
    c.data.get? key = some item := by
  have hremove : ∀ (data : Map String CacheItem) (victim : Option String),
      (victim.elim data data.remove).get? key = some item → data.get? key = some item := by
    intro data victim h
    cases victim with
    | none => exact h
    | some victim =>
      rw [Option.elim_some, Map.get?_remove] at h
      split at h
      · cases h
      · exact h
  unfold evict at h
  dsimp only at h
  split at h
  · split at h
    · exact hremove _ _ (hremove _ _ h)
    · exact hremove _ _ h
  · exact h

theorem get?_cleanup {c : InMemoryCache} {now : Int} {key : String} {item : CacheItem}
    (h : (c.cleanup now).data.get? key = some item) : c.data.get? key = some item := by
  suffices hfold : ∀ (keys : List String) (data : Map String CacheItem),
      (keys.foldl (fun data key => if (data.get? key).any fun item => now > item.expiresAt then
        data.remove key else data) data).get? key = some item → data.get? key = some item from
    hfold _ _ h
  intro keys
  induction keys with
  | nil => exact fun _ h => h
  | cons k keys ih =>
    intro data h
    have hdata := ih _ h
    dsimp only at hdata
    split at hdata
    · rw [Map.get?_remove] at hdata
      split at hdata
      · cases hdata
      · exact hdata
    · exact hdata

end InMemoryCache

/-! ## The service -/

/-- What a call reads from its surroundings: times, errors of the database, and the orders in which
the cache is walked. -/
structure TenantEnv where
  lookupAt : Int
  storeAt : Int
  updateAt : Int
  queryError : Option String
  execError : Option String
  order : RangeOrder String
  order' : RangeOrder String

/-- `TenantService`, with the records it has pointers to. -/
structure TenantService where
  cache : InMemoryCache
  cacheTTL : Int
  heap : Nat → Tenant
  nextRef : Nat

/-- `tenantCacheKey`. -/
def tenantCacheKey (tenantID : String) : String := "tenant:config:" ++ tenantID

namespace TenantService

/-- A new record. -/
def allocate (s : TenantService) (tenant : Tenant) : TenantService :=
  { s with heap := Function.update s.heap s.nextRef tenant, nextRef := s.nextRef + 1 }

/-- The record is written to. -/
def assign (s : TenantService) (ref : Nat) (tenant : Tenant) : TenantService :=
  { s with heap := Function.update s.heap ref tenant }

/-- The record becomes the value of the cache. -/
def setCache (s : TenantService) (env : TenantEnv) (tenantID : String) (ref : Nat) :
    TenantService :=
  let cache := s.cache.set env.storeAt env.order env.order' (tenantCacheKey tenantID) ref s.cacheTTL
  { s with cache }

/-- The tenant leaves the cache. -/
def invalidate (s : TenantService) (tenantID : String) : TenantService :=
  { s with cache := s.cache.delete (tenantCacheKey tenantID) }

/-- `GetTenant`. -/
def getTenant (s : TenantService) (table : TenantTable) (env : TenantEnv) (tenantID : String) :
    Except String Nat × TenantService :=
  match s.cache.get env.lookupAt (tenantCacheKey tenantID) with
  | some ref => (.ok ref, s)
  | none =>
    match table.getTenant env.queryError tenantID with
    | .error err => (.error ("failed to fetch tenant from metadata store: " ++ err), s)
    | .ok tenant => (.ok s.nextRef, (s.allocate tenant).setCache env tenantID s.nextRef)

/-- The record after the assignments of `UpdateReplicationFactor`. -/
def updated (tenant : Tenant) (newFactor now : Int) : Tenant :=
  { tenant with replicationFactor := newFactor, updatedAt := now, version := tenant.version + 1 }

/-- The check of the argument. -/
def invalidFactor (newFactor : Int) : Prop := newFactor < 1 ∨ newFactor > 10

instance (newFactor : Int) : Decidable (invalidFactor newFactor) :=
  inferInstanceAs (Decidable (_ ∨ _))

/-- What `UpdateReplicationFactor` does with the record of the tenant. -/
def updateRecord (s : TenantService) (table : TenantTable) (env : TenantEnv) (tenantID : String)
    (newFactor : Int) (ref : Nat) : Except String Nat × TenantService × TenantTable :=
  if (s.heap ref).replicationFactor = newFactor then (.ok ref, s, table)
  else
    let tenant := updated (s.heap ref) newFactor env.updateAt
    match table.updateTenant env.execError tenant with
    | .error err =>
      (.error ("failed to update tenant in metadata store: " ++ err), s.assign ref tenant, table)
    | .ok table => (.ok ref, (s.assign ref tenant).invalidate tenantID, table)

/-- `UpdateReplicationFactor`. -/
def updateReplicationFactor (s : TenantService) (table : TenantTable) (env : TenantEnv)
    (tenantID : String) (newFactor : Int) : Except String Nat × TenantService × TenantTable :=
  if invalidFactor newFactor then
    (.error ("invalid replication factor: " ++ toString newFactor ++ " (must be between 1 and 10)"),
      s, table)
  else
    match s.getTenant table env tenantID with
    | (.error err, s) => (.error ("failed to get tenant: " ++ err), s, table)
    | (.ok ref, s) => s.updateRecord table env tenantID newFactor ref

end TenantService

/-! ## The interleaving -/

/-- The table and the coordinators. -/
structure TenantCluster where
  table : TenantTable
  services : Nat → TenantService
  /-- The records as they were read from the table. -/
  fetched : Nat → Nat → Tenant
  /-- The row that a coordinator has last read from the table. -/
  obtained : Nat → String → Option Tenant

/-- A call on a coordinator. -/
inductive TenantRequest where
  | updateReplicationFactor (coordinator : Nat) (tenantID : String) (newFactor : Int)
  | cleanup (coordinator : Nat)

/-- How far a call is. -/
inductive TenantPhase where
  /-- The cache is asked. -/
  | lookup (coordinator : Nat) (tenantID : String) (newFactor : Int)
  /-- The row is read. -/
  | fetch (coordinator : Nat) (tenantID : String) (newFactor : Int)
  | setCache (coordinator : Nat) (tenantID : String) (newFactor : Int) (ref : Nat)
  /-- The factor is compared with the new one. -/
  | compare (coordinator : Nat) (tenantID : String) (newFactor : Int) (ref : Nat)
  /-- `tenant.ReplicationFactor` and `tenant.UpdatedAt` are written. -/
  | setFields (coordinator : Nat) (tenantID : String) (newFactor : Int) (ref : Nat)
  /-- `tenant.Version` is read to be incremented. -/
  | readVersion (coordinator : Nat) (tenantID : String) (ref : Nat)
  /-- `tenant.Version` is written. -/
  | writeVersion (coordinator : Nat) (tenantID : String) (ref : Nat) (read : Int)
  /-- The arguments of the statement are read. -/
  | save (coordinator : Nat) (tenantID : String) (ref : Nat)
  /-- The statement is executed. -/
  | execute (coordinator : Nat) (tenantID : String) (ref : Nat) (tenant : Tenant)
  | invalidate (coordinator : Nat) (tenantID : String)
  | cleanup (coordinator : Nat)

namespace TenantCluster

/-- The service of a coordinator changes. -/
def setService (c : TenantCluster) (coordinator : Nat) (service : TenantService) : TenantCluster :=
  { c with services := Function.update c.services coordinator service }

/-- The coordinator has a new record, with the row. -/
def fetchRow (c : TenantCluster) (coordinator : Nat) (tenantID : String) (row : Tenant) :
    TenantCluster :=
  let service := c.services coordinator
  { c.setService coordinator (service.allocate row) with
    fetched := Function.update c.fetched coordinator
      (Function.update (c.fetched coordinator) service.nextRef row)
    obtained := Function.update c.obtained coordinator
      (Function.update (c.obtained coordinator) tenantID (some row)) }

/-- The first phase of a call. -/
def enter (_ : TenantEnv) : TenantRequest → Option TenantPhase
  | .updateReplicationFactor coordinator tenantID newFactor =>
    if TenantService.invalidFactor newFactor then none
    else some (.lookup coordinator tenantID newFactor)
  | .cleanup coordinator => some (.cleanup coordinator)

/-- A turn of a call. -/
def turn (c : TenantCluster) (env : TenantEnv) :
    TenantPhase → Option (TenantCluster × Option TenantPhase)
  | .lookup k tenantID newFactor =>
    some (c, some (((c.services k).cache.get env.lookupAt (tenantCacheKey tenantID)).elim
      (.fetch k tenantID newFactor) (.compare k tenantID newFactor)))
  | .fetch k tenantID newFactor =>
    match c.table.getTenant env.queryError tenantID with
    | .error _ => some (c, none)
    | .ok row => some (c.fetchRow k tenantID row,
        some (.setCache k tenantID newFactor (c.services k).nextRef))
  | .setCache k tenantID newFactor ref =>
    some (c.setService k ((c.services k).setCache env tenantID ref),
      some (.compare k tenantID newFactor ref))
  | .compare k tenantID newFactor ref =>
    if ((c.services k).heap ref).replicationFactor = newFactor then some (c, none)
    else some (c, some (.setFields k tenantID newFactor ref))
  | .setFields k tenantID newFactor ref =>
    let service := c.services k
    some (c.setService k (service.assign ref
      { service.heap ref with replicationFactor := newFactor, updatedAt := env.updateAt }),
      some (.readVersion k tenantID ref))
  | .readVersion k tenantID ref =>
    some (c, some (.writeVersion k tenantID ref ((c.services k).heap ref).version))
  | .writeVersion k tenantID ref read =>
    let service := c.services k
    some (c.setService k (service.assign ref { service.heap ref with version := read + 1 }),
      some (.save k tenantID ref))
  | .save k tenantID ref => some (c, some (.execute k tenantID ref ((c.services k).heap ref)))
  | .execute k tenantID _ tenant =>
    match c.table.updateTenant env.execError tenant with
    | .error _ => some (c, none)
    | .ok table => some ({ c with table }, some (.invalidate k tenantID))
  | .invalidate k tenantID =>
    some (c.setService k ((c.services k).invalidate tenantID), none)
  | .cleanup k =>
    let service := c.services k
    some (c.setService k { service with cache := service.cache.cleanup env.storeAt }, none)

abbrev System := Concurrent.System TenantCluster TenantPhase

abbrev Turn := Concurrent.Turn TenantEnv TenantRequest

/-- A step of the interleaving. -/
def step (s : System) (t : Turn) : Option System := Concurrent.step enter turn s t

/-! ### A call by itself -/

open Concurrent TenantService

theorem services_setService (c : TenantCluster) (k : Nat) (service : TenantService) :
    (c.setService k service).services k = service := Function.update_self ..

/-- The turns from the comparison on. -/
theorem runTurns_compare (c : TenantCluster) (env : TenantEnv) (k : Nat) (tenantID : String)
    (newFactor : Int) (ref : Nat) :
    ∃ n c', runTurns turn (List.replicate n env) c (.compare k tenantID newFactor ref) =
        some (c', none) ∧
      (c'.services k, c'.table) =
        ((c.services k).updateRecord c.table env tenantID newFactor ref).2 := by
  unfold updateRecord
  by_cases hsame : ((c.services k).heap ref).replicationFactor = newFactor
  · rw [if_pos hsame]
    refine ⟨1, c, ?_, rfl⟩
    simp [runTurns, turn, hsame]
  · rw [if_neg hsame]
    -- the record after the two assignments
    let tenant := updated ((c.services k).heap ref) newFactor env.updateAt
    let c₁ := c.setService k ((c.services k).assign ref
      { (c.services k).heap ref with replicationFactor := newFactor, updatedAt := env.updateAt })
    let c₂ := c₁.setService k ((c₁.services k).assign ref
      { (c₁.services k).heap ref with version := ((c₁.services k).heap ref).version + 1 })
    have hcompare : c.turn env (.compare k tenantID newFactor ref) =
        some (c, some (.setFields k tenantID newFactor ref)) := if_neg hsame
    have hservice : c₂.services k = (c.services k).assign ref tenant := by
      simp [c₂, c₁, setService, assign, tenant, updated]
    have hheap : (c₂.services k).heap ref = tenant := by
      rw [hservice]
      exact Function.update_self ..
    have hsetFields : c.turn env (.setFields k tenantID newFactor ref) =
        some (c₁, some (.readVersion k tenantID ref)) := rfl
    have hreadVersion : c₁.turn env (.readVersion k tenantID ref) =
        some (c₁, some (.writeVersion k tenantID ref ((c₁.services k).heap ref).version)) := rfl
    have hwriteVersion : c₁.turn env
        (.writeVersion k tenantID ref ((c₁.services k).heap ref).version) =
          some (c₂, some (.save k tenantID ref)) := rfl
    have hsave : c₂.turn env (.save k tenantID ref) =
        some (c₂, some (.execute k tenantID ref tenant)) := by
      rw [turn, hheap]
    have hprepare : ∀ envs, runTurns turn (env :: env :: env :: env :: env :: envs) c
        (.compare k tenantID newFactor ref) =
          runTurns turn envs c₂ (.execute k tenantID ref tenant) := by
      intro envs
      rw [runTurns_cons hcompare, runTurns_cons hsetFields, runTurns_cons hreadVersion,
        runTurns_cons hwriteVersion, runTurns_cons hsave]
    have htable : c₂.table = c.table := rfl
    cases hupdate : c.table.updateTenant env.execError tenant with
    | error err =>
      refine ⟨6, c₂, ?_, ?_⟩
      · refine (hprepare [env]).trans ?_
        simp [runTurns, turn, htable, hupdate]
      · simp only [hservice, htable, tenant, hupdate]
    | ok table =>
      let c₃ : TenantCluster := { c₂ with table }
      have hexecute : c₂.turn env (.execute k tenantID ref tenant) =
          some (c₃, some (.invalidate k tenantID)) := by
        rw [turn, htable, hupdate]
      refine ⟨7, c₃.setService k ((c₃.services k).invalidate tenantID), ?_, ?_⟩
      · refine (hprepare [env, env]).trans ?_
        rw [runTurns_cons hexecute]
        rfl
      · simp only [services_setService, c₃, hservice, tenant, hupdate]
        rfl

/-- **A call by itself.** The turns of a call of `UpdateReplicationFactor`, one after another, are
the sequential function. -/
theorem runTurns_updateReplicationFactor (c : TenantCluster) (env : TenantEnv) (k : Nat)
    (tenantID : String) {newFactor : Int} (hvalid : ¬ invalidFactor newFactor) :
    ∃ n c', runTurns turn (List.replicate n env) c (.lookup k tenantID newFactor) =
        some (c', none) ∧
      (c'.services k, c'.table) =
        ((c.services k).updateReplicationFactor c.table env tenantID newFactor).2 := by
  unfold updateReplicationFactor TenantService.getTenant
  rw [if_neg hvalid]
  cases hcache : (c.services k).cache.get env.lookupAt (tenantCacheKey tenantID) with
  | some ref =>
    have hlookup : c.turn env (.lookup k tenantID newFactor) =
        some (c, some (.compare k tenantID newFactor ref)) := by
      rw [turn, hcache]
      rfl
    obtain ⟨n, c', hturns, heq⟩ := runTurns_compare c env k tenantID newFactor ref
    exact ⟨n + 1, c', (runTurns_cons hlookup _).trans hturns, heq⟩
  | none =>
    have hlookup : c.turn env (.lookup k tenantID newFactor) =
        some (c, some (.fetch k tenantID newFactor)) := by
      rw [turn, hcache]
      rfl
    cases hquery : c.table.getTenant env.queryError tenantID with
    | error err =>
      refine ⟨2, c, (runTurns_cons hlookup _).trans ?_, rfl⟩
      simp [runTurns, turn, hquery]
    | ok row =>
      let c₁ := c.fetchRow k tenantID row
      have hfetch : c.turn env (.fetch k tenantID newFactor) =
          some (c₁, some (.setCache k tenantID newFactor (c.services k).nextRef)) := by
        rw [turn, hquery]
      let c₂ := c₁.setService k ((c₁.services k).setCache env tenantID (c.services k).nextRef)
      have hset : c₁.turn env (.setCache k tenantID newFactor (c.services k).nextRef) =
          some (c₂, some (.compare k tenantID newFactor (c.services k).nextRef)) := rfl
      have hservice : c₂.services k =
          ((c.services k).allocate row).setCache env tenantID (c.services k).nextRef := by
        rw [services_setService]
        exact congrArg (TenantService.setCache · env tenantID _) (services_setService c k _)
      obtain ⟨n, c', hturns, heq⟩ :=
        runTurns_compare c₂ env k tenantID newFactor (c.services k).nextRef
      refine ⟨n + 3, c', ?_, ?_⟩
      · exact (runTurns_cons hlookup _).trans ((runTurns_cons hfetch _).trans
          ((runTurns_cons hset _).trans hturns))
      · rw [heq, hservice]
        rfl

end TenantCluster

end PairDB.Coordinator
