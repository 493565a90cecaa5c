import PairDB.Coordinator.TenantService

/-!
# The configuration of a tenant

`UpdateReplicationFactor` changes the record in the cache before it changes the table, and nobody
changes it back if `UpdateTenant` fails.

* On a single coordinator, the cache agrees with the table and a call that returns without an error
  has stored its factor, as long as no `UpdateTenant` fails (`keeps_of_run`).
* The version that guards an update is that of the record. It is the version that was read as long
  as every call begins with a record that is as it was read; then every update that succeeds
  overwrites the row that its coordinator has last read (`overwritesObtained_of_run`).
-/

namespace PairDB.Coordinator

open Infra

theorem tenantCacheKey_injective {a b : String} (h : tenantCacheKey a = tenantCacheKey b) :
    a = b := by
  simpa [tenantCacheKey] using h

namespace TenantTable

variable {table table' : TenantTable} {execError : Option String} {tenant : Tenant}

/-- What an update that succeeds has found and done. -/
theorem updateTenant_eq_ok (h : table.updateTenant execError tenant = .ok table') :
    ∃ row, table.rows.get? tenant.tenantID = some row ∧ row.version = tenant.version - 1 ∧
      table' = table.replace row tenant := by
  unfold updateTenant at h
  split at h
  · cases h
  · split at h
    · cases h
    · next row hrow =>
      split at h
      · cases h
      · next hversion =>
        split at h
        · cases h
        · cases h
          exact ⟨row, hrow, not_not.mp hversion, rfl⟩

theorem getTenant_eq_ok {queryError : Option String} {tenantID : String} {row : Tenant}
    (h : table.getTenant queryError tenantID = .ok row) : table.rows.get? tenantID = some row := by
  unfold getTenant at h
  split at h
  · cases h
  · split at h
    · cases h
    · next row' hrow =>
      cases h
      exact hrow

theorem get?_replace (table : TenantTable) (row tenant : Tenant) (tenantID : String) :
    (table.replace row tenant).rows.get? tenantID =
      if tenant.tenantID = tenantID then
        some { row with
          tenantID := tenant.tenantID
          replicationFactor := tenant.replicationFactor
          updatedAt := tenant.updatedAt
          version := tenant.version }
      else table.rows.get? tenantID := Map.get?_set ..

end TenantTable

/-! ## One coordinator -/

/-- The only coordinator, and the table. -/
structure TenantState where
  service : TenantService
  table : TenantTable

/-- A call. -/
inductive TenantCall where
  | getTenant (env : TenantEnv) (tenantID : String)
  | updateReplicationFactor (env : TenantEnv) (tenantID : String) (newFactor : Int)
  | cleanup (now : Int)

/-- `NewTenantService` with a new cache. -/
def TenantService.new (maxSize cacheTTL : Int) : TenantService where
  cache := ⟨∅, maxSize⟩
  cacheTTL := cacheTTL
  heap := fun _ => ⟨"", 0, 0, 0, 0⟩
  nextRef := 0

namespace TenantState

def init (table : TenantTable) (maxSize cacheTTL : Int) : TenantState :=
  ⟨.new maxSize cacheTTL, table⟩

/-- What an update returns. -/
def update (s : TenantState) (env : TenantEnv) (tenantID : String) (newFactor : Int) :
    Except String Nat × TenantState :=
  let r := s.service.updateReplicationFactor s.table env tenantID newFactor
  (r.1, ⟨r.2.1, r.2.2⟩)

/-- The state after a call. -/
def step (s : TenantState) : TenantCall → Option TenantState
  | .getTenant env tenantID =>
    some { s with service := (s.service.getTenant s.table env tenantID).2 }
  | .updateReplicationFactor env tenantID newFactor => some (s.update env tenantID newFactor).2
  | .cleanup now =>
    let cache := s.service.cache.cleanup now
    some { s with service := { s.service with cache } }

/-- The replication factor and the version that `GetTenant` returns. -/
def observed (s : TenantState) (env : TenantEnv) (tenantID : String) : Option (Int × Int) :=
  match s.service.getTenant s.table env tenantID with
  | (.ok ref, service) => some ((service.heap ref).replicationFactor, (service.heap ref).version)
  | (.error _, _) => none

/-- What should hold for an update: after an error, `GetTenant` returns what it returned before;
without one, the table has the factor. -/
def Keeps (s : TenantState) : TenantCall → Prop
  | .updateReplicationFactor env tenantID newFactor =>
    (∀ err, (s.update env tenantID newFactor).1 = .error err →
      ∀ before after : TenantEnv, before.queryError = none → after.queryError = none →
        (s.update env tenantID newFactor).2.observed after tenantID =
          s.observed before tenantID) ∧
    ∀ ref, (s.update env tenantID newFactor).1 = .ok ref →
      ((s.update env tenantID newFactor).2.table.rows.get? tenantID).map
        Tenant.replicationFactor = some newFactor
  | _ => True

/-- The condition on a call: `UpdateTenant` succeeds, or it is not called, because the factor is not
valid, is that of the row, or there is no row. -/
def Saves (s : TenantState) : TenantCall → Prop
  | .updateReplicationFactor env tenantID newFactor =>
    env.execError = none ∧ newFactor ≤ 5 ∨ TenantService.invalidFactor newFactor ∨
      ∀ row ∈ s.table.rows.get? tenantID, row.replicationFactor = newFactor
  | _ => True

/-- The record says what the row says. -/
structure Agrees (record row : Tenant) : Prop where
  tenantID : record.tenantID = row.tenantID
  replicationFactor : record.replicationFactor = row.replicationFactor
  version : record.version = row.version

/-- **The cache agrees with the table.** -/
def InSync (s : TenantState) : Prop :=
  ∀ tenantID item, s.service.cache.data.get? (tenantCacheKey tenantID) = some item →
    item.value < s.service.nextRef ∧ ∃ row, s.table.rows.get? tenantID = some row ∧
      Agrees (s.service.heap item.value) row

variable {s : TenantState} {env : TenantEnv} {tenantID : String} {ref : Nat}
  {service : TenantService} {err : String}

/-! ### `GetTenant` -/

theorem getTenant_error (h : s.service.getTenant s.table env tenantID = (.error err, service)) :
    service = s.service := by
  unfold TenantService.getTenant at h
  split at h
  · cases h
  · split at h
    · cases h
      rfl
    · cases h

/-- A tenant that was found is in the table, and its record agrees with the row. -/
theorem getTenant_ok (hs : s.InSync)
    (h : s.service.getTenant s.table env tenantID = (.ok ref, service)) :
    InSync ⟨service, s.table⟩ ∧ ∃ row,
      s.table.rows.get? tenantID = some row ∧ Agrees (service.heap ref) row := by
  unfold TenantService.getTenant at h
  split at h
  · next hcache =>
    cases h
    unfold InMemoryCache.get at hcache
    split at hcache
    · cases hcache
    · next item hitem =>
      split at hcache
      · cases hcache
      · cases hcache
        exact ⟨hs, (hs tenantID item hitem).2⟩
  · split at h
    · cases h
    · next tenant htenant =>
      have hrow := TenantTable.getTenant_eq_ok htenant
      cases h
      have hnew : ((s.service.allocate tenant).setCache env tenantID s.service.nextRef).heap
          s.service.nextRef = tenant := Function.update_self ..
      refine ⟨fun other item hitem => ?_, tenant, hrow, ?_⟩
      · -- the new item, or one that was there before
        have hitem' : (Map.set _ _ _).get? (tenantCacheKey other) = some item := hitem
        rw [Map.get?_set] at hitem'
        split at hitem'
        · next hkey =>
          cases hitem'
          rw [← tenantCacheKey_injective hkey]
          refine ⟨Nat.lt_succ_self _, tenant, hrow, ?_⟩
          rw [hnew]
          exact ⟨rfl, rfl, rfl⟩
        · obtain ⟨hlt, row, hrow', hagrees⟩ := hs other item (InMemoryCache.get?_evict hitem')
          refine ⟨Nat.lt_succ_of_lt hlt, row, hrow', ?_⟩
          show Agrees (Function.update s.service.heap s.service.nextRef tenant item.value) row
          rw [Function.update_of_ne hlt.ne]
          exact hagrees
      · rw [hnew]
        exact ⟨rfl, rfl, rfl⟩

/-- So `GetTenant` returns what the table has. -/
theorem observed_of_inSync (hs : s.InSync) (hquery : env.queryError = none) (tenantID : String) :
    s.observed env tenantID = (s.table.rows.get? tenantID).map fun row =>
      (row.replicationFactor, row.version) := by
  unfold observed
  split
  · next ref service hget =>
    obtain ⟨-, row, hrow, hagrees⟩ := getTenant_ok hs hget
    rw [hrow, Option.map_some, hagrees.replicationFactor, hagrees.version]
  · next err service hget =>
    unfold TenantService.getTenant at hget
    split at hget
    · cases hget
    · split at hget
      · next hmissing =>
        unfold TenantTable.getTenant at hmissing
        rw [hquery] at hmissing
        dsimp only at hmissing
        split at hmissing
        · next hnone => rw [hnone, Option.map_none]
        · cases hmissing
      · cases hget

/-! ### `UpdateReplicationFactor` -/

/-- The update of a record that agrees with its row. -/
theorem updateRecord_of_agrees {newFactor : Int} {row : Tenant} (hs : InSync ⟨service, s.table⟩)
    (hrow : s.table.rows.get? tenantID = some row) (hagrees : Agrees (service.heap ref) row)
    (hsaves : env.execError = none ∧ newFactor ≤ 5 ∨ row.replicationFactor = newFactor)
    (hvalid : ¬ TenantService.invalidFactor newFactor) :
    let r := service.updateRecord s.table env tenantID newFactor ref
    r.1 = .ok ref ∧ InSync ⟨r.2.1, r.2.2⟩ ∧
      (r.2.2.rows.get? tenantID).map Tenant.replicationFactor = some newFactor := by
  intro r
  have hid : row.tenantID = tenantID := s.table.keyed tenantID row hrow
  by_cases hsame : (service.heap ref).replicationFactor = newFactor
  · have hr : r = (.ok ref, service, s.table) := if_pos hsame
    rw [hr]
    refine ⟨rfl, hs, ?_⟩
    rw [hrow, Option.map_some, ← hagrees.replicationFactor, hsame]
  · -- the statement finds the version that was read
    have hdb := hsaves.resolve_right fun heq => hsame (hagrees.replicationFactor.trans heq)
    have hvalid' : 1 ≤ newFactor := by
      rw [TenantService.invalidFactor] at hvalid
      omega
    let tenant := TenantService.updated (service.heap ref) newFactor env.updateAt
    have htenantID : tenant.tenantID = tenantID := hagrees.tenantID.trans hid
    have hupdate : s.table.updateTenant env.execError tenant = .ok (s.table.replace row tenant) := by
      unfold TenantTable.updateTenant
      rw [hdb.1, htenantID, hrow]
      dsimp only
      have hversion : row.version = tenant.version - 1 := by
        rw [← hagrees.version]
        exact (add_sub_cancel_right _ _).symm
      have hfactor : ¬ (tenant.replicationFactor < 1 ∨ tenant.replicationFactor > 5) := by
        show ¬ (newFactor < 1 ∨ newFactor > 5)
        omega
      rw [if_neg (not_not.mpr hversion), if_neg hfactor]
    have hr : r = (.ok ref, (service.assign ref tenant).invalidate tenantID,
        s.table.replace row tenant) := by
      refine (if_neg hsame).trans ?_
      dsimp only
      rw [hupdate]
    rw [hr]
    refine ⟨rfl, fun other item hitem => ?_, ?_⟩
    · have hitem' : (service.cache.data.remove (tenantCacheKey tenantID)).get?
          (tenantCacheKey other) = some item := hitem
      rw [Map.get?_remove] at hitem'
      split at hitem'
      · cases hitem'
      · next hkey =>
        have hother : other ≠ tenantID := fun heq => hkey (congrArg tenantCacheKey heq.symm)
        obtain ⟨hitemlt, row', hrow', hagrees'⟩ := hs other item hitem'
        -- records of different tenants are different
        have hne : item.value ≠ ref := by
          rintro rfl
          have hid' := s.table.keyed other row' hrow'
          exact hother (hid'.symm.trans
            (hagrees'.tenantID.symm.trans (hagrees.tenantID.trans hid)))
        refine ⟨hitemlt, row', ?_, ?_⟩
        · show (s.table.replace row tenant).rows.get? other = some row'
          rw [TenantTable.get?_replace, if_neg (htenantID ▸ hother.symm)]
          exact hrow'
        · show Agrees (Function.update service.heap ref tenant item.value) row'
          rw [Function.update_of_ne hne]
          exact hagrees'
    · show ((s.table.replace row tenant).rows.get? tenantID).map _ = _
      rw [TenantTable.get?_replace, if_pos htenantID]
      rfl

/-- **One call.** From a state in which cache and table agree, a call that meets the condition ends
in such a state and does what it should. -/
theorem inSync_update {newFactor : Int} (hs : s.InSync)
    (hsaves : s.Saves (.updateReplicationFactor env tenantID newFactor)) :
    (s.update env tenantID newFactor).2.InSync ∧
      s.Keeps (.updateReplicationFactor env tenantID newFactor) := by
  have hfailed : ∀ err, s.update env tenantID newFactor = (.error err, s) →
      (s.update env tenantID newFactor).2.InSync ∧
        s.Keeps (.updateReplicationFactor env tenantID newFactor) := by
    intro err heq
    refine ⟨by rw [heq]; exact hs, fun _ _ before after hbefore hafter => ?_, fun ref hok => ?_⟩
    · rw [heq, observed_of_inSync hs hbefore, observed_of_inSync hs hafter]
    · rw [heq] at hok
      cases hok
  by_cases hvalid : TenantService.invalidFactor newFactor
  · refine hfailed
      ("invalid replication factor: " ++ toString newFactor ++ " (must be between 1 and 10)") ?_
    rw [update, TenantService.updateReplicationFactor, if_pos hvalid]
  · cases hget : s.service.getTenant s.table env tenantID with
    | mk res service =>
      cases res with
      | error err =>
        refine hfailed ("failed to get tenant: " ++ err) ?_
        rw [update, TenantService.updateReplicationFactor, if_neg hvalid, hget]
        dsimp only
        rw [getTenant_error hget]
      | ok ref =>
        obtain ⟨hs', row, hrow, hagrees⟩ := getTenant_ok hs hget
        have hcond : env.execError = none ∧ newFactor ≤ 5 ∨ row.replicationFactor = newFactor :=
          hsaves.imp_right fun h => h.resolve_left hvalid row hrow
        obtain ⟨hok, hsync, hfactor⟩ := updateRecord_of_agrees hs' hrow hagrees hcond hvalid
        have hupdate : s.update env tenantID newFactor =
            ((service.updateRecord s.table env tenantID newFactor ref).1,
              ⟨(service.updateRecord s.table env tenantID newFactor ref).2.1,
                (service.updateRecord s.table env tenantID newFactor ref).2.2⟩) := by
          rw [update, TenantService.updateReplicationFactor, if_neg hvalid, hget]
        rw [Keeps, hupdate]
        refine ⟨hsync, fun err herr => ?_, fun _ _ => hfactor⟩
        rw [hok] at herr
        cases herr

theorem inSync_step {s' : TenantState} {call : TenantCall} (hs : s.InSync) (hsaves : s.Saves call)
    (hstep : s.step call = some s') : s'.InSync := by
  cases call with
  | getTenant env tenantID =>
    cases hstep
    cases hget : s.service.getTenant s.table env tenantID with
    | mk res service =>
      cases res with
      | error err =>
        show InSync ⟨service, s.table⟩
        rw [getTenant_error hget]
        exact hs
      | ok ref => exact (getTenant_ok hs hget).1
  | updateReplicationFactor env tenantID newFactor =>
    cases hstep
    exact (inSync_update hs hsaves).1
  | cleanup now =>
    cases hstep
    exact fun tenantID item hitem => hs tenantID item (InMemoryCache.get?_cleanup hitem)

/-- **When the cached configuration never runs ahead of the table.** In every sequence of calls in
which no `UpdateTenant` fails, every update does what it should. -/
theorem keeps_of_run {table : TenantTable} {maxSize cacheTTL : Int} {calls : List TenantCall}
    (hall : AllSteps step Saves (init table maxSize cacheTTL) calls) :
    AllSteps step Keeps (init table maxSize cacheTTL) calls := by
  refine AllSteps.of_invariant (I := InSync) (fun _ _ _ => inSync_step) (fun s call hs hsaves => ?_)
    (fun tenantID item hitem => by cases hitem) hall
  cases call with
  | getTenant | cleanup => trivial
  | updateReplicationFactor env tenantID newFactor => exact (inSync_update hs hsaves).2

end TenantState

namespace Sample

/-- A tenant with a replication factor of 3. -/
def tenantRow : Tenant := ⟨"t", 3, 0, 0, 1⟩

/-- The table with this tenant. -/
def tenantTable : TenantTable where
  rows := (∅ : Map String Tenant).set "t" tenantRow
  keyed tenantID row h := by
    rw [Map.get?_set] at h
    split at h
    · next heq =>
      cases h
      exact heq
    · cases h

/-- A call at some time, with what the database answers to the update. -/
def calledAt (now : Int) (execError : Option String) : TenantEnv :=
  ⟨now, now, now, none, execError, .asHeld String, .asHeld String⟩

/-- A coordinator that has just been started. -/
def freshCoordinator : TenantState := .init tenantTable 10 1000

/-- After an update to 7, which the constraint of the table refuses. -/
def afterRefusal : TenantState := (freshCoordinator.update (calledAt 1 none) "t" 7).2

end Sample

open Sample in
theorem keeps_update :
    AllSteps TenantState.step TenantState.Keeps freshCoordinator
      [.updateReplicationFactor (calledAt 1 none) "t" 5,
        .updateReplicationFactor (calledAt 2 (some "timeout")) "t" 11] :=
  TenantState.keeps_of_run ⟨Or.inl ⟨rfl, by decide⟩, Or.inr (Or.inl (Or.inr (by decide))), trivial⟩

open Sample in
/-- After an update that failed, `GetTenant` returns the new factor, and the next update to it
returns without an error and without a change of the table. -/
theorem cache_ahead_of_table :
    (freshCoordinator.update (calledAt 1 none) "t" 7).1.toOption = none ∧
    freshCoordinator.observed (calledAt 1 none) "t" = some (3, 1) ∧
    afterRefusal.observed (calledAt 2 none) "t" = some (7, 2) ∧
    (afterRefusal.update (calledAt 3 none) "t" 7).1.toOption = some 0 ∧
    ((afterRefusal.update (calledAt 3 none) "t" 7).2.table.rows.get? "t").map
      Tenant.replicationFactor = some 3 := by
  decide +kernel

/-! ## Any number of coordinators -/

/-- What was seen of a row that may have changed since: the version tells. -/
structure Seen (seen row : Tenant) : Prop where
  version_le : seen.version ≤ row.version
  same : seen.version = row.version → seen.replicationFactor = row.replicationFactor

theorem Seen.refl (row : Tenant) : Seen row row := ⟨le_rfl, fun _ => rfl⟩

/-- A row with a greater version. -/
theorem Seen.later {seen row later : Tenant} (h : Seen seen row)
    (hlt : row.version < later.version) : Seen seen later :=
  ⟨h.version_le.trans hlt.le, fun heq => absurd heq (h.version_le.trans_lt hlt).ne⟩

namespace TenantCluster

open TenantService

def init (table : TenantTable) (maxSize cacheTTL : Nat → Int) : TenantCluster where
  table := table
  services k := .new (maxSize k) (cacheTTL k)
  fetched _ _ := ⟨"", 0, 0, 0, 0⟩
  obtained _ _ := none

/-- An update that succeeds overwrites the factor and the version that its coordinator has last read
from the table. -/
def OverwritesObtained (c : TenantCluster) (env : TenantEnv) : TenantPhase → Prop
  | .execute k _ _ tenant => ∀ table row, c.table.updateTenant env.execError tenant = .ok table →
      c.table.rows.get? tenant.tenantID = some row →
      ∃ last, c.obtained k tenant.tenantID = some last ∧
        last.replicationFactor = row.replicationFactor ∧ last.version = row.version
  | _ => True

/-- The record that a call is about to write to. -/
def writes : TenantPhase → Option (Nat × Nat)
  | .setFields k _ _ ref => some (k, ref)
  | .readVersion k _ ref => some (k, ref)
  | .writeVersion k _ ref _ => some (k, ref)
  | .save k _ ref => some (k, ref)
  | _ => none

/-- What a call should find when it compares the factors, unless they are equal: the record is as it
was read from the table, and no other call is about to write to it. -/
def Untouched (c : TenantCluster) (writing : List (Nat × Nat)) : TenantPhase → Prop
  | .compare k _ newFactor ref =>
    ((c.services k).heap ref).replicationFactor = newFactor ∨
      (c.services k).heap ref = c.fetched k ref ∧ (k, ref) ∉ writing
  | _ => True

theorem Untouched.perm {c : TenantCluster} {writing writing' : List (Nat × Nat)}
    {phase : TenantPhase} (hu : Untouched c writing phase) (hp : writing.Perm writing') :
    Untouched c writing' phase := by
  cases phase with
  | compare => exact hu.imp_right fun h => ⟨h.1, fun hmem => h.2 (hp.mem_iff.mpr hmem)⟩
  | lookup | fetch | setCache | setFields | readVersion | writeVersion | save | execute | invalidate
  | cleanup => trivial

/-- The condition on a step. -/
def UntouchedTurn (s : System) : Turn → Prop
  | .start _ _ _ => True
  | .advance id _ => ∀ phase ∈ s.phase? id,
      Untouched s.state (s.phases.filterMap writes) phase

/-- The property of a step. -/
def OverwritesTurn (s : System) : Turn → Prop
  | .start _ _ _ => True
  | .advance id env => ∀ phase ∈ s.phase? id, s.state.OverwritesObtained env phase

/-- The record belongs to the tenant. -/
def Owns (c : TenantCluster) (k : Nat) (tenantID : String) (ref : Nat) : Prop :=
  ref < (c.services k).nextRef ∧ (c.fetched k ref).tenantID = tenantID

/-- What a call knows about its record. -/
def Holds (c : TenantCluster) : TenantPhase → Prop
  | .lookup _ _ _ => True
  | .fetch _ _ _ => True
  | .setCache k tenantID _ ref => c.Owns k tenantID ref
  | .compare k tenantID _ ref => c.Owns k tenantID ref
  | .setFields k tenantID _ ref => c.Owns k tenantID ref ∧
      ((c.services k).heap ref).version = (c.fetched k ref).version
  | .readVersion k tenantID ref => c.Owns k tenantID ref ∧
      ((c.services k).heap ref).version = (c.fetched k ref).version
  | .writeVersion k tenantID ref read => c.Owns k tenantID ref ∧
      read = (c.fetched k ref).version
  | .save k tenantID ref => c.Owns k tenantID ref ∧
      ((c.services k).heap ref).version = (c.fetched k ref).version + 1
  | .execute k tenantID ref tenant => c.Owns k tenantID ref ∧ tenant.tenantID = tenantID ∧
      tenant.version = (c.fetched k ref).version + 1
  | .invalidate _ _ => True
  | .cleanup _ => True

/-- The invariant of the state: whose records are in the caches, and what was seen of the rows. -/
structure Sound (c : TenantCluster) : Prop where
  cached : ∀ k tenantID item, (c.services k).cache.data.get? (tenantCacheKey tenantID) = some item →
    c.Owns k tenantID item.value
  owned : ∀ k ref, ref < (c.services k).nextRef →
    ((c.services k).heap ref).tenantID = (c.fetched k ref).tenantID
  read : ∀ k ref, ref < (c.services k).nextRef → ∃ row last,
    c.table.rows.get? (c.fetched k ref).tenantID = some row ∧
      c.obtained k (c.fetched k ref).tenantID = some last ∧
      Seen (c.fetched k ref) row ∧ (c.fetched k ref).version ≤ last.version
  last : ∀ k tenantID seen, c.obtained k tenantID = some seen →
    ∃ row, c.table.rows.get? tenantID = some row ∧ Seen seen row

variable {c c' : TenantCluster} {k : Nat} {tenantID : String} {ref : Nat}

/-- The property, from the invariant. -/
theorem overwritesObtained_of_sound {env : TenantEnv} {phase : TenantPhase} (hc : c.Sound)
    (hh : c.Holds phase) : c.OverwritesObtained env phase := by
  cases phase with
  | execute k tenantID ref tenant =>
    obtain ⟨⟨hlt, hid⟩, htenantID, hversion⟩ := hh
    intro table row hupdate hrow
    obtain ⟨row', hrow', hguard, -⟩ := TenantTable.updateTenant_eq_ok hupdate
    cases hrow.symm.trans hrow'
    obtain ⟨row', last, hread, hobtained, hseen, hle⟩ := hc.read k ref hlt
    rw [hid, ← htenantID] at hread hobtained
    cases hrow.symm.trans hread
    -- the version of the row is the one that was read
    have heq : (c.fetched k ref).version = row.version := by
      rw [hguard, hversion, add_sub_cancel_right]
    obtain ⟨row', hrow', hlast⟩ := hc.last k tenant.tenantID last hobtained
    cases hrow.symm.trans hrow'
    have hlastVersion : last.version = row.version :=
      le_antisymm hlast.version_le (heq ▸ hle)
    exact ⟨last, hobtained, hlast.same hlastVersion, hlastVersion⟩
  | lookup | fetch | setCache | compare | setFields | readVersion | writeVersion | save | invalidate
  | cleanup => trivial

/-! ### What the turns do to the state -/

theorem services_setService_apply (c : TenantCluster) (k j : Nat) (service : TenantService) :
    (c.setService k service).services j = if j = k then service else c.services j :=
  Function.update_apply ..

/-- Only the cache of a coordinator changes. -/
theorem Sound.setCache {service : TenantService} (hc : c.Sound)
    (hheap : service.heap = (c.services k).heap) (hnext : service.nextRef = (c.services k).nextRef)
    (hcached : ∀ tenantID item, service.cache.data.get? (tenantCacheKey tenantID) = some item →
      c.Owns k tenantID item.value) : (c.setService k service).Sound := by
  have hheaps : ∀ j, ((c.setService k service).services j).heap = (c.services j).heap ∧
      ((c.setService k service).services j).nextRef = (c.services j).nextRef := by
    intro j
    rw [services_setService_apply]
    split
    · next heq =>
      rw [heq]
      exact ⟨hheap, hnext⟩
    · exact ⟨rfl, rfl⟩
  refine ⟨fun j other item hitem => ?_, fun j ref hlt => ?_, fun j ref hlt => ?_, hc.last⟩
  · rw [services_setService_apply] at hitem
    rw [Owns, (hheaps j).2]
    split at hitem
    · next heq =>
      rw [heq]
      exact hcached other item hitem
    · exact hc.cached j other item hitem
  · rw [(hheaps j).2] at hlt
    rw [(hheaps j).1]
    exact hc.owned j ref hlt
  · rw [(hheaps j).2] at hlt
    exact hc.read j ref hlt

section Assign

variable (c k ref) (tenant : Tenant) (j : Nat)

theorem cache_assign :
    ((c.setService k ((c.services k).assign ref tenant)).services j).cache = (c.services j).cache ∧
    ((c.setService k ((c.services k).assign ref tenant)).services j).nextRef =
      (c.services j).nextRef := by
  rw [services_setService_apply]
  split
  · next h =>
    rw [h]
    exact ⟨rfl, rfl⟩
  · exact ⟨rfl, rfl⟩

theorem heap_assign (other : Nat) :
    ((c.setService k ((c.services k).assign ref tenant)).services j).heap other =
      if j = k ∧ other = ref then tenant else (c.services j).heap other := by
  rw [services_setService_apply]
  by_cases h : j = k
  · subst h
    simp [TenantService.assign, Function.update_apply]
  · simp [h]

end Assign

/-- A record changes, but not whose it is. -/
theorem Sound.assign {tenant : Tenant} (hc : c.Sound)
    (htenant : tenant.tenantID = ((c.services k).heap ref).tenantID) :
    (c.setService k ((c.services k).assign ref tenant)).Sound := by
  refine ⟨fun j other item hitem => ?_, fun j other hlt => ?_, fun j other hlt => ?_, hc.last⟩
  · rw [(cache_assign ..).1] at hitem
    rw [Owns, (cache_assign ..).2]
    exact hc.cached j other item hitem
  · rw [(cache_assign ..).2] at hlt
    have hown := hc.owned j other hlt
    rw [heap_assign]
    split
    · next heq =>
      obtain ⟨rfl, rfl⟩ := heq
      exact htenant.trans hown
    · exact hown
  · rw [(cache_assign ..).2] at hlt
    exact hc.read j other hlt

section FetchRow

variable (c k tenantID) (row : Tenant) (j : Nat)

theorem services_fetchRow : (c.fetchRow k tenantID row).services j =
    if j = k then (c.services k).allocate row else c.services j := Function.update_apply ..

theorem cache_fetchRow :
    ((c.fetchRow k tenantID row).services j).cache = (c.services j).cache := by
  rw [services_fetchRow]
  split
  · next h =>
    rw [h]
    rfl
  · rfl

theorem lt_nextRef_fetchRow (other : Nat) :
    other < ((c.fetchRow k tenantID row).services j).nextRef ↔
      other < (c.services j).nextRef ∨ j = k ∧ other = (c.services k).nextRef := by
  rw [services_fetchRow]
  split
  · next h =>
    subst h
    simp only [true_and]
    exact Nat.lt_succ_iff_lt_or_eq
  · next h => simp [h]

theorem heap_fetchRow (other : Nat) : ((c.fetchRow k tenantID row).services j).heap other =
    if j = k ∧ other = (c.services k).nextRef then row else (c.services j).heap other := by
  rw [services_fetchRow]
  by_cases h : j = k
  · subst h
    simp [allocate, Function.update_apply]
  · simp [h]

theorem fetched_fetchRow (other : Nat) : (c.fetchRow k tenantID row).fetched j other =
    if j = k ∧ other = (c.services k).nextRef then row else c.fetched j other := by
  show Function.update c.fetched k _ j other = _
  by_cases h : j = k
  · subst h
    simp [Function.update_apply]
  · simp [h]

theorem obtained_fetchRow (other : String) : (c.fetchRow k tenantID row).obtained j other =
    if j = k ∧ other = tenantID then some row else c.obtained j other := by
  show Function.update c.obtained k _ j other = _
  by_cases h : j = k
  · subst h
    simp [Function.update_apply]
  · simp [h]

end FetchRow

/-- The records that were there before are not the new one. -/
theorem fetched_fetchRow_of_lt {row : Tenant} {j other : Nat}
    (hlt : other < (c.services j).nextRef) :
    (c.fetchRow k tenantID row).fetched j other = c.fetched j other := by
  rw [fetched_fetchRow, if_neg]
  rintro ⟨rfl, rfl⟩
  exact Nat.lt_irrefl _ hlt

/-- A coordinator reads a row. -/
theorem Sound.fetchRow {row : Tenant} (hc : c.Sound)
    (hrow : c.table.rows.get? tenantID = some row) : (c.fetchRow k tenantID row).Sound := by
  have hid := c.table.keyed tenantID row hrow
  refine ⟨fun j other item hitem => ?_, fun j other hlt => ?_, fun j other hlt => ?_,
    fun j other seen hseen => ?_⟩
  · rw [cache_fetchRow] at hitem
    obtain ⟨hlt, hown⟩ := hc.cached j other item hitem
    exact ⟨(lt_nextRef_fetchRow ..).mpr (Or.inl hlt), (fetched_fetchRow_of_lt hlt).symm ▸ hown⟩
  · rw [heap_fetchRow, fetched_fetchRow]
    split
    · rfl
    · next hold => exact hc.owned j other (((lt_nextRef_fetchRow ..).mp hlt).resolve_right hold)
  · rcases (lt_nextRef_fetchRow ..).mp hlt with hlt | ⟨rfl, rfl⟩
    · rw [fetched_fetchRow_of_lt hlt, obtained_fetchRow]
      obtain ⟨old, last, hold, hlast, hseen, hle⟩ := hc.read j other hlt
      split
      · next heq =>
        -- the record is of the same tenant
        rw [heq.2] at hold
        cases hold.symm.trans hrow
        exact ⟨row, row, heq.2 ▸ hrow, rfl, hseen, hseen.version_le⟩
      · exact ⟨old, last, hold, hlast, hseen, hle⟩
    · rw [fetched_fetchRow, if_pos ⟨rfl, rfl⟩, hid, obtained_fetchRow, if_pos ⟨rfl, rfl⟩]
      exact ⟨row, row, hrow, rfl, Seen.refl row, le_rfl⟩
  · rw [obtained_fetchRow] at hseen
    split at hseen
    · next heq =>
      cases hseen
      exact ⟨row, heq.2 ▸ hrow, Seen.refl row⟩
    · exact hc.last j other seen hseen

/-- An update succeeds. What was seen of the row is now older than the row. -/
theorem Sound.replace {row tenant : Tenant} (hc : c.Sound)
    (hrow : c.table.rows.get? tenant.tenantID = some row) (hversion : row.version < tenant.version) :
    Sound { c with table := c.table.replace row tenant } := by
  have hlater : ∀ {other : String} {seen old : Tenant}, c.table.rows.get? other = some old →
      Seen seen old → ∃ new, (c.table.replace row tenant).rows.get? other = some new ∧
        Seen seen new := by
    intro other seen old hold hseen
    rw [TenantTable.get?_replace]
    split
    · next heq =>
      subst heq
      cases hold.symm.trans hrow
      exact ⟨_, rfl, hseen.later hversion⟩
    · exact ⟨old, hold, hseen⟩
  refine ⟨hc.cached, hc.owned, fun k ref hlt => ?_, fun k other seen hseen => ?_⟩
  · obtain ⟨old, last, hold, hlast, hseen, hle⟩ := hc.read k ref hlt
    obtain ⟨new, hnew, hseen'⟩ := hlater hold hseen
    exact ⟨new, last, hnew, hlast, hseen', hle⟩
  · obtain ⟨old, hold, hseen'⟩ := hc.last k other seen hseen
    exact hlater hold hseen'

/-- What a call knows is about its own record. -/
theorem Holds.mono {phase : TenantPhase} (hh : c.Holds phase)
    (hnext : ∀ k, (c.services k).nextRef ≤ (c'.services k).nextRef)
    (hfetched : ∀ k ref, ref < (c.services k).nextRef → c'.fetched k ref = c.fetched k ref)
    (hversion : ∀ k ref, writes phase = some (k, ref) → ref < (c.services k).nextRef →
      ((c'.services k).heap ref).version = ((c.services k).heap ref).version) :
    c'.Holds phase := by
  have howns : ∀ {k : Nat} {tenantID : String} {ref : Nat}, c.Owns k tenantID ref →
      c'.Owns k tenantID ref := by
    intro k tenantID ref h
    refine ⟨h.1.trans_le (hnext k), ?_⟩
    rw [hfetched k ref h.1]
    exact h.2
  cases phase with
  | lookup | fetch | invalidate | cleanup => trivial
  | setCache k tenantID newFactor ref => exact howns hh
  | compare k tenantID newFactor ref => exact howns hh
  | setFields k tenantID newFactor ref =>
    refine ⟨howns hh.1, ?_⟩
    rw [hversion k ref rfl hh.1.1, hfetched k ref hh.1.1]
    exact hh.2
  | readVersion k tenantID ref =>
    refine ⟨howns hh.1, ?_⟩
    rw [hversion k ref rfl hh.1.1, hfetched k ref hh.1.1]
    exact hh.2
  | writeVersion k tenantID ref read =>
    refine ⟨howns hh.1, ?_⟩
    rw [hfetched k ref hh.1.1]
    exact hh.2
  | save k tenantID ref =>
    refine ⟨howns hh.1, ?_⟩
    rw [hversion k ref rfl hh.1.1, hfetched k ref hh.1.1]
    exact hh.2
  | execute k tenantID ref tenant =>
    refine ⟨howns hh.1, hh.2.1, ?_⟩
    rw [hfetched k ref hh.1.1]
    exact hh.2.2

/-! ### The invariant of a run -/

/-- The invariant: every call knows what it should, and no two are about to write to one record. -/
structure Invariant (c : TenantCluster) (phases : List TenantPhase) : Prop where
  sound : c.Sound
  holds : ∀ phase ∈ phases, c.Holds phase
  alone : (phases.filterMap writes).Nodup

theorem Invariant.perm {phases phases' : List TenantPhase} (hI : Invariant c phases)
    (hp : phases.Perm phases') : Invariant c phases' where
  sound := hI.sound
  holds phase hmem := hI.holds phase (hp.mem_iff.mpr hmem)
  alone := (hp.filterMap _).nodup_iff.mp hI.alone

variable {phase : TenantPhase} {next : Option TenantPhase} {rest : List TenantPhase}

/-- No other call is about to write to the record of the call. -/
theorem Invariant.not_mem (hI : Invariant c (phase :: rest)) {w : Nat × Nat}
    (hw : writes phase = some w) : w ∉ rest.filterMap writes := by
  have halone := hI.alone
  rw [List.filterMap_cons, hw] at halone
  exact (List.nodup_cons.mp halone).1

/-- What is to be shown for a turn. -/
theorem Invariant.move (hI : Invariant c (phase :: rest)) (next : Option TenantPhase)
    (hsound : c'.Sound)
    (hrest : ∀ p ∈ rest, c.Holds p → c'.Holds p)
    (hnext : ∀ p ∈ next, c'.Holds p ∧ ∀ w ∈ writes p, w ∉ rest.filterMap writes) :
    Invariant c' (next.toList ++ rest) := by
  refine ⟨hsound, fun p hmem => ?_, ?_⟩
  · rcases List.mem_append.mp hmem with hmem | hmem
    · exact (hnext p (Option.mem_toList.mp hmem)).1
    · exact hrest p hmem (hI.holds p (List.mem_cons_of_mem _ hmem))
  · have hold : (rest.filterMap writes).Nodup :=
      hI.alone.sublist ((List.sublist_cons_self _ _).filterMap _)
    cases next with
    | none => exact hold
    | some p =>
      rw [Option.toList_some, List.singleton_append, List.filterMap_cons]
      cases hw : writes p with
      | none => exact hold
      | some w => exact List.nodup_cons.mpr ⟨(hnext p rfl).2 w hw, hold⟩

/-- A turn that does not change the state. -/
theorem Invariant.stay (hI : Invariant c (phase :: rest))
    (hnext : ∀ p ∈ next, c.Holds p ∧ ∀ w ∈ writes p, w ∉ rest.filterMap writes) :
    Invariant c (next.toList ++ rest) :=
  hI.move next hI.sound (fun _ _ h => h) hnext

/-- A turn that changes the cache of a coordinator. -/
theorem Invariant.setCache {service : TenantService} (hI : Invariant c (phase :: rest))
    (hheap : service.heap = (c.services k).heap) (hnextRef : service.nextRef = (c.services k).nextRef)
    (hcached : ∀ tenantID item, service.cache.data.get? (tenantCacheKey tenantID) = some item →
      c.Owns k tenantID item.value)
    (hnext : ∀ p ∈ next, c.Holds p ∧ writes p = none) :
    Invariant (c.setService k service) (next.toList ++ rest) := by
  have hholds : ∀ p, c.Holds p → (c.setService k service).Holds p := by
    have hsame : ∀ j, ((c.setService k service).services j).heap = (c.services j).heap ∧
        ((c.setService k service).services j).nextRef = (c.services j).nextRef := by
      intro j
      rw [services_setService_apply]
      split
      · next heq =>
        rw [heq]
        exact ⟨hheap, hnextRef⟩
      · exact ⟨rfl, rfl⟩
    refine fun p hp => hp.mono (fun j => (hsame j).2.ge) (fun _ _ _ => rfl) fun j ref _ _ => ?_
    rw [(hsame j).1]
  refine hI.move next (hI.sound.setCache hheap hnextRef hcached) (fun p _ => hholds p) fun p hp => ?_
  refine ⟨hholds p (hnext p hp).1, fun w hw => ?_⟩
  rw [(hnext p hp).2] at hw
  cases hw

/-- A turn that writes to the record of the call. The others do not look at it, unless its version
stays as it is. -/
theorem Invariant.assign {tenant : Tenant} {p : TenantPhase} (hI : Invariant c (phase :: rest))
    (hwrites : writes phase = some (k, ref)) (hwrites' : writes p = some (k, ref))
    (htenant : tenant.tenantID = ((c.services k).heap ref).tenantID)
    (hp : (c.setService k ((c.services k).assign ref tenant)).Holds p) :
    Invariant (c.setService k ((c.services k).assign ref tenant)) (p :: rest) := by
  have hnot := hI.not_mem hwrites
  refine hI.move (some p) (hI.sound.assign htenant) (fun q hq hholds => ?_) ?_
  · refine hholds.mono (fun j => (cache_assign ..).2.ge) (fun _ _ _ => rfl) fun j other hw _ => ?_
    rw [heap_assign, if_neg]
    rintro ⟨rfl, rfl⟩
    exact hnot (List.mem_filterMap.mpr ⟨q, hq, hw⟩)
  · rintro _ ⟨⟩
    refine ⟨hp, fun w hw => ?_⟩
    cases hwrites'.symm.trans hw
    exact hnot

/-- **A turn keeps the invariant.** -/
theorem invariant_turn {env : TenantEnv} (hI : Invariant c (phase :: rest))
    (hu : Untouched c ((phase :: rest).filterMap writes) phase)
    (ht : c.turn env phase = some (c', next)) : Invariant c' (next.toList ++ rest) := by
  have hh := hI.holds phase List.mem_cons_self
  cases phase with
  | lookup k tenantID newFactor =>
    cases ht
    refine hI.stay fun p hp => ?_
    cases hp
    cases hcache : (c.services k).cache.get env.lookupAt (tenantCacheKey tenantID) with
    | none => exact ⟨trivial, by simp [writes]⟩
    | some ref =>
      unfold InMemoryCache.get at hcache
      split at hcache
      · cases hcache
      · next item hitem =>
        split at hcache
        · cases hcache
        · cases hcache
          exact ⟨hI.sound.cached k tenantID item hitem, by simp [writes]⟩
  | fetch k tenantID newFactor =>
    rw [turn] at ht
    split at ht
    · cases ht
      exact hI.stay (by simp)
    · next row hquery =>
      have hrow : c.table.rows.get? tenantID = some row := TenantTable.getTenant_eq_ok hquery
      cases ht
      refine hI.move _ (hI.sound.fetchRow hrow) (fun p _ hp => hp.mono (fun j => ?_)
        (fun j other hlt => fetched_fetchRow_of_lt hlt) fun j other _ hlt => ?_) ?_
      · exact le_of_forall_lt fun other hlt => (lt_nextRef_fetchRow ..).mpr (Or.inl hlt)
      · rw [heap_fetchRow, if_neg]
        rintro ⟨rfl, rfl⟩
        exact Nat.lt_irrefl _ hlt
      · rintro _ ⟨⟩
        refine ⟨⟨(lt_nextRef_fetchRow ..).mpr (Or.inr ⟨rfl, rfl⟩), ?_⟩, by simp [writes]⟩
        rw [fetched_fetchRow, if_pos ⟨rfl, rfl⟩]
        exact c.table.keyed tenantID row hrow
  | setCache k tenantID newFactor ref =>
    cases ht
    refine hI.setCache rfl rfl (fun other item hitem => ?_) ?_
    · have hitem' : (Map.set _ _ _).get? (tenantCacheKey other) = some item := hitem
      rw [Map.get?_set] at hitem'
      split at hitem'
      · next hkey =>
        cases hitem'
        rw [← tenantCacheKey_injective hkey]
        exact hh
      · exact hI.sound.cached k other item (InMemoryCache.get?_evict hitem')
    · rintro _ ⟨⟩
      exact ⟨hh, rfl⟩
  | compare k tenantID newFactor ref =>
    rw [turn] at ht
    split at ht
    · cases ht
      exact hI.stay (by simp)
    · next hne =>
      cases ht
      obtain ⟨hsame, halone⟩ := hu.resolve_left hne
      refine hI.stay ?_
      rintro _ ⟨⟩
      refine ⟨⟨hh, congrArg Tenant.version hsame⟩, ?_⟩
      rintro _ ⟨⟩
      exact halone
  | setFields k tenantID newFactor ref =>
    cases ht
    refine hI.assign rfl rfl rfl ⟨⟨?_, hh.1.2⟩, ?_⟩
    · rw [(cache_assign ..).2]
      exact hh.1.1
    · rw [heap_assign, if_pos ⟨rfl, rfl⟩]
      exact hh.2
  | readVersion k tenantID ref =>
    cases ht
    refine hI.stay ?_
    rintro _ ⟨⟩
    exact ⟨hh, fun w hw => hI.not_mem hw⟩
  | writeVersion k tenantID ref read =>
    cases ht
    refine hI.assign rfl rfl rfl ⟨⟨?_, hh.1.2⟩, ?_⟩
    · rw [(cache_assign ..).2]
      exact hh.1.1
    · rw [heap_assign, if_pos ⟨rfl, rfl⟩]
      exact congrArg (· + 1) hh.2
  | save k tenantID ref =>
    cases ht
    refine hI.stay ?_
    rintro _ ⟨⟩
    exact ⟨⟨hh.1, (hI.sound.owned k ref hh.1.1).trans hh.1.2, hh.2⟩, by simp [writes]⟩
  | execute k tenantID ref tenant =>
    rw [turn] at ht
    split at ht
    · cases ht
      exact hI.stay (by simp)
    · next table hupdate =>
      cases ht
      obtain ⟨row, hrow, hversion, rfl⟩ := TenantTable.updateTenant_eq_ok hupdate
      refine hI.move _ (hI.sound.replace hrow (by omega)) (fun p _ hp => ?_) ?_
      · exact hp.mono (fun _ => le_rfl) (fun _ _ _ => rfl) fun _ _ _ _ => rfl
      · rintro _ ⟨⟩
        exact ⟨trivial, by simp [writes]⟩
  | invalidate k tenantID =>
    cases ht
    refine hI.setCache rfl rfl (fun other item hitem => ?_) (by simp)
    have hitem' : (Map.remove _ _).get? (tenantCacheKey other) = some item := hitem
    rw [Map.get?_remove] at hitem'
    split at hitem'
    · cases hitem'
    · exact hI.sound.cached k other item hitem'
  | cleanup k =>
    cases ht
    exact hI.setCache rfl rfl (fun other item hitem =>
      hI.sound.cached k other item (InMemoryCache.get?_cleanup hitem)) (by simp)

theorem invariant_step {s s' : System} {t : Turn} (hI : Invariant s.state s.phases)
    (hu : UntouchedTurn s t) (hstep : step s t = some s') : Invariant s'.state s'.phases := by
  cases t with
  | start id env request =>
    obtain ⟨hstate, hphases⟩ := Concurrent.step_start hstep
    rw [hstate, hphases]
    -- a call that begins knows nothing and writes nothing
    have hnew : ∀ p ∈ enter env request, s.state.Holds p ∧ writes p = none := by
      intro p hp
      cases request with
      | updateReplicationFactor k tenantID newFactor =>
        rw [enter] at hp
        split at hp
        · cases hp
        · cases hp
          exact ⟨trivial, rfl⟩
      | cleanup k =>
        cases hp
        exact ⟨trivial, rfl⟩
    refine ⟨hI.sound, fun p hp => ?_, ?_⟩
    · rcases List.mem_append.mp hp with hp | hp
      · exact hI.holds p hp
      · exact (hnew p (Option.mem_toList.mp hp)).1
    · have hnone : (enter env request).toList.filterMap writes = [] := by
        refine List.filterMap_eq_nil_iff.mpr fun p hp => ?_
        exact (hnew p (Option.mem_toList.mp hp)).2
      rw [List.filterMap_append, hnone, List.append_nil]
      exact hI.alone
  | advance id env =>
    obtain ⟨phase, next, rest, hphase, hturn, hbefore, hafter⟩ :=
      Concurrent.step_advance_perm hstep
    have hu' : Untouched s.state ((phase :: rest).filterMap writes) phase :=
      (hu phase hphase).perm (hbefore.filterMap _)
    exact (invariant_turn (hI.perm hbefore) hu' hturn).perm hafter.symm

theorem invariant_init (table : TenantTable) (maxSize cacheTTL : Nat → Int) :
    Invariant (init table maxSize cacheTTL) [] where
  sound :=
    { cached := fun _ _ _ h => by cases h
      owned := fun _ _ h => absurd h (Nat.not_lt_zero _)
      read := fun _ _ h => absurd h (Nat.not_lt_zero _)
      last := fun _ _ _ h => by cases h }
  holds _ h := by cases h
  alone := List.nodup_nil

/-- **When optimistic locking prevents lost updates.** In every interleaving of updates on any number
of coordinators in which every call that goes on to write finds its record as it was read from the
table, and not being written to, every update that succeeds overwrites exactly what its coordinator
has last read. -/
theorem overwritesObtained_of_run {table : TenantTable} {maxSize cacheTTL : Nat → Int}
    {turns : List Turn}
    (hall : AllSteps step UntouchedTurn (.quiet (init table maxSize cacheTTL)) turns) :
    AllSteps step OverwritesTurn (.quiet (init table maxSize cacheTTL)) turns := by
  refine AllSteps.of_invariant (I := fun s : System => Invariant s.state s.phases)
    (fun _ _ _ => invariant_step) (fun s t hI _ => ?_) (invariant_init table maxSize cacheTTL) hall
  cases t with
  | start => trivial
  | advance id env =>
    intro phase hphase
    refine overwritesObtained_of_sound hI.sound (hI.holds phase ?_)
    rw [(Concurrent.System.phases_eq hphase).1]
    exact List.mem_append_right _ List.mem_cons_self

instance (c : TenantCluster) (writing : List (Nat × Nat)) (phase : TenantPhase) :
    Decidable (Untouched c writing phase) :=
  match phase with
  | .compare _ _ _ _ => inferInstanceAs (Decidable (_ ∨ _))
  | .lookup _ _ _ | .fetch _ _ _ | .setCache _ _ _ _ | .setFields _ _ _ _ | .readVersion _ _ _
  | .writeVersion _ _ _ _ | .save _ _ _ | .execute _ _ _ _ | .invalidate _ _ | .cleanup _ =>
    inferInstanceAs (Decidable True)

instance (s : System) (t : Turn) : Decidable (UntouchedTurn s t) :=
  match t with
  | .start _ _ _ => inferInstanceAs (Decidable True)
  | .advance _ _ => inferInstanceAs (Decidable (∀ _ ∈ _, _))

end TenantCluster

namespace Sample

open TenantCluster

/-- The coordinators have just been started. -/
def freshCluster : System := .quiet (.init tenantTable (fun _ => 10) fun _ => 1000)

/-- A call of `UpdateReplicationFactor` has some turns. -/
def updateTurns (id k : Nat) (newFactor : Int) (execError : Option String) (n : Nat) : List Turn :=
  .start id (calledAt 1 execError) (.updateReplicationFactor k "t" newFactor) ::
    List.replicate n (.advance id (calledAt 1 execError))

/-- Two coordinators update the tenant one after the other. -/
def twoUpdates : List Turn := updateTurns 0 0 4 none 10 ++ updateTurns 1 1 5 none 10

/-- An update of the first coordinator fails, the second one makes an update, and the first one is
about to execute its next update. -/
def beforeLostUpdate : List Turn :=
  updateTurns 0 0 4 (some "timeout") 9 ++ updateTurns 1 1 5 none 10 ++ updateTurns 2 0 2 none 6

/-- The factor and the version of the tenant in the table. -/
def storedConfig (s : System) : Option (Int × Int) :=
  (s.state.table.rows.get? "t").map fun row => (row.replicationFactor, row.version)

/-- What a coordinator has last read. -/
def lastRead (k : Nat) (s : System) : Option (Int × Int) :=
  (s.state.obtained k "t").map fun row => (row.replicationFactor, row.version)

end Sample

open Sample in
theorem overwritesObtained_twoUpdates :
    (run TenantCluster.step freshCluster twoUpdates).map storedConfig = some (some (5, 3)) ∧
      AllSteps TenantCluster.step TenantCluster.OverwritesTurn freshCluster twoUpdates :=
  ⟨by decide +kernel, TenantCluster.overwritesObtained_of_run (by decide +kernel)⟩

open Sample in
/-- The first coordinator overwrites the update of the second, which it has not read. -/
theorem unread_update_overwritten :
    (run TenantCluster.step freshCluster beforeLostUpdate).map storedConfig = some (some (5, 2)) ∧
    (run TenantCluster.step freshCluster beforeLostUpdate).map (lastRead 0) = some (some (3, 1)) ∧
    (run TenantCluster.step freshCluster
      (beforeLostUpdate ++ [.advance 2 (calledAt 1 none)])).map storedConfig = some (some (2, 3)) := by
  decide +kernel

end PairDB.Coordinator
