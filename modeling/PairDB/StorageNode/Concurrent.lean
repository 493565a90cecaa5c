import PairDB.Infra.Concurrent
import PairDB.StorageNode.Node

/-!
# Concurrent calls on a storage node

No lock spans a whole call. A mutation appends to the log, then puts its entry into the memtable,
then changes the cache; a read asks the cache, the memtable and the SSTables and then fills the
cache. Each of these is atomic, and other calls take place in between.

`runAlone_of_perform` says that a call which nobody interrupts is the call of the sequential model.
-/

namespace PairDB.StorageNode

open Infra

namespace Concurrent

/-- What a call does next. -/
inductive Phase where
  | append (entry : CommitLogEntry)
  | store (entry : CommitLogEntry)
  | updateCache (entry : CommitLogEntry)
  | askCache (tenantID key : String)
  | askMemTable (tenantID key : String)
  | askSSTables (tenantID key : String)
  | fillCache (key : String) (value : Option Bytes) (vectorClock : VectorClock)
  deriving DecidableEq

/-- The first phase of a call, after its checks. The time of an entry is read here. -/
def enter (env : CallEnv) : Request → Option Phase
  | .write tenantID key value vectorClock =>
    match Validator.validateWrite tenantID key value vectorClock with
    | .error _ => none
    | .ok () =>
      match env.disk with
      | some _ => none
      | none =>
        some (.append (StorageService.logEntry env tenantID key value vectorClock .write))
  | .delete tenantID key vectorClock =>
    match Validator.validateTenantID tenantID with
    | .error _ => none
    | .ok () =>
      match Validator.validateKey key with
      | .error _ => none
      | .ok () =>
        some (.append (StorageService.logEntry env tenantID key none vectorClock .delete))
  | .repair tenantID key value vectorClock =>
    some (.append (StorageService.logEntry env tenantID key value vectorClock .repair))
  | .read tenantID key => some (.askCache tenantID key)

/-- The cache after a mutation. -/
def cacheAfter (cache : CacheService) (env : CacheEnv) (entry : CommitLogEntry) :
    Option CacheService :=
  match entry.operationType with
  | .delete => some (cache.remove (buildKey entry.tenantID entry.key))
  | .write | .repair =>
    cache.put (buildKey entry.tenantID entry.key) entry.value entry.vectorClock env

/-- The end of a read below the cache: not found, or the cache is filled. -/
def afterLookup (compositeKey : String) (isTombstone : Bool) (value : Option Bytes)
    (vectorClock : VectorClock) : Option Phase :=
  if isTombstone then none else some (.fillCache compositeKey value vectorClock)

/-- A turn of a call. It is `none` if the process dies, or the loop of the cache does not end. -/
def turn (s : StorageService) (env : CallEnv) : Phase → Option (StorageService × Option Phase)
  | .append entry =>
    match s.commitLog.append entry env.io with
    | (commitLog, .error _) => some ({ s with commitLog }, none)
    | (commitLog, .ok entry) => some ({ s with commitLog }, some (.store entry))
  | .store entry =>
    some ({ s with memTable := s.memTable.put (CommitLogService.replayEntry entry) },
      some (.updateCache entry))
  | .updateCache entry =>
    (cacheAfter s.cache env.cache entry).map fun cache =>
      let s := { s with cache }
      -- only a write asks whether the memtable is full
      (if entry.operationType = .write ∧ s.memTable.shouldFlush then
        { s with flushRequests := s.flushRequests + 1 } else s, none)
  | .askCache tenantID key =>
    match s.cache.get (buildKey tenantID key) env.score with
    | (some _, cache) => some ({ s with cache }, none)
    | (none, _) => some (s, some (.askMemTable tenantID key))
  | .askMemTable tenantID key =>
    match s.memTable.get (buildKey tenantID key) with
    | some e =>
      some (s, afterLookup (buildKey tenantID key) e.isTombstone e.value e.vectorClock)
    | none => some (s, some (.askSSTables tenantID key))
  | .askSSTables tenantID key =>
    match s.sstables.get tenantID key with
    | .error (.panic _) => none
    | .error (.err _) | .ok none => some (s, none)
    | .ok (some e) =>
      some (s, afterLookup (buildKey tenantID key) e.isTombstone e.value e.vectorClock)
  | .fillCache key value vectorClock =>
    (s.cache.put key value vectorClock env.cache).map fun cache => ({ s with cache }, none)

/-- A node with calls in progress. -/
abbrev System := Infra.Concurrent.System StorageService Phase

/-- A call begins, or it has a turn. -/
abbrev Turn := Infra.Concurrent.Turn CallEnv Request

/-- A step of an interleaving of calls. -/
def step (s : System) (t : Turn) : Option System := Infra.Concurrent.step enter turn s t

/-! ## What a turn does -/

/-- The call is a read. -/
def Phase.isRead : Phase → Bool
  | .append _ | .store _ | .updateCache _ => false
  | .askCache _ _ | .askMemTable _ _ | .askSSTables _ _ | .fillCache _ _ _ => true

/-- A turn of a read leaves the log and the memtable alone, and the call remains a read. -/
theorem turn_read {s s' : StorageService} {env : CallEnv} {phase : Phase} {next : Option Phase}
    (hread : phase.isRead = true) (h : turn s env phase = some (s', next)) :
    s'.commitLog = s.commitLog ∧ s'.memTable = s.memTable ∧ ∀ p ∈ next, p.isRead = true := by
  have hafter : ∀ {compositeKey isTombstone value vectorClock},
      ∀ p ∈ afterLookup compositeKey isTombstone value vectorClock, p.isRead = true := by
    intro compositeKey isTombstone value vectorClock p hp
    cases isTombstone <;> cases hp
    rfl
  cases phase with
  | append entry => cases hread
  | store entry => cases hread
  | updateCache entry => cases hread
  | askCache tenantID key =>
    simp only [turn] at h
    split at h <;> cases h
    · exact ⟨rfl, rfl, by simp⟩
    · exact ⟨rfl, rfl, by simp [Phase.isRead]⟩
  | askMemTable tenantID key =>
    simp only [turn] at h
    split at h <;> cases h
    · exact ⟨rfl, rfl, hafter⟩
    · exact ⟨rfl, rfl, by simp [Phase.isRead]⟩
  | askSSTables tenantID key =>
    simp only [turn] at h
    split at h <;> cases h
    · exact ⟨rfl, rfl, by simp⟩
    · exact ⟨rfl, rfl, by simp⟩
    · exact ⟨rfl, rfl, hafter⟩
  | fillCache key value vectorClock =>
    simp only [turn] at h
    obtain ⟨cache, -, hr⟩ := Option.map_eq_some_iff.mp h
    cases hr
    exact ⟨rfl, rfl, by simp⟩

/-- Only the two phases that put something there change what is cached. -/
theorem lookup_of_turn {s s' : StorageService} {env : CallEnv} {phase : Phase}
    {next : Option Phase} (hcache : ∀ entry, phase ≠ .updateCache entry)
    (hfill : ∀ key value vectorClock, phase ≠ .fillCache key value vectorClock)
    (h : turn s env phase = some (s', next)) (key : String) :
    s'.cache.lookup key = s.cache.lookup key := by
  cases phase with
  | append entry =>
    simp only [turn] at h
    split at h <;> cases h <;> rfl
  | store entry =>
    cases h
    rfl
  | updateCache entry => exact absurd rfl (hcache entry)
  | askCache tenantID key' =>
    have hsame := s.cache.lookup_get (buildKey tenantID key') env.score key
    rcases hget : s.cache.get (buildKey tenantID key') env.score with ⟨_ | entry, cache⟩
    · simp only [turn, hget] at h
      cases h
      rfl
    · simp only [turn, hget] at h
      cases h
      rw [hget] at hsame
      exact hsame
  | askMemTable tenantID key =>
    simp only [turn] at h
    split at h <;> cases h <;> rfl
  | askSSTables tenantID key =>
    simp only [turn] at h
    split at h <;> cases h <;> rfl
  | fillCache key value vectorClock => exact absurd rfl (hfill _ _ _)

/-- The end of a mutation. -/
theorem turn_updateCache {s s' : StorageService} {env : CallEnv} {entry : CommitLogEntry}
    {next : Option Phase} (h : turn s env (.updateCache entry) = some (s', next)) :
    s'.commitLog = s.commitLog ∧ s'.memTable = s.memTable ∧ next = none ∧
      cacheAfter s.cache env.cache entry = some s'.cache := by
  simp only [turn] at h
  obtain ⟨cache, hcache, hr⟩ := Option.map_eq_some_iff.mp h
  rw [Prod.mk.injEq] at hr
  obtain ⟨rfl, rfl⟩ := hr
  split
  · exact ⟨rfl, rfl, rfl, hcache⟩
  · exact ⟨rfl, rfl, rfl, hcache⟩

/-! ## Calls that nobody interrupts -/

open Infra.Concurrent (runAlone)

variable {s s' : StorageService} {env : CallEnv}

/-- The part that the mutations have in common. -/
theorem runAlone_append {entry : CommitLogEntry} {failure : String}
    {onCache : CacheService → Option CacheService}
    (honCache : ∀ entry', entry' = s.commitLog.stamp entry → ∀ c,
      cacheAfter c env.cache entry' = onCache c)
    (h : s.mutate env entry (entry.operationType = .delete) failure onCache = (s', .ok ())) :
    runAlone turn env 4 s (.append entry) =
      some (if entry.operationType = .write ∧ s'.memTable.shouldFlush then
        { s' with flushRequests := s'.flushRequests + 1 } else s') := by
  unfold StorageService.mutate at h
  rcases happend : s.commitLog.append entry env.io with ⟨commitLog, cause | entry'⟩
  · simp only [happend] at h
    cases h
  · have hstamp := (CommitLogService.append_spec happend).1
    have hop : entry'.operationType = entry.operationType := by rw [hstamp]; rfl
    simp only [happend] at h
    cases hc : onCache s.cache with
    | none =>
      simp only [hc] at h
      cases h
    | some cache =>
      simp only [hc, Prod.mk.injEq, and_true] at h
      subst h
      have hentry : StorageService.memEntry entry' (entry.operationType = .delete) =
          CommitLogService.replayEntry entry' := by
        rw [← hop]
        rfl
      simp [runAlone, turn, happend, honCache entry' hstamp, hc, hop, hentry]

/-- A version below the cache is found: the read ends, or it fills the cache. -/
theorem runAlone_afterLookup {fuel : Nat} {compositeKey : String} {isTombstone : Bool}
    {value : Option Bytes} {vectorClock : VectorClock} :
    (afterLookup compositeKey isTombstone value vectorClock).elim (some s)
        (runAlone turn env (fuel + 1) s) =
      if isTombstone then some s
      else (s.cache.put compositeKey value vectorClock env.cache).map fun cache =>
        { s with cache } := by
  cases isTombstone with
  | true => rfl
  | false =>
    simp only [afterLookup, Bool.false_eq_true, if_false, Option.elim_some, runAlone, turn]
    cases s.cache.put compositeKey value vectorClock env.cache <;> rfl

theorem runAlone_read {tenantID key : String} {r : Except StorageNode.Failure ReadResponse}
    (h : s.read env tenantID key = (s', r)) (hblocked : r ≠ .error .blocked)
    (hpanic : ∀ reason, r ≠ .error (.panic reason)) :
    runAlone turn env 4 s (.askCache tenantID key) = some s' := by
  -- how a fill ends that does not block
  have hfill : ∀ {value : Option Bytes} {vectorClock : VectorClock} {source : Source},
      s.fillCache env (buildKey tenantID key) value vectorClock source = (s', r) →
        ((s.cache.put (buildKey tenantID key) value vectorClock env.cache).map fun cache =>
          { s with cache }) = some s' := by
    intro value vectorClock source hfill
    unfold StorageService.fillCache at hfill
    split at hfill
    · cases hfill
      exact absurd rfl hblocked
    · next cache hput =>
      cases hfill
      rw [hput]
      rfl
  rcases hget : s.cache.get (buildKey tenantID key) env.score with ⟨_ | entry, cache⟩
  · simp only [StorageService.read, hget, StorageService.readMemTable] at h
    rw [runAlone, turn]
    simp only [hget, Option.bind_some, Option.elim_some]
    cases hmem : s.memTable.get (buildKey tenantID key) with
    | some e =>
      simp only [hmem] at h
      rw [runAlone, turn]
      simp only [hmem, Option.bind_some, runAlone_afterLookup]
      split at h
      · next htomb =>
        cases h
        rw [if_pos htomb]
      · next htomb => rw [if_neg htomb, hfill h]
    | none =>
      simp only [hmem, StorageService.readSSTables] at h
      rw [runAlone, turn]
      simp only [hmem, Option.bind_some, Option.elim_some]
      rcases hsst : s.sstables.get tenantID key with (cause | reason) | (_ | e)
      · simp only [hsst] at h
        cases h
        simp [runAlone, turn, hsst]
      · simp only [hsst] at h
        cases h
        exact absurd rfl (hpanic reason)
      · simp only [hsst] at h
        cases h
        simp [runAlone, turn, hsst]
      · simp only [hsst] at h
        rw [runAlone, turn]
        simp only [hsst, Option.bind_some, runAlone_afterLookup]
        split at h
        · next htomb =>
          cases h
          rw [if_pos htomb]
        · next htomb => rw [if_neg htomb, hfill h]
  · simp only [StorageService.read, hget] at h
    cases h
    simp [runAlone, turn, hget]

/-- **A call that nobody interrupts** does what the call of the sequential model does. -/
theorem runAlone_of_perform {request : Request} (h : s.perform env request = some s') :
    ∃ phase, enter env request = some phase ∧ runAlone turn env 4 s phase = some s' := by
  cases request with
  | write tenantID key value vectorClock =>
    simp only [StorageService.perform] at h
    split at h
    · next r hwrite =>
      cases h
      have hvalid := (StorageService.write_spec hwrite).1
      simp only [StorageService.write, hvalid] at hwrite
      cases hdisk : env.disk with
      | some e =>
        simp only [hdisk] at hwrite
        cases hwrite
      | none =>
        refine ⟨_, by simp only [enter, hvalid, hdisk]; rfl, ?_⟩
        simp only [hdisk] at hwrite
        rcases hm : s.mutate env (StorageService.logEntry env tenantID key value vectorClock .write)
          false "failed to append to commit log"
          (fun cache => cache.put (buildKey tenantID key) value vectorClock env.cache) with
          ⟨s₁, failure | ⟨⟩⟩
        · simp only [hm] at hwrite
          cases hwrite
        · simp only [hm, Prod.mk.injEq] at hwrite
          rw [runAlone_append (by rintro _ rfl c; rfl) hm, ← hwrite.1]
          simp [StorageService.logEntry]
    · cases h
  | delete tenantID key vectorClock =>
    simp only [StorageService.perform] at h
    split at h
    · next hdelete =>
      cases h
      obtain ⟨htenant, hkey⟩ := (StorageService.delete_spec hdelete).1
      refine ⟨_, by simp only [enter, htenant, hkey]; rfl, ?_⟩
      simp only [StorageService.delete, htenant, hkey] at hdelete
      rw [runAlone_append (by rintro _ rfl c; rfl) hdelete]
      simp [StorageService.logEntry]
    · cases h
  | repair tenantID key value vectorClock =>
    simp only [StorageService.perform] at h
    split at h
    · next hrepair =>
      cases h
      refine ⟨_, rfl, ?_⟩
      rw [runAlone_append (by rintro _ rfl c; rfl) hrepair]
      simp [StorageService.logEntry]
    · cases h
  | read tenantID key =>
    refine ⟨_, rfl, ?_⟩
    simp only [StorageService.perform] at h
    split at h
    · next r hread =>
      cases h
      exact runAlone_read hread (by rintro ⟨⟩) (by rintro _ ⟨⟩)
    · next e hread =>
      split at h
      · cases h
        exact runAlone_read hread (by rintro ⟨⟩) (by rintro _ ⟨⟩)
      · cases h
    · cases h

end Concurrent

end PairDB.StorageNode
