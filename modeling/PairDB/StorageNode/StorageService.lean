import PairDB.StorageNode.Cache
import PairDB.StorageNode.CommitLog
import PairDB.StorageNode.SSTableService
import PairDB.StorageNode.Validation

/-!
# `service.StorageService`

A mutation goes to the commit log, then to the memtable, then to the cache. A read asks the cache,
the memtable and the SSTables, in this order, and puts what it finds into the cache.

What a call reads from its surroundings is an argument (`CallEnv`): the clock, the answer of the
disk manager, how the write to the log goes, and what decides about evictions. The node has no
streaming manager registered.

`mutate_spec`, `read_spec` and the lemmas for the single calls say what a call that succeeds does,
so that nothing below this file has to look into the calls again.
-/

namespace PairDB.StorageNode

open Infra

/-- `StorageService`. `flushRequests` counts the calls of `triggerFlushAsync`. -/
structure StorageService where
  commitLog : CommitLogService
  memTable : MemTableService
  sstables : SSTableService
  cache : CacheService
  flushRequests : Nat

/-- What a call reads from its surroundings. -/
structure CallEnv where
  now : Int
  disk : Option StorageError
  io : AppendIO
  score : ℚ
  cache : CacheEnv

/-- How a call can end without an answer. `blocked`: the loop of `CacheService.Put` has not ended. -/
inductive Failure where
  | err (e : StorageError)
  | panic (reason : String)
  | blocked
  deriving DecidableEq, Repr

/-- `WriteResponse`. -/
structure WriteResponse where
  success : Bool
  vectorClock : VectorClock
  deriving DecidableEq, Repr

/-- Where a read found its answer. -/
inductive Source where
  | cache
  | memtable
  | sstable
  deriving DecidableEq, Repr

/-- `ReadResponse`. -/
structure ReadResponse where
  success : Bool
  value : Option Bytes
  vectorClock : VectorClock
  source : Source
  deriving DecidableEq, Repr

namespace StorageService

/-! ## Mutations -/

/-- The memtable entry of a mutation. -/
def memEntry (entry : CommitLogEntry) (isTombstone : Bool) : MemTableEntry where
  key := buildKey entry.tenantID entry.key
  value := entry.value
  vectorClock := entry.vectorClock
  timestamp := entry.timestamp
  isTombstone := isTombstone

/-- What `Write`, `Delete` and `Repair` have in common: the log, the memtable and then the cache. -/
def mutate (s : StorageService) (env : CallEnv) (entry : CommitLogEntry) (isTombstone : Bool)
    (failure : String) (onCache : CacheService → Option CacheService) :
    StorageService × Except Failure Unit :=
  match s.commitLog.append entry env.io with
  | (commitLog, .error cause) =>
    ({ s with commitLog }, .error (.err (.commitLogFailed failure cause)))
  | (commitLog, .ok entry) =>
    let s := { s with commitLog, memTable := s.memTable.put (memEntry entry isTombstone) }
    match onCache s.cache with
    | none => (s, .error .blocked)
    | some cache => ({ s with cache }, .ok ())

/-- The entry that a call hands to `Append`, which fills in the number and the checksum. -/
def logEntry (env : CallEnv) (tenantID key : String) (value : Option Bytes)
    (vectorClock : VectorClock) (operationType : OperationType) : CommitLogEntry where
  sequenceNumber := 0
  tenantID := tenantID
  key := key
  value := value
  vectorClock := vectorClock
  timestamp := env.now
  operationType := operationType
  checksum := 0

/-- `Write`. -/
def write (s : StorageService) (env : CallEnv) (tenantID key : String) (value : Option Bytes)
    (vectorClock : VectorClock) : StorageService × Except Failure WriteResponse :=
  match Validator.validateWrite tenantID key value vectorClock with
  | .error e => (s, .error (.err e))
  | .ok () =>
    match env.disk with
    | some e => (s, .error (.err e))
    | none =>
      match s.mutate env (logEntry env tenantID key value vectorClock .write) false
          "failed to append to commit log"
          (fun cache => cache.put (buildKey tenantID key) value vectorClock env.cache) with
      | (s, .error e) => (s, .error e)
      | (s, .ok ()) =>
        (if s.memTable.shouldFlush then { s with flushRequests := s.flushRequests + 1 } else s,
          .ok { success := true, vectorClock })

/-- `Delete`. -/
def delete (s : StorageService) (env : CallEnv) (tenantID key : String)
    (vectorClock : VectorClock) : StorageService × Except Failure Unit :=
  match Validator.validateTenantID tenantID with
  | .error e => (s, .error (.err e))
  | .ok () =>
    match Validator.validateKey key with
    | .error e => (s, .error (.err e))
    | .ok () =>
      s.mutate env (logEntry env tenantID key none vectorClock .delete) true
        "failed to append delete to commit log"
        (fun cache => some (cache.remove (buildKey tenantID key)))

/-- `Repair`. Nothing is validated. -/
def repair (s : StorageService) (env : CallEnv) (tenantID key : String) (value : Option Bytes)
    (vectorClock : VectorClock) : StorageService × Except Failure Unit :=
  s.mutate env (logEntry env tenantID key value vectorClock .repair) false
    "repair commit log failed"
    (fun cache => cache.put (buildKey tenantID key) value vectorClock env.cache)

/-! ## Reads -/

/-- The end of a read that found a version below the cache. -/
def fillCache (s : StorageService) (env : CallEnv) (key : String) (value : Option Bytes)
    (vectorClock : VectorClock) (source : Source) :
    StorageService × Except Failure ReadResponse :=
  match s.cache.put key value vectorClock env.cache with
  | none => (s, .error .blocked)
  | some cache => ({ s with cache }, .ok { success := true, value, vectorClock, source })

/-- The part of `Read` after the memtable was asked in vain. -/
def readSSTables (s : StorageService) (env : CallEnv) (tenantID key : String) :
    StorageService × Except Failure ReadResponse :=
  match s.sstables.get tenantID key with
  | .error (.panic reason) => (s, .error (.panic reason))
  | .error (.err cause) =>
    (s, .error (.err (.sstableFailed "sstable read failed" cause)))
  | .ok none => (s, .error (.err (.keyNotFound tenantID key)))
  | .ok (some entry) =>
    if entry.isTombstone then (s, .error (.err (.keyNotFound tenantID key)))
    else s.fillCache env (buildKey tenantID key) entry.value entry.vectorClock .sstable

/-- The part of `Read` after the cache was asked in vain. -/
def readMemTable (s : StorageService) (env : CallEnv) (tenantID key : String) :
    StorageService × Except Failure ReadResponse :=
  match s.memTable.get (buildKey tenantID key) with
  | some entry =>
    if entry.isTombstone then (s, .error (.err (.keyNotFound tenantID key)))
    else s.fillCache env (buildKey tenantID key) entry.value entry.vectorClock .memtable
  | none => s.readSSTables env tenantID key

/-- `Read`. -/
def read (s : StorageService) (env : CallEnv) (tenantID key : String) :
    StorageService × Except Failure ReadResponse :=
  match s.cache.get (buildKey tenantID key) env.score with
  | (some entry, cache) =>
    ({ s with cache },
      .ok { success := true, value := entry.value, vectorClock := entry.vectorClock,
            source := .cache })
  | (none, _) => s.readMemTable env tenantID key

/-! ## What a successful mutation does -/

/-- What a client sees of an entry. -/
def visible (e : MemTableEntry) : Option Seen :=
  if e.isTombstone then none else some ⟨e.value, e.vectorClock⟩

/-- `s'` is `s` after the mutation that stores `e`. -/
structure Mutated (s s' : StorageService) (e : MemTableEntry) : Prop where
  memTable : s'.memTable = s.memTable.put e
  sstables : s'.sstables = s.sstables
  cached : s'.cache.lookup e.key = visible e
  others : ∀ k, e.key ≠ k → s'.cache.lookup k = none ∨ s'.cache.lookup k = s.cache.lookup k

variable {s s' : StorageService} {env : CallEnv} {tenantID key : String} {value : Option Bytes}
  {vectorClock : VectorClock}

/-- The entry that a mutation stores. -/
def stored (env : CallEnv) (tenantID key : String) (value : Option Bytes)
    (vectorClock : VectorClock) (isTombstone : Bool) : MemTableEntry where
  key := buildKey tenantID key
  value := value
  vectorClock := vectorClock
  timestamp := env.now
  isTombstone := isTombstone

theorem mutate_spec {op : OperationType} {isTombstone : Bool} {failure : String}
    {onCache : CacheService → Option CacheService}
    (hself : ∀ c c', onCache c = some c' → c'.lookup (buildKey tenantID key) =
      visible (stored env tenantID key value vectorClock isTombstone))
    (hother : ∀ c c', onCache c = some c' → ∀ k, buildKey tenantID key ≠ k →
      c'.lookup k = none ∨ c'.lookup k = c.lookup k)
    (h : s.mutate env (logEntry env tenantID key value vectorClock op) isTombstone failure onCache =
      (s', .ok ())) :
    Mutated s s' (stored env tenantID key value vectorClock isTombstone) := by
  unfold mutate at h
  split at h
  · cases h
  · next commitLog entry happend =>
    have hentry : memEntry entry isTombstone =
        stored env tenantID key value vectorClock isTombstone := by
      rw [(CommitLogService.append_spec happend).1]
      rfl
    rw [hentry] at h
    dsimp only at h
    split at h
    · cases h
    · next cache hcache =>
      cases h
      exact ⟨rfl, rfl, hself _ _ hcache, hother _ _ hcache⟩

theorem put_spec {c c' : CacheService} {isTombstone : Bool} (ht : isTombstone = false)
    (h : c.put (buildKey tenantID key) value vectorClock env.cache = some c') :
    c'.lookup (buildKey tenantID key) =
      visible (stored env tenantID key value vectorClock isTombstone) := by
  subst ht
  exact CacheService.lookup_put_self h

/-- A write that succeeds is valid and stores its version. -/
theorem write_spec {r : WriteResponse}
    (h : s.write env tenantID key value vectorClock = (s', .ok r)) :
    Validator.validateWrite tenantID key value vectorClock = .ok () ∧
      Mutated s s' (stored env tenantID key value vectorClock false) := by
  unfold write at h
  split at h
  · cases h
  · next hvalid =>
    refine ⟨hvalid, ?_⟩
    split at h
    · cases h
    · split at h
      · cases h
      · next s₁ hmutate =>
        have hspec := mutate_spec (fun _ _ => put_spec rfl)
          (fun _ _ hput _ hk => CacheService.lookup_put_ne hput hk) hmutate
        -- a flush that is triggered changes nothing yet
        have hs' : s'.memTable = s₁.memTable ∧ s'.sstables = s₁.sstables ∧ s'.cache = s₁.cache := by
          rw [Prod.mk.injEq] at h
          rw [← h.1]
          split <;> exact ⟨rfl, rfl, rfl⟩
        obtain ⟨hmem, hsst, hcache⟩ := hs'
        constructor
        · rw [hmem, hspec.memTable]
        · rw [hsst, hspec.sstables]
        · rw [hcache, hspec.cached]
        · rw [hcache]
          exact hspec.others

/-- A delete that succeeds is valid and stores a tombstone. -/
theorem delete_spec (h : s.delete env tenantID key vectorClock = (s', .ok ())) :
    (Validator.validateTenantID tenantID = .ok () ∧ Validator.validateKey key = .ok ()) ∧
      Mutated s s' (stored env tenantID key none vectorClock true) := by
  unfold delete at h
  split at h
  · cases h
  · next htenant =>
    split at h
    · cases h
    · next hkey =>
      refine ⟨⟨htenant, hkey⟩, mutate_spec ?_ ?_ h⟩
      · intro c c' hc
        cases hc
        rw [CacheService.lookup_remove, if_pos rfl]
        rfl
      · intro c c' hc k hk
        cases hc
        rw [CacheService.lookup_remove, if_neg hk]
        exact Or.inr rfl

/-- A repair that succeeds stores its version. -/
theorem repair_spec (h : s.repair env tenantID key value vectorClock = (s', .ok ())) :
    Mutated s s' (stored env tenantID key value vectorClock false) :=
  mutate_spec (fun _ _ => put_spec rfl) (fun _ _ hput _ hk => CacheService.lookup_put_ne hput hk) h

/-! ## What a read does -/

/-- `r` is the answer to a read for which `seen` is there to be seen. -/
def Answers (tenantID key : String) : Option Seen → Except Failure ReadResponse → Prop
  | some seen, r => ∃ source,
      r = .ok { success := true, value := seen.value, vectorClock := seen.vectorClock, source }
  | none, r => r = .error (.err (.keyNotFound tenantID key))

/-- The version below the cache: the one of the memtables, or else the one of the SSTables. -/
def below (s : StorageService) (tenantID key : String) (sst : Option KeyValueEntry) :
    Option KeyValueEntry :=
  ((s.memTable.get (buildKey tenantID key)).map SSTableReader.toKeyValueEntry).or sst

/-- What a client sees of a version. -/
def visibleVersion (e : KeyValueEntry) : Option Seen :=
  if e.isTombstone then none else some ⟨e.value, e.vectorClock⟩

@[simp] theorem visibleVersion_toKeyValueEntry (e : MemTableEntry) :
    visibleVersion (SSTableReader.toKeyValueEntry e) = visible e := rfl

/-- Only the cache has changed, and under other keys than `key` only by evictions. -/
structure CacheOnly (s s' : StorageService) (key : String) : Prop where
  memTable : s'.memTable = s.memTable
  sstables : s'.sstables = s.sstables
  others : ∀ k, key ≠ k → s'.cache.lookup k = none ∨ s'.cache.lookup k = s.cache.lookup k

theorem CacheOnly.refl (s : StorageService) (key : String) : CacheOnly s s key :=
  ⟨rfl, rfl, fun _ _ => Or.inr rfl⟩

theorem fillCache_frame {source : Source} {r : Except Failure ReadResponse}
    (h : s.fillCache env key value vectorClock source = (s', r)) : CacheOnly s s' key := by
  unfold fillCache at h
  split at h
  · cases h
    exact CacheOnly.refl s key
  · next cache hput =>
    cases h
    exact ⟨rfl, rfl, fun k hk => CacheService.lookup_put_ne hput hk⟩

/-- A read changes nothing but the cache, however it ends. -/
theorem read_frame {r : Except Failure ReadResponse} (h : s.read env tenantID key = (s', r)) :
    CacheOnly s s' (buildKey tenantID key) := by
  have hrefl := CacheOnly.refl s (buildKey tenantID key)
  unfold read at h
  split at h
  · next entry cache hget =>
    cases h
    have hsnd := s.cache.lookup_get (buildKey tenantID key) env.score
    rw [hget] at hsnd
    exact ⟨rfl, rfl, fun k _ => Or.inr (hsnd k)⟩
  · unfold readMemTable readSSTables at h
    split at h
    · split at h
      · cases h
        exact hrefl
      · exact fillCache_frame h
    · split at h
      · cases h
        exact hrefl
      · cases h
        exact hrefl
      · cases h
        exact hrefl
      · split at h
        · cases h
          exact hrefl
        · exact fillCache_frame h

/-- The only error that a read returns is that there is no key. -/
theorem code_of_read {e : StorageError} (h : s.read env tenantID key = (s', .error (.err e))) :
    e.code = .keyNotFound := by
  have hfill : ∀ {value vectorClock source},
      s.fillCache env (buildKey tenantID key) value vectorClock source ≠ (s', .error (.err e)) := by
    intro value vectorClock source hfill
    unfold fillCache at hfill
    split at hfill <;> cases hfill
  unfold read at h
  split at h
  · cases h
  · unfold readMemTable readSSTables at h
    split at h
    · split at h
      · cases h
        rfl
      · exact absurd h hfill
    · split at h
      · cases h
      · next cause hget => exact absurd hget (SSTableService.get_ne_err _ _ _ _)
      · cases h
        rfl
      · split at h
        · cases h
          rfl
        · exact absurd h hfill

/-- What a read that returns answers and leaves in the cache. -/
structure ReadSpec (s' : StorageService) (tenantID key : String) (seen : Option Seen)
    (r : Except Failure ReadResponse) : Prop where
  answers : Answers tenantID key seen r
  cached : s'.cache.lookup (buildKey tenantID key) = none ∨
    s'.cache.lookup (buildKey tenantID key) = seen

theorem fillCache_spec {source : Source} {r : Except Failure ReadResponse}
    (h : s.fillCache env (buildKey tenantID key) value vectorClock source = (s', r))
    (hret : r ≠ .error .blocked) : ReadSpec s' tenantID key (some ⟨value, vectorClock⟩) r := by
  unfold fillCache at h
  split at h
  · cases h
    exact absurd rfl hret
  · next cache hput =>
    cases h
    exact ⟨⟨source, rfl⟩, Or.inr (CacheService.lookup_put_self hput)⟩

theorem readMemTable_spec {r : Except Failure ReadResponse} {sst : Option KeyValueEntry}
    (hcache : s.cache.lookup (buildKey tenantID key) = none)
    (hsst : s.sstables.get tenantID key = .ok sst)
    (h : s.readMemTable env tenantID key = (s', r)) (hret : r ≠ .error .blocked) :
    ReadSpec s' tenantID key ((s.below tenantID key sst).bind visibleVersion) r := by
  -- the places where nothing is found all end in the same way
  have hmiss : (s, (Except.error (Failure.err (.keyNotFound tenantID key)) :
      Except Failure ReadResponse)) = (s', r) → ReadSpec s' tenantID key none r := by
    intro heq
    cases heq
    exact ⟨rfl, Or.inl hcache⟩
  unfold readMemTable at h
  split at h
  · next entry hget =>
    have hbelow : s.below tenantID key sst = some (SSTableReader.toKeyValueEntry entry) := by
      rw [below, hget]
      rfl
    rw [hbelow, Option.bind_some, visibleVersion_toKeyValueEntry, visible]
    split at h
    · next htomb =>
      rw [if_pos htomb]
      exact hmiss h
    · next htomb =>
      rw [if_neg htomb]
      exact fillCache_spec h hret
  · next hget =>
    have hbelow : s.below tenantID key sst = sst := by
      rw [below, hget]
      rfl
    rw [hbelow]
    unfold readSSTables at h
    rw [hsst] at h
    cases sst with
    | none => exact hmiss h
    | some entry =>
      dsimp only at h
      rw [Option.bind_some, visibleVersion]
      split at h
      · next htomb =>
        rw [if_pos htomb]
        exact hmiss h
      · next htomb =>
        rw [if_neg htomb]
        exact fillCache_spec h hret

/-- A read answers what is cached, and else what is below the cache. -/
theorem read_spec {r : Except Failure ReadResponse} {sst : Option KeyValueEntry}
    (hsst : s.sstables.get tenantID key = .ok sst)
    (hcache : ∀ seen, s.cache.lookup (buildKey tenantID key) = some seen →
      (s.below tenantID key sst).bind visibleVersion = some seen)
    (h : s.read env tenantID key = (s', r)) (hret : r ≠ .error .blocked) :
    ReadSpec s' tenantID key ((s.below tenantID key sst).bind visibleVersion) r := by
  have hfst := s.cache.get_fst (buildKey tenantID key) env.score
  unfold read at h
  split at h
  · next entry cache hget =>
    cases h
    rw [hget] at hfst
    have hseen := hcache entry.seen hfst.symm
    have hsnd := s.cache.lookup_get (buildKey tenantID key) env.score (buildKey tenantID key)
    rw [hget] at hsnd
    rw [hseen]
    exact ⟨⟨.cache, rfl⟩, Or.inr (hsnd.trans hfst.symm)⟩
  · next hget =>
    rw [hget] at hfst
    exact readMemTable_spec hfst.symm hsst h hret

end StorageService

end PairDB.StorageNode
