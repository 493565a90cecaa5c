import PairDB.StorageNode.CommitLogReplay
import PairDB.StorageNode.Concurrent

/-!
# What concurrent calls leave behind

Once all calls have returned, the memtable should be what a replay of the log gives, and the cache
should show nothing but the memtable. Both fail, since a call can be overtaken between two of its
steps:

* two mutations of one key append in one order and reach the memtable in the other order;
* a read looks a version up, a mutation of the key takes place, and the read then puts the old
  version into the cache, where it stays.

For both there is a condition on the single steps under which the property holds in every run.
-/

namespace PairDB.StorageNode.Concurrent

open Infra Infra.Concurrent CommitLogService

/-! ## The memtable and the log -/

/-- The entry that is in the log and not yet in the memtable. -/
def Phase.unstored : Phase → Option MemTableEntry
  | .store entry => some (replayEntry entry)
  | _ => none

/-- The entries that are in the log and not yet in the memtable, in the order of the log. -/
def unstored (s : System) : List MemTableEntry := s.phases.filterMap Phase.unstored

/-- The whole line is written, and `Append` returns no error. -/
def AppendIO.Succeeds (syncWrites : Bool) : AppendIO → Prop
  | .complete => True
  | .writeFails _ _ => False
  | .syncFails _ => syncWrites = false

instance (syncWrites : Bool) : (io : AppendIO) → Decidable ( AppendIO.Succeeds syncWrites io)
  | .complete => inferInstanceAs (Decidable True)
  | .writeFails _ _ => inferInstanceAs (Decidable False)
  | .syncFails _ => inferInstanceAs (Decidable (syncWrites = false))

/-- A turn meets this if its `Append` succeeds, and if no entry of the same key that was logged
earlier is still to come when it puts its entry into the memtable. -/
def InLogOrder (s : System) : Turn → Prop
  | .start _ _ _ => True
  | .advance id env =>
    match s.phase? id with
    | some (.append _) => AppendIO.Succeeds s.state.commitLog.config.syncWrites env.io
    | some (.store entry) =>
      ∀ e ∈ (s.before id).filterMap Phase.unstored, e.key ≠ (replayEntry entry).key
    | _ => True

instance (s : System) : (t : Turn) → Decidable (InLogOrder s t)
  | .start _ _ _ => inferInstanceAs (Decidable True)
  | .advance id env => by
    unfold InLogOrder
    dsimp only
    split <;> infer_instance

/-- The log has the entries `entries`, and its last entry under each key is on its way into the
memtable or there. -/
structure Agrees (s : System) (segmentID : Int) (entries : List CommitLogEntry) : Prop where
  holds : Holds s.state.commitLog [⟨segmentID, entries⟩]
  file : s.state.commitLog.currentFile = segmentPath segmentID
  opened : s.state.commitLog.closed = false
  last : ∀ key, lastOf key (entries.map replayEntry) =
    (lastOf key (unstored s)).or (s.state.memTable.get key)

variable {s s' : System} {segmentID : Int} {entries : List CommitLogEntry}

/-- An `Append` that succeeds returns no error. -/
theorem exists_append {log : CommitLogService} (entry : CommitLogEntry) {io : AppendIO}
    (hopen : log.closed = false) (hio : AppendIO.Succeeds log.config.syncWrites io) :
    ∃ log' entry', log.append entry io = (log', .ok entry') ∧ log'.closed = false ∧
      log'.config = log.config := by
  cases io with
  | complete => simp [CommitLogService.append, hopen, writeCurrent]
  | writeFails message written => cases hio
  | syncFails message =>
    have hsync : log.config.syncWrites = false := hio
    simp [CommitLogService.append, hopen, hsync, writeCurrent]

theorem lastOf_append (key : String) (es es' : List MemTableEntry) :
    lastOf key (es ++ es') = (lastOf key es').or (lastOf key es) := by
  rw [lastOf, List.filter_append, List.getLast?_append, lastOf, lastOf]

/-- A turn that neither logs nor stores keeps the agreement. -/
theorem Agrees.of_unstored_eq (h : Agrees s segmentID entries)
    (hlog : s'.state.commitLog = s.state.commitLog) (hmem : s'.state.memTable = s.state.memTable)
    (hphases : unstored s' = unstored s) : Agrees s' segmentID entries :=
  ⟨hlog ▸ h.holds, hlog ▸ h.file, hlog ▸ h.opened, fun key => by rw [hphases, hmem, h.last key]⟩

theorem agrees_append {id : Nat} {env : CallEnv} {entry : CommitLogEntry}
    (h : Agrees s segmentID entries) (hphase : s.phase? id = some (.append entry))
    (hio : AppendIO.Succeeds s.state.commitLog.config.syncWrites env.io)
    (hstep : step s (.advance id env) = some s') :
    ∃ entries', Agrees s' segmentID entries' := by
  obtain ⟨phase, next, hphase', hturn, hbefore, hafter⟩ := step_advance hstep
  cases hphase.symm.trans hphase'
  obtain ⟨log', entry', happend, hopen, -⟩ := exists_append entry h.opened hio
  simp only [turn, happend, Option.some.injEq, Prod.mk.injEq] at hturn
  obtain ⟨hstate, hnext⟩ := hturn
  have hmem : s'.state.memTable = s.state.memTable := by rw [← hstate]
  have hlog : s'.state.commitLog = log' := by rw [← hstate]
  obtain ⟨hholds, hfile, -⟩ := @holds_append _ _ [] _ h.holds h.file _ _ _ happend
  have hunstored : unstored s' = unstored s ++ [replayEntry entry'] := by
    rw [unstored, unstored, hbefore, hafter, ← hnext]
    simp [Phase.unstored, List.filterMap_cons]
  refine ⟨entries ++ [entry'], ?_, ?_, ?_, ?_⟩
  · rw [hlog]
    exact hholds
  · rw [hlog]
    exact hfile
  · rw [hlog]
    exact hopen
  · intro key
    rw [List.map_append, List.map_singleton, lastOf_concat, hunstored, lastOf_concat, hmem,
      h.last key]
    split <;> rfl

theorem agrees_store {id : Nat} {env : CallEnv} {entry : CommitLogEntry}
    (h : Agrees s segmentID entries) (hphase : s.phase? id = some (.store entry))
    (hfirst : ∀ e ∈ (s.before id).filterMap Phase.unstored, e.key ≠ (replayEntry entry).key)
    (hstep : step s (.advance id env) = some s') : Agrees s' segmentID entries := by
  obtain ⟨phase, next, hphase', hturn, hbefore, hafter⟩ := step_advance hstep
  cases hphase.symm.trans hphase'
  simp only [turn, Option.some.injEq, Prod.mk.injEq] at hturn
  obtain ⟨hstate, hnext⟩ := hturn
  have hmem : s'.state.memTable = s.state.memTable.put (replayEntry entry) := by rw [← hstate]
  have hlog : s'.state.commitLog = s.state.commitLog := by rw [← hstate]
  have hunstored : unstored s = (s.before id).filterMap Phase.unstored ++
      replayEntry entry :: (s.after id).filterMap Phase.unstored := by
    rw [unstored, hbefore]
    simp [Phase.unstored]
  have hunstored' : unstored s' = (s.before id).filterMap Phase.unstored ++
      (s.after id).filterMap Phase.unstored := by
    rw [unstored, hafter, ← hnext]
    simp [Phase.unstored, List.filterMap_cons]
  refine ⟨hlog ▸ h.holds, hlog ▸ h.file, hlog ▸ h.opened, fun key => ?_⟩
  rw [h.last key, hunstored, hunstored', hmem, MemTableService.get_put, List.append_cons,
    lastOf_append key (_ ++ [_]), lastOf_concat, lastOf_append]
  by_cases hkey : (replayEntry entry).key = key
  · -- nothing of this key was logged before and is still to come
    have hnone : lastOf key ((s.before id).filterMap Phase.unstored) = none := by
      rw [lastOf, List.getLast?_eq_none_iff, List.filter_eq_nil_iff]
      intro e he
      simpa [← hkey] using hfirst e he
    rw [if_pos hkey, if_pos hkey, hnone]
    cases lastOf key ((s.after id).filterMap Phase.unstored) <;> rfl
  · rw [if_neg hkey, if_neg hkey]

/-- The step lemma: a turn in the order of the log keeps the agreement. -/
theorem agrees_step {t : Turn} (h : ∃ entries, Agrees s segmentID entries) (hok : InLogOrder s t)
    (hstep : step s t = some s') : ∃ entries, Agrees s' segmentID entries := by
  obtain ⟨entries, h⟩ := h
  cases t with
  | start id env request =>
    obtain ⟨hstate, hphases⟩ := step_start hstep
    refine ⟨entries, h.of_unstored_eq (by rw [hstate]) (by rw [hstate]) ?_⟩
    have hnone : ∀ phase, enter env request = some phase → phase.unstored = none := by
      intro phase hphase
      cases request <;> simp only [enter] at hphase <;>
        (repeat' split at hphase) <;> cases hphase <;> rfl
    rw [unstored, hphases, List.filterMap_append, unstored]
    cases he : enter env request with
    | none => simp
    | some phase => simp [hnone phase he]
  | advance id env =>
    obtain ⟨phase, next, hphase, hturn, hbefore, hafter⟩ := step_advance hstep
    simp only [InLogOrder, hphase] at hok
    -- the turns that only read, and the ones that change the cache
    have hother : phase.unstored = none → (∀ p ∈ next, p.unstored = none) →
        s'.state.commitLog = s.state.commitLog → s'.state.memTable = s.state.memTable →
        ∃ entries, Agrees s' segmentID entries := by
      intro hnone hnext hlog hmem
      refine ⟨entries, h.of_unstored_eq hlog hmem ?_⟩
      rw [unstored, unstored, hbefore, hafter]
      cases next with
      | none => simp [hnone]
      | some p => simp [hnone, hnext p rfl]
    have hreadPhase : ∀ p : Phase, p.isRead = true → p.unstored = none := by
      intro p hp
      cases p <;> first | rfl | cases hp
    by_cases hread : phase.isRead = true
    · obtain ⟨hlog, hmem, hnext⟩ := turn_read hread hturn
      exact hother (hreadPhase _ hread) (fun p hp => hreadPhase p (hnext p hp)) hlog hmem
    · cases phase with
      | append entry => exact agrees_append h hphase hok hstep
      | store entry => exact ⟨entries, agrees_store h hphase hok hstep⟩
      | updateCache entry =>
        obtain ⟨hlog, hmem, rfl, -⟩ := turn_updateCache hturn
        exact hother rfl (by simp) hlog hmem
      | _ => exact absurd rfl hread

/-- The memtable after a replay of the log in the order of its files. -/
def replayed (log : CommitLogService) (flushThreshold : Int) : MemTableService :=
  (log.logged.map replayEntry).foldl MemTableService.put (MemTableService.new flushThreshold)

/-- A service in empty directories, with no call in progress. -/
def init (config : CommitLogConfig) (flushThreshold cacheSize : Int) (dataDir : String)
    (bloom : BloomParams) (now later : Int) : System :=
  System.quiet (Node.init (CommitLogService.new config ∅ now later) flushThreshold cacheSize dataDir
    bloom).service

/-- **The memtable and the log agree.** In every run whose turns are in the order of the log, in
every state without a call in progress, a replay of the log gives the memtable. -/
theorem get_eq_replayed_of_inLogOrder {config : CommitLogConfig} {flushThreshold cacheSize : Int}
    {dataDir : String} {bloom : BloomParams} {now later : Int} {turns : List Turn} {s : System}
    (horder : AllSteps step InLogOrder
      (init config flushThreshold cacheSize dataDir bloom now later) turns)
    (hrun : run step (init config flushThreshold cacheSize dataDir bloom now later) turns = some s)
    (hquiet : s.phases = []) (key : String) :
    s.state.memTable.get key = (replayed s.state.commitLog flushThreshold).get key := by
  have hinit : ∃ entries,
      Agrees (init config flushThreshold cacheSize dataDir bloom now later) now entries :=
    ⟨[], holds_new config now later, rfl, rfl, fun _ => rfl⟩
  obtain ⟨entries, h⟩ := run_invariant (fun _ _ _ => agrees_step) hinit horder hrun
  have hlast := h.last key
  rw [unstored, hquiet] at hlast
  rw [replayed, MemTableService.get_foldl_put, h.holds.logged, List.flatMap_singleton, hlast]
  cases s.state.memTable.get key <;> rfl

namespace Sample

def start : System := init ⟨1000, false⟩ 100 1000 "data" ⟨8, 1⟩ 1 1

def env : CallEnv := ⟨5, none, .complete, 0, ⟨0, []⟩⟩

def write (id : Nat) (value : Bytes) : Turn := .start id env (.write "t" "k" (some value) ⟨[]⟩)

def turns (ids : List Nat) : List Turn := ids.map fun id => .advance id env

/-- Two overlapping writes whose entries reach the memtable as they were logged. -/
def inOrder : List Turn := write 1 [1] :: write 2 [2] :: turns [1, 2, 1, 2, 1, 2]

/-- Two overlapping writes; the second one overtakes the first between log and memtable. -/
def overtaken : List Turn := write 1 [1] :: write 2 [2] :: turns [1, 2, 2, 1, 2, 1]

/-- The entry that a write logs. -/
def loggedEntry (value : Bytes) : CommitLogEntry :=
  StorageService.logEntry env "t" "k" (some value) ⟨[]⟩ .write

/-- The log after the first `Append`. -/
def logOnce : CommitLogService := (start.state.commitLog.append (loggedEntry [1]) .complete).1

/-- The log after both. -/
def logTwice : CommitLogService := (logOnce.append (loggedEntry [2]) .complete).1

theorem logged_logTwice :
    logTwice.logged = [start.state.commitLog.stamp (loggedEntry [1]), logOnce.stamp (loggedEntry [2])] := by
  obtain ⟨hone, hfile, -⟩ := @holds_append _ logOnce [] _ (holds_new ⟨1000, false⟩ 1 1) rfl
    (loggedEntry [1]) (start.state.commitLog.stamp (loggedEntry [1])) .complete rfl
  obtain ⟨htwo, -⟩ := @holds_append _ logTwice [] _ hone hfile
    (loggedEntry [2]) (logOnce.stamp (loggedEntry [2])) .complete rfl
  exact htwo.logged

end Sample

open Sample

set_option maxRecDepth 10000 in
theorem get_eq_replayed_inOrder : ∃ s, run step start inOrder = some s ∧
    ∀ key, s.state.memTable.get key = (replayed s.state.commitLog 100).get key := by
  have hquiet : (run step start inOrder).map (fun s => decide (s.phases = [])) = some true := by
    decide +kernel
  obtain ⟨s, hs, hphases⟩ := Option.map_eq_some_iff.mp hquiet
  exact ⟨s, hs, get_eq_replayed_of_inLogOrder (by decide +kernel) hs (of_decide_eq_true hphases)⟩

set_option maxRecDepth 10000 in
/-- The memtable has the value of the first write, and a replay of the log gives the second one. -/
theorem replayed_ne_get_overtaken :
    (run step start overtaken).map (fun s => (s.phases,
        (s.state.memTable.get "t:k").map MemTableEntry.value,
        ((replayed s.state.commitLog 100).get "t:k").map MemTableEntry.value)) =
      some ([], some (some [1]), some (some [2])) := by
  have hmem : (run step start overtaken).map (fun s =>
      (s.phases, (s.state.memTable.get "t:k").map MemTableEntry.value)) =
      some ([], some (some [1])) := by
    decide +kernel
  -- the entries of the log are known without parsing its lines
  have hlog : (run step start overtaken).map (fun s => s.state.commitLog) = some logTwice := rfl
  obtain ⟨s, hs, hvalues⟩ := Option.map_eq_some_iff.mp hmem
  obtain ⟨hphases, hvalue⟩ := Prod.mk.inj hvalues
  rw [hs, Option.map_some, Option.some.injEq] at hlog
  rw [hs, Option.map_some, hphases, hvalue, hlog, replayed, logged_logTwice]
  rfl

/-! ## The cache and the memtable -/

/-- The key whose cache entry the mutation is still to change. -/
def Phase.updates : Phase → Option String
  | .updateCache entry => some (buildKey entry.tenantID entry.key)
  | _ => none

/-- What the newest memtable entry of a key shows. -/
def shown (s : System) (key : String) : Option Seen :=
  (s.state.memTable.get key).bind StorageService.visible

/-- Putting `seen` into the cache does no harm: the newest memtable entry shows it, or another
mutation is still to change the cache entry of the key. -/
def PutsNewest (s : System) (id : Nat) (key : String) (seen : Seen) : Prop :=
  shown s key = some seen ∨ ∃ phase ∈ s.before id ++ s.after id, phase.updates = some key

instance (s : System) (id : Nat) (key : String) (seen : Seen) :
    Decidable (PutsNewest s id key seen) := inferInstanceAs (Decidable (_ ∨ _))

/-- A turn meets this if what it puts into the cache is not outdated. -/
def CachesNewest (s : System) : Turn → Prop
  | .start _ _ _ => True
  | .advance id _ =>
    match s.phase? id with
    | some (.updateCache entry) => entry.operationType = .delete ∨
        PutsNewest s id (buildKey entry.tenantID entry.key) ⟨entry.value, entry.vectorClock⟩
    | some (.fillCache key value vectorClock) => PutsNewest s id key ⟨value, vectorClock⟩
    | _ => True

instance (s : System) : (t : Turn) → Decidable (CachesNewest s t)
  | .start _ _ _ => inferInstanceAs (Decidable True)
  | .advance id _ => by
    unfold CachesNewest
    dsimp only
    split <;> infer_instance

/-- Under each key, the cache has nothing, or what the memtable shows, or a mutation is still to
change it. -/
def Coherent (s : System) : Prop :=
  ∀ key, (∃ phase ∈ s.phases, phase.updates = some key) ∨ s.state.cache.lookup key = none ∨
    s.state.cache.lookup key = shown s key

/-- What a mutation leaves in the cache. -/
theorem lookup_cacheAfter {c c' : CacheService} {env : CacheEnv} {entry : CommitLogEntry}
    (h : cacheAfter c env entry = some c') :
    (c'.lookup (buildKey entry.tenantID entry.key) =
        if entry.operationType = .delete then none else some ⟨entry.value, entry.vectorClock⟩) ∧
      ∀ key, buildKey entry.tenantID entry.key ≠ key →
        c'.lookup key = none ∨ c'.lookup key = c.lookup key := by
  unfold cacheAfter at h
  split at h
  · next hop =>
    cases h
    rw [if_pos hop]
    refine ⟨by rw [CacheService.lookup_remove, if_pos rfl], fun key hkey => ?_⟩
    exact Or.inr (by rw [CacheService.lookup_remove, if_neg hkey])
  · next hop =>
    rw [hop, if_neg (by decide)]
    exact ⟨CacheService.lookup_put_self h, fun key hkey => CacheService.lookup_put_ne h hkey⟩
  · next hop =>
    rw [hop, if_neg (by decide)]
    exact ⟨CacheService.lookup_put_self h, fun key hkey => CacheService.lookup_put_ne h hkey⟩

/-- The step lemma: a turn that puts nothing outdated into the cache keeps it coherent. -/
theorem coherent_step {t : Turn} (h : Coherent s) (hok : CachesNewest s t)
    (hstep : step s t = some s') : Coherent s' := by
  intro key
  cases t with
  | start id env request =>
    obtain ⟨hstate, hphases⟩ := step_start hstep
    rw [shown, hstate, hphases]
    refine (h key).imp_left ?_
    rintro ⟨phase, hmem, hupdates⟩
    exact ⟨phase, List.mem_append_left _ hmem, hupdates⟩
  | advance id env =>
    obtain ⟨phase, next, hphase, hturn, hbefore, hafter⟩ := step_advance hstep
    simp only [CachesNewest, hphase] at hok
    -- a mutation that is still to come, other than the call itself, is still to come
    have hrest : (∃ p ∈ s.before id ++ s.after id, p.updates = some key) →
        ∃ p ∈ s'.phases, p.updates = some key := by
      rintro ⟨p, hp, hupdates⟩
      rw [hafter]
      exact ⟨p, List.mem_append_left _ hp, hupdates⟩
    have hpending : phase.updates ≠ some key → (∃ p ∈ s.phases, p.updates = some key) →
        ∃ p ∈ s'.phases, p.updates = some key := by
      rintro hne ⟨p, hp, hupdates⟩
      refine hrest ⟨p, ?_, hupdates⟩
      rw [hbefore, List.mem_append, List.mem_cons] at hp
      rcases hp with hp | rfl | hp
      · exact List.mem_append_left _ hp
      · exact absurd hupdates hne
      · exact List.mem_append_right _ hp
    cases phase with
    | updateCache entry =>
      obtain ⟨-, hmem, rfl, hcache⟩ := turn_updateCache hturn
      obtain ⟨hself, hothers⟩ := lookup_cacheAfter hcache
      have hshown : shown s' key = shown s key := by rw [shown, hmem, shown]
      by_cases hkey : buildKey entry.tenantID entry.key = key
      · subst hkey
        rw [hself]
        rcases hok with hdelete | hnewest | hother
        · rw [if_pos hdelete]
          exact Or.inr (Or.inl rfl)
        · by_cases hdelete : entry.operationType = .delete
          · rw [if_pos hdelete]
            exact Or.inr (Or.inl rfl)
          · rw [if_neg hdelete, hshown, hnewest]
            exact Or.inr (Or.inr rfl)
        · exact Or.inl (hrest hother)
      · have hne : (Phase.updateCache entry).updates ≠ some key := by simpa [Phase.updates] using hkey
        rcases h key with hp | hold
        · exact Or.inl (hpending hne hp)
        · rw [hshown]
          rcases hothers key hkey with hnone | hsame
          · exact Or.inr (Or.inl hnone)
          · rw [hsame]
            exact Or.inr hold
    | fillCache key' value vectorClock =>
      obtain ⟨-, hmem, -⟩ := turn_read rfl hturn
      have hshown : shown s' key = shown s key := by rw [shown, hmem, shown]
      simp only [turn] at hturn
      obtain ⟨cache, hput, hr⟩ := Option.map_eq_some_iff.mp hturn
      rw [Prod.mk.injEq] at hr
      have hcache : s'.state.cache = cache := by rw [← hr.1]
      rw [hcache, hshown]
      by_cases hkey : key' = key
      · subst hkey
        rw [CacheService.lookup_put_self hput]
        rcases hok with hnewest | hother
        · exact Or.inr (Or.inr hnewest.symm)
        · exact Or.inl (hrest hother)
      · rcases h key with hp | hold
        · exact Or.inl (hpending (by rintro ⟨⟩) hp)
        · rcases CacheService.lookup_put_ne hput hkey with hnone | hsame
          · exact Or.inr (Or.inl hnone)
          · rw [hsame]
            exact Or.inr hold
    | store entry =>
      have hlookup := lookup_of_turn (by rintro _ ⟨⟩) (by rintro _ _ _ ⟨⟩) hturn key
      simp only [turn, Option.some.injEq, Prod.mk.injEq] at hturn
      by_cases hkey : buildKey entry.tenantID entry.key = key
      · -- the call itself is now to change the cache
        refine Or.inl ⟨.updateCache entry, ?_, congrArg some hkey⟩
        rw [hafter, ← hturn.2]
        exact List.mem_append_right _ (List.mem_singleton_self _)
      · have hshown : shown s' key = shown s key := by
          have hother : (replayEntry entry).key ≠ key := hkey
          rw [shown, ← hturn.1]
          show ((s.state.memTable.put _).get key).bind _ = _
          rw [MemTableService.get_put, if_neg hother, shown]
        rw [hlookup, hshown]
        exact (h key).imp_left (hpending (by rintro ⟨⟩))
    | append entry =>
      have hlookup := lookup_of_turn (by rintro _ ⟨⟩) (by rintro _ _ _ ⟨⟩) hturn key
      have hmem : s'.state.memTable = s.state.memTable := by
        simp only [turn] at hturn
        split at hturn <;> rw [Option.some.injEq, Prod.mk.injEq] at hturn <;> rw [← hturn.1]
      rw [hlookup, shown, hmem]
      exact (h key).imp_left (hpending (by rintro ⟨⟩))
    | _ =>
      have hlookup := lookup_of_turn (by rintro _ ⟨⟩) (by rintro _ _ _ ⟨⟩) hturn key
      obtain ⟨-, hmem, -⟩ := turn_read rfl hturn
      rw [hlookup, shown, hmem]
      exact (h key).imp_left (hpending (by rintro ⟨⟩))

/-- **The cache shows nothing but the memtable.** In every run whose turns put nothing outdated into
the cache, in every state without a call in progress, a cache entry is the newest memtable entry of
its key, which is no tombstone. -/
theorem cached_is_newest_of_cachesNewest {config : CommitLogConfig} {flushThreshold cacheSize : Int}
    {dataDir : String} {bloom : BloomParams} {now later : Int} {turns : List Turn} {s : System}
    (hnewest : AllSteps step CachesNewest
      (init config flushThreshold cacheSize dataDir bloom now later) turns)
    (hrun : run step (init config flushThreshold cacheSize dataDir bloom now later) turns = some s)
    (hquiet : s.phases = []) {key : String} {seen : Seen}
    (hcached : s.state.cache.lookup key = some seen) :
    ∃ e, s.state.memTable.get key = some e ∧ e.isTombstone = false ∧
      seen = ⟨e.value, e.vectorClock⟩ := by
  have hcoherent : Coherent s :=
    run_invariant (fun _ _ _ => coherent_step) (fun _ => Or.inr (Or.inl rfl)) hnewest hrun
  rcases hcoherent key with ⟨phase, hmem, -⟩ | hnone | hshown
  · rw [hquiet] at hmem
    cases hmem
  · rw [hnone] at hcached
    cases hcached
  · rw [hcached, shown] at hshown
    obtain ⟨e, he, hvisible⟩ := Option.bind_eq_some_iff.mp hshown.symm
    refine ⟨e, he, ?_⟩
    unfold StorageService.visible at hvisible
    split at hvisible
    · cases hvisible
    · next htomb =>
      cases hvisible
      exact ⟨by simpa using htomb, rfl⟩

namespace Sample

def read (id : Nat) : Turn := .start id env (.read "t" "k")

def delete (id : Nat) : Turn := .start id env (.delete "t" "k" ⟨[]⟩)

/-- A read looks a version up, the key is deleted, and then the read fills the cache. -/
def lateFill : List Turn :=
  write 1 [1] :: turns [1, 1] ++ read 2 :: turns [2, 2] ++ turns [1] ++
    delete 3 :: turns [3, 3, 3] ++ turns [2]

end Sample

set_option maxRecDepth 10000 in
theorem cached_is_newest_inOrder : ∃ s e, run step start inOrder = some s ∧
    s.state.cache.lookup "t:k" = some ⟨some [2], ⟨[]⟩⟩ ∧ s.state.memTable.get "t:k" = some e ∧
    e.isTombstone = false ∧ (⟨some [2], ⟨[]⟩⟩ : Seen) = ⟨e.value, e.vectorClock⟩ := by
  have hstate : (run step start inOrder).map (fun s => decide (s.phases = [] ∧
      s.state.cache.lookup "t:k" = some ⟨some [2], ⟨[]⟩⟩)) = some true := by decide +kernel
  obtain ⟨s, hs, hdec⟩ := Option.map_eq_some_iff.mp hstate
  obtain ⟨hquiet, hcached⟩ := of_decide_eq_true hdec
  obtain ⟨e, he⟩ := cached_is_newest_of_cachesNewest (by decide +kernel) hs hquiet hcached
  exact ⟨s, e, hs, hcached, he⟩

set_option maxRecDepth 10000 in
/-- All calls have returned, the newest memtable entry is a tombstone, and the cache has the deleted
version. -/
theorem cached_after_delete_lateFill :
    (run step start lateFill).map (fun s => (s.phases,
        (s.state.memTable.get "t:k").map MemTableEntry.isTombstone,
        s.state.cache.lookup "t:k")) =
      some ([], some true, some ⟨some [1], ⟨[]⟩⟩) := by
  decide +kernel

end PairDB.StorageNode.Concurrent
