import PairDB.StorageNode.CommitLogReplay
import PairDB.StorageNode.Node

/-!
# Recovery after a crash

Calls succeed one after another on a node that started with an empty directory, and the rotation
checker runs in between. Then the process dies, and `Recover` fills an empty memtable from the log.

`LoggedNode` keeps beside the service the segments of the log, as a list of entries each. With a
clock that does not step back (and that keeps its number of digits), `recover_keeps_last_iff` says
when nothing is lost: the last mutation of every key must not stand behind, or on, a line of its
segment that is too long for the scanner. A value of 8 MiB, which the validator admits, makes such a
line.
-/

namespace PairDB.StorageNode

open Infra CommitLogService

/-! ## Any files -/

/-- What `Recover` finds in the files, in the order in which it reads them. -/
def CommitLogService.found (s : CommitLogService) : List MemTableEntry :=
  (s.segmentNames.flatMap fun path => restored (s.contents path)).map replayEntry

theorem CommitLogService.recover_snd (s : CommitLogService) (memTable : MemTableService) :
    (s.recover memTable).2 = s.found.foldl MemTableService.put memTable := by
  have hloop : ∀ (paths : List String) (r : Recovery),
      (paths.foldl s.recoverSegment r).memTable = ((paths.flatMap fun path =>
        restored (s.contents path)).map replayEntry).foldl MemTableService.put r.memTable := by
    intro paths
    induction paths with
    | nil => intro r; rfl
    | cons path paths ih =>
      intro r
      have hsegment : (s.recoverSegment r path).memTable =
          (recoverFromFile r.memTable (s.contents path)).memTable := by
        simp only [recoverSegment]
        split <;> rfl
      rw [List.foldl_cons, ih, hsegment, memTable_recoverFromFile_eq, List.flatMap_cons,
        List.map_append, List.foldl_append]
  exact hloop _ _

/-- The entry that a request hands to `Append`. -/
def Request.logEntry (env : CallEnv) : Request → Option CommitLogEntry
  | write tenantID key value vectorClock =>
    some (StorageService.logEntry env tenantID key value vectorClock .write)
  | delete tenantID key vectorClock =>
    some (StorageService.logEntry env tenantID key none vectorClock .delete)
  | repair tenantID key value vectorClock =>
    some (StorageService.logEntry env tenantID key value vectorClock .repair)
  | read _ _ => none

/-- A replay of what a request logged stores what the request stored. -/
theorem Request.stored_eq_replay (log : CommitLogService) (env : CallEnv) (r : Request) :
    r.stored env = (r.logEntry env).map fun e => replayEntry (log.stamp e) := by
  cases r <;> rfl

theorem StorageService.commitLog_of_mutate {s s' : StorageService} {env : CallEnv}
    {entry : CommitLogEntry} {isTombstone : Bool} {failure : String}
    {onCache : CacheService → Option CacheService}
    (h : s.mutate env entry isTombstone failure onCache = (s', .ok ())) :
    s.commitLog.append entry env.io = (s'.commitLog, .ok (s.commitLog.stamp entry)) := by
  unfold mutate at h
  split at h
  · cases h
  · next commitLog entry' happend =>
    dsimp only at h
    rw [happend, (append_spec happend).1]
    split at h
    · cases h
    · cases h
      rfl

/-- A read does not touch the log. -/
theorem StorageService.commitLog_of_read {s s' : StorageService} {env : CallEnv}
    {tenantID key : String} {r : Except Failure ReadResponse}
    (h : s.read env tenantID key = (s', r)) : s'.commitLog = s.commitLog := by
  have hfill : ∀ {value : Option Bytes} {vectorClock : VectorClock} {source : Source},
      s.fillCache env (buildKey tenantID key) value vectorClock source = (s', r) →
        s'.commitLog = s.commitLog := by
    intro value vectorClock source hfill
    unfold fillCache at hfill
    split at hfill <;> cases hfill <;> rfl
  unfold read at h
  split at h
  · cases h
    rfl
  · unfold readMemTable at h
    split at h
    · split at h
      · cases h
        rfl
      · exact hfill h
    · unfold readSSTables at h
      split at h
      · cases h
        rfl
      · cases h
        rfl
      · cases h
        rfl
      · split at h
        · cases h
          rfl
        · exact hfill h

/-- What a call that succeeds does to the log: it appends its entry, if it has one. -/
theorem StorageService.commitLog_of_perform {s s' : StorageService} {env : CallEnv}
    {request : Request} (h : s.perform env request = some s') :
    match request.logEntry env with
    | some entry =>
      s.commitLog.append entry env.io = (s'.commitLog, .ok (s.commitLog.stamp entry))
    | none => s'.commitLog = s.commitLog := by
  cases request with
  | write tenantID key value vectorClock =>
    simp only [perform, write] at h
    simp only [Request.logEntry]
    rcases hm : s.mutate env (logEntry env tenantID key value vectorClock .write) false
      "failed to append to commit log"
      (fun cache => cache.put (buildKey tenantID key) value vectorClock env.cache) with
      ⟨s₁, failure | ⟨⟩⟩
    · simp only [hm] at h
      cases hv : Validator.validateWrite tenantID key value vectorClock <;>
        cases hd : env.disk <;> simp [hv, hd] at h
    · rw [commitLog_of_mutate hm]
      cases hv : Validator.validateWrite tenantID key value vectorClock <;>
        cases hd : env.disk <;> simp [hv, hd, hm] at h
      -- a flush that is requested does not touch the log
      rw [← h]
      split <;> rfl
  | delete tenantID key vectorClock =>
    simp only [perform, delete] at h
    simp only [Request.logEntry]
    rcases hm : s.mutate env (logEntry env tenantID key none vectorClock .delete) true
      "failed to append delete to commit log"
      (fun cache => some (cache.remove (buildKey tenantID key))) with ⟨s₁, failure | ⟨⟩⟩
    · cases hv : Validator.validateTenantID tenantID <;>
        cases hk : Validator.validateKey key <;> simp [hv, hk, hm] at h
    · rw [commitLog_of_mutate hm]
      cases hv : Validator.validateTenantID tenantID <;>
        cases hk : Validator.validateKey key <;> simp [hv, hk, hm] at h
      rw [← h]
  | repair tenantID key value vectorClock =>
    simp only [perform, repair] at h
    simp only [Request.logEntry]
    rcases hm : s.mutate env (logEntry env tenantID key value vectorClock .repair) false
      "repair commit log failed"
      (fun cache => cache.put (buildKey tenantID key) value vectorClock env.cache) with
      ⟨s₁, failure | ⟨⟩⟩
    · simp only [hm] at h
      cases h
    · rw [commitLog_of_mutate hm]
      simp only [hm, Option.some.injEq] at h
      rw [h]
  | read tenantID key =>
    simp only [Request.logEntry]
    rcases perform_spec h with ⟨e, hstored, -⟩ | ⟨tenantID', key', r, hreq, hread, -⟩
    · cases hstored
    · exact commitLog_of_read hread

/-! ## Runs -/

/-- A service and the segments of its log: the finished ones, the oldest first, and the one that
entries are appended to. -/
structure LoggedNode where
  service : StorageService
  older : List Segment
  current : Segment

/-- What happens to the log. -/
inductive LogEvent where
  | call (env : CallEnv) (request : Request)
  | checkRotation (now : Int) (opens : Bool)

/-- The entry that an event stores. -/
def LogEvent.stored : LogEvent → Option MemTableEntry
  | .call env request => request.stored env
  | .checkRotation _ _ => none

namespace LoggedNode

/-- The whole log. -/
def log (n : LoggedNode) : List Segment := n.older ++ [n.current]

/-- A node that starts at `now` in an empty directory. -/
def init (config : CommitLogConfig) (flushThreshold cacheSize : Int) (dataDir : String)
    (bloom : BloomParams) (now later : Int) : LoggedNode where
  service := (Node.init (CommitLogService.new config ∅ now later) flushThreshold cacheSize dataDir
    bloom).service
  older := []
  current := ⟨now, []⟩

/-- A call that succeeds, or a round of the rotation checker. -/
def step (n : LoggedNode) : LogEvent → Option LoggedNode
  | .call env request =>
    (n.service.perform env request).map fun service =>
      { n with
        service
        current := { n.current with
          entries := n.current.entries ++
            ((request.logEntry env).map n.service.commitLog.stamp).toList } }
  | .checkRotation now opens =>
    let commitLog := n.service.commitLog.checkRotation now opens
    let service := { n.service with commitLog }
    if commitLog.currentFile = n.service.commitLog.currentFile then some { n with service }
    else
      some { service, older := n.older ++ [n.current],
             current := ⟨n.service.commitLog.segmentID, []⟩ }

/-- The clock does not go back, and its readings keep their number of digits. -/
def ClockAdvances (n : LoggedNode) : LogEvent → Prop
  | .call _ _ => True
  | .checkRotation now _ => Follows n.service.commitLog.segmentID now

instance (n : LoggedNode) : (event : LogEvent) → Decidable (n.ClockAdvances event)
  | .call _ _ => inferInstanceAs (Decidable True)
  | .checkRotation _ _ => inferInstanceAs (Decidable (Follows _ _))

end LoggedNode

/-- The entries that some events store. -/
def storedBy (events : List LogEvent) : List MemTableEntry := events.filterMap LogEvent.stored

/-- What holds along a run: the files hold the log, and the log has what the events stored. -/
structure Tracks (events : List LogEvent) (n : LoggedNode) : Prop where
  holds : Holds n.service.commitLog n.log
  file : n.service.commitLog.currentFile = segmentPath n.current.segmentID
  next : Follows n.current.segmentID n.service.commitLog.segmentID
  entries : (n.log.flatMap Segment.entries).map replayEntry = storedBy events

theorem tracks_init {config : CommitLogConfig} {flushThreshold cacheSize : Int} {dataDir : String}
    {bloom : BloomParams} {now later : Int} (h : Follows now later) :
    Tracks [] (LoggedNode.init config flushThreshold cacheSize dataDir bloom now later) where
  holds := holds_new config now later
  file := rfl
  next := h
  entries := rfl

variable {events : List LogEvent} {n n' : LoggedNode}

theorem tracks_call (ht : Tracks events n) {env : CallEnv} {request : Request}
    (h : n.step (.call env request) = some n') : Tracks (events ++ [.call env request]) n' := by
  obtain ⟨service, hperform, rfl⟩ := Option.map_eq_some_iff.mp h
  have hlog := StorageService.commitLog_of_perform hperform
  have hstored : storedBy (events ++ [.call env request]) =
      storedBy events ++ ((request.logEntry env).map fun e =>
        replayEntry (n.service.commitLog.stamp e)).toList := by
    rw [← Request.stored_eq_replay, storedBy, List.filterMap_append]
    cases hs : request.stored env <;> simp [storedBy, LogEvent.stored, hs]
  cases hentry : request.logEntry env with
  | none =>
    simp only [hentry] at hlog
    rw [hentry] at hstored
    simp only [Option.map_none, Option.toList_none, List.append_nil] at hstored ⊢
    constructor
    · show Holds service.commitLog n.log
      rw [hlog]
      exact ht.holds
    · show service.commitLog.currentFile = _
      rw [hlog]
      exact ht.file
    · show Follows _ service.commitLog.segmentID
      rw [hlog]
      exact ht.next
    · rw [hstored]
      exact ht.entries
  | some entry =>
    simp only [hentry] at hlog
    rw [hentry] at hstored
    simp only [Option.map_some, Option.toList_some] at hstored ⊢
    obtain ⟨hholds, hfile, hid⟩ := holds_append ht.holds ht.file hlog
    constructor
    · exact hholds
    · exact hfile
    · show Follows _ service.commitLog.segmentID
      rw [hid]
      exact ht.next
    · rw [hstored, ← ht.entries]
      simp [LoggedNode.log]

theorem tracks_checkRotation (ht : Tracks events n) {now : Int} {opens : Bool}
    (hclock : Follows n.service.commitLog.segmentID now)
    (h : n.step (.checkRotation now opens) = some n') :
    Tracks (events ++ [.checkRotation now opens]) n' := by
  have hstored : storedBy (events ++ [.checkRotation now opens]) = storedBy events := by
    simp [storedBy, LogEvent.stored]
  simp only [LoggedNode.step] at h
  rcases checkRotation_spec n.service.commitLog now opens with ⟨hfiles, hfile, hid⟩ |
    ⟨hfiles, hfile, hid⟩
  · rw [if_pos hfile] at h
    cases h
    constructor
    · exact holds_of_files_eq ht.holds (by rw [hfiles]) fun path => by
        simp only [CommitLogService.contents, hfiles]
    · exact hfile.trans ht.file
    · show Follows _ (n.service.commitLog.checkRotation now opens).segmentID
      rw [hid]
      exact ht.next
    · exact ht.entries.trans hstored.symm
  · by_cases hsame : n.current.segmentID = n.service.commitLog.segmentID
    · -- within one second, the same file is opened again
      rw [hfile, ht.file, hsame, if_pos rfl] at h
      cases h
      have hmem : segmentPath n.service.commitLog.segmentID ∈ n.service.commitLog.files.keys := by
        rw [← hsame]
        exact ht.holds.names.mem_iff.mpr (by simp [LoggedNode.log])
      constructor
      · exact holds_reopen ht.holds hmem hfiles
      · show _ = segmentPath n.current.segmentID
        rw [hsame]
        exact hfile
      · show Follows _ (n.service.commitLog.checkRotation now opens).segmentID
        rw [hid, hsame]
        exact hclock
      · exact ht.entries.trans hstored.symm
    · have hlt := segmentPath_lt ht.next hsame
      rw [hfile, ht.file, if_neg (ne_of_gt hlt)] at h
      cases h
      constructor
      · refine holds_open ht.holds (fun g hg => ?_) hfiles
        rcases List.mem_append.mp hg with hold | hlast
        · have hg := (List.pairwise_append.mp ht.holds.ordered).2.2 g hold n.current (by simp)
          exact hg.trans hlt
        · rw [List.mem_singleton.mp hlast]
          exact hlt
      · exact hfile
      · show Follows _ (n.service.commitLog.checkRotation now opens).segmentID
        rw [hid]
        exact hclock
      · rw [hstored, ← ht.entries]
        simp [LoggedNode.log]

theorem tracks_of_run {config : CommitLogConfig} {flushThreshold cacheSize : Int}
    {dataDir : String} {bloom : BloomParams} {now later : Int} (hstart : Follows now later)
    (hclock : AllSteps LoggedNode.step LoggedNode.ClockAdvances
      (.init config flushThreshold cacheSize dataDir bloom now later) events)
    (hrun : run LoggedNode.step
      (.init config flushThreshold cacheSize dataDir bloom now later) events = some n) :
    Tracks events n := by
  refine run_invariant_history (I := Tracks) ?_ events [] _ n (tracks_init hstart) hclock hrun
  intro pre n event n' ht hadv hstep
  cases event with
  | call env request => exact tracks_call ht hstep
  | checkRotation now opens => exact tracks_checkRotation ht hadv hstep

/-- The entries that a recovery reads. -/
def LoggedNode.readableEntries (n : LoggedNode) : List MemTableEntry :=
  (n.log.flatMap fun g => readable g.entries).map replayEntry

theorem get_recover (ht : Tracks events n) (flushThreshold : Int) (key : String) :
    (n.service.commitLog.recover (MemTableService.new flushThreshold)).2.get key =
      lastOf key n.readableEntries := by
  rw [recover_spec ht.holds, MemTableService.get_foldl_put]
  exact Option.or_none

/-- **When a recovery loses nothing.** Under every key it brings back the last mutation, exactly if
under every key the last mutation among the readable ones is the last one of all. -/
theorem recover_keeps_last_iff {config : CommitLogConfig} {flushThreshold cacheSize : Int}
    {dataDir : String} {bloom : BloomParams} {now later : Int} {events : List LogEvent}
    {n : LoggedNode} (hstart : Follows now later)
    (hclock : AllSteps LoggedNode.step LoggedNode.ClockAdvances
      (.init config flushThreshold cacheSize dataDir bloom now later) events)
    (hrun : run LoggedNode.step
      (.init config flushThreshold cacheSize dataDir bloom now later) events = some n)
    (threshold : Int) :
    (∀ key, (n.service.commitLog.recover (MemTableService.new threshold)).2.get key =
        lastOf key (storedBy events)) ↔
      ∀ key, lastOf key n.readableEntries = lastOf key (storedBy events) := by
  have ht := tracks_of_run hstart hclock hrun
  simp only [get_recover ht]

/-- If all lines fit into the scanner's buffer, everything is readable. -/
theorem readableEntries_of_fits (ht : Tracks events n)
    (hfits : ∀ g ∈ n.log, ∀ e ∈ g.entries, Fits e) : n.readableEntries = storedBy events := by
  have hall : ∀ g ∈ n.log, readable g.entries = g.entries := fun g hg =>
    List.takeWhile_eq_self_iff.mpr fun e he => by simpa using hfits g hg e he
  rw [← ht.entries, LoggedNode.readableEntries, List.flatMap_congr hall]

/-! ## A value that is lost -/

namespace Sample

/-- A node whose cache has room for the value. -/
def roomFor (value : Bytes) : LoggedNode :=
  .init ⟨100, true⟩ 100 (CacheService.entrySize (buildKey "t" "k") (some value)) "data" ⟨8, 1⟩ 1 1

/-- A call at a second, with nothing to evict. -/
def callAt (now : Int) (value : Bytes) : LogEvent :=
  .call ⟨now, none, .complete, 0, ⟨0, []⟩⟩ (.write "t" "k" (some value) ⟨[]⟩)

/-- Two writes of one key, and a new file in between. -/
def twoSegments : List LogEvent :=
  [callAt 5 [1], .checkRotation 6 true, .checkRotation 7 true, callAt 8 [2]]

/-- A value of 8 MiB. The validator admits 10 MiB. -/
def largeValue : Bytes := List.replicate (8 * 1024 * 1024) 0

end Sample

open Sample

set_option maxRecDepth 10000 in
theorem recover_keeps_last_twoSegments : ∃ n, run LoggedNode.step (roomFor [1]) twoSegments = some n ∧
    ∀ key, (n.service.commitLog.recover (MemTableService.new 100)).2.get key =
      lastOf key (storedBy twoSegments) := by
  have hsome : (run LoggedNode.step (roomFor [1]) twoSegments).isSome = true := by decide +kernel
  obtain ⟨n, hn⟩ := Option.isSome_iff_exists.mp hsome
  have hclock : AllSteps LoggedNode.step LoggedNode.ClockAdvances (roomFor [1]) twoSegments := by
    decide +kernel
  have hfits : (run LoggedNode.step (roomFor [1]) twoSegments).map
      (fun n => decide (∀ g ∈ n.log, ∀ e ∈ g.entries, Fits e)) = some true := by decide +kernel
  rw [hn, Option.map_some, Option.some.injEq, decide_eq_true_eq] at hfits
  have ht : Tracks twoSegments n := tracks_of_run (by decide) hclock hn
  refine ⟨n, hn, (recover_keeps_last_iff (by decide) hclock hn 100).mpr fun key => ?_⟩
  rw [readableEntries_of_fits ht hfits]

theorem not_fits_of_large {e : CommitLogEntry} {value : Bytes} (h : e.value = some value)
    (hlarge : maxTokenSize ≤ 4 * ((value.length + 2) / 3)) : ¬ Fits e := by
  have hlt := CommitLogEntry.length_encode_lt_marshal h
  rw [Base64.length_encode] at hlt
  exact fun hfits => absurd (hlarge.trans_lt hlt) (not_lt_of_gt hfits)

/-- A write that the validator admits is accepted by the node. -/
theorem exists_run_write {value : Bytes}
    (hvalid : Validator.validateWrite "t" "k" (some value) ⟨[]⟩ = .ok ()) :
    ∃ n, run LoggedNode.step (roomFor value) [callAt 5 value] = some n := by
  obtain ⟨c, hput⟩ := CacheService.exists_put_new (buildKey "t" "k") (some value) ⟨[]⟩ 0
  simp [run, LoggedNode.step, StorageService.perform, StorageService.write, hvalid, callAt, roomFor,
    StorageService.mutate, CommitLogService.append, LoggedNode.init, Node.init,
    CommitLogService.new, openNewSegment, hput]

/-- If its line is too long, it is not recovered. -/
theorem get_recover_of_large {value : Bytes} {n : LoggedNode}
    (hlarge : maxTokenSize ≤ 4 * ((value.length + 2) / 3))
    (hn : run LoggedNode.step (roomFor value) [callAt 5 value] = some n) (key : String) :
    (n.service.commitLog.recover (MemTableService.new 100)).2.get key = none := by
  have hclock : AllSteps LoggedNode.step LoggedNode.ClockAdvances (roomFor value)
      [callAt 5 value] := ⟨trivial, by split <;> trivial⟩
  rw [get_recover (tracks_of_run (by decide) hclock hn)]
  obtain ⟨n', hstep, hnil⟩ := run_cons.mp hn
  obtain ⟨service, -, hn'⟩ := Option.map_eq_some_iff.mp hstep
  rw [run_nil, Option.some.injEq] at hnil
  subst hn' hnil
  have hnone : ∀ e : CommitLogEntry, e.value = some value → readable [e] = [] := fun e he =>
    List.takeWhile_cons_of_neg (by simpa using not_fits_of_large he hlarge)
  have hempty : LoggedNode.readableEntries { roomFor value with
      service
      current := ⟨1, [(roomFor value).service.commitLog.stamp (StorageService.logEntry
        ⟨5, none, .complete, 0, ⟨0, []⟩⟩ "t" "k" (some value) ⟨[]⟩ .write)]⟩ } = [] := by
    have hread := hnone ((roomFor value).service.commitLog.stamp (StorageService.logEntry
        ⟨5, none, .complete, 0, ⟨0, []⟩⟩ "t" "k" (some value) ⟨[]⟩ .write)) rfl
    simp [LoggedNode.readableEntries, LoggedNode.log, roomFor, LoggedNode.init] at hread ⊢
    exact hread
  exact (congrArg (lastOf key) hempty).trans rfl

theorem lastOf_storedBy_callAt (value : Bytes) :
    lastOf "t:k" (storedBy [callAt 5 value]) = some ⟨"t:k", some value, ⟨[]⟩, 5, false⟩ := rfl

theorem validateWrite_of_length_le {value : Bytes} (h : value.length ≤ Validator.maxValueSize) :
    Validator.validateWrite "t" "k" (some value) ⟨[]⟩ = .ok () := by
  have htenant : Validator.validateTenantID "t" = .ok () := by decide +kernel
  have hkey : Validator.validateKey "k" = .ok () := by decide +kernel
  have hvalue : Validator.validateValue (some value) = .ok () := by
    simp only [Validator.validateValue, if_neg (not_lt_of_ge h)]
  simp only [Validator.validateWrite, htenant, hkey, hvalue]
  rfl

/-- The write of a value that the validator admits is lost. -/
theorem recover_loses_admitted_write :
    Validator.validateWrite "t" "k" (some largeValue) ⟨[]⟩ = .ok () ∧
      ∃ n, run LoggedNode.step (roomFor largeValue) [callAt 5 largeValue] = some n ∧
        lastOf "t:k" (storedBy [callAt 5 largeValue]) =
          some ⟨"t:k", some largeValue, ⟨[]⟩, 5, false⟩ ∧
        (n.service.commitLog.recover (MemTableService.new 100)).2.get "t:k" = none := by
  have hlen : largeValue.length = 8 * 1024 * 1024 := List.length_replicate
  have hvalid : Validator.validateWrite "t" "k" (some largeValue) ⟨[]⟩ = .ok () :=
    validateWrite_of_length_le (by rw [hlen]; decide)
  obtain ⟨n, hn⟩ := exists_run_write hvalid
  exact ⟨hvalid, n, hn, lastOf_storedBy_callAt _,
    get_recover_of_large (by rw [hlen]; decide) hn "t:k"⟩

end PairDB.StorageNode
