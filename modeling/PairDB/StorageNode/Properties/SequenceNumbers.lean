import PairDB.StorageNode.Properties.Recovery

/-!
# Sequence numbers across restarts

`Append` counts the entries. After a restart the counter begins where `Recover` leaves it: at the
greatest number in the files that it could read to their end. A file with a line that is too long
for the scanner does not count, not even the lines before that one.

`numbers_increase_of_run` says that this is the only way to use a number twice: as long as every
line fits, no number on disk is above the counter (`Records`), whatever the files are called and
however often the process starts.
-/

namespace PairDB.StorageNode

open Infra CommitLogService

/-! ## What recovery makes of the numbers -/

section

variable {σ α β : Type*} [Preorder β] {f : σ → α → σ} {m : σ → β}

theorem le_foldl (hmono : ∀ s a, m s ≤ m (f s a)) (l : List α) (s : σ) :
    m s ≤ m (l.foldl f s) := by
  induction l generalizing s with
  | nil => exact le_rfl
  | cons a l ih => exact (hmono s a).trans (ih (f s a))

/-- A bound that one round of a loop establishes is not lost. -/
theorem le_foldl_of_mem (hmono : ∀ s a, m s ≤ m (f s a)) {a : α} {x : β}
    (hround : ∀ s, x ≤ m (f s a)) {l : List α} (ha : a ∈ l) (s : σ) : x ≤ m (l.foldl f s) := by
  induction l generalizing s with
  | nil => cases ha
  | cons b l ih =>
    rcases List.mem_cons.mp ha with rfl | ha
    · exact (hround s).trans (le_foldl hmono l (f s a))
    · exact ih ha (f s b)

end

namespace CommitLogService

theorem le_maxSeqNum_recoverLine (r : Recovery) (l : Bytes) :
    r.maxSeqNum.toNat ≤ (recoverLine r l).maxSeqNum.toNat := by
  unfold recoverLine
  split
  · exact le_rfl
  · split
    · exact le_rfl
    · dsimp only
      split
      · next hlt => exact (UInt64.lt_iff_toNat_lt.mp hlt).le
      · exact le_rfl

theorem le_maxSeqNum_of_readLine (r : Recovery) {l : Bytes} {e : CommitLogEntry}
    (h : readLine l = some e) : e.sequenceNumber.toNat ≤ (recoverLine r l).maxSeqNum.toNat := by
  have hne : l.length ≠ 0 := by
    intro hnil
    rw [List.length_eq_zero_iff.mp hnil] at h
    cases h
  rw [recoverLine, if_neg hne, h]
  dsimp only
  split
  · exact le_rfl
  · next hle => exact UInt64.le_iff_toNat_le.mp (UInt64.not_lt.mp hle)

section

variable {es : List CommitLogEntry} (hstamped : ∀ e ∈ es, Stamped e) (hfits : ∀ e ∈ es, Fits e)

include hfits

theorem scanFails_lines : scanFails (es.flatMap line) = false := by
  rw [scanFails, splitLines_lines, List.any_map, List.any_eq_false]
  intro e he
  simpa [Fits] using hfits e he

include hstamped

/-- A file that is read to its end: no number in it is above the result. -/
theorem le_maxSeqNum_recoverFromFile (memTable : MemTableService) {e : CommitLogEntry}
    (he : e ∈ es) :
    e.sequenceNumber.toNat ≤ (recoverFromFile memTable (es.flatMap line)).maxSeqNum.toNat := by
  have hreadable : readable es = es :=
    List.takeWhile_eq_self_iff.mpr fun e he => by simpa using hfits e he
  rw [recoverFromFile, scanned_lines, hreadable]
  exact le_foldl_of_mem (m := fun r : Recovery => r.maxSeqNum.toNat) le_maxSeqNum_recoverLine
    (fun r => le_maxSeqNum_of_readLine r (readLine_marshal (hstamped e he)))
    (List.mem_map_of_mem he) _

end

theorem le_maxSeqNum_recoverSegment (s : CommitLogService) (r : Recovery) (path : String) :
    r.maxSeqNum.toNat ≤ (s.recoverSegment r path).maxSeqNum.toNat := by
  unfold recoverSegment
  dsimp only
  split
  · exact le_rfl
  · dsimp only
    split
    · next hlt => exact (UInt64.lt_iff_toNat_lt.mp hlt).le
    · exact le_rfl

/-- What the files hold: lines of entries, none of them too long, and none with a number above the
counter. The entries `es` are among them. -/
def Records (s : CommitLogService) (es : List CommitLogEntry) : Prop :=
  ∃ held : String → List CommitLogEntry,
    (∀ path, s.contents path = (held path).flatMap line) ∧
    (∀ path, ∀ e ∈ held path,
      Stamped e ∧ Fits e ∧ e.sequenceNumber.toNat ≤ s.sequenceNumber.toNat) ∧
    ∀ e ∈ es, ∃ path, e ∈ held path

variable {s s' : CommitLogService} {es : List CommitLogEntry}

theorem Records.le (h : Records s es) {e : CommitLogEntry} (he : e ∈ es) :
    e.sequenceNumber.toNat ≤ s.sequenceNumber.toNat := by
  obtain ⟨held, -, hheld, hes⟩ := h
  obtain ⟨path, hpath⟩ := hes e he
  exact (hheld path e hpath).2.2

theorem records_new (config : CommitLogConfig) (now later : Int) :
    Records (CommitLogService.new config ∅ now later) [] := by
  refine ⟨fun _ => [], fun path => ?_, by simp, by simp⟩
  simp only [CommitLogService.contents, CommitLogService.new, openNewSegment, if_true,
    Map.get?_set, Map.get?_empty]
  split <;> rfl

theorem Records.of_contents_eq (h : Records s es)
    (hcontents : ∀ path, s'.contents path = s.contents path)
    (hnumber : s'.sequenceNumber = s.sequenceNumber) : Records s' es := by
  obtain ⟨held, hlines, hheld, hes⟩ := h
  refine ⟨held, fun path => (hcontents path).trans (hlines path), ?_, hes⟩
  rw [hnumber]
  exact hheld

/-- Opening a file does not change what is in it. -/
theorem contents_set_self (path path' : String) (hfiles : s'.files = s.files.set path
    (s.contents path)) : s'.contents path' = s.contents path' := by
  simp only [CommitLogService.contents, hfiles, Map.get?_set]
  split
  · next heq => rw [heq]; rfl
  · rfl

theorem sequenceNumber_checkRotation (s : CommitLogService) (now : Int) (opens : Bool) :
    (s.checkRotation now opens).sequenceNumber = s.sequenceNumber := by
  unfold checkRotation
  split
  · rfl
  · split
    · cases opens <;> rfl
    · rfl

theorem Records.checkRotation (h : Records s es) (now : Int) (opens : Bool) :
    Records (s.checkRotation now opens) es := by
  refine h.of_contents_eq (fun path => ?_) (sequenceNumber_checkRotation s now opens)
  rcases checkRotation_spec s now opens with ⟨hfiles, -, -⟩ | ⟨hfiles, -, -⟩
  · simp only [CommitLogService.contents, hfiles]
  · exact contents_set_self _ path hfiles

/-- The number of the next entry. -/
theorem toNat_succ (hlast : s.sequenceNumber.toNat + 1 < 2 ^ 64) :
    (s.sequenceNumber + 1).toNat = s.sequenceNumber.toNat + 1 := by
  rw [UInt64.toNat_add]
  exact Nat.mod_eq_of_lt hlast

/-- The line of the entry, if there is one, will fit into the scanner's buffer, and the counter does
not wrap. -/
def Recordable (s : CommitLogService) : Option CommitLogEntry → Prop
  | none => True
  | some entry => Fits (s.stamp entry) ∧ s.sequenceNumber.toNat + 1 < 2 ^ 64

instance (s : CommitLogService) : (entry : Option CommitLogEntry) → Decidable (s.Recordable entry)
  | none => inferInstanceAs (Decidable True)
  | some _ => inferInstanceAs (Decidable (_ ∧ _))

theorem Records.append (h : Records s es) {entry entry' : CommitLogEntry} {io : AppendIO}
    (hfits : Fits (s.stamp entry)) (hlast : s.sequenceNumber.toNat + 1 < 2 ^ 64)
    (happend : s.append entry io = (s', .ok entry')) : Records s' (es ++ [entry']) := by
  obtain ⟨held, hlines, hheld, hes⟩ := h
  obtain ⟨rfl, rfl⟩ := append_spec happend
  have hnumber := toNat_succ hlast
  refine ⟨fun path => if s.currentFile = path then held path ++ [s.stamp entry] else held path,
    fun path => ?_, fun path e he => ?_, fun e he => ?_⟩
  · have hset : CommitLogService.contents (writeCurrent
        { s with sequenceNumber := s.sequenceNumber + 1 } (line (s.stamp entry))) path =
        if s.currentFile = path then s.contents path ++ line (s.stamp entry)
        else s.contents path := by
      simp only [CommitLogService.contents, writeCurrent, Map.get?_set]
      split
      · next heq => rw [heq]; rfl
      · rfl
    rw [hset, hlines]
    by_cases hpath : s.currentFile = path <;> simp [hpath]
  · -- the number of the new entry is the counter
    have hold : e ∈ held path → Stamped e ∧ Fits e ∧
        e.sequenceNumber.toNat ≤ (s.sequenceNumber + 1).toNat := fun he => by
      obtain ⟨h₁, h₂, h₃⟩ := hheld path e he
      exact ⟨h₁, h₂, by omega⟩
    dsimp only at he
    split at he
    · rcases List.mem_append.mp he with he | he
      · exact hold he
      · rw [List.mem_singleton.mp he]
        exact ⟨stamped_stamp s entry, hfits, le_rfl⟩
    · exact hold he
  · rcases List.mem_append.mp he with he | he
    · obtain ⟨path, hpath⟩ := hes e he
      refine ⟨path, ?_⟩
      dsimp only
      split
      · exact List.mem_append_left _ hpath
      · exact hpath
    · exact ⟨s.currentFile, by simp [List.mem_singleton.mp he]⟩

/-- **A recovery leaves no number above the counter,** wherever the counter of the new process
stands before. -/
theorem Records.recover (h : Records s es)
    (hcontents : ∀ path, s'.contents path = s.contents path) (memTable : MemTableService) :
    Records (s'.recover memTable).1 es := by
  obtain ⟨held, hold, hheld, hes⟩ := h
  have hlines : ∀ path, s'.contents path = (held path).flatMap line := fun path =>
    (hcontents path).trans (hold path)
  refine ⟨held, hlines, fun path e he => ?_, hes⟩
  obtain ⟨hstamped, hfits, -⟩ := hheld path e he
  refine ⟨hstamped, hfits, ?_⟩
  -- a file with an entry is one of the files
  have hmem : path ∈ s'.segmentNames := by
    refine (List.mergeSort_perm _ _).mem_iff.mpr ?_
    by_contra hnot
    have hempty := hlines path
    rw [CommitLogService.contents, (Map.get?_eq_none_iff _ _).mpr hnot] at hempty
    obtain ⟨pre, post, hsplit⟩ := List.append_of_mem he
    rw [hsplit] at hempty
    simp [line] at hempty
  refine le_foldl_of_mem (m := fun r : Recovery => r.maxSeqNum.toNat)
    (le_maxSeqNum_recoverSegment s') (fun r => ?_) hmem _
  have hfits' : ∀ e ∈ held path, Fits e := fun e he => (hheld path e he).2.1
  have hle := le_maxSeqNum_recoverFromFile (fun e he => (hheld path e he).1) hfits' r.memTable he
  rw [recoverSegment, hlines path, scanFails_lines hfits']
  simp only [Bool.false_eq_true, if_false]
  split
  · exact hle
  · next hnot => exact hle.trans (UInt64.le_iff_toNat_le.mp (UInt64.not_lt.mp hnot))

end CommitLogService

/-! ## Runs -/

/-- The service of a process that starts on the files that are there, after `Recover`. Nothing reads
the tables back into the levels. -/
def StorageService.restarted (s : StorageService) (config : CommitLogConfig)
    (flushThreshold cacheSize now later : Int) : StorageService :=
  let recovered := (CommitLogService.new config s.commitLog.files now later).recover
    (MemTableService.new flushThreshold)
  { commitLog := recovered.1
    memTable := recovered.2
    sstables := { s.sstables with levels := fun _ => [] }
    cache := CacheService.new cacheSize
    flushRequests := 0 }

/-- A service, and the entries that it appended, in any process. -/
structure NumberedNode where
  service : StorageService
  appended : List CommitLogEntry

/-- What happens to the numbers. -/
inductive NumberEvent where
  | call (env : CallEnv) (request : Request)
  | checkRotation (now : Int) (opens : Bool)
  | restart (config : CommitLogConfig) (flushThreshold cacheSize now later : Int)

namespace NumberedNode

/-- A node that starts in empty directories. -/
def init (config : CommitLogConfig) (flushThreshold cacheSize : Int) (dataDir : String)
    (bloom : BloomParams) (now later : Int) : NumberedNode where
  service := (Node.init (CommitLogService.new config ∅ now later) flushThreshold cacheSize dataDir
    bloom).service
  appended := []

/-- A call that succeeds, a round of the rotation checker, or a new process. -/
def step (n : NumberedNode) : NumberEvent → Option NumberedNode
  | .call env request =>
    (n.service.perform env request).map fun service =>
      { service
        appended := n.appended ++
          ((request.logEntry env).map n.service.commitLog.stamp).toList }
  | .checkRotation now opens =>
    some { n with service := { n.service with
      commitLog := n.service.commitLog.checkRotation now opens } }
  | .restart config flushThreshold cacheSize now later =>
    some { n with
      service := n.service.restarted config flushThreshold cacheSize now later }

/-- The line of a mutation fits into the scanner's buffer, and the counter does not wrap. -/
def Recoverable (n : NumberedNode) : NumberEvent → Prop
  | .call env request => n.service.commitLog.Recordable (request.logEntry env)
  | .checkRotation _ _ => True
  | .restart _ _ _ _ _ => True

instance (n : NumberedNode) : (event : NumberEvent) → Decidable (n.Recoverable event)
  | .call env request => inferInstanceAs (Decidable (Recordable _ (request.logEntry env)))
  | .checkRotation _ _ => inferInstanceAs (Decidable True)
  | .restart _ _ _ _ _ => inferInstanceAs (Decidable True)

/-- The numbers ascend, and the files hold what was appended. -/
structure Numbered (n : NumberedNode) : Prop where
  records : Records n.service.commitLog n.appended
  increasing : n.appended.Pairwise fun e e' => e.sequenceNumber < e'.sequenceNumber

theorem numbered_init (config : CommitLogConfig) (flushThreshold cacheSize : Int)
    (dataDir : String) (bloom : BloomParams) (now later : Int) :
    (init config flushThreshold cacheSize dataDir bloom now later).Numbered :=
  ⟨records_new config now later, List.Pairwise.nil⟩

theorem numbered_call {n n' : NumberedNode} {env : CallEnv} {request : Request}
    (h : n.Numbered) (hfits : n.Recoverable (.call env request))
    (hstep : n.step (.call env request) = some n') : n'.Numbered := by
  obtain ⟨service, hperform, rfl⟩ := Option.map_eq_some_iff.mp hstep
  have hlog := StorageService.commitLog_of_perform hperform
  cases hentry : request.logEntry env with
  | none =>
    rw [hentry] at hlog
    have hlog : service.commitLog = n.service.commitLog := hlog
    simp only [Option.map_none, Option.toList_none, List.append_nil]
    refine ⟨?_, h.increasing⟩
    show Records service.commitLog n.appended
    rw [hlog]
    exact h.records
  | some entry =>
    rw [hentry] at hlog
    have hrecordable : Recordable _ (request.logEntry env) := hfits
    rw [hentry] at hrecordable
    obtain ⟨hline, hlast⟩ := hrecordable
    simp only [Option.map_some, Option.toList_some]
    refine ⟨h.records.append hline hlast hlog, ?_⟩
    refine List.pairwise_append.mpr ⟨h.increasing, List.pairwise_singleton _ _, ?_⟩
    intro e he e' he'
    rw [List.mem_singleton.mp he', UInt64.lt_iff_toNat_lt]
    have hle := h.records.le he
    have hnumber := toNat_succ hlast
    show _ < (n.service.commitLog.sequenceNumber + 1).toNat
    omega

theorem numbered_step (n : NumberedNode) (event : NumberEvent) (n' : NumberedNode)
    (h : n.Numbered) (hfits : n.Recoverable event) (hstep : n.step event = some n') :
    n'.Numbered := by
  cases event with
  | call env request => exact numbered_call h hfits hstep
  | checkRotation now opens =>
    cases hstep
    exact ⟨h.records.checkRotation now opens, h.increasing⟩
  | restart config flushThreshold cacheSize now later =>
    cases hstep
    exact ⟨h.records.recover (fun path => contents_set_self _ path rfl) _, h.increasing⟩

/-- **The numbers ascend for ever,** in every run whose lines all fit. -/
theorem numbers_increase_of_run {config : CommitLogConfig} {flushThreshold cacheSize : Int}
    {dataDir : String} {bloom : BloomParams} {now later : Int} {events : List NumberEvent}
    {n : NumberedNode}
    (hfits : AllSteps step Recoverable
      (init config flushThreshold cacheSize dataDir bloom now later) events)
    (hrun : run step (init config flushThreshold cacheSize dataDir bloom now later) events =
      some n) :
    (n.appended.map CommitLogEntry.sequenceNumber).Pairwise (· < ·) := by
  have hnumbered := run_invariant numbered_step
    (numbered_init config flushThreshold cacheSize dataDir bloom now later) hfits hrun
  exact List.pairwise_map.mpr hnumbered.increasing

end NumberedNode

/-! ## A number that is used again -/

namespace Sample

/-- A node whose cache has room for the value. -/
def numberedFor (value : Bytes) : NumberedNode :=
  .init ⟨100, true⟩ 100 (CacheService.entrySize (buildKey "t" "k") (some value)) "data" ⟨8, 1⟩ 5 5

/-- What a call finds at the fifth second, with nothing to evict. -/
def fifthSecond : CallEnv := ⟨5, none, .complete, 0, ⟨0, []⟩⟩

/-- The entry that the first write appends. -/
def firstEntry (value : Bytes) : CommitLogEntry :=
  (numberedFor value).service.commitLog.stamp
    (StorageService.logEntry fifthSecond "t" "k" (some value) ⟨[]⟩ .write)

/-- A write, a restart within the same second, and a write. -/
def restartBetween (value : Bytes) : List NumberEvent :=
  [.call fifthSecond (.write "t" "k" (some value) ⟨[]⟩), .restart ⟨100, true⟩ 100 100 5 5,
    .call fifthSecond (.write "t" "k" (some [1]) ⟨[]⟩)]

end Sample

open Sample

/-- A write that the validator admits succeeds if the empty cache has room for it. -/
theorem exists_perform_write {s : StorageService} (hopen : s.commitLog.closed = false)
    {cacheSize : Int} (hcache : s.cache = CacheService.new cacheSize) {value : Bytes}
    (hroom : CacheService.entrySize (buildKey "t" "k") (some value) ≤ cacheSize)
    (hvalid : Validator.validateWrite "t" "k" (some value) ⟨[]⟩ = .ok ()) :
    ∃ s', s.perform fifthSecond (.write "t" "k" (some value) ⟨[]⟩) = some s' := by
  simp [StorageService.perform, StorageService.write, hvalid, fifthSecond, StorageService.mutate,
    CommitLogService.append, hopen, hcache, CacheService.put, CacheService.new, Map.get?_empty,
    CacheService.makeRoom, not_lt.mpr hroom]

/-- Both writes succeed, and the second one gets the number after the one that `Recover` found. -/
theorem exists_run_restartBetween {value : Bytes}
    (hvalid : Validator.validateWrite "t" "k" (some value) ⟨[]⟩ = .ok ()) :
    ∃ s n, (numberedFor value).service.perform fifthSecond (.write "t" "k" (some value) ⟨[]⟩) =
        some s ∧
      run NumberedNode.step (numberedFor value) (restartBetween value) = some n ∧
      n.appended.map CommitLogEntry.sequenceNumber =
        [1, (s.restarted ⟨100, true⟩ 100 100 5 5).commitLog.sequenceNumber + 1] := by
  obtain ⟨s, hs⟩ : ∃ s, (numberedFor value).service.perform fifthSecond
      (.write "t" "k" (some value) ⟨[]⟩) = some s :=
    exists_perform_write rfl rfl le_rfl hvalid
  obtain ⟨s', hs'⟩ : ∃ s', (s.restarted ⟨100, true⟩ 100 100 5 5).perform fifthSecond
      (.write "t" "k" (some [1]) ⟨[]⟩) = some s' :=
    exists_perform_write rfl rfl (by decide) (by decide +kernel)
  let second := (s.restarted ⟨100, true⟩ 100 100 5 5).commitLog.stamp
    (StorageService.logEntry fifthSecond "t" "k" (some [1]) ⟨[]⟩ .write)
  refine ⟨s, ⟨s', [firstEntry value, second]⟩, hs, ?_, rfl⟩
  have hfirst : (numberedFor value).step (.call fifthSecond (.write "t" "k" (some value) ⟨[]⟩)) =
      some ⟨s, [firstEntry value]⟩ := by
    rw [NumberedNode.step, hs]
    rfl
  have hsecond : NumberedNode.step ⟨s.restarted ⟨100, true⟩ 100 100 5 5, [firstEntry value]⟩
      (.call fifthSecond (.write "t" "k" (some [1]) ⟨[]⟩)) = some ⟨s', [firstEntry value, second]⟩ := by
    rw [NumberedNode.step, hs']
    rfl
  exact run_cons.mpr ⟨_, hfirst, run_cons.mpr ⟨_, rfl, run_cons.mpr ⟨_, hsecond, rfl⟩⟩⟩

/-- `Recover` finds the number of the first write, unless its line is too long. -/
theorem sequenceNumber_restarted {value : Bytes} {s : StorageService}
    (hs : (numberedFor value).service.perform fifthSecond (.write "t" "k" (some value) ⟨[]⟩) =
      some s) :
    (s.restarted ⟨100, true⟩ 100 100 5 5).commitLog.sequenceNumber =
      if Fits (firstEntry value) then 1 else 0 := by
  obtain ⟨-, hlog⟩ := append_spec (StorageService.commitLog_of_perform hs)
  -- there is one file, with one line
  have hkeys : (CommitLogService.new ⟨100, true⟩ s.commitLog.files 5 5).segmentNames =
      [segmentPath 5] := by
    rw [segmentNames, hlog]
    exact List.mergeSort_singleton _
  have hcontents : (CommitLogService.new ⟨100, true⟩ s.commitLog.files 5 5).contents
      (segmentPath 5) = [firstEntry value].flatMap line := by
    rw [hlog]
    simp [CommitLogService.contents, CommitLogService.new, openNewSegment, writeCurrent,
      Map.get?_set, Map.get?_empty, numberedFor, NumberedNode.init, Node.init, firstEntry]
  have hrecover : (s.restarted ⟨100, true⟩ 100 100 5 5).commitLog.sequenceNumber =
      ((CommitLogService.new ⟨100, true⟩ s.commitLog.files 5 5).recoverSegment
        ⟨MemTableService.new 100, 0, 0, 0⟩ (segmentPath 5)).maxSeqNum := by
    simp only [StorageService.restarted, CommitLogService.recover, hkeys, List.foldl_cons,
      List.foldl_nil]
  rw [hrecover, recoverSegment, hcontents]
  by_cases hfits : Fits (firstEntry value)
  · have hfile : recoverFromFile (MemTableService.new 100) ([firstEntry value].flatMap line) =
        recoverLine ⟨MemTableService.new 100, 0, 0, 0⟩ (firstEntry value).marshal := by
      rw [recoverFromFile, scanned_lines, readable, List.takeWhile_cons_of_pos (by simpa using hfits)]
      rfl
    have hread : readLine (firstEntry value).marshal = some (firstEntry value) :=
      readLine_marshal (stamped_stamp _ _)
    have hne : (firstEntry value).marshal.length ≠ 0 := by
      intro hnil
      rw [List.length_eq_zero_iff.mp hnil] at hread
      cases hread
    rw [if_pos hfits, scanFails_lines (by simpa using hfits), hfile, recoverLine, if_neg hne, hread]
    rfl
  · have hfails : scanFails ([firstEntry value].flatMap line) = true := by
      rw [scanFails, splitLines_lines]
      simpa [Fits] using hfits
    rw [if_neg hfits, hfails]
    rfl

set_option maxRecDepth 10000 in
theorem numbers_increase_restartBetween : ∃ n,
    run NumberedNode.step (numberedFor [2]) (restartBetween [2]) = some n ∧
      n.appended.map CommitLogEntry.sequenceNumber = [1, 2] ∧
      (n.appended.map CommitLogEntry.sequenceNumber).Pairwise (· < ·) := by
  obtain ⟨s, n, hs, hn, hnumbers⟩ := @exists_run_restartBetween [2] (by decide +kernel)
  have hfirst : Fits (firstEntry [2]) := by decide +kernel
  have hnumber := sequenceNumber_restarted hs
  rw [if_pos hfirst] at hnumber
  rw [hnumber] at hnumbers
  have hstep : (numberedFor [2]).step (.call fifthSecond (.write "t" "k" (some [2]) ⟨[]⟩)) =
      some ⟨s, [firstEntry [2]]⟩ := by
    rw [NumberedNode.step, hs]
    rfl
  have hsecond : (s.restarted ⟨100, true⟩ 100 100 5 5).commitLog.Recordable
      (some (StorageService.logEntry fifthSecond "t" "k" (some [1]) ⟨[]⟩ .write)) := by
    simp only [Recordable, stamp, hnumber]
    decide +kernel
  have hall : AllSteps NumberedNode.step NumberedNode.Recoverable (numberedFor [2])
      (restartBetween [2]) := by
    refine ⟨⟨hfirst, by decide⟩, ?_⟩
    rw [hstep]
    exact ⟨trivial, hsecond, by split <;> trivial⟩
  exact ⟨n, hn, hnumbers, NumberedNode.numbers_increase_of_run hall hn⟩

/-- The number of a write whose line is too long is used again. -/
theorem number_used_again : Validator.validateWrite "t" "k" (some largeValue) ⟨[]⟩ = .ok () ∧
    ∃ n, run NumberedNode.step (numberedFor largeValue) (restartBetween largeValue) = some n ∧
      n.appended.map CommitLogEntry.sequenceNumber = [1, 1] := by
  have hlen : largeValue.length = 8 * 1024 * 1024 := List.length_replicate
  have hvalid : Validator.validateWrite "t" "k" (some largeValue) ⟨[]⟩ = .ok () :=
    validateWrite_of_length_le (by rw [hlen]; decide)
  have hlarge : ¬ Fits (firstEntry largeValue) :=
    @not_fits_of_large _ largeValue rfl (by rw [hlen]; decide)
  obtain ⟨s, n, hs, hn, hnumbers⟩ := exists_run_restartBetween hvalid
  have hnumber := sequenceNumber_restarted hs
  rw [if_neg hlarge] at hnumber
  rw [hnumber] at hnumbers
  exact ⟨hvalid, n, hn, hnumbers⟩

end PairDB.StorageNode
