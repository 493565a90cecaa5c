import PairDB.StorageNode.Node

/-!
# Flushes that fail

A key that was put should be found in the memtable, in the memtable that is being flushed, or in a
table of level 0, whatever becomes of the flushes. A flush that fails leaves its memtable set aside.
The next flush sets the current one aside in its place, and what only the first one had is gone.

`found_of_run` says that this is the only way to lose a key: it needs that no flush begins while the
memtable of a failed one has a key that is nowhere else.
-/

namespace PairDB.StorageNode

open Infra

/-- The memtables, the tables and the flush that is under way; `puts` is the history. -/
structure Flusher where
  memTable : MemTableService
  sstables : SSTableService
  flush : FlushPhase
  puts : List MemTableEntry

/-- A put, or a part of a flush. -/
inductive FlusherEvent where
  | put (entry : MemTableEntry)
  | beginFlush
  | writeTable (nanos : Int) (io : TableIO)
  | endFlush

namespace Flusher

def init (flushThreshold : Int) (dataDir : String) (bloom : BloomParams) : Flusher where
  memTable := .new flushThreshold
  sstables := .new dataDir bloom
  flush := .idle
  puts := []

/-- A step. `flushMu` keeps a second flush out; a flush whose write fails returns at once. -/
def step (n : Flusher) : FlusherEvent → Option Flusher
  | .put entry => some { n with memTable := n.memTable.put entry, puts := n.puts ++ [entry] }
  | .beginFlush =>
    match n.flush with
    | .idle =>
      match n.memTable.beginFlush with
      | none => some n
      | some (immutable, memTable) => some { n with memTable, flush := .writing immutable }
    | _ => none
  | .writeTable nanos io =>
    match n.flush with
    | .writing immutable =>
      match n.sstables.writeFromMemTable nanos io immutable with
      | (sstables, .ok ()) => some { n with sstables, flush := .written }
      | (sstables, .error (.err _)) => some { n with sstables, flush := .idle }
      | (_, .error (.panic _)) => none
    | _ => none
  | .endFlush =>
    match n.flush with
    | .written => some { n with memTable := n.memTable.endFlush, flush := .idle }
    | _ => none

/-- A table of level 0 has the key. -/
def InL0 (n : Flusher) (key : String) : Prop :=
  ∃ table ∈ n.sstables.levels 0, (n.sstables.tableGet key table).toOption.join.isSome = true

instance (n : Flusher) (key : String) : Decidable (n.InL0 key) :=
  inferInstanceAs (Decidable (∃ _ ∈ _, _))

/-- The key is found in the memtables or in level 0. -/
def Found (n : Flusher) (key : String) : Prop := (n.memTable.get key).isSome = true ∨ n.InL0 key

instance (n : Flusher) (key : String) : Decidable (n.Found key) :=
  inferInstanceAs (Decidable (_ ∨ _))

/-- A flush begins only if what a failed one left behind has no key that is nowhere else, and a table
is written under a new path and can be read back. -/
def KeepsKeys (n : Flusher) : FlusherEvent → Prop
  | .put _ | .endFlush => True
  | .beginFlush => ∀ failed ∈ n.memTable.immutableMT, ∀ e ∈ failed.entries,
      (n.memTable.memTable.get e.key).isSome = true ∨ n.InL0 e.key
  | .writeTable nanos _ =>
    (∀ table ∈ n.sstables.levels 0, table.filePath ≠ n.sstables.flushPath nanos) ∧
      match n.flush with
      | .writing immutable =>
        SSTableWriter.IndexReadable immutable.entries ∧ ∀ e ∈ immutable.entries, Storable e
      | _ => True

instance (n : Flusher) (event : FlusherEvent) : Decidable (n.KeepsKeys event) :=
  match event with
  | .put _ | .endFlush => inferInstanceAs (Decidable True)
  | .beginFlush => inferInstanceAs (Decidable (∀ _ ∈ _, _))
  | .writeTable _ _ =>
    have : Decidable (match n.flush with
        | .writing immutable =>
          SSTableWriter.IndexReadable immutable.entries ∧ ∀ e ∈ immutable.entries, Storable e
        | _ => True) :=
      match n.flush with
      | .writing _ => inferInstanceAs (Decidable (_ ∧ _))
      | .idle | .written => inferInstanceAs (Decidable True)
    inferInstanceAs (Decidable (_ ∧ _))

/-- What was put is found. While a table is written, its memtable is the one that is set aside, and
after that the table has the keys of that memtable. -/
structure Invariant (n : Flusher) : Prop where
  found : ∀ e ∈ n.puts, n.Found e.key
  writing : ∀ immutable, n.flush = .writing immutable → n.memTable.immutableMT = some immutable
  written : n.flush = .written → ∀ immutable ∈ n.memTable.immutableMT, ∀ e ∈ immutable.entries,
    n.InL0 e.key

theorem isSome_get_iff {s : MemTableService} {key : String} :
    (s.get key).isSome = true ↔ (s.memTable.get key).isSome = true ∨
      ∃ immutable ∈ s.immutableMT, (immutable.get key).isSome = true := by
  rw [MemTableService.get]
  cases s.memTable.get key with
  | some e => simp
  | none => cases s.immutableMT <;> simp

/-- The entry of a memtable under a key. -/
theorem exists_entry {mt : MemTable} {key : String} (h : (mt.get key).isSome = true) :
    ∃ e ∈ mt.entries, e.key = key := by
  obtain ⟨e, he⟩ := Option.isSome_iff_exists.mp h
  have hkey := MemTable.key_of_get he
  exact ⟨e, MemTable.mem_entries.mpr (by rwa [hkey]), hkey⟩

/-- What level 0 has depends on the files of its tables. -/
theorem inL0_of_files {n n' : Flusher} {key : String} (h : n.InL0 key)
    (hlevel : ∀ table ∈ n.sstables.levels 0, table ∈ n'.sstables.levels 0)
    (hfiles : ∀ table ∈ n.sstables.levels 0,
      n'.sstables.files table.filePath = n.sstables.files table.filePath) : n'.InL0 key := by
  obtain ⟨table, htable, hsome⟩ := h
  refine ⟨table, hlevel table htable, ?_⟩
  rwa [SSTableService.tableGet, hfiles table htable]

theorem invariant_put {n : Flusher} (h : n.Invariant) (entry : MemTableEntry) :
    Invariant { n with memTable := n.memTable.put entry, puts := n.puts ++ [entry] } := by
  refine ⟨fun e he => ?_, h.writing, h.written⟩
  rw [Found, MemTableService.get_put]
  by_cases hkey : entry.key = e.key
  · rw [if_pos hkey]
    exact Or.inl rfl
  · rw [if_neg hkey]
    rcases List.mem_append.mp he with he | he
    · exact h.found e he
    · exact absurd (congrArg MemTableEntry.key (List.mem_singleton.mp he)).symm hkey

theorem invariant_beginFlush {n : Flusher} (h : n.Invariant) (hcond : n.KeepsKeys .beginFlush)
    {immutable : MemTable} {memTable : MemTableService}
    (hbegin : n.memTable.beginFlush = some (immutable, memTable)) :
    Invariant { n with memTable, flush := .writing immutable } := by
  unfold MemTableService.beginFlush at hbegin
  split at hbegin
  · cases hbegin
  cases hbegin
  refine ⟨fun e he => ?_, fun mt hmt => (by cases hmt; rfl), fun hw => (by cases hw)⟩
  -- the current memtable is set aside; the keys of the one before are somewhere else too
  have hcurrent : (n.memTable.memTable.get e.key).isSome = true →
      Found { n with
        memTable := { n.memTable with
          immutableMT := some n.memTable.memTable, memTable := MemTable.new }
        flush := .writing n.memTable.memTable } e.key := fun hsome =>
    Or.inl (isSome_get_iff.mpr (Or.inr ⟨_, rfl, hsome⟩))
  rcases h.found e he with hmem | hl0
  · rcases isSome_get_iff.mp hmem with hsome | ⟨failed, hfailed, hsome⟩
    · exact hcurrent hsome
    · obtain ⟨x, hx, hkey⟩ := exists_entry hsome
      rcases hcond failed hfailed x hx with hsome | hl0
      · exact hcurrent (hkey ▸ hsome)
      · exact Or.inr (hkey ▸ hl0)
  · exact Or.inr hl0

theorem invariant_written {n : Flusher} (h : n.Invariant) {nanos : Int} {io : TableIO}
    (hcond : n.KeepsKeys (.writeTable nanos io)) {immutable : MemTable}
    (hflush : n.flush = .writing immutable) {w : SSTableWriter}
    (hw : SSTableService.writeEntries n.sstables.bloom immutable.entries = .ok w) :
    Invariant { n with
      sstables := n.sstables.withFlushed nanos immutable.entries w, flush := .written } := by
  obtain ⟨hfresh, hread⟩ := hcond
  rw [hflush] at hread
  have hlevels := SSTableService.levels_withFlushed n.sstables nanos immutable.entries w
  have hold : ∀ {key}, n.InL0 key → InL0 { n with
      sstables := n.sstables.withFlushed nanos immutable.entries w, flush := .written } key :=
    fun hl0 => inL0_of_files hl0
      (fun table htable => hlevels ▸ List.mem_append_left _ htable)
      (fun table htable => Function.update_of_ne (hfresh table htable) _ _)
  refine ⟨fun e he => (h.found e he).imp id hold, fun mt hmt => (by cases hmt), ?_⟩
  intro _ mt hmt e he
  cases (h.writing immutable hflush).symm.trans hmt
  have hstore : ∀ x, immutable.get e.key = some x → Storable x := fun x hx =>
    hread.2 x (MemTable.mem_entries.mpr (by rwa [MemTable.key_of_get hx]))
  have hget : (n.sstables.withFlushed nanos immutable.entries w).tableGet e.key
      (n.sstables.flushMetadata nanos immutable.entries w) =
        .ok ((immutable.get e.key).map SSTableReader.toKeyValueEntry) :=
    SSTableService.tableGet_of_written hw (List.ne_nil_of_mem he) (Function.update_self ..) rfl
      hread.1 hstore
  refine ⟨_, hlevels ▸ List.mem_append_right _ List.mem_cons_self, ?_⟩
  rw [hget, MemTable.mem_entries.mp he]
  rfl

theorem invariant_step {n n' : Flusher} {event : FlusherEvent} (h : n.Invariant)
    (hcond : n.KeepsKeys event) (hstep : n.step event = some n') : n'.Invariant := by
  cases event with
  | put entry =>
    cases hstep
    exact invariant_put h entry
  | beginFlush =>
    rw [step] at hstep
    split at hstep
    · split at hstep
      · cases hstep
        exact h
      · next immutable memTable hbegin =>
        cases hstep
        exact invariant_beginFlush h hcond hbegin
    · cases hstep
  | writeTable nanos io =>
    rw [step] at hstep
    split at hstep
    · next immutable hflush =>
      split at hstep
      · next sstables hwrite =>
        cases hstep
        obtain ⟨w, hw, rfl⟩ := SSTableService.writeFromMemTable_eq_ok hwrite
        exact invariant_written h hcond hflush hw
      · next sstables message hwrite =>
        cases hstep
        obtain ⟨hlevels, hfiles⟩ := SSTableService.writeFromMemTable_eq_error hwrite
        have hold : ∀ {key}, n.InL0 key → InL0 { n with sstables, flush := .idle } key :=
          fun hl0 => inL0_of_files hl0 (fun table htable => hlevels ▸ htable)
            (fun table htable => hfiles _ (hcond.1 table htable))
        exact ⟨fun e he => (h.found e he).imp id hold, fun mt hmt => (by cases hmt),
          fun hw => by cases hw⟩
      · cases hstep
    · cases hstep
  | endFlush =>
    rw [step] at hstep
    split at hstep
    · next hflush =>
      cases hstep
      refine ⟨fun e he => ?_, fun mt hmt => (by cases hmt), fun hw => (by cases hw)⟩
      rcases h.found e he with hmem | hl0
      · rcases isSome_get_iff.mp hmem with hsome | ⟨immutable, himm, hsome⟩
        · exact Or.inl (isSome_get_iff.mpr (Or.inl hsome))
        · obtain ⟨x, hx, hkey⟩ := exists_entry hsome
          exact Or.inr (hkey ▸ h.written hflush immutable himm x hx)
      · exact Or.inr hl0
    · cases hstep

/-- **When no flush hides a key.** Whatever flushes fail and whatever is put in between, if no flush
begins while the memtable of a failed one has a key that is nowhere else, every key that was put is
found. -/
theorem found_of_run {flushThreshold : Int} {dataDir : String} {bloom : BloomParams}
    {events : List FlusherEvent} {n : Flusher}
    (hall : AllSteps step KeepsKeys (init flushThreshold dataDir bloom) events)
    (hrun : run step (init flushThreshold dataDir bloom) events = some n)
    {e : MemTableEntry} (he : e ∈ n.puts) : n.Found e.key := by
  have hinit : Invariant (init flushThreshold dataDir bloom) :=
    ⟨fun e he => (by cases he), fun mt hmt => (by cases hmt), fun hw => (by cases hw)⟩
  exact (run_invariant (fun _ _ _ => invariant_step) hinit hall hrun).found e he

end Flusher

namespace Sample

/-- An entry without a clock. -/
def plain (key : String) : MemTableEntry := ⟨buildKey "t" key, some [1], ⟨[]⟩, 1, false⟩

/-- The disk is full. -/
def diskFull : TableIO := .fails "no space left on device" ⟨none, none, none⟩

def flusher : Flusher := Flusher.init 0 "d" ⟨8, 1⟩

/-- A flush fails, the key is put again, and the next flush succeeds. -/
def putAgain : List FlusherEvent :=
  [.put (plain "a"), .beginFlush, .writeTable 1 diskFull, .put (plain "a"), .beginFlush,
    .writeTable 2 .complete, .endFlush]

/-- A flush fails, and the next one begins. -/
def overwritten : List FlusherEvent :=
  [.put (plain "a"), .beginFlush, .writeTable 1 diskFull, .put (plain "b"), .beginFlush]

end Sample

open Sample in
set_option maxRecDepth 10000 in
theorem found_putAgain : ∃ n, run Flusher.step flusher putAgain = some n ∧
    (n.memTable.get "t:a").isSome = false ∧ n.Found "t:a" := by
  have hrun : (run Flusher.step flusher putAgain).map (fun n =>
      decide ((n.memTable.get "t:a").isSome = false ∧ plain "a" ∈ n.puts)) = some true := by
    decide +kernel
  obtain ⟨n, hn, hdec⟩ := Option.map_eq_some_iff.mp hrun
  obtain ⟨hmem, hput⟩ := of_decide_eq_true hdec
  exact ⟨n, hn, hmem, Flusher.found_of_run (by decide +kernel) hn hput⟩

open Sample in
/-- The key `a` was put and is found nowhere. -/
theorem failed_flush_overwritten : ∃ n, run Flusher.step flusher overwritten = some n ∧
    plain "a" ∈ n.puts ∧ ¬ n.Found "t:a" := by
  have hrun : (run Flusher.step flusher overwritten).map (fun n =>
      decide (plain "a" ∈ n.puts ∧ ¬ n.Found "t:a")) = some true := by
    decide +kernel
  obtain ⟨n, hn, hdec⟩ := Option.map_eq_some_iff.mp hrun
  exact ⟨n, hn, of_decide_eq_true hdec⟩

end PairDB.StorageNode
