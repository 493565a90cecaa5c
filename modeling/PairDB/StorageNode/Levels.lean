import PairDB.Infra.Run
import PairDB.StorageNode.Properties.UnreadableInput

/-!
# Flushes and compactions, one after another

The state is the `SSTableService`, together with the entries of the memtables that were flushed so
far. A step is a flush or a compaction; each of them may fail, and a panic ends the run.

`Layer.step_cases` says what a step does to the levels and to the files. What `Get` finds in a table
follows from that: a new file changes nothing for the tables under other paths, a compaction takes
its inputs away, and its output is never found because it has no key range.
-/

namespace PairDB.StorageNode

open Infra

/-- The tables and the history of the flushes. -/
structure Layer where
  service : SSTableService
  flushed : List MemTableEntry

/-- A flush of a memtable, or the run of a compaction job. -/
inductive LayerEvent where
  | flush (nanos : Int) (io : TableIO) (mt : MemTable)
  | compact (bloom : BloomParams) (job : CompactionJob) (env : CompactionEnv)

namespace Layer

/-- There are no tables. -/
def new (dataDir : String) (bloom : BloomParams) : Layer := ⟨.new dataDir bloom, []⟩

def step (n : Layer) : LayerEvent → Option Layer
  | .flush nanos io mt =>
    match n.service.writeFromMemTable nanos io mt with
    | (_, .error (.panic _)) => none
    | (service, .error (.err _)) => some { n with service }
    | (service, .ok ()) => some ⟨service, n.flushed ++ mt.entries⟩
  | .compact bloom job env =>
    match n.service.mergeSSTables bloom job env with
    | (_, .error (.panic _)) => none
    | (service, _) => some { n with service }

/-- The path of the table that a step writes. -/
def outputPath (n : Layer) : LayerEvent → String
  | .flush nanos _ _ => n.service.flushPath nanos
  | .compact _ job env => n.service.compactedPath job.outputLevel env.nanos

/-- No table has the path that a step writes. -/
def Fresh (n : Layer) (event : LayerEvent) : Prop :=
  ∀ table ∈ n.service.tables, table.filePath ≠ n.outputPath event

instance (n : Layer) (event : LayerEvent) : Decidable (n.Fresh event) :=
  inferInstanceAs (Decidable (∀ _ ∈ _, _))

/-- What a step does: it flushes a memtable, it compacts, or it fails and has changed at most the
file that it was writing. -/
theorem step_cases {n n' : Layer} {event : LayerEvent} (h : n.step event = some n') :
    (∃ nanos io mt w, event = .flush nanos io mt ∧
      SSTableService.writeEntries n.service.bloom mt.entries = .ok w ∧
      n' = ⟨n.service.withFlushed nanos mt.entries w, n.flushed ++ mt.entries⟩) ∨
    (∃ bloom job env cursors w, event = .compact bloom job env ∧
      n.service.cursors job env = .ok cursors ∧
      (SSTableWriter.new bloom).bind (merge SSTableWriter.write cursors) = .ok w ∧
      n' = { n with service := n.service.withCompacted job env w }) ∨
    (n'.service.levels = n.service.levels ∧ n'.flushed = n.flushed ∧
      ∀ path, path ≠ n.outputPath event → n'.service.files path = n.service.files path) := by
  cases event with
  | flush nanos io mt =>
    rw [step] at h
    split at h
    · cases h
    · next hwrite =>
      cases h
      obtain ⟨hlevels, hfiles⟩ := SSTableService.writeFromMemTable_eq_error hwrite
      exact Or.inr (Or.inr ⟨hlevels, rfl, hfiles⟩)
    · next hwrite =>
      cases h
      obtain ⟨w, hw, rfl⟩ := SSTableService.writeFromMemTable_eq_ok hwrite
      exact Or.inl ⟨nanos, io, mt, w, rfl, hw, rfl⟩
  | compact bloom job env =>
    rw [step] at h
    rcases hmerge : n.service.mergeSSTables bloom job env with ⟨service, r⟩
    rw [hmerge] at h
    rcases mergeSSTables_cases hmerge with ⟨⟨fault, rfl⟩, hlevels, hfiles⟩ |
      ⟨rfl, cursors, w, hcursors, hw, rfl⟩
    · cases fault with
      | panic reason => cases h
      | err message =>
        cases h
        exact Or.inr (Or.inr ⟨hlevels, rfl, hfiles⟩)
    · cases h
      exact Or.inr (Or.inl ⟨bloom, job, env, cursors, w, rfl, hcursors, hw, rfl⟩)

end Layer

namespace SSTableService

variable {s s' : SSTableService} {table : SSTableMetadata}

/-! ## The tables after a step -/

theorem mem_tables : table ∈ s.tables ↔ ∃ level < 5, table ∈ s.levels level := by
  simp [tables]

theorem tables_congr (h : s'.levels = s.levels) : s'.tables = s.tables := by
  rw [tables, tables, h]

theorem mem_tables_withFlushed {nanos : Int} {entries : List MemTableEntry} {w : SSTableWriter} :
    table ∈ (s.withFlushed nanos entries w).tables ↔
      table ∈ s.tables ∨ table = s.flushMetadata nanos entries w := by
  simp only [mem_tables, withFlushed, Function.update_apply]
  constructor
  · rintro ⟨level, hlevel, hmem⟩
    split at hmem
    · next hzero =>
      subst hzero
      rcases List.mem_append.mp hmem with hmem | hmem
      · exact Or.inl ⟨0, hlevel, hmem⟩
      · exact Or.inr (List.mem_singleton.mp hmem)
    · exact Or.inl ⟨level, hlevel, hmem⟩
  · rintro (⟨level, hlevel, hmem⟩ | rfl)
    · refine ⟨level, hlevel, ?_⟩
      split
      · next hzero => exact List.mem_append_left _ (hzero ▸ hmem)
      · exact hmem
    · exact ⟨0, by omega, by simp⟩

/-- The tables that a job leaves registered, with their files. -/
def staying (s : SSTableService) (job : CompactionJob) : List SSTableMetadata :=
  (s.removeTables job.level (job.inputTables.map SSTableMetadata.sstableID)).tables.filter
    fun table => table.filePath ∉ job.inputTables.map SSTableMetadata.filePath

theorem mem_tables_of_mem_staying {job : CompactionJob} (h : table ∈ s.staying job) :
    table ∈ s.tables := by
  obtain ⟨level, hlevel, hmem⟩ := mem_tables.mp (List.mem_filter.mp h).1
  simp only [removeTables, Function.update_apply] at hmem
  refine mem_tables.mpr ⟨level, hlevel, ?_⟩
  split at hmem
  · next heq => exact heq ▸ (List.mem_filter.mp hmem).1
  · exact hmem

/-- A table that stays is still there. -/
theorem mem_tables_withCompacted {job : CompactionJob} {env : CompactionEnv} {w : SSTableWriter}
    (h : table ∈ s.staying job) : table ∈ (s.withCompacted job env w).tables := by
  obtain ⟨level, hlevel, hmem⟩ := mem_tables.mp (List.mem_filter.mp h).1
  refine mem_tables.mpr ⟨level, hlevel, ?_⟩
  simp only [removeTables, withCompacted, deleteFiles, addTable, Function.update_apply] at hmem ⊢
  split
  · next heq =>
    rw [if_pos heq] at hmem
    split
    · rw [List.filter_append]
      exact List.mem_append_left _ (by simp_all)
    · exact hmem
  · next hne =>
    rw [if_neg hne] at hmem
    split
    · next heq => exact List.mem_append_left _ (heq ▸ hmem)
    · exact hmem

/-- Every table after a compaction is the output, one that stays, or one whose files are deleted. -/
theorem mem_tables_of_withCompacted {job : CompactionJob} {env : CompactionEnv} {w : SSTableWriter}
    (h : table ∈ (s.withCompacted job env w).tables) :
    table = s.compactedMetadata job env w ∨ table ∈ s.staying job ∨
      table.filePath ∈ job.inputTables.map SSTableMetadata.filePath := by
  by_cases hpath : table.filePath ∈ job.inputTables.map SSTableMetadata.filePath
  · exact Or.inr (Or.inr hpath)
  obtain ⟨level, hlevel, hmem⟩ := mem_tables.mp h
  have hkept : table = s.compactedMetadata job env w ∨ table ∈ (s.removeTables job.level
      (job.inputTables.map SSTableMetadata.sstableID)).levels level := by
    simp only [withCompacted, deleteFiles, removeTables, addTable, Function.update_apply] at hmem ⊢
    split at hmem
    · next heq =>
      rw [if_pos heq]
      split at hmem
      · obtain ⟨hmem, hid⟩ := List.mem_filter.mp hmem
        rcases List.mem_append.mp hmem with hmem | hmem
        · exact Or.inr (List.mem_filter.mpr ⟨by simp_all, hid⟩)
        · exact Or.inl (List.mem_singleton.mp hmem)
      · exact Or.inr hmem
    · next hne =>
      rw [if_neg hne]
      split at hmem
      · next heq =>
        rcases List.mem_append.mp hmem with hmem | hmem
        · exact Or.inr (heq ▸ hmem)
        · exact Or.inl (List.mem_singleton.mp hmem)
      · exact Or.inr hmem
  rcases hkept with hout | hkept
  · exact Or.inl hout
  · exact Or.inr (Or.inl (List.mem_filter.mpr ⟨mem_tables.mpr ⟨level, hlevel, hkept⟩,
      decide_eq_true hpath⟩))

/-! ## The files after a step -/

theorem files_withFlushed {nanos : Int} {path : String} (h : path ≠ s.flushPath nanos)
    (entries : List MemTableEntry) (w : SSTableWriter) :
    (s.withFlushed nanos entries w).files path = s.files path :=
  Function.update_of_ne h _ _

theorem files_withCompacted {job : CompactionJob} {env : CompactionEnv} {path : String}
    (hout : path ≠ s.compactedPath job.outputLevel env.nanos)
    (hin : path ∉ job.inputTables.map SSTableMetadata.filePath) (w : SSTableWriter) :
    (s.withCompacted job env w).files path = s.files path := by
  show (if _ then _ else Function.update s.files _ _ path) = _
  rw [if_neg hin, Function.update_of_ne hout]

theorem files_deleted {job : CompactionJob} {env : CompactionEnv} {path : String}
    (hin : path ∈ job.inputTables.map SSTableMetadata.filePath) (w : SSTableWriter) :
    (s.withCompacted job env w).files path = ⟨none, none, none⟩ := by
  show (if _ then _ else _) = _
  rw [if_pos hin]

/-! ## What is found after a step -/

theorem tableGet_congr (h : s'.files table.filePath = s.files table.filePath) (key : String) :
    s'.tableGet key table = s.tableGet key table := by
  rw [tableGet, tableGet, h]

/-- The key range of the output of a compaction has no key but the empty one. -/
theorem keyInRange_empty {key : String} (h : key ≠ "") : keyInRange key ⟨"", ""⟩ = false := by
  rw [keyInRange, decide_eq_false_iff_not]
  rintro ⟨-, hle⟩
  refine h (le_antisymm hle (le_of_not_gt fun hlt => ?_))
  exact List.not_lt_nil _ (String.lt_iff_toList_lt.mp hlt)

theorem tableGet_of_not_inRange {key : String} (h : keyInRange key table.keyRange = false) :
    s.tableGet key table = .ok none := by
  rw [tableGet, h]
  rfl

/-- A table without files is passed over. -/
theorem tableGet_of_deleted {key : String} (h : s.files table.filePath = ⟨none, none, none⟩) :
    s.tableGet key table = .ok none := by
  rw [tableGet, h]
  split <;> rfl

/-- What is found after a compaction was found in a table that stays. -/
theorem tableGet_withCompacted {job : CompactionJob} {env : CompactionEnv} {w : SSTableWriter}
    {key : String} (hkey : key ≠ "")
    (hfresh : ∀ table ∈ s.tables, table.filePath ≠ s.compactedPath job.outputLevel env.nanos)
    (h : table ∈ (s.withCompacted job env w).tables) {e : KeyValueEntry}
    (hget : (s.withCompacted job env w).tableGet key table = .ok (some e)) :
    table ∈ s.staying job ∧ s.tableGet key table = .ok (some e) := by
  rcases mem_tables_of_withCompacted h with rfl | hstay | hdeleted
  · rw [tableGet_of_not_inRange (keyInRange_empty hkey)] at hget
    cases hget
  · have hpath := of_decide_eq_true (List.mem_filter.mp hstay).2
    have hne := hfresh table (mem_tables_of_mem_staying hstay)
    exact ⟨hstay, (tableGet_congr (files_withCompacted hne hpath w) key).symm.trans hget⟩
  · rw [tableGet_of_deleted (files_deleted hdeleted w)] at hget
    cases hget

/-- What `Get` returns is not older than anything that it found. -/
theorem timestamp_le_of_getLoop {key : String} {tables : List SSTableMetadata}
    {latest : Option KeyValueEntry} {e : KeyValueEntry}
    (h : s.getLoop key tables latest = .ok (some e)) :
    (latest.map KeyValueEntry.timestamp).getD 0 ≤ e.timestamp ∧
      ∀ table ∈ tables, ∀ e', s.tableGet key table = .ok (some e') →
        e'.timestamp ≤ e.timestamp := by
  induction tables generalizing latest with
  | nil =>
    cases h
    exact ⟨le_refl _, by simp⟩
  | cons table tables ih =>
    rw [getLoop] at h
    cases hget : s.tableGet key table with
    | error fault =>
      rw [hget] at h
      cases h
    | ok entry =>
      rw [hget] at h
      obtain ⟨hlatest, hrest⟩ := ih h
      have hboth : (latest.map KeyValueEntry.timestamp).getD 0 ≤ e.timestamp ∧
          ∀ e', entry = some e' → e'.timestamp ≤ e.timestamp := by
        cases entry with
        | none => exact ⟨hlatest, by simp⟩
        | some x =>
          rw [keepLatest] at hlatest
          split at hlatest
          · next hgt =>
            have hx : x.timestamp ≤ e.timestamp := hlatest
            exact ⟨by omega, fun e' he' => Option.some.inj he' ▸ hx⟩
          · next hle => exact ⟨hlatest, fun e' he' => Option.some.inj he' ▸ by omega⟩
      refine ⟨hboth.1, fun t ht e' hfound => ?_⟩
      rcases List.mem_cons.mp ht with rfl | ht
      · exact hboth.2 e' (Except.ok.inj (hget.symm.trans hfound))
      · exact hrest t ht e' hfound

end SSTableService

end PairDB.StorageNode
