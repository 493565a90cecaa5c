import PairDB.StorageNode.MemTable
import PairDB.StorageNode.SSTableRoundtrip

/-!
# `service.SSTableService`

The tables of the levels and their files. `Get` asks every table and keeps the entry with the
greatest timestamp; among equal ones it keeps the first. A table that cannot be read is passed over.

A memtable that was flushed is found again by `tableGet` (`tableGet_of_written`), so the effect of
a flush on `Get` is the one comparison with the entry of the new table (`get_flush`).
-/

namespace PairDB.StorageNode

open Infra

/-- `model.KeyRange`. -/
structure KeyRange where
  startKey : String
  endKey : String
  deriving DecidableEq, Repr

/-- `model.SSTableMetadata`. The index and the Bloom filter are beside the data file. -/
structure SSTableMetadata where
  sstableID : String
  level : Nat
  size : Int
  keyRange : KeyRange
  filePath : String
  deriving DecidableEq, Repr

/-- How the writes of a table to the disk go. If one of them fails, something is left behind. -/
inductive TableIO where
  | complete
  | fails (message : String) (left : TableFiles)

/-- `SSTableService`. The disk has the files of a table under the path of its data file. -/
structure SSTableService where
  dataDir : String
  bloom : BloomParams
  levels : Nat → List SSTableMetadata
  files : String → TableFiles

namespace SSTableService

/-- `NewSSTableService`, on an empty disk. -/
def new (dataDir : String) (bloom : BloomParams) : SSTableService where
  dataDir := dataDir
  bloom := bloom
  levels := fun _ => []
  files := fun _ => ⟨none, none, none⟩

/-! ## Flushing -/

/-- The name of a table that is created at `nanos`. -/
def flushID (nanos : Int) : String := "sstable-" ++ toString nanos

/-- The path of a table of level 0 that is created at `nanos`. -/
def flushPath (s : SSTableService) (nanos : Int) : String :=
  s.dataDir ++ "/l0/" ++ flushID nanos ++ ".sst"

/-- The first and the last key that are written. -/
def keyRangeOf (entries : List MemTableEntry) : KeyRange where
  startKey := (entries.head?.map MemTableEntry.key).getD ""
  endKey := (entries.getLast?.map MemTableEntry.key).getD ""

/-- The table that `WriteFromMemTable` writes. -/
def writeEntries (bloom : BloomParams) (entries : List MemTableEntry) :
    Except Fault SSTableWriter :=
  (SSTableWriter.new bloom).bind fun w => w.writeAll entries

/-- The metadata of a flushed table. -/
def flushMetadata (s : SSTableService) (nanos : Int) (entries : List MemTableEntry)
    (w : SSTableWriter) : SSTableMetadata where
  sstableID := flushID nanos
  level := 0
  size := w.size
  keyRange := keyRangeOf entries
  filePath := s.flushPath nanos

/-- The table is on the disk and registered in level 0. -/
def withFlushed (s : SSTableService) (nanos : Int) (entries : List MemTableEntry)
    (w : SSTableWriter) : SSTableService :=
  { s with
    files := Function.update s.files (s.flushPath nanos) w.finalize
    levels := Function.update s.levels 0 (s.levels 0 ++ [s.flushMetadata nanos entries w]) }

/-- `WriteFromMemTable`. -/
def writeFromMemTable (s : SSTableService) (nanos : Int) (io : TableIO) (mt : MemTable) :
    SSTableService × Except Fault Unit :=
  match writeEntries s.bloom mt.entries with
  | .error e => (s, .error e)
  | .ok w =>
    match io with
    | .fails message left =>
      ({ s with files := Function.update s.files (s.flushPath nanos) left }, .error (.err message))
    | .complete => (s.withFlushed nanos mt.entries w, .ok ())

/-! ## Lookup -/

/-- `keyInRange`. -/
def keyInRange (key : String) (keyRange : KeyRange) : Bool :=
  keyRange.startKey ≤ key ∧ key ≤ keyRange.endKey

/-- `LoadBloomFilter` of a file that may be missing. -/
def loadBloomFilter (files : TableFiles) : Except Fault BloomFilter :=
  match files.bloom with
  | none => .error (.err "failed to open bloom filter file")
  | some file => BloomFilter.load file

/-- The search in one table whose key range fits. -/
def searchTable (files : TableFiles) (key : String) : Except Fault (Option KeyValueEntry) :=
  (loadBloomFilter files).bind fun bloomFilter =>
  (bloomFilter.mayContain key).bind fun may =>
  if may then (SSTableReader.new files).bind fun reader => reader.get key
  else .ok none

/-- The loop of `Get` goes on with the next table after an error, but a panic ends it. -/
def skipErrors : Except Fault (Option KeyValueEntry) → Except Fault (Option KeyValueEntry)
  | .error (.err _) => .ok none
  | result => result

/-- What `Get` finds in one table. -/
def tableGet (s : SSTableService) (key : String) (table : SSTableMetadata) :
    Except Fault (Option KeyValueEntry) :=
  if keyInRange key table.keyRange then skipErrors (searchTable (s.files table.filePath) key)
  else .ok none

/-- The comparison in the loop of `Get`. `latestTimestamp` is 0 as long as nothing was found. -/
def keepLatest (latest entry : Option KeyValueEntry) : Option KeyValueEntry :=
  match entry with
  | none => latest
  | some e => if e.timestamp > (latest.map KeyValueEntry.timestamp).getD 0 then some e else latest

/-- The tables in the order in which `Get` asks them. -/
def tables (s : SSTableService) : List SSTableMetadata := (List.range 5).flatMap s.levels

/-- The loop of `Get`. -/
def getLoop (s : SSTableService) (key : String) :
    List SSTableMetadata → Option KeyValueEntry → Except Fault (Option KeyValueEntry)
  | [], latest => .ok latest
  | table :: tables, latest =>
    (s.tableGet key table).bind fun entry => getLoop s key tables (keepLatest latest entry)

/-- `SSTableService.Get`. -/
def get (s : SSTableService) (tenantID key : String) : Except Fault (Option KeyValueEntry) :=
  s.getLoop (buildKey tenantID key) s.tables none

/-! ## Levels -/

/-- `GetTablesForLevel`. -/
def getTablesForLevel (s : SSTableService) (level : Nat) : List SSTableMetadata := s.levels level

/-- `AddTable`. -/
def addTable (s : SSTableService) (level : Nat) (table : SSTableMetadata) : SSTableService :=
  { s with levels := Function.update s.levels level (s.levels level ++ [table]) }

/-- `RemoveTables`. -/
def removeTables (s : SSTableService) (level : Nat) (tableIDs : List String) : SSTableService :=
  { s with
    levels := Function.update s.levels level
      ((s.levels level).filter fun table => table.sstableID ∉ tableIDs) }

/-! ## What a lookup returns -/

theorem getLoop_append (s : SSTableService) (key : String) (tables tables' : List SSTableMetadata)
    (latest : Option KeyValueEntry) :
    s.getLoop key (tables ++ tables') latest =
      (s.getLoop key tables latest).bind fun latest => s.getLoop key tables' latest := by
  induction tables generalizing latest with
  | nil => rfl
  | cons table tables ih =>
    simp only [List.cons_append, getLoop]
    cases s.tableGet key table with
    | error e => rfl
    | ok entry => exact ih _

theorem getLoop_congr {s s' : SSTableService} {key : String} {tables : List SSTableMetadata}
    (h : ∀ table ∈ tables, s'.tableGet key table = s.tableGet key table)
    (latest : Option KeyValueEntry) : s'.getLoop key tables latest = s.getLoop key tables latest := by
  induction tables generalizing latest with
  | nil => rfl
  | cons table tables ih =>
    have hrest : ∀ latest, s'.getLoop key tables latest = s.getLoop key tables latest :=
      ih fun t ht => h t (by simp [ht])
    simp only [getLoop, h table (by simp), hrest]

/-- `Get` never returns an error: tables that cannot be read are passed over. -/
theorem get_ne_err (s : SSTableService) (tenantID key message : String) :
    s.get tenantID key ≠ .error (.err message) := by
  have htable : ∀ table, s.tableGet (buildKey tenantID key) table ≠ .error (.err message) := by
    intro table h
    unfold tableGet at h
    split at h
    · unfold skipErrors at h
      split at h
      · cases h
      · next hne => exact hne _ h
    · cases h
  unfold get
  generalize (none : Option KeyValueEntry) = latest
  induction s.tables generalizing latest with
  | nil => rintro ⟨⟩
  | cons table tables ih =>
    rw [getLoop]
    cases hget : s.tableGet (buildKey tenantID key) table with
    | error e =>
      intro h
      exact htable table (hget.trans h)
    | ok entry => exact ih _

/-- What the loop returns is what it started with, or it was found in a table. -/
theorem found_of_getLoop {s : SSTableService} {key : String} {tables : List SSTableMetadata}
    {latest : Option KeyValueEntry} {e : KeyValueEntry}
    (h : s.getLoop key tables latest = .ok (some e)) :
    latest = some e ∨ ∃ table ∈ tables, s.tableGet key table = .ok (some e) := by
  induction tables generalizing latest with
  | nil => exact Or.inl (Except.ok.inj h)
  | cons table tables ih =>
    rw [getLoop] at h
    cases hget : s.tableGet key table with
    | error e => rw [hget] at h; cases h
    | ok entry =>
      rw [hget] at h
      rcases ih h with hkeep | ⟨t, ht, hfound⟩
      · cases entry with
        | none => exact Or.inl hkeep
        | some e' =>
          rw [keepLatest] at hkeep
          split at hkeep
          · rw [hkeep] at hget
            exact Or.inr ⟨table, by simp, hget⟩
          · exact Or.inl hkeep
      · exact Or.inr ⟨t, by simp [ht], hfound⟩

section Written

variable {bloom : BloomParams} {mt : MemTable} {w : SSTableWriter}

theorem loadBloomFilter_finalize (hw : writeEntries bloom mt.entries = .ok w) :
    loadBloomFilter w.finalize = .ok w.bloomFilter := by
  obtain ⟨hbloom, -, -⟩ := SSTableWriter.writer_spec hw
  cases hbf : BloomFilter.new bloom with
  | error e => rw [hbf] at hbloom; cases hbloom
  | ok bf =>
    rw [hbf] at hbloom
    have hsize : w.bloomFilter.size.toNat ≤ maxAlloc := by
      rw [BloomFilter.addAll_size hbloom]
      exact (BloomFilter.size_new hbf).2
    exact BloomFilter.load_writeTo _ hsize

/-- The Bloom filter of a flushed memtable. -/
theorem mayContain_written (hw : writeEntries bloom mt.entries = .ok w) (hne : mt.entries ≠ [])
    (key : String) : ∃ b, w.bloomFilter.mayContain key = .ok b ∧
      (key ∈ mt.entries.map MemTableEntry.key → b = true) := by
  obtain ⟨hbloom, -, -⟩ := SSTableWriter.writer_spec hw
  cases hbf : BloomFilter.new bloom with
  | error e => rw [hbf] at hbloom; cases hbloom
  | ok bf =>
    rw [hbf] at hbloom
    have hkeys : mt.entries.map MemTableEntry.key ≠ [] := by simpa using hne
    obtain ⟨b, hb⟩ := BloomFilter.exists_mayContain_addAll hkeys hbloom key
    refine ⟨b, hb, fun hmem => ?_⟩
    have htrue := BloomFilter.mayContain_addAll _ hmem hbloom
    exact Except.ok.inj (hb.symm.trans htrue)

theorem mem_keys_iff {key : String} :
    key ∈ mt.entries.map MemTableEntry.key ↔ ∃ e, mt.get key = some e := by
  rw [List.mem_map]
  constructor
  · rintro ⟨e, he, rfl⟩
    exact ⟨e, MemTable.mem_entries.mp he⟩
  · rintro ⟨e, he⟩
    have hkey := MemTable.key_of_get he
    refine ⟨e, MemTable.mem_entries.mpr ?_, hkey⟩
    rwa [hkey]

/-- The reader of a flushed memtable finds what the memtable has. -/
theorem readerGet_written (hw : writeEntries bloom mt.entries = .ok w)
    (hread : SSTableWriter.IndexReadable mt.entries) {key : String}
    (hstore : ∀ e, mt.get key = some e → Storable e) :
    (SSTableReader.new w.finalize).bind (fun reader => reader.get key) =
      .ok ((mt.get key).map SSTableReader.toKeyValueEntry) := by
  rw [SSTableReader.new_finalize hw hread.1]
  simp only [Except.bind]
  cases hget : mt.get key with
  | none =>
    refine SSTableReader.get_of_not_mem fun hmem => ?_
    obtain ⟨e, he⟩ := mem_keys_iff.mp hmem
    rw [hget] at he
    cases he
  | some e =>
    have hkey := MemTable.key_of_get hget
    have hmem : e ∈ mt.entries := MemTable.mem_entries.mpr (by rwa [hkey])
    have hfound := SSTableReader.get_of_mem hmem mt.nodup_keys hread.2 (hstore e hget)
    rwa [hkey] at hfound

/-- The key range of a flushed memtable has all its keys. -/
theorem keyInRange_written {e : MemTableEntry} (he : e ∈ mt.entries) :
    keyInRange e.key (keyRangeOf mt.entries) = true := by
  have hsorted := mt.pairwise_entries
  obtain ⟨pre, post, hsplit⟩ := List.append_of_mem he
  rw [hsplit, List.pairwise_append, List.pairwise_cons] at hsorted
  obtain ⟨-, ⟨hpost, -⟩, hpre⟩ := hsorted
  rw [hsplit, keyInRange, decide_eq_true_eq]
  constructor
  · cases pre with
    | nil => exact le_refl _
    | cons a pre => exact (hpre a (by simp) e (by simp)).le
  · cases hlast : post.getLast? with
    | none =>
      rw [List.getLast?_eq_none_iff] at hlast
      simp [keyRangeOf, hlast]
    | some b =>
      have hb := hpost b (List.mem_of_getLast? hlast)
      simpa [keyRangeOf, List.getLast?_append, List.getLast?_cons, hlast] using hb.le

/-- **A flushed memtable is found again.** -/
theorem tableGet_of_written {s : SSTableService} {table : SSTableMetadata}
    (hw : writeEntries bloom mt.entries = .ok w) (hne : mt.entries ≠ [])
    (hfiles : s.files table.filePath = w.finalize) (hrange : table.keyRange = keyRangeOf mt.entries)
    (hread : SSTableWriter.IndexReadable mt.entries) {key : String}
    (hstore : ∀ e, mt.get key = some e → Storable e) :
    s.tableGet key table = .ok ((mt.get key).map SSTableReader.toKeyValueEntry) := by
  have hreader := readerGet_written hw hread hstore
  obtain ⟨b, hb, htrue⟩ := mayContain_written hw hne key
  have hsearch : searchTable w.finalize key =
      .ok ((mt.get key).map SSTableReader.toKeyValueEntry) := by
    simp only [searchTable, loadBloomFilter_finalize hw, Except.bind, hb]
    cases hget : mt.get key with
    | none =>
      rw [hget] at hreader
      split
      · exact hreader
      · rfl
    | some e =>
      rw [hget] at hreader
      rw [if_pos (htrue (mem_keys_iff.mpr ⟨e, hget⟩))]
      exact hreader
  rw [tableGet, hfiles, hrange, hsearch]
  cases hget : mt.get key with
  | none => split <;> rfl
  | some e =>
    have hkey := MemTable.key_of_get hget
    have hmem : e ∈ mt.entries := MemTable.mem_entries.mpr (by rwa [hkey])
    have hin := keyInRange_written hmem
    rw [hkey] at hin
    rw [if_pos hin]
    rfl

end Written

/-! ## The effect of a flush -/

/-- What a flush needs to be readable for `key`: a path that no table has, lengths that fit, and a
checksum that is not 0. -/
structure FlushReadable (s : SSTableService) (nanos : Int) (mt : MemTable) (key : String) :
    Prop where
  fresh : ∀ table ∈ s.tables, table.filePath ≠ s.flushPath nanos
  index : SSTableWriter.IndexReadable mt.entries
  storable : ∀ e, mt.get key = some e → Storable e

/-- Only level 0 has tables. -/
def OnlyL0 (s : SSTableService) : Prop := ∀ level, level ≠ 0 → s.levels level = []

theorem OnlyL0.tables {s : SSTableService} (h : s.OnlyL0) : s.tables = s.levels 0 := by
  have hrest : ∀ n, ((List.range n).map (· + 1)).flatMap s.levels = [] := by
    intro n
    rw [List.flatMap_eq_nil_iff]
    intro level hlevel
    obtain ⟨i, -, rfl⟩ := List.mem_map.mp hlevel
    exact h _ (Nat.succ_ne_zero i)
  rw [SSTableService.tables, List.range_succ_eq_map, List.flatMap_cons]
  simpa using hrest 4

/-- A flush without an error. -/
theorem writeFromMemTable_eq_ok {s s' : SSTableService} {nanos : Int} {io : TableIO} {mt : MemTable}
    (h : s.writeFromMemTable nanos io mt = (s', .ok ())) :
    ∃ w, writeEntries s.bloom mt.entries = .ok w ∧ s' = s.withFlushed nanos mt.entries w := by
  unfold writeFromMemTable at h
  split at h
  · cases h
  · next w hw =>
    split at h
    · cases h
    · cases h
      exact ⟨w, hw, rfl⟩

/-- A flush with an error has changed at most the file that it was writing. -/
theorem writeFromMemTable_eq_error {s s' : SSTableService} {nanos : Int} {io : TableIO}
    {mt : MemTable} {fault : Fault} (h : s.writeFromMemTable nanos io mt = (s', .error fault)) :
    s'.levels = s.levels ∧ ∀ path, path ≠ s.flushPath nanos → s'.files path = s.files path := by
  unfold writeFromMemTable at h
  split at h
  · cases h
    exact ⟨rfl, fun _ _ => rfl⟩
  · split at h
    · cases h
      exact ⟨rfl, fun path hpath => Function.update_of_ne hpath _ _⟩
    · cases h

theorem OnlyL0.withFlushed {s : SSTableService} (h : s.OnlyL0) (nanos : Int)
    (entries : List MemTableEntry) (w : SSTableWriter) : (s.withFlushed nanos entries w).OnlyL0 := by
  intro level hlevel
  show Function.update s.levels 0 _ level = []
  rw [Function.update_of_ne hlevel]
  exact h level hlevel

theorem levels_withFlushed (s : SSTableService) (nanos : Int) (entries : List MemTableEntry)
    (w : SSTableWriter) :
    (s.withFlushed nanos entries w).levels 0 = s.levels 0 ++ [s.flushMetadata nanos entries w] :=
  Function.update_self 0 _ s.levels

/-- The tables that were there have the files that they had. -/
theorem tableGet_withFlushed {s : SSTableService} {nanos : Int} {table : SSTableMetadata}
    (hfresh : table.filePath ≠ s.flushPath nanos) (entries : List MemTableEntry)
    (w : SSTableWriter) (key : String) :
    (s.withFlushed nanos entries w).tableGet key table = s.tableGet key table := by
  have hfiles : (s.withFlushed nanos entries w).files table.filePath = s.files table.filePath :=
    Function.update_of_ne hfresh _ _
  rw [tableGet, tableGet, hfiles]

/-- **After a flush, `Get` compares what it returned before with the entry of the memtable.** -/
theorem get_flush {s s' : SSTableService} {nanos : Int} {io : TableIO} {mt : MemTable}
    {tenantID key : String} {sst : Option KeyValueEntry} (hl0 : s.OnlyL0) (hne : mt.entries ≠ [])
    (hread : FlushReadable s nanos mt (buildKey tenantID key))
    (hget : s.get tenantID key = .ok sst)
    (h : s.writeFromMemTable nanos io mt = (s', .ok ())) :
    s'.OnlyL0 ∧ s'.get tenantID key = .ok (keepLatest sst
      ((mt.get (buildKey tenantID key)).map SSTableReader.toKeyValueEntry)) := by
  obtain ⟨w, hw, rfl⟩ := writeFromMemTable_eq_ok h
  have hl0' := hl0.withFlushed nanos mt.entries w
  have hold : ∀ table ∈ s.levels 0, (s.withFlushed nanos mt.entries w).tableGet
      (buildKey tenantID key) table = s.tableGet (buildKey tenantID key) table := by
    intro table htable
    rw [← hl0.tables] at htable
    exact tableGet_withFlushed (hread.fresh table htable) _ _ _
  have hfiles : (s.withFlushed nanos mt.entries w).files
      (s.flushMetadata nanos mt.entries w).filePath = w.finalize :=
    Function.update_self (s.flushPath nanos) _ s.files
  have hnew := tableGet_of_written hw hne hfiles rfl hread.index hread.storable
  refine ⟨hl0', ?_⟩
  rw [get, hl0.tables] at hget
  rw [get, hl0'.tables, levels_withFlushed, getLoop_append, getLoop_congr hold, hget]
  simp only [Except.bind, getLoop, hnew]

end SSTableService

end PairDB.StorageNode
