import PairDB.StorageNode.Properties.FilteredLookup

/-!
# Lookups over damaged tables

`Get` passes over a table whose Bloom filter, index or record it cannot read, and it returns no
error for it. So the answer is the one over the other tables. It is the answer over all tables
exactly if the newest entry of the key can still be read (`get_failing_iff`). If it cannot, an older
value is returned, also for a key that was deleted since (`get_failing_returns_deleted`).
-/

namespace PairDB.StorageNode

open Infra

/-! ## Failing reads -/

/-- Which reads of a lookup in one table fail. -/
structure ReadFailures where
  bloom : Bool
  index : Bool
  record : Bool
  deriving DecidableEq, Repr

/-- One of the reads fails. -/
def ReadFailures.Any (f : ReadFailures) : Prop := f.bloom = true ∨ f.index = true ∨ f.record = true

instance (f : ReadFailures) : Decidable f.Any :=
  inferInstanceAs (Decidable (_ ∨ _ ∨ _))

/-- The files as a lookup meets them. A Bloom filter or an index that fails cannot be opened; of a
data file whose records fail nothing is left. -/
def TableFiles.failing (files : TableFiles) (f : ReadFailures) : TableFiles where
  data := if f.record then files.data.map fun _ => [] else files.data
  index := if f.index then none else files.index
  bloom := if f.bloom then none else files.bloom

theorem TableFiles.failing_of_not_any {files : TableFiles} {f : ReadFailures} (h : ¬ f.Any) :
    files.failing f = files := by
  obtain ⟨bloom, index, record⟩ := f
  simp only [ReadFailures.Any, not_or, Bool.not_eq_true] at h
  obtain ⟨rfl, rfl, rfl⟩ := h
  rfl

/-- A record cannot be read from an empty file. -/
theorem SSTableReader.get_of_dataFile_nil (index : Map Bytes IndexEntry) (key : String) :
    get ⟨[], index⟩ key = .ok none ∨ ∃ message, get ⟨[], index⟩ key = .error (.err message) := by
  rw [get]
  cases index.get? (utf8 key) with
  | none => exact Or.inl rfl
  | some entry =>
    refine Or.inr ?_
    simp only [readRecord, List.drop_nil]
    split
    · exact ⟨_, rfl⟩
    · exact ⟨_, rfl⟩

theorem SSTableReader.exists_loadIndex {data index : Bytes} {bloom : Option Bytes}
    {reader : SSTableReader} (h : new ⟨some data, some index, bloom⟩ = .ok reader) :
    ∃ entries, loadIndex (index.length + 1) index ∅ = .ok entries := by
  cases hload : loadIndex (index.length + 1) index ∅ with
  | error e =>
    simp only [new, hload] at h
    cases h
  | ok entries => exact ⟨entries, rfl⟩

namespace SSTableService

/-- The service whose reads of the files under a path fail like this. -/
def failing (s : SSTableService) (failures : String → ReadFailures) : SSTableService :=
  { s with files := fun path => (s.files path).failing (failures path) }

/-- A failure takes away what is found in the table. Nothing can be found by it. -/
theorem skipErrors_searchTable_failing {files : TableFiles} {f : ReadFailures} (hf : f.Any)
    {key : String} {found : Option KeyValueEntry} (h : searchTable files key = .ok found) :
    skipErrors (searchTable (files.failing f) key) = .ok none := by
  by_cases hbloom : f.bloom = true
  · simp only [searchTable, loadBloomFilter, TableFiles.failing, if_pos hbloom]
    rfl
  · have hload : loadBloomFilter (files.failing f) = loadBloomFilter files := by
      simp only [loadBloomFilter, TableFiles.failing, if_neg hbloom]
    obtain ⟨bloomFilter, hbf, h⟩ := Validator.bind_eq_ok h
    obtain ⟨may, hmay, h⟩ := Validator.bind_eq_ok h
    simp only [searchTable, hload, hbf, Except.bind, hmay]
    cases may with
    | false => rfl
    | true =>
      rw [if_pos rfl] at h
      obtain ⟨reader, hnew, -⟩ := Validator.bind_eq_ok h
      -- the table could be opened, so it has a data file and an index
      obtain ⟨data, index, bloom⟩ := files
      cases data with
      | none => cases hnew
      | some data =>
        cases index with
        | none => cases hnew
        | some index =>
          by_cases hindex : f.index = true
          · cases hrecord : f.record <;>
              simp only [TableFiles.failing, hindex, hrecord, if_true, SSTableReader.new] <;> rfl
          · have hrecord : f.record = true := (hf.resolve_left hbloom).resolve_left hindex
            obtain ⟨entries, hentries⟩ := SSTableReader.exists_loadIndex hnew
            simp only [TableFiles.failing, if_neg hindex, hrecord, if_true, Option.map_some,
              SSTableReader.new, hentries, Except.map]
            obtain hnone | ⟨message, hread⟩ := SSTableReader.get_of_dataFile_nil entries key
            · rw [hnone]
              rfl
            · rw [hread]
              rfl

/-! ## The entry that is returned -/

/-- `latestTimestamp` after the loop has kept `o`. -/
def stamp (o : Option KeyValueEntry) : Int := (o.map KeyValueEntry.timestamp).getD 0

/-- The loop looks for the greatest timestamp, and what it starts with counts as 0. -/
theorem argmax_stamp (l : List (Option KeyValueEntry)) :
    (none :: l).argmax stamp = some (l.foldl keepLatest none) := by
  induction l using List.reverseRecOn with
  | nil => exact List.argmax_singleton
  | append_singleton l o ih =>
    have hnonneg : 0 ≤ stamp (l.foldl keepLatest none) :=
      List.le_of_mem_argmax (List.mem_cons_self (a := none)) ih
    rw [← List.cons_append, List.argmax_concat, ih, List.foldl_append, List.foldl_cons,
      List.foldl_nil]
    cases o with
    | none => exact if_neg (not_lt.mpr hnonneg)
    | some e =>
      by_cases hlt : stamp (l.foldl keepLatest none) < e.timestamp
      · exact (if_pos hlt).trans (congrArg some (if_pos hlt).symm)
      · exact (if_neg hlt).trans (congrArg some (if_neg hlt).symm)

/-- The first of the entries with the greatest timestamp, if that is above 0. -/
def IsLatest (l : List (Option KeyValueEntry)) (e : KeyValueEntry) : Prop :=
  ∃ pre post, l = pre ++ some e :: post ∧ 0 < e.timestamp ∧
    (∀ e', some e' ∈ pre → e'.timestamp < e.timestamp) ∧
    ∀ e', some e' ∈ post → e'.timestamp ≤ e.timestamp

theorem foldl_keepLatest_eq_some_iff {l : List (Option KeyValueEntry)} {e : KeyValueEntry} :
    l.foldl keepLatest none = some e ↔ IsLatest l e := by
  have hargmax : l.foldl keepLatest none = some e ↔
      (none :: l).argmax stamp = some (some e) := by
    rw [argmax_stamp, Option.some.injEq]
  rw [hargmax, argmax_eq_some_iff_split]
  constructor
  · rintro ⟨pre, post, hsplit, hpre, hpost⟩
    cases pre with
    | nil => cases hsplit
    | cons o pre =>
      obtain ⟨rfl, rfl⟩ := List.cons.inj hsplit
      exact ⟨pre, post, rfl, hpre none (by simp), fun e' he' => hpre (some e') (by simp [he']),
        fun e' he' => hpost (some e') he'⟩
  · rintro ⟨pre, post, rfl, hpos, hpre, hpost⟩
    refine ⟨none :: pre, post, rfl, fun o ho => ?_, fun o ho => ?_⟩
    · cases o with
      | none => exact hpos
      | some e' => exact hpre e' (by simpa using ho)
    · cases o with
      | none => exact hpos.le
      | some e' => exact hpost e' ho

theorem IsLatest.le {l : List (Option KeyValueEntry)} {e e' : KeyValueEntry} (h : IsLatest l e)
    (hmem : some e' ∈ l) : e'.timestamp ≤ e.timestamp := by
  obtain ⟨pre, post, rfl, -, hpre, hpost⟩ := h
  rcases List.mem_append.mp hmem with hmem | hmem
  · exact (hpre e' hmem).le
  · rcases List.mem_cons.mp hmem with heq | hmem
    · rw [Option.some.inj heq]
    · exact hpost e' hmem

/-- Without the entries of some tables the loop returns the same entry if another table has it and
is the first of the remaining ones to have an entry that new. -/
theorem foldl_keepLatest_eq_iff {tables : List SSTableMetadata} {lost : SSTableMetadata → Prop}
    [DecidablePred lost] (entryIn : SSTableMetadata → Option KeyValueEntry) :
    (tables.map fun t => if lost t then none else entryIn t).foldl keepLatest none =
      (tables.map entryIn).foldl keepLatest none ↔
    ∀ e, IsLatest (tables.map entryIn) e → ∃ pre table post, tables = pre ++ table :: post ∧
      entryIn table = some e ∧ ¬ lost table ∧
      ∀ t ∈ pre, ∀ e', entryIn t = some e' → e'.timestamp = e.timestamp → lost t := by
  constructor
  · intro heq e he
    rw [foldl_keepLatest_eq_some_iff.mpr he] at heq
    obtain ⟨pre, post, hsplit, -, hpre, -⟩ := foldl_keepLatest_eq_some_iff.mp heq
    obtain ⟨tables₁, tables₂, rfl, rfl, hrest⟩ := List.map_eq_append_iff.mp hsplit
    obtain ⟨table, tables₃, rfl, htable, rfl⟩ := List.map_eq_cons_iff.mp hrest
    by_cases hlost : lost table
    · rw [if_pos hlost] at htable
      cases htable
    · rw [if_neg hlost] at htable
      refine ⟨tables₁, table, tables₃, rfl, htable, hlost, fun t ht e' he' hsame => ?_⟩
      by_contra hkept
      have hlt := hpre e' (List.mem_map.mpr ⟨t, ht, by rw [if_neg hkept, he']⟩)
      omega
  · intro h
    cases hall : (tables.map entryIn).foldl keepLatest none with
    | none =>
      cases hrest : (tables.map fun t => if lost t then none else entryIn t).foldl
          keepLatest none with
      | none => rfl
      | some e =>
        -- an entry of a table that is left would have been found among all of them too
        obtain ⟨pre, post, hsplit, hpos, -, -⟩ := foldl_keepLatest_eq_some_iff.mp hrest
        have hmem : some e ∈ tables.map fun t => if lost t then none else entryIn t := by
          rw [hsplit]
          simp
        obtain ⟨t, ht, hentry⟩ := List.mem_map.mp hmem
        have hle := List.le_of_mem_argmax
          (List.mem_cons_of_mem none (List.mem_map_of_mem (f := entryIn) ht))
          (argmax_stamp (tables.map entryIn))
        split at hentry
        · cases hentry
        · rw [hall, hentry] at hle
          exact absurd hle (not_le.mpr hpos)
    | some e =>
      have he := foldl_keepLatest_eq_some_iff.mp hall
      obtain ⟨pre, table, post, rfl, htable, hkept, hpre⟩ := h e he
      refine foldl_keepLatest_eq_some_iff.mpr
        ⟨pre.map _, post.map _, by rw [List.map_append, List.map_cons, if_neg hkept, htable], ?_,
          fun e' he' => ?_, fun e' he' => ?_⟩
      · obtain ⟨-, -, -, hpos, -⟩ := he
        exact hpos
      · obtain ⟨t, ht, hentry⟩ := List.mem_map.mp he'
        split at hentry
        · cases hentry
        · next hkept' =>
          have hle := he.le (List.mem_map.mpr ⟨t, by simp [ht], hentry⟩)
          exact lt_of_le_of_ne hle fun hsame => hkept' (hpre t ht e' hentry hsame)
      · obtain ⟨t, ht, hentry⟩ := List.mem_map.mp he'
        split at hentry
        · cases hentry
        · exact he.le (List.mem_map.mpr ⟨t, by simp [ht], hentry⟩)

/-! ## The lookup -/

/-- The entry of a key that a table has. -/
def entryIn (s : SSTableService) (key : String) (table : SSTableMetadata) :
    Option KeyValueEntry :=
  match s.tableGet key table with
  | .ok entry => entry
  | .error _ => none

/-- Every file that a lookup of the key reads can be read. -/
def Readable (s : SSTableService) (key : String) : Prop :=
  ∀ table ∈ s.tables, keyInRange key table.keyRange = true →
    ∃ entry, searchTable (s.files table.filePath) key = .ok entry

/-- The newest entry of the key is in a table whose reads do not fail, and each table before it with
an entry of the same time fails. -/
def LatestReadable (s : SSTableService) (failures : String → ReadFailures) (key : String) : Prop :=
  ∀ e, IsLatest (s.tables.map (s.entryIn key)) e →
    ∃ pre table post, s.tables = pre ++ table :: post ∧ s.entryIn key table = some e ∧
      ¬ (failures table.filePath).Any ∧
      ∀ t ∈ pre, ∀ e', s.entryIn key t = some e' → e'.timestamp = e.timestamp →
        (failures t.filePath).Any

variable {s : SSTableService} {key : String}

theorem getLoop_eq_foldl {tables : List SSTableMetadata}
    {entryIn : SSTableMetadata → Option KeyValueEntry}
    (h : ∀ table ∈ tables, s.tableGet key table = .ok (entryIn table))
    (latest : Option KeyValueEntry) :
    s.getLoop key tables latest = .ok ((tables.map entryIn).foldl keepLatest latest) := by
  induction tables generalizing latest with
  | nil => rfl
  | cons table tables ih =>
    rw [getLoop, h table (by simp)]
    exact ih (fun t ht => h t (by simp [ht])) _

theorem Readable.tableGet_eq (hread : s.Readable key) {table : SSTableMetadata}
    (htable : table ∈ s.tables) : s.tableGet key table = .ok (s.entryIn key table) := by
  have hok : ∃ entry, s.tableGet key table = .ok entry := by
    rw [tableGet]
    split
    · next hin =>
      obtain ⟨entry, hsearch⟩ := hread table htable hin
      rw [hsearch]
      exact ⟨entry, rfl⟩
    · exact ⟨none, rfl⟩
  obtain ⟨entry, hget⟩ := hok
  rw [entryIn, hget]

/-- Failures take away what the table has, and nothing else. -/
theorem Readable.tableGet_failing (hread : s.Readable key) (failures : String → ReadFailures)
    {table : SSTableMetadata} (htable : table ∈ s.tables) :
    (s.failing failures).tableGet key table =
      .ok (if (failures table.filePath).Any then none else s.entryIn key table) := by
  by_cases hany : (failures table.filePath).Any
  · rw [if_pos hany, tableGet]
    split
    · next hin =>
      obtain ⟨entry, hsearch⟩ := hread table htable hin
      exact skipErrors_searchTable_failing hany hsearch
    · rfl
  · rw [if_neg hany, ← hread.tableGet_eq htable]
    simp only [tableGet, failing, TableFiles.failing_of_not_any hany]

/-- **When a damaged table goes unnoticed.** Whatever reads fail, `Get` returns an error or what it
returns without a failure exactly if the newest entry can still be read. -/
theorem get_failing_iff {tenantID key : String} (hread : s.Readable (buildKey tenantID key))
    (failures : String → ReadFailures) :
    (∃ message, (s.failing failures).get tenantID key = .error (.err message)) ∨
        (s.failing failures).get tenantID key = s.get tenantID key ↔
      s.LatestReadable failures (buildKey tenantID key) := by
  have hall : s.get tenantID key = .ok
      ((s.tables.map (s.entryIn (buildKey tenantID key))).foldl keepLatest none) :=
    getLoop_eq_foldl (fun table htable => hread.tableGet_eq htable) none
  have hrest : (s.failing failures).get tenantID key = .ok
      ((s.tables.map fun table => if (failures table.filePath).Any then none
        else s.entryIn (buildKey tenantID key) table).foldl keepLatest none) :=
    getLoop_eq_foldl (fun table htable => hread.tableGet_failing failures htable) none
  have hno : ¬ ∃ message, (s.failing failures).get tenantID key = .error (.err message) := by
    rintro ⟨message, h⟩
    exact get_ne_err _ _ _ _ h
  rw [or_iff_right hno, hrest, hall, Except.ok.injEq, foldl_keepLatest_eq_iff]
  rfl

/-! ## Two tables with one entry each -/

theorem tableGet_of_oneEntry {e : MemTableEntry} (hstore : Storable e)
    (hread : SSTableWriter.IndexReadable [e]) {w : SSTableWriter}
    (hw : writeEntries ⟨8, 1⟩ [e] = .ok w) {table : SSTableMetadata}
    (hfiles : s.files table.filePath = w.finalize) (hrange : table.keyRange = ⟨e.key, e.key⟩) :
    s.tableGet e.key table = .ok (some (SSTableReader.toKeyValueEntry e)) := by
  have hentries := entries_put_new e
  have hget : (MemTable.new.put e).get e.key = some e := by
    rw [MemTable.get_put, if_pos rfl]
  rw [← hentries] at hw hread
  have hstored : ∀ e', (MemTable.new.put e).get e.key = some e' → Storable e' := by
    intro e' he'
    rwa [← Option.some.inj (hget.symm.trans he')]
  rw [tableGet_of_written hw (by simp [hentries]) hfiles (by rw [hrange, hentries]; rfl) hread
    hstored, hget, Option.map_some]

theorem searchTable_of_tableGet {table : SSTableMetadata} {e : KeyValueEntry}
    (h : s.tableGet key table = .ok (some e)) :
    searchTable (s.files table.filePath) key = .ok (some e) := by
  rw [tableGet] at h
  split at h
  · cases hsearch : searchTable (s.files table.filePath) key with
    | ok entry => rwa [hsearch] at h
    | error fault =>
      rw [hsearch] at h
      cases fault <;> cases h
  · cases h

end SSTableService

namespace Sample

open SSTableService

/-- A key that was deleted. -/
def deletion : MemTableEntry := ⟨"t:k", none, ⟨[]⟩, 2, true⟩

/-- The entry of the table at a path. -/
def entryAt (path : String) : MemTableEntry := if path = "old" then entryWith [7] 1 else deletion

/-- The files of a table with one entry. -/
def filesWith (e : MemTableEntry) : TableFiles :=
  match writeEntries ⟨8, 1⟩ [e] with
  | .ok w => w.finalize
  | .error _ => ⟨none, none, none⟩

/-- A table at a path, with one key. -/
def oneKeyTable (path : String) : SSTableMetadata := ⟨path, 0, 0, ⟨"t:k", "t:k"⟩, path⟩

/-- A value was flushed, and then its deletion. -/
def deletedKey : SSTableService where
  dataDir := "data"
  bloom := ⟨8, 1⟩
  levels := fun level => if level = 0 then [oneKeyTable "old", oneKeyTable "new"] else []
  files := fun path => filesWith (entryAt path)

set_option maxRecDepth 10000 in
theorem storable_samples : (Storable (entryWith [7] 1) ∧
      SSTableWriter.IndexReadable [entryWith [7] 1]) ∧
    Storable deletion ∧ SSTableWriter.IndexReadable [deletion] := by
  decide +kernel

theorem tableGet_deletedKey (path : String) : deletedKey.tableGet "t:k" (oneKeyTable path) =
    .ok (some (SSTableReader.toKeyValueEntry (entryAt path))) := by
  obtain ⟨hkey, hstore, hread⟩ : (entryAt path).key = "t:k" ∧ Storable (entryAt path) ∧
      SSTableWriter.IndexReadable [entryAt path] := by
    rw [entryAt]
    split
    · exact ⟨rfl, storable_samples.1⟩
    · exact ⟨rfl, storable_samples.2⟩
  obtain ⟨w, hw⟩ := exists_writeEntries hkey
  rw [← hkey]
  refine tableGet_of_oneEntry hstore hread hw ?_ ?_
  · rw [show deletedKey.files (oneKeyTable path).filePath = filesWith (entryAt path) from rfl,
      filesWith, hw]
  · rw [oneKeyTable, hkey]

theorem eq_oneKeyTable {table : SSTableMetadata} (h : table ∈ deletedKey.tables) :
    table = oneKeyTable table.filePath := by
  have hmem : table ∈ [oneKeyTable "old", oneKeyTable "new"] := h
  rcases List.mem_pair.mp hmem with rfl | rfl
  · rfl
  · rfl

theorem readable_deletedKey : deletedKey.Readable "t:k" := by
  intro table htable _
  rw [eq_oneKeyTable htable]
  exact ⟨_, searchTable_of_tableGet (tableGet_deletedKey _)⟩

theorem entryIn_deletedKey {table : SSTableMetadata} (h : table ∈ deletedKey.tables) :
    deletedKey.entryIn "t:k" table =
      some (SSTableReader.toKeyValueEntry (entryAt table.filePath)) := by
  have hget := readable_deletedKey.tableGet_eq h
  rw [eq_oneKeyTable h, tableGet_deletedKey] at hget
  rw [eq_oneKeyTable h]
  exact (Except.ok.inj hget).symm

/-- The reads of the files under this path fail. -/
def failingAt (path : String) (f : ReadFailures) : String → ReadFailures :=
  Function.update (fun _ => ⟨false, false, false⟩) path f

/-- The lookup of the key if these reads fail. -/
theorem get_failing_deletedKey (failures : String → ReadFailures) :
    (deletedKey.failing failures).get "t" "k" =
      .ok (([oneKeyTable "old", oneKeyTable "new"].map fun table =>
        if (failures table.filePath).Any then none
        else some (SSTableReader.toKeyValueEntry (entryAt table.filePath))).foldl
          keepLatest none) := by
  refine getLoop_eq_foldl (fun table htable => ?_) none
  have hfailing := readable_deletedKey.tableGet_failing failures htable
  rwa [entryIn_deletedKey htable] at hfailing

end Sample

open Sample SSTableService in
/-- The Bloom filter of the new table is missing, so the deleted value is back. -/
theorem get_failing_returns_deleted :
    deletedKey.Readable "t:k" ∧
    deletedKey.get "t" "k" = .ok (some ⟨"t", "k", none, ⟨[]⟩, 2, true⟩) ∧
    (deletedKey.failing (failingAt "new" ⟨true, false, false⟩)).get "t" "k" =
      .ok (some ⟨"t", "k", some [7], ⟨[]⟩, 1, false⟩) := by
  refine ⟨readable_deletedKey, ?_, ?_⟩
  · have hget := get_failing_deletedKey fun _ => ⟨false, false, false⟩
    rw [show deletedKey.failing (fun _ => ⟨false, false, false⟩) = deletedKey from rfl] at hget
    rw [hget]
    exact congrArg Except.ok (by decide +kernel)
  · rw [get_failing_deletedKey]
    exact congrArg Except.ok (by decide +kernel)

open Sample SSTableService in
/-- The index of the old table cannot be read, which changes nothing. -/
theorem get_failing_oldTable :
    deletedKey.LatestReadable (failingAt "old" ⟨false, true, false⟩) (buildKey "t" "k") ∧
    ((∃ message, (deletedKey.failing (failingAt "old" ⟨false, true, false⟩)).get "t" "k" =
        .error (.err message)) ∨
      (deletedKey.failing (failingAt "old" ⟨false, true, false⟩)).get "t" "k" =
        deletedKey.get "t" "k") := by
  have hlatest : deletedKey.LatestReadable (failingAt "old" ⟨false, true, false⟩)
      (buildKey "t" "k") := by
    intro e he
    have hfound := foldl_keepLatest_eq_some_iff.mpr he
    rw [show buildKey "t" "k" = "t:k" from rfl,
      List.map_congr_left fun table htable => entryIn_deletedKey htable] at hfound
    have hnew : some (SSTableReader.toKeyValueEntry deletion) = some e :=
      Eq.trans (by decide +kernel) hfound
    refine ⟨[oneKeyTable "old"], oneKeyTable "new", [], rfl, ?_, by decide, ?_⟩
    · exact (entryIn_deletedKey (List.mem_cons_of_mem _ List.mem_cons_self)).trans hnew
    · intro t ht _ _ _
      rw [List.mem_singleton.mp ht]
      decide
  exact ⟨hlatest, (@get_failing_iff deletedKey "t" "k" readable_deletedKey _).mpr hlatest⟩

end PairDB.StorageNode
