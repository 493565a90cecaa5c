import PairDB.StorageNode.Levels

/-!
# What flushes and compactions keep

Two properties of the tables, over runs of flushes and compactions.

* Every key that a registered table has is in the key range of the table. A flush keeps that
  (`keyInRange_written`). A compaction registers its output with an empty key range, so it keeps it
  only if it writes nothing (`searchable_of_run`).
* `Get` never returns a version of a key that is older than a tombstone of the key that was flushed.
  A compaction drops tombstones without a look at the tables that are not among its inputs; the
  property is kept if none of these has an older version (`get_not_older_of_run`).
-/

namespace PairDB.StorageNode

open Infra

/-- The key is in the index of the table with these files. -/
def TableFiles.Stores (files : TableFiles) (key : String) : Prop :=
  ∃ reader ∈ (SSTableReader.new files).toOption, (reader.index.get? (utf8 key)).isSome = true

instance (files : TableFiles) (key : String) : Decidable (files.Stores key) :=
  inferInstanceAs (Decidable (∃ _ ∈ _, _))

/-! ## Key ranges -/

/-- Every registered table has its keys in its key range. -/
def SSTableService.Searchable (s : SSTableService) : Prop :=
  ∀ table ∈ s.tables, ∀ key, (s.files table.filePath).Stores key →
    keyInRange key table.keyRange = true

/-- A written table stores the keys of its entries. -/
theorem exists_of_stores_finalize {bloom : BloomParams} {entries : List MemTableEntry}
    {w : SSTableWriter} (hw : SSTableService.writeEntries bloom entries = .ok w)
    (hread : SSTableWriter.IndexReadable entries) {key : String} (h : w.finalize.Stores key) :
    ∃ e ∈ entries, e.key = key := by
  obtain ⟨reader, hreader, hsome⟩ := h
  rw [SSTableReader.new_finalize hw hread.1] at hreader
  cases hreader
  by_contra hnone
  have hmem : key ∉ entries.map MemTableEntry.key := by
    rintro hmem
    obtain ⟨e, he, heq⟩ := List.mem_map.mp hmem
    exact hnone ⟨e, he, heq⟩
  rw [SSTableReader.get?_index_eq_none hmem] at hsome
  cases hsome

theorem not_stores_of_deleted (key : String) : ¬ (⟨none, none, none⟩ : TableFiles).Stores key := by
  rintro ⟨reader, hreader, -⟩
  cases hreader

/-- The readers find nothing but tombstones, and no record makes them panic. -/
def TombstonesOnly (cursors : List Cursor) : Prop :=
  (∀ c ∈ cursors, c.NoPanic) ∧ ∀ e ∈ cursors.flatMap Cursor.readable, e.isTombstone = true

instance (cursors : List Cursor) : Decidable (TombstonesOnly cursors) :=
  inferInstanceAs (Decidable (_ ∧ _))

/-- A merge of tombstones writes nothing. -/
theorem TombstonesOnly.merged {cursors : List Cursor} (h : TombstonesOnly cursors)
    {out : List MemTableEntry} (hout : mergedEntries cursors = .ok out) : out = [] := by
  obtain ⟨es, hperm, -, hmerge⟩ := merge_spec h.1
  rw [mergedEntries, hmerge, writeKept_list, List.nil_append, Except.ok.injEq] at hout
  rw [← hout, List.map_eq_nil_iff, List.filter_eq_nil_iff]
  intro e he
  rw [h.2 e (reachable_subset (hperm.mem_iff.mp (kept_subset he)))]
  simp

namespace Layer

/-- The step writes under a new path, and a compaction reads tombstones only. -/
def KeepsRanges (n : Layer) (event : LayerEvent) : Prop :=
  n.Fresh event ∧
    match event with
    | .flush _ _ mt => SSTableWriter.IndexReadable mt.entries
    | .compact _ job env => ∀ cursors ∈ (n.service.cursors job env).toOption, TombstonesOnly cursors

instance (n : Layer) (event : LayerEvent) : Decidable (n.KeepsRanges event) :=
  match event with
  | .flush _ _ _ => inferInstanceAs (Decidable (_ ∧ SSTableWriter.IndexReadable _))
  | .compact _ _ _ => inferInstanceAs (Decidable (_ ∧ ∀ _ ∈ _, _))

theorem searchable_step {n n' : Layer} {event : LayerEvent} (h : n.service.Searchable)
    (hcond : n.KeepsRanges event) (hstep : n.step event = some n') : n'.service.Searchable := by
  obtain ⟨hfresh, hcond⟩ := hcond
  rcases step_cases hstep with ⟨nanos, io, mt, w, rfl, hw, rfl⟩ |
    ⟨bloom, job, env, cursors, w, rfl, hcursors, hw, rfl⟩ | ⟨hlevels, -, hfiles⟩
  · intro table htable key hstores
    rcases SSTableService.mem_tables_withFlushed.mp htable with hold | rfl
    · rw [SSTableService.files_withFlushed (hfresh table hold)] at hstores
      exact h table hold key hstores
    · have hfile : (n.service.withFlushed nanos mt.entries w).files (n.service.flushPath nanos) =
          w.finalize := Function.update_self ..
      obtain ⟨e, he, rfl⟩ := exists_of_stores_finalize hw hcond (hfile ▸ hstores)
      exact SSTableService.keyInRange_written he
  · have hnothing := hcond cursors (by rw [hcursors]; rfl)
    obtain ⟨out, hout, hwrite⟩ := writeEntries_of_merge hnothing.1 hw
    rw [hnothing.merged hout] at hwrite
    intro table htable key hstores
    by_cases hdeleted : table.filePath ∈ job.inputTables.map SSTableMetadata.filePath
    · rw [SSTableService.files_deleted hdeleted] at hstores
      exact absurd hstores (not_stores_of_deleted key)
    rcases SSTableService.mem_tables_of_withCompacted htable with rfl | hstay | hin
    · -- the output is there, but it has no keys
      have hfile := SSTableService.files_output hdeleted w
      obtain ⟨e, he, -⟩ := exists_of_stores_finalize hwrite (by decide) (hfile ▸ hstores)
      cases he
    · have hold := SSTableService.mem_tables_of_mem_staying hstay
      rw [SSTableService.files_withCompacted (hfresh table hold) hdeleted] at hstores
      exact h table hold key hstores
    · exact absurd hin hdeleted
  · intro table htable key hstores
    rw [SSTableService.tables_congr hlevels] at htable
    rw [hfiles _ (hfresh table htable)] at hstores
    exact h table htable key hstores

/-- **When every table can be searched.** In a run of flushes and of compactions that read nothing
but tombstones, the key range of every registered table has all the keys of the table. -/
theorem searchable_of_run {dataDir : String} {bloom : BloomParams} {events : List LayerEvent}
    {n : Layer} (hall : AllSteps step KeepsRanges (new dataDir bloom) events)
    (hrun : run step (new dataDir bloom) events = some n) : n.service.Searchable :=
  run_invariant (I := fun n => n.service.Searchable) (fun _ _ _ => searchable_step)
    (fun _ htable => by simp [new, SSTableService.new, SSTableService.tables] at htable) hall hrun

end Layer

namespace Sample

/-- A version of a key of tenant `t`, as it is in a memtable. -/
def live (key : String) (timestamp : Int) : MemTableEntry :=
  ⟨buildKey "t" key, some [1], ⟨[]⟩, timestamp, false⟩

/-- A tombstone of a key of tenant `t`, as it is in a memtable. -/
def grave (key : String) (timestamp : Int) : MemTableEntry :=
  ⟨buildKey "t" key, none, ⟨[]⟩, timestamp, true⟩

/-- An entry as `Get` returns it. -/
abbrev asRead (e : MemTableEntry) : Option KeyValueEntry := some (SSTableReader.toKeyValueEntry e)

def empty : Layer := Layer.new "d" ⟨8, 1⟩

/-- The flush of a memtable with one entry. -/
def flushOf (nanos : Int) (e : MemTableEntry) : LayerEvent :=
  .flush nanos .complete (MemTable.new.put e)

/-- The table that is flushed with this entry. -/
def tableOf (nanos : Int) (e : MemTableEntry) : SSTableMetadata :=
  ⟨SSTableService.flushID nanos, 0, (SSTableWriter.record e).length, ⟨e.key, e.key⟩,
    "d/l0/" ++ SSTableService.flushID nanos ++ ".sst"⟩

/-- A compaction of some tables of level 0 into level 1. -/
def compactOf (nanos : Int) (tables : List SSTableMetadata) : LayerEvent :=
  .compact ⟨8, 1⟩ ⟨0, tables, 1⟩ ⟨nanos, nanos, .complete, fun _ => RangeOrder.asHeld Bytes⟩

/-- Two flushes, and a compaction of the tombstone. -/
def rangesKept : List LayerEvent :=
  [flushOf 1 (live "k" 1), flushOf 2 (grave "l" 1), compactOf 3 [tableOf 2 (grave "l" 1)]]

/-- A flush, and a compaction of the table. -/
def rangeLost : List LayerEvent := [flushOf 1 (live "k" 1), compactOf 2 [tableOf 1 (live "k" 1)]]

end Sample

open Sample in
set_option maxRecDepth 10000 in
theorem searchable_rangesKept : ∃ n, run Layer.step empty rangesKept = some n ∧
    n.service.tables.length = 2 ∧ n.service.Searchable := by
  have hrun : (run Layer.step empty rangesKept).map (fun n => n.service.tables.length) = some 2 := by
    decide +kernel
  have hall : AllSteps Layer.step Layer.KeepsRanges empty rangesKept := by decide +kernel
  obtain ⟨n, hn, hlength⟩ := Option.map_eq_some_iff.mp hrun
  exact ⟨n, hn, hlength, Layer.searchable_of_run hall hn⟩

open Sample in
set_option maxRecDepth 10000 in
/-- The table of level 1 has the key, but the key is not in its range, and `Get` does not find it. -/
theorem compacted_table_not_searchable :
    ((run Layer.step empty (rangeLost.take 1)).map fun n => (n.service.get "t" "k").toOption.join) =
      some (asRead (live "k" 1)) ∧
    ∃ n, run Layer.step empty rangeLost = some n ∧ (n.service.get "t" "k").toOption = some none ∧
      ∃ table ∈ n.service.tables, (n.service.files table.filePath).Stores "t:k" ∧
        SSTableService.keyInRange "t:k" table.keyRange = false := by
  refine ⟨by decide +kernel, ?_⟩
  have hrun : (run Layer.step empty rangeLost).map (fun n =>
      decide ((n.service.get "t" "k").toOption = some none ∧
        ∃ table ∈ n.service.tables, (n.service.files table.filePath).Stores "t:k" ∧
          SSTableService.keyInRange "t:k" table.keyRange = false)) = some true := by
    decide +kernel
  obtain ⟨n, hn, hdec⟩ := Option.map_eq_some_iff.mp hrun
  exact ⟨n, hn, of_decide_eq_true hdec⟩

namespace Layer

/-! ## Tombstones -/

/-- A tombstone that was flushed is found in some table. -/
def Present (n : Layer) (d : MemTableEntry) : Prop :=
  ∃ table ∈ n.service.tables, ∃ e, n.service.tableGet d.key table = .ok (some e) ∧
    e.isTombstone = true ∧ e.timestamp = d.timestamp

/-- No table has a version that is older than the tombstone. -/
def Outlived (n : Layer) (d : MemTableEntry) : Prop :=
  ∀ table ∈ n.service.tables, ∀ e, n.service.tableGet d.key table = .ok (some e) →
    d.timestamp ≤ e.timestamp

/-- What a step may not do: write under the path of a table, flush what cannot be read back, flush a
version that is older than a tombstone that is gone, or take away a tombstone while a table that
stays has an older version. -/
def KeepsTombstones (n : Layer) (event : LayerEvent) : Prop :=
  n.Fresh event ∧
    match event with
    | .flush _ _ mt => SSTableWriter.IndexReadable mt.entries ∧ (∀ e ∈ mt.entries, Storable e) ∧
        ∀ e ∈ mt.entries, ∀ d ∈ n.flushed, d.isTombstone = true → d.key = e.key →
          d.timestamp ≤ e.timestamp ∨ n.Present d
    | .compact _ job _ => ∀ table ∈ n.service.tables, ∀ key d,
        n.service.tableGet key table = .ok (some d) → d.isTombstone = true →
          table ∈ n.service.staying job ∨ ∀ table' ∈ n.service.staying job, ∀ e,
            n.service.tableGet key table' = .ok (some e) → d.timestamp ≤ e.timestamp

/-- Every tombstone that was flushed is still found, or nothing older is. -/
def Buried (n : Layer) : Prop :=
  ∀ d ∈ n.flushed, d.isTombstone = true → d.key ≠ "" → n.Present d ∨ n.Outlived d

/-- What a flushed table returns. -/
theorem tableGet_flushed {s : SSTableService} (nanos : Int) {mt : MemTable} {w : SSTableWriter}
    (hw : SSTableService.writeEntries s.bloom mt.entries = .ok w)
    (hread : SSTableWriter.IndexReadable mt.entries) (hstore : ∀ e ∈ mt.entries, Storable e)
    {key : String} (hkey : key ≠ "") :
    (s.withFlushed nanos mt.entries w).tableGet key (s.flushMetadata nanos mt.entries w) =
      .ok ((mt.get key).map SSTableReader.toKeyValueEntry) := by
  by_cases hempty : mt.entries = []
  · have hnone : mt.get key = none := by
      cases hget : mt.get key with
      | none => rfl
      | some e =>
        have hmem : e ∈ mt.entries :=
          MemTable.mem_entries.mpr (by rwa [MemTable.key_of_get hget])
        rw [hempty] at hmem
        cases hmem
    rw [hnone, SSTableService.tableGet_of_not_inRange]
    · rfl
    · show SSTableService.keyInRange key (SSTableService.keyRangeOf mt.entries) = false
      rw [hempty]
      exact SSTableService.keyInRange_empty hkey
  · refine SSTableService.tableGet_of_written hw hempty (Function.update_self ..) rfl hread
      fun e he => hstore e (MemTable.mem_entries.mpr ?_)
    rwa [MemTable.key_of_get he]

theorem buried_flush {n : Layer} {nanos : Int} {io : TableIO} {mt : MemTable} {w : SSTableWriter}
    (h : n.Buried) (hw : SSTableService.writeEntries n.service.bloom mt.entries = .ok w)
    (hcond : n.KeepsTombstones (.flush nanos io mt)) :
    Buried ⟨n.service.withFlushed nanos mt.entries w, n.flushed ++ mt.entries⟩ := by
  obtain ⟨hfresh, hread, hstore, hage⟩ := hcond
  intro d hd htomb hkey
  have hnew := tableGet_flushed nanos hw hread hstore hkey
  have hpresent : n.Present d →
      Present ⟨n.service.withFlushed nanos mt.entries w, n.flushed ++ mt.entries⟩ d := by
    rintro ⟨table, htable, e, hget, he⟩
    refine ⟨table, SSTableService.mem_tables_withFlushed.mpr (Or.inl htable), e, ?_, he⟩
    exact (SSTableService.tableGet_withFlushed (hfresh table htable) _ _ _).trans hget
  rcases List.mem_append.mp hd with hold | hd
  · rcases h d hold htomb hkey with hp | hout
    · exact Or.inl (hpresent hp)
    by_cases hp : n.Present d
    · exact Or.inl (hpresent hp)
    refine Or.inr fun table htable e hget => ?_
    rcases SSTableService.mem_tables_withFlushed.mp htable with htable | rfl
    · rw [SSTableService.tableGet_withFlushed (hfresh table htable)] at hget
      exact hout table htable e hget
    · rw [hnew] at hget
      obtain ⟨x, hx, rfl⟩ := Option.map_eq_some_iff.mp (Except.ok.inj hget)
      have hxkey := MemTable.key_of_get hx
      have hmem : x ∈ mt.entries := MemTable.mem_entries.mpr (by rwa [hxkey])
      exact (hage x hmem d hold htomb hxkey.symm).resolve_right hp
  · -- the new table has the tombstone
    refine Or.inl ⟨_, SSTableService.mem_tables_withFlushed.mpr (Or.inr rfl),
      SSTableReader.toKeyValueEntry d, hnew.trans ?_, htomb, rfl⟩
    rw [MemTable.mem_entries.mp hd]
    rfl

theorem buried_compact {n : Layer} {bloom : BloomParams} {job : CompactionJob} {env : CompactionEnv}
    {w : SSTableWriter} (h : n.Buried) (hcond : n.KeepsTombstones (.compact bloom job env)) :
    Buried { n with service := n.service.withCompacted job env w } := by
  obtain ⟨hfresh, hcond⟩ := hcond
  intro d hd htomb hkey
  rcases h d hd htomb hkey with ⟨table, htable, e, hget, hetomb, hets⟩ | hout
  · rcases hcond table htable d.key e hget hetomb with hstay | hsafe
    · refine Or.inl ⟨table, SSTableService.mem_tables_withCompacted hstay, e, ?_, hetomb, hets⟩
      have hpath := of_decide_eq_true (List.mem_filter.mp hstay).2
      exact (SSTableService.tableGet_congr
        (SSTableService.files_withCompacted (hfresh table htable) hpath w) _).trans hget
    · refine Or.inr fun table' htable' e' hget' => ?_
      obtain ⟨hstay, hget'⟩ := SSTableService.tableGet_withCompacted hkey hfresh htable' hget'
      exact hets ▸ hsafe table' hstay e' hget'
  · refine Or.inr fun table' htable' e' hget' => ?_
    obtain ⟨hstay, hget'⟩ := SSTableService.tableGet_withCompacted hkey hfresh htable' hget'
    exact hout table' (SSTableService.mem_tables_of_mem_staying hstay) e' hget'

theorem buried_step {n n' : Layer} {event : LayerEvent} (h : n.Buried)
    (hcond : n.KeepsTombstones event) (hstep : n.step event = some n') : n'.Buried := by
  rcases step_cases hstep with ⟨nanos, io, mt, w, rfl, hw, rfl⟩ |
    ⟨bloom, job, env, cursors, w, rfl, -, -, rfl⟩ | ⟨hlevels, hflushed, hfiles⟩
  · exact buried_flush h hw hcond
  · exact buried_compact h hcond
  · have htables := SSTableService.tables_congr hlevels
    have hget : ∀ table ∈ n'.service.tables, ∀ key,
        n'.service.tableGet key table = n.service.tableGet key table := by
      intro table htable key
      exact SSTableService.tableGet_congr (hfiles _ (hcond.1 table (htables ▸ htable))) key
    intro d hd htomb hkey
    rw [hflushed] at hd
    rcases h d hd htomb hkey with ⟨table, htable, e, hfound, he⟩ | hout
    · exact Or.inl ⟨table, htables ▸ htable, e, (hget table (htables ▸ htable) _).trans hfound, he⟩
    · refine Or.inr fun table htable e hfound => hout table (htables ▸ htable) e ?_
      exact (hget table htable _).symm.trans hfound

theorem buildKey_ne_empty (tenantID key : String) : buildKey tenantID key ≠ "" := by
  intro h
  have := congrArg String.toList h
  simp [buildKey] at this

end Layer

namespace Sample

/-- The tombstone is compacted before the next version is flushed. -/
def deletedOnce : List LayerEvent :=
  [flushOf 1 (grave "k" 2), compactOf 2 [tableOf 1 (grave "k" 2)], flushOf 3 (live "k" 3)]

/-- Steps that can be checked: every flush is newer than the tombstones, a compaction takes all. -/
def Simple (n : Layer) (event : LayerEvent) : Prop :=
  n.Fresh event ∧
    match event with
    | .flush _ _ mt => SSTableWriter.IndexReadable mt.entries ∧ (∀ e ∈ mt.entries, Storable e) ∧
        ∀ e ∈ mt.entries, ∀ d ∈ n.flushed, d.isTombstone = true → d.key = e.key →
          d.timestamp ≤ e.timestamp
    | .compact _ job _ => n.service.staying job = []

instance (n : Layer) (event : LayerEvent) : Decidable (Simple n event) :=
  match event with
  | .flush _ _ _ =>
    inferInstanceAs (Decidable (_ ∧ SSTableWriter.IndexReadable _ ∧ (∀ _ ∈ _, _) ∧ ∀ _ ∈ _, _))
  | .compact _ _ _ => inferInstanceAs (Decidable (_ ∧ _ = _))

theorem keepsTombstones_of_simple {n : Layer} {event : LayerEvent} (h : Simple n event) :
    n.KeepsTombstones event := by
  obtain ⟨hfresh, h⟩ := h
  cases event with
  | flush nanos io mt =>
    exact ⟨hfresh, h.1, h.2.1, fun e he d hd htomb hkey => Or.inl (h.2.2 e he d hd htomb hkey)⟩
  | compact bloom job env =>
    refine ⟨hfresh, fun _ _ _ _ _ _ => Or.inr fun table' htable' => ?_⟩
    rw [show n.service.staying job = [] from h] at htable'
    cases htable'

/-- The tombstone is compacted, the table with the older version is not. -/
def resurrected : List LayerEvent :=
  [flushOf 1 (live "k" 1), flushOf 2 (grave "k" 2), compactOf 3 [tableOf 2 (grave "k" 2)]]

/-- The scheduler takes a level as soon as it has a table. -/
def eager : CompactionConfig := ⟨1, 1000, 1000, 1000, 10⟩

/-- The older version is compacted before the tombstone is flushed. -/
def scheduled : List LayerEvent :=
  [flushOf 1 (live "k" 1), compactOf 2 [tableOf 1 (live "k" 1)], flushOf 3 (grave "k" 2),
    compactOf 4 [tableOf 3 (grave "k" 2)]]

/-- The scheduler offers the job. -/
def Offered (n : Layer) : LayerEvent → Prop
  | .flush _ _ _ => True
  | .compact _ job _ => job ∈ n.service.checkCompactionNeeded eager

instance (n : Layer) (event : LayerEvent) : Decidable (Offered n event) :=
  match event with
  | .flush _ _ _ => inferInstanceAs (Decidable True)
  | .compact _ _ _ => inferInstanceAs (Decidable (_ ∈ _))

end Sample

end PairDB.StorageNode
