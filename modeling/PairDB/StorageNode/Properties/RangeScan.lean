import PairDB.Infra.Newest
import PairDB.StorageNode.KWayMerge
import PairDB.StorageNode.RangeScan
import PairDB.StorageNode.Streaming
import PairDB.StorageNode.Properties.TableRoundtrip

/-!
# What the range scans return

* The scan of the SSTables returns every stored key of the range once, in a newest version
  (`scanKeysInRange_newest`). `Tracks` is the invariant of its loops: `results` has the newest of the
  entries that were read, and `seenKeys` their timestamps.
* The scan of the memtables does not ask whether a key was already returned. It agrees with `Get` if
  and only if no key of the range is in both memtables (`scan_eq_get_iff`).
* A range whose ends are equal is everything for the scans and nothing for `keyInRanges`; on all
  other ranges the tests agree (`keyInRanges_eq_inRange_iff`).
* A composite key is split and built again without a loss (`compositeKey_split_build`).
-/

namespace PairDB.StorageNode

open Infra

/-! ## The SSTables -/

namespace RangeScan

variable {scan : RangeScan} {items : List KeyValueEntry} {entry : KeyValueEntry}

/-- `results` has the newest of the entries that were read so far, `seenKeys` their timestamps. -/
structure Tracks (items : List KeyValueEntry) (scan : RangeScan) : Prop where
  newest : NewestOf KeyValueEntry.compositeKey KeyValueEntry.timestamp items scan.results
  stamped : ∀ e ∈ scan.results, scan.seenKeys.get? e.compositeKey = some e.timestamp
  listed : ∀ key ts, scan.seenKeys.get? key = some ts →
    key ∈ scan.results.map KeyValueEntry.compositeKey

theorem tracks_empty : Tracks [] empty where
  newest := .nil
  stamped := by simp [empty]
  listed := by simp [empty, Map.get?_empty]

/-- The timestamp of an entry that has become a result is noted. -/
theorem Tracks.set (h : Tracks items scan) {results : List KeyValueEntry}
    (hnewest : NewestOf KeyValueEntry.compositeKey KeyValueEntry.timestamp (items ++ [entry]) results)
    (hresults : ∀ e ∈ results, e ∈ scan.results ∨ e = entry) (hentry : entry ∈ results) :
    Tracks (items ++ [entry])
      ⟨results, scan.seenKeys.set entry.compositeKey entry.timestamp⟩ where
  newest := hnewest
  stamped e he := by
    rw [Map.get?_set]
    split
    · next hkey =>
      rw [List.inj_on_of_nodup_map hnewest.distinct hentry he hkey]
    · next hkey =>
      rcases hresults e he with he | rfl
      · exact h.stamped e he
      · exact absurd rfl hkey
  listed key ts hget := by
    rw [Map.get?_set] at hget
    split at hget
    · next hkey =>
      rw [← hkey]
      exact List.mem_map_of_mem hentry
    · obtain ⟨e, he, rfl⟩ := List.mem_map.mp (h.listed key ts hget)
      exact hnewest.complete e (List.mem_append_left _ (h.newest.newest e he).1)

/-- **One entry.** -/
theorem Tracks.add (h : Tracks items scan) (entry : KeyValueEntry) :
    Tracks (items ++ [entry]) (scan.add entry) := by
  unfold RangeScan.add
  split
  · next existingTS hseen =>
    obtain ⟨e, he, hkey⟩ := List.mem_map.mp (h.listed _ _ hseen)
    split
    · next hnewer =>
      -- the result under the key is found, and it has the timestamp that was noted
      unfold replace
      split
      · next hnone =>
        rw [List.findIdx?_eq_none_iff] at hnone
        exact absurd hkey (by simpa using hnone e he)
      · next i hi =>
        obtain ⟨hlt, hfound, -⟩ := List.findIdx?_eq_some_iff_getElem.mp hi
        have hsame : entry.compositeKey = scan.results[i].compositeKey := by
          simpa using (of_decide_eq_true hfound).symm
        have hstamp := h.stamped _ (List.getElem_mem hlt)
        rw [← hsame, hseen, Option.some.injEq] at hstamp
        refine h.set (h.newest.replace (List.getElem?_eq_getElem hlt) hsame ?_) ?_ ?_
        · omega
        · exact fun e he => List.mem_or_eq_of_mem_set he
        · exact List.mem_set hlt entry
    · next hold =>
      have hstamp := h.stamped e he
      rw [hkey, hseen, Option.some.injEq] at hstamp
      exact ⟨h.newest.drop he hkey.symm (by omega), h.stamped, h.listed⟩
  · next hnone =>
    refine h.set (h.newest.concat ?_) ?_ (by simp)
    · intro hmem
      obtain ⟨e, he, hkey⟩ := List.mem_map.mp hmem
      have hstamp := h.stamped e he
      rw [hkey, hnone] at hstamp
      cases hstamp
    · intro e he
      simpa using he

/-- **All entries**, in the order in which they are read. -/
theorem Tracks.foldl (h : Tracks items scan) (entries : List KeyValueEntry) :
    Tracks (items ++ entries) (entries.foldl RangeScan.add scan) := by
  induction entries generalizing items scan with
  | nil => simpa using h
  | cons entry entries ih => simpa using ih (h.add entry)

variable {startHash endHash : UInt64} {hashFunc : Bytes → UInt64}

/-- The entry that the scan reads under a key, if any. -/
def found (startHash endHash : UInt64) (hashFunc : Bytes → UInt64) (reader : SSTableReader)
    (key : Bytes) : Option KeyValueEntry :=
  if inRange startHash endHash (hashFunc key) then readEntry reader.getBytes key else none

theorem scanKeys_eq {reader : SSTableReader} {keys : List Bytes}
    (h : ∀ key ∈ keys, ∀ reason, reader.getBytes key ≠ .error (.panic reason)) (scan : RangeScan) :
    scanKeys startHash endHash hashFunc reader keys scan =
      .ok ((keys.filterMap (found startHash endHash hashFunc reader)).foldl add scan) := by
  induction keys generalizing scan with
  | nil => rfl
  | cons key keys ih =>
    have hkey := h key (by simp)
    have ih := ih fun k hk => h k (by simp [hk])
    rw [scanKeys, List.filterMap_cons, found, readEntry]
    split
    · cases hget : reader.getBytes key with
      | error fault =>
        cases fault with
        | panic reason => exact absurd hget (hkey reason)
        | err cause => exact ih scan
      | ok entry =>
        cases entry with
        | none => exact ih scan
        | some entry => exact ih (scan.add entry)
    · exact ih scan

/-- The entry has a hash in the range. -/
def hashed (startHash endHash : UInt64) (hashFunc : Bytes → UInt64) (e : KeyValueEntry) : Bool :=
  inRange startHash endHash (hashFunc (utf8 e.compositeKey))

/-- A readable table contributes its entries of the range, in some order. -/
theorem scanKeys_of_readsBack (startHash endHash : UInt64) (hashFunc : Bytes → UInt64)
    {files : TableFiles} {entries : List KeyValueEntry} (h : ReadsBack files entries)
    (order : RangeOrder Bytes) :
    ∃ (reader : SSTableReader) (visited : List KeyValueEntry), SSTableReader.new files = .ok reader ∧
      visited.Perm (entries.filter (hashed startHash endHash hashFunc)) ∧
      ∀ scan, scanKeys startHash endHash hashFunc reader (reader.getAllKeys order) scan =
        .ok (visited.foldl add scan) := by
  obtain ⟨reader, hreader, hget, -, hkeys⟩ := h
  have hread : ∀ e ∈ entries, reader.getBytes (utf8 e.compositeKey) = .ok (some e) := fun e he =>
    (reader.getBytes_utf8 _).trans (hget e he)
  refine ⟨reader, (reader.getAllKeys order).filterMap (found startHash endHash hashFunc reader),
    hreader, ?_, scanKeys_eq ?_⟩
  · refine ((hkeys order).filterMap _).trans (.of_eq ?_)
    rw [List.filterMap_map, ← List.filterMap_eq_filter]
    refine List.filterMap_congr fun e he => ?_
    change found startHash endHash hashFunc reader (utf8 e.compositeKey) = _
    rw [found, readEntry, hread e he]
    rfl
  · intro key hkey reason
    obtain ⟨e, he, rfl⟩ := List.mem_map.mp ((hkeys order).mem_iff.mp hkey)
    intro hpanic
    cases (hread e he).symm.trans hpanic

theorem scanTables_of_readsBack {files : String → TableFiles} {orders : Nat → RangeOrder Bytes}
    {stored : SSTableMetadata → List KeyValueEntry} :
    ∀ {tables : List SSTableMetadata},
      (∀ table ∈ tables, ReadsBack (files table.filePath) (stored table)) → ∀ i,
      ∃ visited : List KeyValueEntry,
        visited.Perm ((tables.flatMap stored).filter (hashed startHash endHash hashFunc)) ∧
        ∀ scan, scanTables files orders startHash endHash hashFunc i tables scan =
          .ok (visited.foldl add scan)
  | [], _, _ => ⟨[], .nil, fun _ => rfl⟩
  | table :: tables, h, i => by
    obtain ⟨reader, first, hreader, hfirst, hscan⟩ :=
      scanKeys_of_readsBack startHash endHash hashFunc (h table List.mem_cons_self) (orders i)
    obtain ⟨others, hothers, hrest⟩ :=
      scanTables_of_readsBack (fun t ht => h t (List.mem_cons_of_mem _ ht)) (i + 1)
    refine ⟨first ++ others, ?_, fun scan => ?_⟩
    · rw [List.flatMap_cons, List.filter_append]
      exact hfirst.append hothers
    · rw [scanTables, hreader, List.foldl_append, ← hrest]
      change (scanKeys ..).bind _ = _
      rw [hscan]
      rfl

end RangeScan

/--
**The range scan of the SSTables.** All tables can be read, `stored` has their entries. Then for every
hash function, every range and every order of the indexes the scan returns one entry for each stored
composite key whose hash is in the range, a stored version with the greatest timestamp, and nothing
else.
-/
theorem scanKeysInRange_newest (s : SSTableService) (stored : SSTableMetadata → List KeyValueEntry)
    (h : ∀ table ∈ s.tables, ReadsBack (s.files table.filePath) (stored table))
    (orders : Nat → RangeOrder Bytes) (startHash endHash : UInt64) (hashFunc : Bytes → UInt64) :
    ∃ results, s.scanKeysInRange orders startHash endHash hashFunc = .ok results ∧
      (results.map KeyValueEntry.compositeKey).Nodup ∧
      (∀ e ∈ s.tables.flatMap stored,
        inRange startHash endHash (hashFunc (utf8 e.compositeKey)) = true →
          e.compositeKey ∈ results.map KeyValueEntry.compositeKey) ∧
      ∀ e ∈ results, e ∈ s.tables.flatMap stored ∧
        inRange startHash endHash (hashFunc (utf8 e.compositeKey)) = true ∧
        ∀ version ∈ s.tables.flatMap stored, version.compositeKey = e.compositeKey →
          version.timestamp ≤ e.timestamp := by
  obtain ⟨visited, hvisited, hscan⟩ := @RangeScan.scanTables_of_readsBack startHash endHash hashFunc
    s.files orders stored s.tables h 0
  have htracks := (RangeScan.tracks_empty.foldl visited).newest.perm hvisited
  refine ⟨_, congrArg (Except.map RangeScan.results) (hscan RangeScan.empty), htracks.distinct, ?_, ?_⟩
  · intro e he hin
    exact htracks.complete e (List.mem_filter.mpr ⟨he, hin⟩)
  · intro e he
    obtain ⟨hmem, hnewest⟩ := htracks.newest e he
    obtain ⟨hstored, hin⟩ := List.mem_filter.mp hmem
    refine ⟨hstored, hin, fun version hversion hkey => ?_⟩
    -- a version of the key has the hash of the key
    refine hnewest version (List.mem_filter.mpr ⟨hversion, ?_⟩) hkey
    rw [RangeScan.hashed, hkey]
    exact hin

namespace Sample

/-- Two versions of a key. -/
def olderVersion : KeyValueEntry := ⟨"t", "k", some [1], ⟨[⟨"n1", 1⟩]⟩, 5, false⟩

def newerVersion : KeyValueEntry := ⟨"t", "k", some [2], ⟨[⟨"n1", 2⟩]⟩, 6, false⟩

/-- One table in L0 and one in L1. -/
def twoLevels (a b : SSTableWriter) : SSTableService where
  dataDir := "d"
  bloom := ⟨8, 1⟩
  levels := fun
    | 0 => [⟨"a", 0, 1, ⟨"", ""⟩, "a"⟩]
    | 1 => [⟨"b", 1, 1, ⟨"", ""⟩, "b"⟩]
    | _ => []
  files := fun path => if path = "a" then a.finalize else b.finalize

/-- The entries of the two tables. -/
def twoVersions (table : SSTableMetadata) : List KeyValueEntry :=
  if table.filePath = "a" then [olderVersion] else [newerVersion]

end Sample

open Sample in
set_option maxRecDepth 10000 in
/-- The newer version is returned and the older one is not, although it is met first. -/
theorem scanKeysInRange_twoLevels : ∃ a b, written [olderVersion] = .ok a ∧
    written [newerVersion] = .ok b ∧ ∃ results, (twoLevels a b).scanKeysInRange
      (fun _ => .asHeld _) 10 5 (fun _ => 12) = .ok results ∧
      newerVersion ∈ results ∧ olderVersion ∉ results := by
  obtain ⟨a, ha⟩ := @written_eq_ok [olderVersion] (by decide +kernel)
  obtain ⟨b, hb⟩ := @written_eq_ok [newerVersion] (by decide +kernel)
  have hold : ReadsBack a.finalize [olderVersion] :=
    readsBack_of_readable ha (by decide) (by decide) (by decide +kernel)
  have hnew : ReadsBack b.finalize [newerVersion] :=
    readsBack_of_readable hb (by decide) (by decide) (by decide +kernel)
  have htables : (twoLevels a b).tables = [⟨"a", 0, 1, ⟨"", ""⟩, "a"⟩, ⟨"b", 1, 1, ⟨"", ""⟩, "b"⟩] :=
    rfl
  have hstored : (twoLevels a b).tables.flatMap twoVersions = [olderVersion, newerVersion] := rfl
  obtain ⟨results, hscan, -, hcomplete, hnewest⟩ := scanKeysInRange_newest (twoLevels a b) twoVersions
    (by
      rw [htables]
      exact List.forall_mem_cons.mpr ⟨hold, List.forall_mem_singleton.mpr hnew⟩) (fun _ => .asHeld _) 10 5 (fun _ => 12)
  rw [hstored] at hcomplete hnewest
  have hold' : olderVersion ∉ results := fun hmem =>
    absurd ((hnewest _ hmem).2.2 newerVersion (by simp) rfl) (by decide)
  refine ⟨a, b, ha, hb, results, hscan, ?_, hold'⟩
  obtain ⟨e, he, -⟩ := List.mem_map.mp (hcomplete newerVersion (by simp) (by decide))
  rcases List.mem_pair.mp (hnewest e he).1 with rfl | rfl
  · exact absurd he hold'
  · exact he

/-! ## The memtables -/

namespace MemTable

theorem filter_key_entries (mt : MemTable) (key : String) :
    (mt.entries.filter fun e => e.key = key) = (mt.get key).toList := by
  cases hget : mt.get key with
  | none =>
    refine List.filter_eq_nil_iff.mpr fun e he hkey => ?_
    have hfound := mem_entries.mp he
    rw [of_decide_eq_true hkey, hget] at hfound
    cases hfound
  | some entry =>
    have hnodup := (List.Nodup.of_map _ mt.nodup_keys).filter fun e => decide (e.key = key)
    refine List.perm_singleton.mp
      ((List.perm_ext_iff_of_nodup hnodup (List.nodup_singleton _)).mpr fun e => ?_)
    rw [List.mem_filter, mem_entries, List.mem_singleton, decide_eq_true_eq]
    constructor
    · rintro ⟨hfound, hkey⟩
      rw [hkey, hget, Option.some.injEq] at hfound
      exact hfound.symm
    · rintro rfl
      rw [key_of_get hget]
      exact ⟨hget, rfl⟩

/-- Under a key the scan of one memtable returns what its `Get` returns. -/
theorem filter_key_scan (mt : MemTable) (startHash endHash : UInt64) (hashFunc : String → UInt64)
    (key : String) :
    ((mt.scan startHash endHash hashFunc).filter fun e => e.key = key) =
      if inRange startHash endHash (hashFunc key) then (mt.get key).toList else [] := by
  rw [scan, List.filter_filter, ← filter_key_entries]
  split
  · next hin =>
    refine List.filter_congr fun e _ => ?_
    by_cases hkey : e.key = key
    · simp [hkey, hin]
    · simp [hkey]
  · next hout =>
    refine List.filter_eq_nil_iff.mpr fun e _ h => ?_
    rw [Bool.and_eq_true, decide_eq_true_eq] at h
    exact hout (h.1 ▸ h.2)

end MemTable

namespace MemTableService

/-- What the memtable that is being flushed has under a key. -/
def flushing (s : MemTableService) (key : String) : Option MemTableEntry :=
  s.immutableMT.bind fun immutable => immutable.get key

theorem get_eq_or (s : MemTableService) (key : String) :
    s.get key = (s.memTable.get key).or (s.flushing key) := by
  unfold get flushing
  cases s.memTable.get key <;> cases s.immutableMT <;> rfl

theorem filter_key_scanKeysInRange (s : MemTableService) (startHash endHash : UInt64)
    (hashFunc : String → UInt64) (key : String) :
    ((s.scanKeysInRange startHash endHash hashFunc).filter fun e => e.key = key) =
      if inRange startHash endHash (hashFunc key) then
        (s.memTable.get key).toList ++ (s.flushing key).toList
      else [] := by
  rw [scanKeysInRange, List.filter_append, MemTable.filter_key_scan]
  cases himm : s.immutableMT with
  | none => simp [flushing, himm]
  | some immutable =>
    simp only [flushing, himm, Option.bind_some]
    rw [MemTable.filter_key_scan]
    split <;> rfl

/--
**The range scan of the memtables.** It returns under every key of the range what `Get` returns, once,
and nothing under other keys, if and only if no key of the range is in both memtables.
-/
theorem scan_eq_get_iff (s : MemTableService) (startHash endHash : UInt64)
    (hashFunc : String → UInt64) :
    (∀ key, ((s.scanKeysInRange startHash endHash hashFunc).filter fun e => e.key = key) =
      if inRange startHash endHash (hashFunc key) then (s.get key).toList else []) ↔
    ∀ key, inRange startHash endHash (hashFunc key) = true →
      ¬ ((s.memTable.get key).isSome = true ∧ (s.flushing key).isSome = true) := by
  refine forall_congr' fun key => ?_
  rw [filter_key_scanKeysInRange, get_eq_or]
  cases inRange startHash endHash (hashFunc key) with
  | false => simp
  | true => cases s.memTable.get key <;> cases s.flushing key <;> simp

end MemTableService

namespace Sample

/-- A key that is written, and written again while the first version is being flushed. -/
def firstPut : MemTableEntry := ⟨"t:k", some [1], ⟨[⟨"n1", 1⟩]⟩, 5, false⟩

def secondPut : MemTableEntry := ⟨"t:k", some [2], ⟨[⟨"n1", 2⟩]⟩, 6, false⟩

end Sample

open Sample in
/-- Both versions are returned, but `Get` returns the second. -/
theorem scan_returns_both : ∃ mt s, ((MemTableService.new 100).put firstPut).beginFlush = some (mt, s) ∧
    (s.put secondPut).get "t:k" = some secondPut ∧
    (s.put secondPut).scanKeysInRange 10 5 (fun _ => 12) = [secondPut, firstPut] := by
  refine ⟨_, _, rfl, ?_, ?_⟩ <;> decide +kernel

/-! ## The tests of a range -/

/-- A hash is in a range for live interception and for the scans alike, if and only if the ends of the
range differ. -/
theorem keyInRanges_eq_inRange_iff (keyHash startHash endHash : UInt64) :
    keyInRanges keyHash [⟨startHash, endHash⟩] = inRange startHash endHash keyHash ↔
      startHash ≠ endHash := by
  have hone : keyInRanges keyHash [⟨startHash, endHash⟩] =
      StreamKeyRange.contains ⟨startHash, endHash⟩ keyHash := by
    rw [keyInRanges, List.any_cons, List.any_nil, Bool.or_false]
  rw [hone, Bool.eq_iff_iff, ne_eq, ← UInt64.toNat_inj]
  unfold StreamKeyRange.contains inRange
  split
  · next hlt =>
    simp only [gt_iff_lt, ge_iff_le, Bool.or_eq_true, Bool.and_eq_true, decide_eq_true_eq,
      UInt64.lt_iff_toNat_lt, UInt64.le_iff_toNat_le] at hlt ⊢
    omega
  · next hle =>
    simp only [gt_iff_lt, ge_iff_le, Bool.or_eq_true, Bool.and_eq_true, decide_eq_true_eq,
      UInt64.lt_iff_toNat_lt, UInt64.le_iff_toNat_le] at hle ⊢
    omega

/-- The range from 0 to 0 is nothing for live interception and everything for the scans. -/
theorem equal_ends_differ :
    keyInRanges 0 [⟨0, 0⟩] = false ∧ inRange 0 0 0 = true := by decide

/-! ## Composite keys -/

theorem parseCompositeKey_of_mem {compositeKey : String} (h : ':' ∈ compositeKey.toList) :
    parseCompositeKey compositeKey = .ok (splitCompositeKey compositeKey) := by
  cases hdrop : compositeKey.toList.dropWhile (· ≠ ':') with
  | nil =>
    rw [List.dropWhile_eq_nil_iff] at hdrop
    simpa using hdrop ':' h
  | cons c key => simp only [parseCompositeKey, splitCompositeKey, hdrop]

theorem mem_colon_buildKey (tenantID key : String) : ':' ∈ (buildKey tenantID key).toList := by
  simp [buildKey]

/-- What compaction writes for an entry that was read. -/
theorem mergedEntry_toKeyValueEntry {e : MemTableEntry} (h : ':' ∈ e.key.toList) :
    mergedEntry (SSTableReader.toKeyValueEntry e) = { e with isTombstone := false } := by
  unfold mergedEntry SSTableReader.toKeyValueEntry
  rw [buildKey_splitCompositeKey h]

/--
**Composite keys.** Both ways to split give back the parts of a composite key whose tenant has no
colon. The parts of a text with a colon give the text back, so compaction writes an entry that was
read under the key it was stored under.
-/
theorem compositeKey_split_build :
    (∀ tenantID key, ':' ∉ tenantID.toList →
      splitCompositeKey (buildKey tenantID key) = (tenantID, key) ∧
      parseCompositeKey (buildKey tenantID key) = .ok (tenantID, key)) ∧
    (∀ compositeKey, ':' ∈ compositeKey.toList →
      buildKey (splitCompositeKey compositeKey).1 (splitCompositeKey compositeKey).2 = compositeKey ∧
      ∃ tenantID key, parseCompositeKey compositeKey = .ok (tenantID, key) ∧
        buildKey tenantID key = compositeKey) ∧
    ∀ (ω : Type) (write : ω → MemTableEntry → Except Fault ω) (writer : ω) (e : MemTableEntry),
      ':' ∈ e.key.toList →
      writeEntryIfNotTombstone write writer (SSTableReader.toKeyValueEntry e) =
        if e.isTombstone then .ok writer else write writer e := by
  refine ⟨fun tenantID key h => ?_, fun compositeKey h => ?_, fun ω write writer e h => ?_⟩
  · have hsplit := splitCompositeKey_buildKey h key
    refine ⟨hsplit, ?_⟩
    rw [parseCompositeKey_of_mem (mem_colon_buildKey tenantID key), hsplit]
  · have hbuild := buildKey_splitCompositeKey h
    exact ⟨hbuild, _, _, parseCompositeKey_of_mem h, hbuild⟩
  · rw [writeEntryIfNotTombstone, mergedEntry_toKeyValueEntry h]
    change (if e.isTombstone then _ else _) = _
    split
    · rfl
    · next hlive => rw [← Bool.eq_false_iff.mpr hlive]

open Sample in
theorem compositeKey_split_build_firstPut :
    splitCompositeKey (buildKey "" "a:b") = ("", "a:b") ∧
    buildKey (splitCompositeKey "t:k").1 (splitCompositeKey "t:k").2 = "t:k" ∧
    writeEntryIfNotTombstone (fun written e => .ok (written ++ [e])) []
      (SSTableReader.toKeyValueEntry firstPut) = .ok [firstPut] := by
  obtain ⟨hsplit, hbuild, hwrite⟩ := compositeKey_split_build
  exact ⟨(hsplit "" "a:b" (by decide)).1, (hbuild "t:k" (by decide)).1,
    hwrite _ _ [] firstPut (by decide)⟩

end PairDB.StorageNode
