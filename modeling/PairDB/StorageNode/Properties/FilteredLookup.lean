import PairDB.Infra.Run
import PairDB.StorageNode.Properties.TableRoundtrip
import PairDB.StorageNode.SSTableService

/-!
# A lookup through the filters is a plain scan

`Get` passes over a table if the key is not in its range or not in its Bloom filter, and it goes to
a record through the index. The filters hide no key: `Get` returns what a scan of all records of all
tables returns, the entry with the greatest timestamp and the earliest one of several
(`get_eq_plainScan_iff`).

What can go wrong is the size of a record. It is stored in 32 bits with a sign, so the record of an
entry whose text is longer than 2 GiB is not found, or the reader panics over a negative size.
-/

namespace PairDB.StorageNode

open Infra

/-! ## The first of the greatest elements -/

section

variable {α : Type*} {f : α → Int} {l : List α} {m : α}

theorem argmax_eq_some_iff_split : l.argmax f = some m ↔
    ∃ pre post, l = pre ++ m :: post ∧ (∀ a ∈ pre, f a < f m) ∧ ∀ a ∈ post, f a ≤ f m := by
  classical
  rw [List.argmax_eq_some_iff]
  constructor
  · rintro ⟨hmem, hgreatest, hfirst⟩
    obtain ⟨pre, post, rfl, hpre⟩ := List.eq_append_cons_of_mem hmem
    refine ⟨pre, post, rfl, fun a ha => ?_, fun a ha => hgreatest a (by simp [ha])⟩
    by_contra hle
    have hidx := hfirst a (by simp [ha]) (not_lt.mp hle)
    rw [List.idxOf_append_of_notMem hpre, List.idxOf_append_of_mem ha, List.idxOf_cons_self]
      at hidx
    have hlt := List.idxOf_lt_length_of_mem ha
    omega
  · rintro ⟨pre, post, rfl, hpre, hpost⟩
    have hnot : ∀ a, f m ≤ f a → a ∉ pre := fun a hle ha => absurd (hpre a ha) (not_lt.mpr hle)
    refine ⟨by simp, fun a ha => ?_, fun a _ hle => ?_⟩
    · rcases List.mem_append.mp ha with ha | ha
      · exact (hpre a ha).le
      · rcases List.mem_cons.mp ha with rfl | ha
        · exact le_rfl
        · exact hpost a ha
    · rw [List.idxOf_append_of_notMem (hnot m le_rfl), List.idxOf_append_of_notMem (hnot a hle),
        List.idxOf_cons_self]
      omega

/-- Leaving elements out does not change the result unless it was left out. -/
theorem argmax_filter_eq_iff {p : α → Bool} :
    (l.filter p).argmax f = l.argmax f ↔ ∀ m, l.argmax f = some m → p m = true := by
  constructor
  · intro h m hm
    rw [← h] at hm
    exact (List.mem_filter.mp (List.argmax_mem hm)).2
  · intro h
    cases hm : l.argmax f with
    | none =>
      obtain rfl := List.argmax_eq_none.mp hm
      rfl
    | some m =>
      obtain ⟨pre, post, hsplit, hpre, hpost⟩ := argmax_eq_some_iff_split.mp hm
      rw [hsplit, List.filter_append, List.filter_cons_of_pos (h m hm)]
      exact argmax_eq_some_iff_split.mpr ⟨_, _, rfl, fun a ha => hpre a (List.mem_of_mem_filter ha),
        fun a ha => hpost a (List.mem_of_mem_filter ha)⟩

end

/-! ## The scan -/

/-- The scan of all records of all tables, without a key range, a Bloom filter or an index. -/
noncomputable def plainScan (tables : List MemTable) (key : String) : Option MemTableEntry :=
  ((tables.flatMap MemTable.entries).filter fun e => e.key = key).argmax MemTableEntry.timestamp

/-- The entries of one key are scanned table by table. -/
theorem filter_entries (mt : MemTable) (key : String) :
    (mt.entries.filter fun e => e.key = key) = (mt.get key).toList := by
  cases hget : mt.get key with
  | none =>
    refine List.filter_eq_nil_iff.mpr fun e he => ?_
    have hkey := MemTable.mem_entries.mp he
    simp only [decide_eq_true_eq]
    rintro rfl
    rw [hget] at hkey
    cases hkey
  | some e =>
    have hkey := MemTable.key_of_get hget
    have hmem : e ∈ mt.entries := MemTable.mem_entries.mpr (by rwa [hkey])
    have hnd := mt.nodup_keys
    obtain ⟨pre, post, hsplit⟩ := List.append_of_mem hmem
    rw [hsplit, List.map_append, List.map_cons, List.nodup_append, List.nodup_cons] at hnd
    obtain ⟨-, ⟨hpost, -⟩, hpre⟩ := hnd
    have hnil : (pre.filter fun e => e.key = key) = [] := by
      refine List.filter_eq_nil_iff.mpr fun a ha => ?_
      simp only [decide_eq_true_eq]
      intro heq
      exact hpre _ (List.mem_map_of_mem ha) e.key (by simp) (heq.trans hkey.symm)
    have hnil' : (post.filter fun e => e.key = key) = [] := by
      refine List.filter_eq_nil_iff.mpr fun a ha => ?_
      simp only [decide_eq_true_eq]
      intro heq
      exact hpost (List.mem_map.mpr ⟨a, ha, heq.trans hkey.symm⟩)
    rw [hsplit, List.filter_append, List.filter_cons_of_pos (by simpa using hkey), hnil, hnil']
    rfl

/-- The entries of a key, in the order of the tables. -/
def holders (tables : List MemTable) (key : String) : List MemTableEntry :=
  tables.filterMap fun mt => mt.get key

theorem plainScan_eq (tables : List MemTable) (key : String) :
    plainScan tables key = (holders tables key).argmax MemTableEntry.timestamp := by
  have hflat : ((tables.flatMap MemTable.entries).filter fun e => e.key = key) =
      holders tables key := by
    rw [List.filter_flatMap, holders, List.filterMap_eq_flatMap_toList]
    exact congrArg (List.flatMap · tables) (funext fun mt => filter_entries mt key)
  rw [plainScan, hflat]

theorem mem_holders {tables : List MemTable} {key : String} {e : MemTableEntry} :
    e ∈ holders tables key ↔ e.key = key ∧ ∃ mt ∈ tables, e ∈ mt.entries := by
  rw [holders, List.mem_filterMap]
  constructor
  · rintro ⟨mt, hmt, hget⟩
    have hkey := MemTable.key_of_get hget
    exact ⟨hkey, mt, hmt, MemTable.mem_entries.mpr (by rwa [hkey])⟩
  · rintro ⟨rfl, mt, hmt, he⟩
    exact ⟨mt, hmt, MemTable.mem_entries.mp he⟩

/-! ## A record that is too long -/

namespace SSTableReader

open SSTableWriter

theorem bind_eq_error {α β ε : Type} {x : Except ε α} {f : α → Except ε β} {err : ε}
    (h : x.bind f = .error err) : x = .error err ∨ ∃ a, x = .ok a ∧ f a = .error err := by
  cases x with
  | error err' => exact Or.inl (by cases h; rfl)
  | ok a => exact Or.inr ⟨a, rfl, h⟩

theorem wrapRead_ne_panic {α : Type} (what : String) (x : Except ReadError α) (message : String) :
    wrapRead what x ≠ .error (.panic message) := by
  cases x <;> rintro ⟨⟩

theorem readChecksum_record {e : MemTableEntry} (hcrc : crc32 e.marshal ≠ 0) (offset : Int)
    (post : Bytes) : readChecksum (indexEntry offset e)
      (toLE 4 (crc32 e.marshal).toNat ++ (e.marshal ++ post)) =
        .ok (crc32 e.marshal, e.marshal ++ post) := by
  simp [readChecksum, indexEntry, hcrc, readUint_checksum, wrapRead, Except.map]

theorem makeSlice_of_negative {n : Int} (h : n < 0) :
    makeSlice n = .error (.panic "makeslice: len out of range") := if_pos (Or.inl h)

theorem negative_of_makeSlice {n : Int} (hlt : n < 2 ^ 31) {fault : Fault}
    (h : makeSlice n = .error fault) : n < 0 := by
  unfold makeSlice at h
  split at h
  · next hrange =>
    refine hrange.resolve_right fun hbig => ?_
    unfold maxAlloc at hbig
    omega
  · cases h

theorem negative_of_readRecord {e : MemTableEntry} (hcrc : crc32 e.marshal ≠ 0) {key : String}
    {pre post : Bytes} {message : String} (h : readRecord (pre ++ (record e ++ post)) key
      (indexEntry pre.length e) = .error (.panic message)) : int32 e.marshal.length < 0 := by
  have hdrop : (pre ++ (record e ++ post)).drop pre.length = record e ++ post := List.drop_left
  rw [readRecord, if_neg (by simp [indexEntry]), show (indexEntry pre.length e).offset.toNat =
    pre.length from rfl, hdrop] at h
  rcases bind_eq_error h with hp | ⟨p, hp, h⟩
  · exact absurd hp (wrapRead_ne_panic _ _ _)
  obtain rfl := Except.ok.inj ((readInt_record e post).symm.trans (eq_ok_of_wrapRead hp))
  rcases bind_eq_error h with hp | ⟨p, hp, h⟩
  · rw [readChecksum_record hcrc] at hp
    cases hp
  rcases bind_eq_error h with hslice | ⟨n, -, h⟩
  · exact negative_of_makeSlice (int32_lt _) hslice
  rcases bind_eq_error h with hp | ⟨⟨data, rest⟩, -, h⟩
  · exact absurd hp (wrapRead_ne_panic _ _ _)
  rcases ite_eq_iff.mp h with ⟨-, hfault⟩ | ⟨-, hread⟩
  · cases hfault
  · cases hdata : MemTableEntry.unmarshal data with
    | none =>
      rw [hdata] at hread
      cases hread
    | some m =>
      rw [hdata] at hread
      cases hread

theorem readRecord_of_negative {e : MemTableEntry} (hcrc : crc32 e.marshal ≠ 0)
    (hneg : int32 e.marshal.length < 0) (key : String) (pre post : Bytes) :
    readRecord (pre ++ (record e ++ post)) key (indexEntry pre.length e) =
      .error (.panic "makeslice: len out of range") := by
  cases h : readRecord (pre ++ (record e ++ post)) key (indexEntry pre.length e) with
  | ok m =>
    have hlen := (storable_of_readRecord h).2
    rw [int32_natCast hlen] at hneg
    omega
  | error fault =>
    have hdrop : (pre ++ (record e ++ post)).drop pre.length = record e ++ post := List.drop_left
    rw [readRecord, if_neg (by simp [indexEntry]), show (indexEntry pre.length e).offset.toNat =
      pre.length from rfl, hdrop] at h
    rcases bind_eq_error h with hp | ⟨p, hp, h⟩
    · rw [readInt_record] at hp
      cases hp
    obtain rfl := Except.ok.inj ((readInt_record e post).symm.trans (eq_ok_of_wrapRead hp))
    rcases bind_eq_error h with hp | ⟨p, hp, h⟩
    · rw [readChecksum_record hcrc] at hp
      cases hp
    rcases bind_eq_error h with hslice | ⟨n, hslice, -⟩
    · rw [Except.error.inj (hslice.symm.trans (makeSlice_of_negative hneg))]
    · rw [makeSlice_of_negative hneg] at hslice
      cases hslice

end SSTableReader

namespace SSTableService

open SSTableWriter SSTableReader

/-! ## One table -/

/-- The size field of the record is negative. -/
def SizeNegative (e : MemTableEntry) : Prop := int32 e.marshal.length < 0
  deriving Decidable

/-- The size field can say how long the text is. -/
def SizeFits (e : MemTableEntry) : Prop := e.marshal.length < 2 ^ 31
  deriving Decidable

/-- What `Get` makes of an entry that it is led to. -/
def found (e : MemTableEntry) : Except Fault (Option KeyValueEntry) :=
  if SizeNegative e then .error (.panic "makeslice: len out of range")
  else .ok (if SizeFits e then some (toKeyValueEntry e) else none)

theorem skipErrors_readRecord {e : MemTableEntry} (hcrc : crc32 e.marshal ≠ 0) (key : String)
    (pre post : Bytes) :
    skipErrors ((readRecord (pre ++ (record e ++ post)) key (indexEntry pre.length e)).map
      fun m => some (toKeyValueEntry m)) = found e := by
  unfold found
  split
  · next hneg =>
    rw [readRecord_of_negative hcrc hneg]
    rfl
  · next hpos =>
    split
    · next hlen =>
      rw [readRecord_record ⟨hcrc, hlen⟩]
      rfl
    · next hlong =>
      cases h : readRecord (pre ++ (record e ++ post)) key (indexEntry pre.length e) with
      | ok m => exact absurd (storable_of_readRecord h).2 hlong
      | error fault =>
        cases fault with
        | err message => rfl
        | panic message => exact absurd (negative_of_readRecord hcrc h) hpos

/-- The index of the table with these entries can be read back, up to the last record. -/
def IndexReaches (entries : List MemTableEntry) : Prop :=
  (∀ e ∈ entries, e.key.utf8ByteSize < 2 ^ 31) ∧ (dataOf entries.dropLast).length < 2 ^ 63

variable {bloom : BloomParams} {mt : MemTable} {w : SSTableWriter} {s : SSTableService}
  {table : SSTableMetadata} {key : String}

/-- **The filters of a flushed table hide nothing.** -/
theorem tableGet_eq (hw : writeEntries bloom mt.entries = .ok w) (hne : mt.entries ≠ [])
    (hfiles : s.files table.filePath = w.finalize) (hrange : table.keyRange = keyRangeOf mt.entries)
    (hindex : IndexReaches mt.entries) (hcrc : ∀ e ∈ mt.entries, crc32 e.marshal ≠ 0) :
    s.tableGet key table = ((mt.get key).map found).getD (.ok none) := by
  obtain ⟨b, hb, htrue⟩ := mayContain_written hw hne key
  rw [tableGet, hfiles, hrange]
  cases hget : mt.get key with
  | none =>
    have hnot : key ∉ mt.entries.map MemTableEntry.key := by
      rw [mem_keys_iff, hget]
      rintro ⟨e, ⟨⟩⟩
    have hsearch : searchTable w.finalize key = .ok none := by
      simp only [searchTable, loadBloomFilter_finalize hw, Except.bind, hb,
        new_finalize hw hindex.1, get_of_not_mem hnot, ite_self]
    rw [hsearch]
    split <;> rfl
  | some e =>
    have hkey := MemTable.key_of_get hget
    have hmem : e ∈ mt.entries := MemTable.mem_entries.mpr (by rwa [hkey])
    have hin := keyInRange_written hmem
    have hnd := mt.nodup_keys
    obtain ⟨pre, post, hsplit⟩ := List.append_of_mem hmem
    have hoffset := hindex.2
    rw [hsplit, List.dropLast_append_cons, dataOf_append, List.length_append] at hoffset
    have hread := new_finalize hw hindex.1
    rw [hsplit] at hread hnd
    have hlookup := get_split hnd
    rw [int64_eq_self (by omega) (by omega)] at hlookup
    rw [hkey] at hin hlookup
    have hsearch : searchTable w.finalize key =
        (readRecord (dataOf pre ++ (record e ++ dataOf post)) key
          (indexEntry (dataOf pre).length e)).map fun m => some (toKeyValueEntry m) := by
      simp only [searchTable, loadBloomFilter_finalize hw, Except.bind, hb,
        htrue (mem_keys_iff.mpr ⟨e, hget⟩), if_true, hread, hlookup]
    rw [if_pos hin, hsearch, skipErrors_readRecord (hcrc e hmem), Option.map_some,
      Option.getD_some]

/-! ## All tables -/

/-- The loop panics over an entry with a negative size. Else it compares those that are found. -/
theorem getLoop_eq {tables : List SSTableMetadata} {memTables : List MemTable}
    (h : List.Forall₂ (fun (mt : MemTable) table =>
      s.tableGet key table = ((mt.get key).map found).getD (.ok none)) memTables tables)
    (latest : Option KeyValueEntry) :
    s.getLoop key tables latest =
      if ∃ e ∈ holders memTables key, SizeNegative e then
        .error (.panic "makeslice: len out of range")
      else .ok (((holders memTables key).filter fun e => SizeFits e).foldl
        (fun latest e => keepLatest latest (some (toKeyValueEntry e))) latest) := by
  induction h generalizing latest with
  | nil => simp [getLoop, holders]
  | @cons mt table memTables tables hget _ ih =>
    have hcons : holders (mt :: memTables) key = (mt.get key).toList ++ holders memTables key := by
      rw [holders, List.filterMap_cons]
      cases mt.get key <;> rfl
    rw [getLoop, hget, hcons]
    cases mt.get key with
    | none =>
      rw [Option.map_none, Option.getD_none, Option.toList_none, List.nil_append, ← ih]
      rfl
    | some e =>
      rw [Option.map_some, Option.getD_some, Option.toList_some, List.singleton_append,
        List.filter_cons]
      simp only [List.mem_cons, exists_eq_or_imp]
      by_cases hneg : SizeNegative e
      · rw [found, if_pos hneg, if_pos (Or.inl hneg)]
        rfl
      · rw [found, if_neg hneg]
        simp only [hneg, false_or]
        by_cases hlen : SizeFits e
        · rw [if_pos hlen, if_pos (decide_eq_true hlen), List.foldl_cons, ← ih]
          rfl
        · rw [if_neg hlen, if_neg fun h => hlen (of_decide_eq_true h), ← ih]
          rfl

/-- Positive timestamps are compared as they should be. -/
theorem foldl_keepLatest_eq {l : List MemTableEntry} (hpos : ∀ e ∈ l, 0 < e.timestamp) :
    l.foldl (fun latest e => keepLatest latest (some (toKeyValueEntry e))) none =
      (l.argmax MemTableEntry.timestamp).map toKeyValueEntry := by
  induction l using List.reverseRecOn with
  | nil => rfl
  | append_singleton l e ih =>
    rw [List.foldl_append, ih fun a ha => hpos a (by simp [ha]), List.foldl_cons, List.foldl_nil,
      List.argmax_concat]
    have he : 0 < e.timestamp := hpos e (by simp)
    cases l.argmax MemTableEntry.timestamp with
    | none => simp [keepLatest, toKeyValueEntry, he]
    | some m =>
      simp only [keepLatest, Option.map_some, Option.getD_some, toKeyValueEntry, gt_iff_lt]
      split <;> rfl

/-! ## Flushes -/

/-- `WriteFromMemTable` at some time, without an error. -/
def flush (s : SSTableService) (f : Int × MemTable) : Option SSTableService :=
  match s.writeFromMemTable f.1 .complete f.2 with
  | (s', .ok ()) => some s'
  | (_, .error _) => none

/-- The files of every table are what its flush wrote. -/
def Intact (s : SSTableService) (flushes : List (Int × MemTable)) : Prop :=
  ∀ f ∈ flushes, ∃ w, writeEntries s.bloom f.2.entries = .ok w ∧
    s.files (s.flushPath f.1) = w.finalize

/-- What level 0 looks like after some flushes. -/
structure Flushed (s : SSTableService) (flushes : List (Int × MemTable)) : Prop where
  onlyL0 : s.OnlyL0
  tables : List.Forall₂ (fun f table => table.keyRange = keyRangeOf f.2.entries ∧
    table.filePath = s.flushPath f.1) flushes (s.levels 0)

theorem flushed_flush {s s' : SSTableService} {flushes : List (Int × MemTable)}
    {f : Int × MemTable} (h : Flushed s flushes) (hstep : s.flush f = some s') :
    Flushed s' (flushes ++ [f]) := by
  unfold flush at hstep
  split at hstep
  · next s'' hwrite =>
    cases hstep
    obtain ⟨w, -, rfl⟩ := writeFromMemTable_eq_ok hwrite
    refine ⟨h.onlyL0.withFlushed _ _ _, ?_⟩
    rw [levels_withFlushed]
    exact List.rel_append h.tables (.cons ⟨rfl, rfl⟩ .nil)
  · cases hstep

theorem flushed_of_run {dataDir : String} {bloom : BloomParams} {s : SSTableService}
    {flushes : List (Int × MemTable)} (hrun : run flush (new dataDir bloom) flushes = some s) :
    Flushed s flushes := by
  refine run_invariant_history (P := fun _ _ => True) (I := fun pre s => Flushed s pre)
    (fun pre s f s' hpre _ hstep => flushed_flush hpre hstep) flushes [] _ s ?_
    (allSteps_trivial _ _) hrun
  exact ⟨fun _ _ => rfl, .nil⟩

variable {flushes : List (Int × MemTable)} {tenantID : String}

/-- Memtables that can be read back after their flush. -/
structure Ordinary (flushes : List (Int × MemTable)) : Prop where
  nonempty : ∀ f ∈ flushes, f.2.entries ≠ []
  positive : ∀ f ∈ flushes, ∀ e ∈ f.2.entries, 0 < e.timestamp
  checksum : ∀ f ∈ flushes, ∀ e ∈ f.2.entries, crc32 e.marshal ≠ 0
  index : ∀ f ∈ flushes, IndexReaches f.2.entries

/-- What `Get` returns. -/
theorem get_eq {s : SSTableService} (h : Flushed s flushes) (hord : Ordinary flushes)
    (hintact : Intact s flushes) (tenantID key : String) :
    s.get tenantID key =
      if ∃ e ∈ holders (flushes.map Prod.snd) (buildKey tenantID key), SizeNegative e then
        .error (.panic "makeslice: len out of range")
      else .ok ((((holders (flushes.map Prod.snd) (buildKey tenantID key)).filter fun e =>
        SizeFits e).argmax MemTableEntry.timestamp).map toKeyValueEntry) := by
  have htables : List.Forall₂ (fun (mt : MemTable) table => s.tableGet (buildKey tenantID key)
      table = ((mt.get (buildKey tenantID key)).map found).getD (.ok none))
      (flushes.map Prod.snd) (s.levels 0) := by
    rw [List.forall₂_map_left_iff, List.forall₂_iff_get]
    obtain ⟨hlen, htable⟩ := List.forall₂_iff_get.mp h.tables
    refine ⟨hlen, fun i hi hi' => ?_⟩
    have hmem : flushes.get ⟨i, hi⟩ ∈ flushes := List.get_mem flushes ⟨i, hi⟩
    obtain ⟨hrange, hpath⟩ := htable i hi hi'
    obtain ⟨w, hw, hfiles⟩ := hintact _ hmem
    rw [← hpath] at hfiles
    exact tableGet_eq hw (hord.nonempty _ hmem) hfiles hrange (hord.index _ hmem)
      (hord.checksum _ hmem)
  rw [get, h.onlyL0.tables, getLoop_eq htables, foldl_keepLatest_eq]
  intro e he
  obtain ⟨-, mt, hmt, hmem⟩ := mem_holders.mp (List.mem_of_mem_filter he)
  obtain ⟨f, hf, rfl⟩ := List.mem_map.mp hmt
  exact hord.positive f hf e hmem

/-- Entries of one key are told apart by what `Get` returns. -/
theorem toKeyValueEntry_inj {e e' : MemTableEntry} (hkey : e.key = e'.key)
    (h : toKeyValueEntry e = toKeyValueEntry e') : e = e' := by
  cases e
  cases e'
  simp only [toKeyValueEntry, KeyValueEntry.mk.injEq] at h
  simp only at hkey
  simp [hkey, h]

/-- The entry of a key, as `Get` returns it. -/
def result (tenantID key : String) (e : MemTableEntry) : KeyValueEntry where
  tenantID := tenantID
  key := key
  value := e.value
  vectorClock := e.vectorClock
  timestamp := e.timestamp
  isTombstone := e.isTombstone

theorem get_eq_scan_iff {s : SSTableService} (h : Flushed s flushes) (hord : Ordinary flushes)
    (hintact : Intact s flushes) {tenantID : String} (htenant : ':' ∉ tenantID.toList)
    (key : String) :
    s.get tenantID key = .ok ((plainScan (flushes.map Prod.snd) (buildKey tenantID key)).map
        (result tenantID key)) ↔
      (∀ e ∈ (flushes.map Prod.snd).flatMap MemTable.entries, e.key = buildKey tenantID key →
        ¬ SizeNegative e) ∧
      ∀ e, plainScan (flushes.map Prod.snd) (buildKey tenantID key) = some e → SizeFits e := by
  have hget := get_eq h hord hintact tenantID key
  have hmem : ∀ e, e ∈ holders (flushes.map Prod.snd) (buildKey tenantID key) ↔
      e.key = buildKey tenantID key ∧ e ∈ (flushes.map Prod.snd).flatMap MemTable.entries := by
    intro e
    rw [mem_holders, List.mem_flatMap]
  have hresult : ∀ o : Option MemTableEntry, (∀ e ∈ o, e.key = buildKey tenantID key) →
      o.map (result tenantID key) = o.map toKeyValueEntry := by
    intro o ho
    refine Option.map_congr fun e he => ?_
    rw [toKeyValueEntry, ho e he, splitCompositeKey_buildKey htenant]
    rfl
  rw [plainScan_eq, hresult _ fun e he => ((hmem e).mp (List.argmax_mem he)).1, hget]
  by_cases hneg : ∃ e ∈ holders (flushes.map Prod.snd) (buildKey tenantID key), SizeNegative e
  · rw [if_pos hneg]
    refine iff_of_false (by rintro ⟨⟩) fun h => ?_
    obtain ⟨e, he, hsize⟩ := hneg
    exact h.1 e ((hmem e).mp he).2 ((hmem e).mp he).1 hsize
  · rw [if_neg hneg, Except.ok.injEq]
    have hnone : ∀ e ∈ (flushes.map Prod.snd).flatMap MemTable.entries,
        e.key = buildKey tenantID key → ¬ SizeNegative e :=
      fun e he hkey hsize => hneg ⟨e, (hmem e).mpr ⟨hkey, he⟩, hsize⟩
    rw [and_iff_right hnone]
    constructor
    · intro heq e he
      rw [he, Option.map_some] at heq
      obtain ⟨e', he', hsame⟩ := Option.map_eq_some_iff.mp heq
      have hin := List.mem_filter.mp (List.argmax_mem he')
      have hkeys := ((hmem e').mp hin.1).1.trans ((hmem e).mp (List.argmax_mem he)).1.symm
      rw [← toKeyValueEntry_inj hkeys hsame]
      exact of_decide_eq_true hin.2
    · intro hfits
      rw [argmax_filter_eq_iff.mpr fun e he => decide_eq_true (hfits e he)]

/--
**A lookup through the filters is a plain scan.** Memtables are flushed one after another, and the
files are what the flushes wrote. The memtables are not empty, the timestamps are positive, no
CRC-32 is 0, and the index can be read. `Get` returns the entry that a scan of all records finds if
and only if no record of the key has a negative size, and the size field can say how long the record
is that the scan finds.
-/
theorem get_eq_plainScan_iff {dataDir : String} {bloom : BloomParams} {s : SSTableService}
    (hrun : run flush (new dataDir bloom) flushes = some s) (hord : Ordinary flushes)
    (hintact : Intact s flushes) {tenantID : String} (htenant : ':' ∉ tenantID.toList)
    (key : String) :
    s.get tenantID key = .ok ((plainScan (flushes.map Prod.snd) (buildKey tenantID key)).map
        (result tenantID key)) ↔
      (∀ e ∈ (flushes.map Prod.snd).flatMap MemTable.entries, e.key = buildKey tenantID key →
        ¬ SizeNegative e) ∧
      ∀ e, plainScan (flushes.map Prod.snd) (buildKey tenantID key) = some e → SizeFits e :=
  get_eq_scan_iff (flushed_of_run hrun) hord hintact htenant key

/-! ## One flush of one entry -/

theorem entries_put_new (e : MemTableEntry) : (MemTable.new.put e).entries = [e] := by
  have hperm : (MemTable.new.put e).entries.Perm [e] := by
    refine (List.perm_ext_iff_of_nodup ?_ (List.nodup_singleton e)).mpr fun a => ?_
    · exact List.Nodup.of_map _ (MemTable.nodup_keys _)
    · rw [MemTable.mem_entries, MemTable.get_put, MemTable.get_new, List.mem_singleton]
      constructor
      · intro h
        split at h
        · exact (Option.some.inj h).symm
        · cases h
      · rintro rfl
        rw [if_pos rfl]
  exact List.perm_singleton.mp hperm

theorem plainScan_put_new (e : MemTableEntry) :
    plainScan [MemTable.new.put e] e.key = some e := by
  rw [plainScan, List.flatMap_singleton, entries_put_new, List.filter_cons, if_pos (by simp),
    List.filter_nil, List.argmax_singleton]

theorem exists_writeEntries {e : MemTableEntry} (hkey : e.key = "t:k") :
    ∃ w, writeEntries ⟨8, 1⟩ [e] = .ok w := by
  have hadd : ((BloomFilter.new ⟨8, 1⟩).bind fun bf => bf.add "t:k").toOption.isSome = true := by
    decide +kernel
  cases hbf : BloomFilter.new ⟨8, 1⟩ with
  | error fault =>
    rw [hbf] at hadd
    cases hadd
  | ok bf =>
    rw [hbf] at hadd
    cases hbf' : bf.add "t:k" with
    | error fault =>
      rw [show (Except.ok bf : Except Fault BloomFilter).bind (fun bf => bf.add "t:k") =
        bf.add "t:k" from rfl, hbf'] at hadd
      cases hadd
    | ok bf' =>
      cases hw : writeEntries ⟨8, 1⟩ [e] with
      | ok w => exact ⟨w, rfl⟩
      | error fault =>
        simp only [writeEntries, SSTableWriter.new, hbf, Except.map, Except.bind, writeAll, write,
          hkey, hbf'] at hw
        cases hw

theorem exists_flush {e : MemTableEntry} (hkey : e.key = "t:k") :
    ∃ s, run flush (new "data" ⟨8, 1⟩) [(1, MemTable.new.put e)] = some s ∧
      Intact s [(1, MemTable.new.put e)] := by
  obtain ⟨w, hw⟩ := exists_writeEntries hkey
  rw [← entries_put_new] at hw
  have hflush : flush (new "data" ⟨8, 1⟩) (1, MemTable.new.put e) =
      some ((new "data" ⟨8, 1⟩).withFlushed 1 (MemTable.new.put e).entries w) := by
    have hw' : writeEntries (new "data" ⟨8, 1⟩).bloom (MemTable.new.put e).entries = .ok w := hw
    simp only [flush, writeFromMemTable, hw']
  refine ⟨_, run_cons.mpr ⟨_, hflush, rfl⟩, ?_⟩
  intro f hf
  rw [List.mem_singleton.mp hf]
  refine ⟨w, hw, ?_⟩
  exact Function.update_self ((new "data" ⟨8, 1⟩).flushPath 1) w.finalize (new "data" ⟨8, 1⟩).files

theorem ordinary_put_new {e : MemTableEntry} (hkey : e.key = "t:k") (hpos : 0 < e.timestamp)
    (hcrc : crc32 e.marshal ≠ 0) : Ordinary [(1, MemTable.new.put e)] := by
  constructor <;> simp only [List.forall_mem_singleton, entries_put_new]
  · exact List.cons_ne_nil _ _
  · exact hpos
  · exact hcrc
  · refine ⟨?_, ?_⟩
    · rw [List.forall_mem_singleton, hkey]
      decide
    · rw [List.dropLast_singleton]
      decide

end SSTableService

namespace Sample

/-- An entry with this value. -/
def entryWith (value : Bytes) (timestamp : Int) : MemTableEntry :=
  ⟨"t:k", some value, ⟨[]⟩, timestamp, false⟩

open Json in
/-- Where the value and the timestamp are in the text. -/
theorem render_entryWith (value : Bytes) : ∃ pre mid post : List Char, ∀ timestamp,
    render (.obj (entryWith value timestamp).fields) =
      pre ++ (renderString (String.ofList (Base64.encode value)) ++
        (mid ++ (renderInt timestamp ++ post))) := by
  refine ⟨Char.ofNat 0x7B :: (renderString "Key" ++ ':' :: (renderString "t:k" ++ ',' ::
      (renderString "Value" ++ [':']))),
    ',' :: (renderString "VectorClock" ++ ':' :: (render (.obj (VectorClockJson.fields ⟨[]⟩)) ++
      ',' :: (renderString "Timestamp" ++ [':']))),
    ',' :: (renderString "IsTombstone" ++ ':' :: (render (.bool false) ++ [Char.ofNat 0x7D])),
    fun timestamp => ?_⟩
  simp only [entryWith, MemTableEntry.fields, encodeBytes, render, renderFields, List.append_assoc,
    List.cons_append, List.nil_append]

/-- A text is longer than the value. -/
theorem length_le_length_marshal (value : Bytes) (timestamp : Int) :
    value.length ≤ (entryWith value timestamp).marshal.length := by
  have hbytes : (Json.render (.obj (entryWith value timestamp).fields)).length ≤
      (entryWith value timestamp).marshal.length := by
    rw [MemTableEntry.marshal, Json.bytes, utf8_ofList]
    refine SSTableReader.length_le_length_flatMap (fun c => ?_) _
    rw [String.length_utf8EncodeChar]
    exact c.utf8Size_pos
  have hescape := SSTableReader.length_le_length_flatMap Json.length_escape_pos
    (Base64.encode value)
  have hencode := Base64.length_encode value
  obtain ⟨pre, mid, post, hrender⟩ := render_entryWith value
  rw [hrender] at hbytes
  simp only [List.length_append, Json.renderString, List.length_cons,
    String.toList_ofList] at hbytes
  omega

/-- One of two timestamps gives a checksum that is not 0. -/
theorem exists_crc32_ne_zero (value : Bytes) : ∃ timestamp : Int,
    (timestamp = 1 ∨ timestamp = 2) ∧ crc32 (entryWith value timestamp).marshal ≠ 0 := by
  obtain ⟨pre, mid, post, hrender⟩ := render_entryWith value
  have hsplit : ∀ timestamp, (entryWith value timestamp).marshal =
      (pre ++ (Json.renderString (String.ofList (Base64.encode value)) ++ mid)).flatMap
        String.utf8EncodeChar ++ ((Json.renderInt timestamp).flatMap String.utf8EncodeChar ++
          post.flatMap String.utf8EncodeChar) := by
    intro timestamp
    rw [MemTableEntry.marshal, Json.bytes, utf8_ofList, hrender]
    simp only [List.flatMap_append, List.append_assoc]
  have hone : (Json.renderInt 1).flatMap String.utf8EncodeChar = [49] := by decide +kernel
  have htwo : (Json.renderInt 2).flatMap String.utf8EncodeChar = [50] := by decide +kernel
  have hne : crc32 (entryWith value 1).marshal ≠ crc32 (entryWith value 2).marshal := by
    rw [hsplit, hsplit, hone, htwo]
    exact crc32_ne_of_byte_ne (by decide) _ _
  by_cases hzero : crc32 (entryWith value 1).marshal = 0
  · exact ⟨2, Or.inr rfl, fun hzero' => hne (hzero.trans hzero'.symm)⟩
  · exact ⟨1, Or.inl rfl, hzero⟩

end Sample


open Sample SSTableService in
theorem get_eq_plainScan_oneEntry :
    ∃ timestamp s, run flush (new "data" ⟨8, 1⟩)
        [(1, MemTable.new.put (entryWith [7] timestamp))] = some s ∧
      s.get "t" "k" = .ok (some ⟨"t", "k", some [7], ⟨[]⟩, timestamp, false⟩) := by
  obtain ⟨timestamp, htime, hcrc⟩ := exists_crc32_ne_zero [7]
  have hpos : 0 < timestamp := by omega
  have hlen : (entryWith [7] timestamp).marshal.length < 200 := by
    rcases htime with rfl | rfl <;> decide +kernel
  have hfits : SizeFits (entryWith [7] timestamp) := hlen.trans (by decide)
  have hnot : ¬ SizeNegative (entryWith [7] timestamp) := by
    rw [SizeNegative, SSTableReader.int32_natCast hfits]
    omega
  obtain ⟨s, hrun, hintact⟩ := @exists_flush (entryWith [7] timestamp) rfl
  have hscan := plainScan_put_new (entryWith [7] timestamp)
  refine ⟨timestamp, s, hrun, ?_⟩
  have hget := (@get_eq_plainScan_iff _ "data" ⟨8, 1⟩ s hrun (ordinary_put_new rfl hpos hcrc)
    hintact "t" (by decide) "k").mpr ⟨?_, ?_⟩
  · rw [hget]
    exact congrArg (fun o => Except.ok (o.map (result "t" "k"))) hscan
  · intro e he _
    rw [List.map_singleton, List.flatMap_singleton, entries_put_new, List.mem_singleton] at he
    rwa [he]
  · intro e he
    rw [← Option.some.inj (hscan.symm.trans he)]
    exact hfits

open Sample SSTableService in
/-- A value of 2 GiB is flushed, and the lookup does not return it. -/
theorem longValue_not_found :
    ∃ timestamp s, 0 < timestamp ∧
      crc32 (entryWith (List.replicate (2 ^ 31) 0) timestamp).marshal ≠ 0 ∧
      run flush (new "data" ⟨8, 1⟩)
        [(1, MemTable.new.put (entryWith (List.replicate (2 ^ 31) 0) timestamp))] = some s ∧
      Intact s [(1, MemTable.new.put (entryWith (List.replicate (2 ^ 31) 0) timestamp))] ∧
      s.get "t" "k" ≠ .ok ((plainScan
        [MemTable.new.put (entryWith (List.replicate (2 ^ 31) 0) timestamp)] "t:k").map
          (result "t" "k")) := by
  obtain ⟨timestamp, htime, hcrc⟩ := exists_crc32_ne_zero (List.replicate (2 ^ 31) 0)
  have hpos : 0 < timestamp := by omega
  obtain ⟨s, hrun, hintact⟩ := @exists_flush (entryWith (List.replicate (2 ^ 31) 0) timestamp) rfl
  refine ⟨timestamp, s, hpos, hcrc, hrun, hintact, fun hget => ?_⟩
  have hiff := get_eq_scan_iff (flushed_of_run hrun) (ordinary_put_new rfl hpos hcrc) hintact
    (show ':' ∉ "t".toList by decide) "k"
  have hlong := length_le_length_marshal (List.replicate (2 ^ 31) 0) timestamp
  rw [List.length_replicate] at hlong
  exact absurd ((hiff.mp hget).2 _ (plainScan_put_new _)) (not_lt.mpr hlong)

end PairDB.StorageNode
