import PairDB.StorageNode.Entry

/-!
# `service.MemTable` and `service.MemTableService`

The skip list of the memtable is an ordered map here (`MemTable.skipList_run` says that the list of
the source is one). Strings are compared by code points, which is
the order of their UTF-8 bytes and so the order in which Go compares them.

`MemTableService` has a current memtable and, while a flush is under way, the one that is being
written. `Flush` has three parts with a lock of their own (`beginFlush`, the write of the SSTable,
`endFlush`), between which other calls can run.
-/

namespace PairDB.StorageNode

open Infra

/-- `MemTable`. Every entry is stored under its own key, and an empty memtable has size 0. -/
structure MemTable where
  data : Std.TreeMap String MemTableEntry
  size : Int
  keyed : ∀ (k : String) (e : MemTableEntry), data[k]? = some e → e.key = k
  size_of_isEmpty : data.isEmpty = true → size = 0

namespace MemTable

/-- `NewMemTable`. -/
def new : MemTable where
  data := ∅
  size := 0
  keyed := by
    intro k e h
    rw [Std.TreeMap.getElem?_emptyc] at h
    cases h
  size_of_isEmpty := fun _ => rfl

/-- The size that is accounted for an entry. -/
def entrySize (entry : MemTableEntry) : Nat := entry.key.utf8ByteSize + valueLen entry.value + 64

/-- `MemTable.Put`. -/
def put (mt : MemTable) (entry : MemTableEntry) : MemTable where
  data := mt.data.insert entry.key entry
  size := mt.size + entrySize entry
  keyed := by
    intro k e h
    rw [Std.TreeMap.getElem?_insert] at h
    split at h
    · next heq =>
      cases h
      exact Std.LawfulEqOrd.compare_eq_iff_eq.mp heq
    · exact mt.keyed k e h
  size_of_isEmpty := by
    intro h
    rw [Std.TreeMap.isEmpty_insert] at h
    cases h

/-- `MemTable.Get`. -/
def get (mt : MemTable) (key : String) : Option MemTableEntry := mt.data[key]?

/-- The entries in the order of the iterator. -/
def entries (mt : MemTable) : List MemTableEntry := mt.data.toList.map Prod.snd

@[simp] theorem get_new (key : String) : new.get key = none := Std.TreeMap.getElem?_emptyc

theorem get_put (mt : MemTable) (entry : MemTableEntry) (key : String) :
    (mt.put entry).get key = if entry.key = key then some entry else mt.get key := by
  simp only [get, put, Std.TreeMap.getElem?_insert, Std.LawfulEqOrd.compare_eq_iff_eq]

theorem key_of_get {mt : MemTable} {key : String} {e : MemTableEntry} (h : mt.get key = some e) :
    e.key = key := mt.keyed key e h

theorem mem_entries {mt : MemTable} {e : MemTableEntry} :
    e ∈ mt.entries ↔ mt.get e.key = some e := by
  rw [entries, List.mem_map]
  constructor
  · rintro ⟨⟨k, e'⟩, hmem, rfl⟩
    have hget := Std.TreeMap.mem_toList_iff_getElem?_eq_some.mp hmem
    have hkey : e'.key = k := mt.keyed k e' hget
    simp only
    rwa [hkey]
  · intro hget
    exact ⟨(e.key, e), Std.TreeMap.mem_toList_iff_getElem?_eq_some.mpr hget, rfl⟩

/-- The iterator runs through the keys in ascending order. -/
theorem pairwise_entries (mt : MemTable) :
    mt.entries.Pairwise fun a b => a.key < b.key := by
  have hsorted := Std.TreeMap.ordered_keys_toList (t := mt.data)
  rw [entries, List.pairwise_map]
  refine hsorted.imp_of_mem ?_
  intro a b ha hb hlt
  have hka : a.2.key = a.1 := mt.keyed _ _ (Std.TreeMap.mem_toList_iff_getElem?_eq_some.mp ha)
  have hkb : b.2.key = b.1 := mt.keyed _ _ (Std.TreeMap.mem_toList_iff_getElem?_eq_some.mp hb)
  rw [hka, hkb]
  exact compare_lt_iff_lt.mp hlt

theorem nodup_keys (mt : MemTable) : (mt.entries.map MemTableEntry.key).Nodup := by
  have hlt : (mt.entries.map MemTableEntry.key).Pairwise (· < ·) :=
    List.pairwise_map.mpr mt.pairwise_entries
  exact hlt.imp fun h => ne_of_lt h

/-- A memtable that `Flush` writes is not empty. -/
theorem entries_ne_nil {mt : MemTable} (h : mt.size ≠ 0) : mt.entries ≠ [] := by
  intro hnil
  refine h (mt.size_of_isEmpty ?_)
  rw [entries, List.map_eq_nil_iff] at hnil
  rw [← Std.TreeMap.isEmpty_toList, hnil]
  rfl

end MemTable

/-- `MemTableService`. -/
structure MemTableService where
  flushThreshold : Int
  memTable : MemTable
  immutableMT : Option MemTable

namespace MemTableService

/-- `NewMemTableService`. -/
def new (flushThreshold : Int) : MemTableService := ⟨flushThreshold, MemTable.new, none⟩

/-- `MemTableService.Put`. -/
def put (s : MemTableService) (entry : MemTableEntry) : MemTableService :=
  { s with memTable := s.memTable.put entry }

/-- `MemTableService.Get`: the current memtable first, then the one that is being flushed. -/
def get (s : MemTableService) (key : String) : Option MemTableEntry :=
  match s.memTable.get key with
  | some entry => some entry
  | none =>
    match s.immutableMT with
    | some immutable => immutable.get key
    | none => none

/-- `ShouldFlush`. -/
def shouldFlush (s : MemTableService) : Bool := s.memTable.size ≥ s.flushThreshold

/-- The first part of `Flush`: the current memtable is set aside, unless it is empty. -/
def beginFlush (s : MemTableService) : Option (MemTable × MemTableService) :=
  if s.memTable.size = 0 then none
  else some (s.memTable, { s with immutableMT := some s.memTable, memTable := MemTable.new })

/-- The last part of `Flush`. -/
def endFlush (s : MemTableService) : MemTableService := { s with immutableMT := none }

theorem get_put (s : MemTableService) (entry : MemTableEntry) (key : String) :
    (s.put entry).get key = if entry.key = key then some entry else s.get key := by
  by_cases h : entry.key = key
  · simp only [get, put, MemTable.get_put, if_pos h]
  · simp only [get, put, MemTable.get_put, if_neg h]

end MemTableService

end PairDB.StorageNode
