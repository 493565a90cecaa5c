import PairDB.StorageNode.SSTable

/-!
# The round trip of an SSTable

What `SSTableReader` finds in the files of `SSTableWriter`. A record can be read back if its CRC-32
is not 0, which would stand for a record without the checksum field, and if its length fits into the
size field (`Storable`). The index can be read back if the lengths of the keys fit into their field
and the data file is shorter than the largest offset (`IndexReadable`).
-/

namespace PairDB.StorageNode

open Infra

/-- The record of an entry can be read back. -/
def Storable (entry : MemTableEntry) : Prop :=
  crc32 entry.marshal ≠ 0 ∧ entry.marshal.length < 2 ^ 31

instance (entry : MemTableEntry) : Decidable (Storable entry) :=
  inferInstanceAs (Decidable (_ ∧ _))

namespace SSTableWriter

/-- The data file for some entries. -/
def dataOf (entries : List MemTableEntry) : Bytes := entries.flatMap record

/-- The index of the table with these entries can be read back. -/
def IndexReadable (entries : List MemTableEntry) : Prop :=
  (∀ e ∈ entries, e.key.utf8ByteSize < 2 ^ 31) ∧ (dataOf entries).length < 2 ^ 63

instance (entries : List MemTableEntry) : Decidable (IndexReadable entries) :=
  inferInstanceAs (Decidable (_ ∧ _))

/-- The index entries of some entries, the first of which is at `offset`. -/
def indexFrom : Int → List MemTableEntry → List IndexEntry
  | _, [] => []
  | offset, entry :: entries =>
    indexEntry offset entry :: indexFrom (int64 (offset + (4 + 4 + entry.marshal.length))) entries

@[simp] theorem length_record (entry : MemTableEntry) :
    (record entry).length = 4 + 4 + entry.marshal.length := by
  simp [record]
  omega

@[simp] theorem dataOf_cons (entry : MemTableEntry) (entries : List MemTableEntry) :
    dataOf (entry :: entries) = record entry ++ dataOf entries := rfl

theorem dataOf_append (entries entries' : List MemTableEntry) :
    dataOf (entries ++ entries') = dataOf entries ++ dataOf entries' := List.flatMap_append

/-- What a successful `Write` does. -/
theorem write_spec {w w' : SSTableWriter} {entry : MemTableEntry} (h : w.write entry = .ok w') :
    w.bloomFilter.add entry.key = .ok w'.bloomFilter ∧ w'.dataFile = w.dataFile ++ record entry ∧
      w'.offset = int64 (w.offset + (4 + 4 + entry.marshal.length)) ∧
      w'.index = w.index ++ [indexEntry w.offset entry] := by
  unfold write at h
  cases hadd : w.bloomFilter.add entry.key with
  | error e => rw [hadd] at h; cases h
  | ok bf =>
    rw [hadd] at h
    cases h
    exact ⟨rfl, rfl, rfl, rfl⟩

/-- What writing a list of entries does. -/
theorem writeAll_spec {w w' : SSTableWriter} {entries : List MemTableEntry}
    (h : w.writeAll entries = .ok w') :
    w.bloomFilter.addAll (entries.map MemTableEntry.key) = .ok w'.bloomFilter ∧
      w'.dataFile = w.dataFile ++ dataOf entries ∧
      w'.index = w.index ++ indexFrom w.offset entries := by
  induction entries generalizing w with
  | nil =>
    cases h
    exact ⟨rfl, (List.append_nil _).symm, (List.append_nil _).symm⟩
  | cons entry entries ih =>
    unfold writeAll at h
    cases hw : w.write entry with
    | error e => rw [hw] at h; cases h
    | ok w₁ =>
      rw [hw] at h
      obtain ⟨hadd, hdata, hoffset, hindex⟩ := write_spec hw
      obtain ⟨hbloom, hdata', hindex'⟩ := ih h
      refine ⟨?_, ?_, ?_⟩
      · rw [List.map_cons, BloomFilter.addAll, hadd]
        exact hbloom
      · rw [hdata', hdata, dataOf_cons, List.append_assoc]
      · rw [hindex', hindex, hoffset, indexFrom, List.append_assoc]
        rfl

/-- A table that is written from the start. -/
theorem writer_spec {params : BloomParams} {w : SSTableWriter} {entries : List MemTableEntry}
    (h : (SSTableWriter.new params).bind (fun w => w.writeAll entries) = .ok w) :
    (BloomFilter.new params).bind (fun bf => bf.addAll (entries.map MemTableEntry.key)) =
        .ok w.bloomFilter ∧
      w.dataFile = dataOf entries ∧ w.index = indexFrom 0 entries := by
  unfold new at h
  cases hbf : BloomFilter.new params with
  | error e => rw [hbf] at h; cases h
  | ok bf =>
    rw [hbf] at h
    exact writeAll_spec h

/-! ## The offsets -/

/-- The offset after some entries is the length of their records, as an `int64`. -/
theorem indexFrom_append (entries entries' : List MemTableEntry) (n : Int) :
    indexFrom (int64 n) (entries ++ entries') =
      indexFrom (int64 n) entries ++ indexFrom (int64 (n + (dataOf entries).length)) entries' := by
  induction entries generalizing n with
  | nil => simp [indexFrom, dataOf]
  | cons entry entries ih =>
    have hoff : int64 (int64 n + (4 + 4 + entry.marshal.length)) =
        int64 (n + (4 + 4 + entry.marshal.length)) := Int.bmod_add_bmod
    have hnext := ih (n + (4 + 4 + entry.marshal.length))
    rw [List.cons_append, indexFrom, indexFrom, hoff, hnext, List.cons_append, dataOf_cons,
      List.length_append, length_record]
    push_cast
    rw [Int.add_assoc n]

theorem map_key_indexFrom (entries : List MemTableEntry) (offset : Int) :
    (indexFrom offset entries).map IndexEntry.key = entries.map fun e => utf8 e.key := by
  induction entries generalizing offset with
  | nil => rfl
  | cons entry entries ih =>
    rw [indexFrom, List.map_cons, ih, List.map_cons]
    rfl

/-- All fields of an index entry fit into the fields of the file. -/
def Fits (entry : IndexEntry) : Prop :=
  entry.key.length < 2 ^ 31 ∧ int64 entry.offset = entry.offset ∧ int32 entry.size = entry.size

theorem fits_indexFrom {entries : List MemTableEntry}
    (hkey : ∀ e ∈ entries, e.key.utf8ByteSize < 2 ^ 31) {offset : Int}
    (hoffset : int64 offset = offset) : ∀ entry ∈ indexFrom offset entries, Fits entry := by
  intro entry hentry
  induction entries generalizing offset with
  | nil => cases hentry
  | cons e entries ih =>
    rcases List.mem_cons.mp hentry with rfl | hentry
    · exact ⟨hkey e (by simp), hoffset, by simp only [indexEntry, wrapInt_wrapInt]⟩
    · exact ih (fun e he => hkey e (by simp [he])) (wrapInt_wrapInt 64 _) hentry

end SSTableWriter

/-! ## The index file -/

namespace SSTableReader

open SSTableWriter

theorem makeSlice_ofNat {n : Nat} (h : n < 2 ^ 31) : makeSlice n = .ok n := by
  have hmax : ¬ ((n : Int) < 0 ∨ (n : Int) > maxAlloc) := by
    unfold maxAlloc
    omega
  rw [makeSlice, if_neg hmax, Int.toNat_natCast]

theorem int32_natCast {n : Nat} (h : n < 2 ^ 31) : int32 n = n :=
  int32_eq_self (by omega) (by omega)

theorem length_le_length_flatMap {α β : Type} {f : α → List β} (h : ∀ a, 0 < (f a).length)
    (l : List α) : l.length ≤ (l.flatMap f).length := by
  induction l with
  | nil => simp
  | cons a l ih =>
    have hpos := h a
    rw [List.flatMap_cons, List.length_append, List.length_cons]
    omega

theorem readUint_checksum (c : UInt32) (rest : Bytes) :
    readUint 4 (toLE 4 c.toNat ++ rest) = .ok (c.toNat, rest) := by
  have hlt : c.toNat < 256 ^ 4 := UInt32.toNat_lt c
  rw [readUint_toLE_append, Nat.mod_eq_of_lt hlt]

/-- An index entry is read back as it was written. -/
theorem readIndexEntry_append {entry : IndexEntry} (h : Fits entry) (rest : Bytes) :
    readIndexEntry entry.key.length (entry.key ++ (intToLE 8 entry.offset ++
      (intToLE 4 entry.size ++ (toLE 4 entry.checksum.toNat ++ rest)))) = .ok (entry, rest) := by
  obtain ⟨hkey, hoffset, hsize⟩ := h
  simp only [readIndexEntry, makeSlice_ofNat hkey, Except.bind, readFull_append, wrapRead,
    readInt_intToLE_append (w := 8) hoffset, readInt_intToLE_append (w := 4) hsize,
    readIndexChecksum, readUint_checksum, UInt32.ofNat_toNat]

/-- Reading the index of a table inserts its entries from the first to the last. -/
theorem loadIndex_flatMap {entries : List IndexEntry} (h : ∀ e ∈ entries, Fits e) {fuel : Nat}
    (hfuel : entries.length < fuel) (index : Map Bytes IndexEntry) :
    loadIndex fuel (entries.flatMap writeIndexEntry) index =
      .ok (entries.foldl (fun m e => m.set e.key e) index) := by
  induction entries generalizing fuel index with
  | nil =>
    obtain ⟨fuel, rfl⟩ : ∃ k, fuel = k + 1 := ⟨fuel - 1, by simp at hfuel; omega⟩
    rfl
  | cons entry entries ih =>
    obtain ⟨fuel, rfl⟩ : ∃ k, fuel = k + 1 := ⟨fuel - 1, by simp at hfuel; omega⟩
    have hfits := h entry (by simp)
    have hlen : ∀ rest, readInt 4 (intToLE 4 (int32 entry.key.length) ++ rest) =
        .ok ((entry.key.length : Int), rest) := by
      intro rest
      rw [int32_natCast hfits.1]
      exact readInt_intToLE_append (w := 4) (int32_natCast hfits.1) rest
    have hrec := ih (fun e he => h e (by simp [he])) (by simpa using hfuel)
      (index.set entry.key entry)
    rw [List.flatMap_cons, writeIndexEntry]
    simp only [List.append_assoc]
    rw [loadIndex, hlen]
    simp only [readIndexEntry_append hfits, Except.bind, hrec, List.foldl_cons]

/-! ## The records -/

/-- A record is read back as it was written. -/
theorem readRecord_record {e : MemTableEntry} (h : Storable e) (key : String) (pre post : Bytes) :
    readRecord (pre ++ (record e ++ post)) key (indexEntry pre.length e) = .ok e := by
  obtain ⟨hcrc, hlen⟩ := h
  have hdrop : (pre ++ (record e ++ post)).drop pre.length = record e ++ post := List.drop_left
  have hsize : readInt 4 (record e ++ post) =
      .ok ((e.marshal.length : Int), toLE 4 (crc32 e.marshal).toNat ++ (e.marshal ++ post)) := by
    rw [record, int32_natCast hlen, List.append_assoc, List.append_assoc]
    exact readInt_intToLE_append (w := 4) (int32_natCast hlen) _
  simp [readRecord, indexEntry, hdrop, hsize, wrapRead, Except.bind, readChecksum, hcrc,
    readUint_checksum, Except.map, makeSlice_ofNat hlen, readFull_append]

/-! ## The table -/

theorem foldl_set_eq_ofList (entries : List IndexEntry) :
    entries.foldl (fun m e => m.set e.key e) (∅ : Map Bytes IndexEntry) =
      Map.ofList (entries.map fun e => (e.key, e)) := by
  rw [Map.ofList, List.foldl_map]

/-- The reader of a table that was written. -/
theorem new_finalize {params : BloomParams} {w : SSTableWriter} {entries : List MemTableEntry}
    (hw : (SSTableWriter.new params).bind (fun w => w.writeAll entries) = .ok w)
    (hkey : ∀ e ∈ entries, e.key.utf8ByteSize < 2 ^ 31) :
    SSTableReader.new w.finalize = .ok
      { dataFile := dataOf entries
        index := Map.ofList ((indexFrom 0 entries).map fun e => (e.key, e)) } := by
  obtain ⟨-, hdata, hindex⟩ := writer_spec hw
  have hlen : ∀ (l : List IndexEntry), l.length ≤ (l.flatMap writeIndexEntry).length :=
    length_le_length_flatMap fun entry => by simp [writeIndexEntry]
  have hload := loadIndex_flatMap (@fits_indexFrom _ hkey 0 rfl)
    (Nat.lt_succ_of_le (hlen _)) ∅
  simp only [Nat.succ_eq_add_one, foldl_set_eq_ofList] at hload
  simp only [new, finalize, hdata, hindex, Except.map, hload]

/-- The index has exactly the keys of the entries. -/
theorem get?_index_eq_none {entries : List MemTableEntry} {key : String}
    (h : key ∉ entries.map MemTableEntry.key) :
    (Map.ofList ((indexFrom 0 entries).map fun e => (e.key, e))).get? (utf8 key) = none := by
  rw [Option.eq_none_iff_forall_ne_some]
  intro ie hie
  have hmem := Map.mem_of_get?_ofList hie
  rw [List.mem_map] at hmem
  obtain ⟨e, he, heq⟩ := hmem
  have hkeys : utf8 key ∈ (indexFrom 0 entries).map IndexEntry.key :=
    List.mem_map.mpr ⟨e, he, (Prod.mk.inj heq).1⟩
  rw [map_key_indexFrom, List.mem_map] at hkeys
  obtain ⟨e', he', hutf8⟩ := hkeys
  exact h (List.mem_map.mpr ⟨e', he', utf8_inj hutf8⟩)

/-- The index entry of an entry that was written. -/
theorem get?_index_of_mem {pre post : List MemTableEntry} {e : MemTableEntry}
    (hnd : ((pre ++ e :: post).map MemTableEntry.key).Nodup) :
    (Map.ofList ((indexFrom 0 (pre ++ e :: post)).map fun e => (e.key, e))).get? (utf8 e.key) =
      some (indexEntry (int64 (dataOf pre).length) e) := by
  have hkeys : (((indexFrom 0 (pre ++ e :: post)).map fun e => (e.key, e)).map Prod.fst).Nodup := by
    have hinj : Function.Injective utf8 := fun _ _ h => utf8_inj h
    have hmap := hnd.map hinj
    rw [List.map_map] at hmap ⊢
    have hindex := map_key_indexFrom (pre ++ e :: post) 0
    simpa only [Function.comp_def] using hindex ▸ hmap
  rw [Map.get?_ofList_eq_some_iff _ hkeys, List.mem_map]
  refine ⟨indexEntry (int64 (dataOf pre).length) e, ?_, rfl⟩
  have happ := indexFrom_append pre (e :: post) 0
  rw [show int64 0 = 0 from rfl, Int.zero_add] at happ
  rw [happ, indexFrom]
  simp

/-- **A key that was not written is not found.** -/
theorem get_of_not_mem {entries : List MemTableEntry} {key : String}
    (h : key ∉ entries.map MemTableEntry.key) :
    get { dataFile := dataOf entries
          index := Map.ofList ((indexFrom 0 entries).map fun e => (e.key, e)) } key = .ok none := by
  simp only [get, get?_index_eq_none h]

/-- What is read under the key of an entry is read from where its record should be. -/
theorem get_split {pre post : List MemTableEntry} {e : MemTableEntry}
    (hnd : ((pre ++ e :: post).map MemTableEntry.key).Nodup) :
    get { dataFile := dataOf (pre ++ e :: post)
          index := Map.ofList ((indexFrom 0 (pre ++ e :: post)).map fun e => (e.key, e)) } e.key =
      (readRecord (dataOf pre ++ (record e ++ dataOf post)) e.key
        (indexEntry (int64 (dataOf pre).length) e)).map fun m => some (toKeyValueEntry m) := by
  rw [get, get?_index_of_mem hnd, dataOf_append, dataOf_cons]

/-- **The entry that is found under a key is the one that was written under it.** -/
theorem get_of_storable {pre post : List MemTableEntry} {e : MemTableEntry}
    (hnd : ((pre ++ e :: post).map MemTableEntry.key).Nodup)
    (hlen : (dataOf pre).length < 2 ^ 63) (hstore : Storable e) :
    get { dataFile := dataOf (pre ++ e :: post)
          index := Map.ofList ((indexFrom 0 (pre ++ e :: post)).map fun e => (e.key, e)) } e.key =
      .ok (some (toKeyValueEntry e)) := by
  rw [get_split hnd, int64_eq_self (by omega) (by omega), readRecord_record hstore]
  rfl

theorem get_of_mem {entries : List MemTableEntry} {e : MemTableEntry} (he : e ∈ entries)
    (hnd : (entries.map MemTableEntry.key).Nodup) (hlen : (dataOf entries).length < 2 ^ 63)
    (hstore : Storable e) :
    get { dataFile := dataOf entries
          index := Map.ofList ((indexFrom 0 entries).map fun e => (e.key, e)) } e.key =
      .ok (some (toKeyValueEntry e)) := by
  obtain ⟨pre, post, rfl⟩ := List.append_of_mem he
  rw [dataOf_append, List.length_append] at hlen
  exact get_of_storable hnd (by omega) hstore

end SSTableReader

end PairDB.StorageNode
