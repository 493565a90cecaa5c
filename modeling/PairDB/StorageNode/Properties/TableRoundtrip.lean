import PairDB.Infra.JsonScan
import PairDB.StorageNode.SSTableRoundtrip
import PairDB.StorageNode.Validation

/-!
# Reading an SSTable back, whatever its checksums are

The index entry of a record has its CRC-32, and the reader takes 0 for "no checksum field". A record
whose CRC-32 is 0 does have the field, so the reader takes the four zero bytes for the beginning of
the text. And a length that does not fit into its four bytes is read as another one, so that only a
part of a text would be read, which is not a text.

A table is read back as it was written if and only if no CRC-32 is 0 and no text and no key is longer
than the size fields can say (`readsBack_iff`).
-/

namespace PairDB.StorageNode

open Infra

/-! ## Texts of entries -/

namespace MemTableEntry

theorem objectText_marshal (e : MemTableEntry) :
    Json.Scan.ObjectText (e.marshal.map UInt8.toNat) :=
  Json.Scan.objectText_bytes (c := 'K') rfl rfl fun _ => rfl

/-- A part of a text that can be read is the whole text. -/
theorem eq_of_unmarshal_part {e e' : MemTableEntry} {part : Bytes} (hpart : part <+: e.marshal)
    (h : unmarshal part = some e') : part = e.marshal := by
  obtain ⟨v, hv, -⟩ := Option.bind_eq_some_iff.mp h
  exact e.objectText_marshal.eq_of_ofBytes hpart hv

theorem unmarshal_zero (bs : Bytes) : unmarshal (0 :: bs) = none := by
  rw [unmarshal, Json.Scan.ofBytes_zero]
  rfl

end MemTableEntry

namespace SSTableReader

open SSTableWriter

/-! ## Only storable records are read -/

theorem int32_lt (x : Int) : int32 x < 2 ^ 31 := by
  have h := Int.bmod_lt (x := x) (m := 2 ^ 32) (by decide)
  unfold int32 wrapInt
  omega

theorem makeSlice_eq_ok {x : Int} {n : Nat} (h : makeSlice x = .ok n) : (n : Int) = x := by
  unfold makeSlice at h
  split at h
  · cases h
  · cases h
    omega

theorem readFull_eq_ok {n : Nat} {bs data rest : Bytes} (h : readFull n bs = .ok (data, rest)) :
    n ≤ bs.length ∧ data = bs.take n := by
  unfold readFull at h
  split at h
  · next hle =>
    cases h
    exact ⟨hle, rfl⟩
  · split at h <;> cases h

theorem eq_ok_of_wrapRead {α : Type} {what : String} {x : Except ReadError α} {a : α}
    (h : wrapRead what x = .ok a) : x = .ok a := by
  cases x with
  | error err => cases h
  | ok b =>
    cases h
    rfl

/-- The size field of a record. -/
theorem readInt_record (e : MemTableEntry) (post : Bytes) :
    readInt 4 (record e ++ post) = .ok (int32 e.marshal.length,
      toLE 4 (crc32 e.marshal).toNat ++ (e.marshal ++ post)) := by
  rw [record, List.append_assoc, List.append_assoc]
  exact readInt_intToLE_append (w := 4) (wrapInt_wrapInt 32 _) _

/-- What a record is read from: as many bytes as the size field says, from behind the checksum, or
from the checksum on if it is 0. -/
theorem unmarshal_of_readRecord {e m : MemTableEntry} {key : String} {pre post : Bytes}
    (h : readRecord (pre ++ (record e ++ post)) key (indexEntry pre.length e) = .ok m) :
    ∃ n : Nat, (n : Int) = int32 e.marshal.length ∧ MemTableEntry.unmarshal
      ((if crc32 e.marshal = 0 then toLE 4 0 ++ (e.marshal ++ post) else e.marshal ++ post).take n) =
        some m := by
  have hdrop : (pre ++ (record e ++ post)).drop pre.length = record e ++ post := List.drop_left
  have hchecksum : readChecksum (indexEntry pre.length e)
      (toLE 4 (crc32 e.marshal).toNat ++ (e.marshal ++ post)) = .ok (crc32 e.marshal,
        if crc32 e.marshal = 0 then toLE 4 0 ++ (e.marshal ++ post) else e.marshal ++ post) := by
    unfold readChecksum
    by_cases hcrc : crc32 e.marshal = 0
    · simp [indexEntry, hcrc]
    · simp [indexEntry, hcrc, readUint_checksum, wrapRead, Except.map]
  rw [readRecord, if_neg (by simp [indexEntry]), show (indexEntry pre.length e).offset.toNat =
    pre.length from rfl, hdrop] at h
  obtain ⟨p, hp, h⟩ := Validator.bind_eq_ok h
  obtain rfl := Except.ok.inj ((readInt_record e post).symm.trans (eq_ok_of_wrapRead hp))
  obtain ⟨p, hp, h⟩ := Validator.bind_eq_ok h
  obtain rfl := Except.ok.inj (hchecksum.symm.trans hp)
  obtain ⟨n, hslice, h⟩ := Validator.bind_eq_ok h
  obtain ⟨⟨data, rest⟩, hfull, h⟩ := Validator.bind_eq_ok h
  refine ⟨n, makeSlice_eq_ok hslice, ?_⟩
  rw [← (readFull_eq_ok (eq_ok_of_wrapRead hfull)).2]
  rcases ite_eq_iff.mp h with ⟨-, hfault⟩ | ⟨-, hread⟩
  · cases hfault
  · cases hdata : MemTableEntry.unmarshal data with
    | none =>
      rw [hdata] at hread
      cases hread
    | some m' =>
      rw [hdata] at hread
      cases hread
      rfl

/-- **Only a storable record is read.** -/
theorem storable_of_readRecord {e m : MemTableEntry} {key : String} {pre post : Bytes}
    (h : readRecord (pre ++ (record e ++ post)) key (indexEntry pre.length e) = .ok m) :
    Storable e := by
  obtain ⟨n, hn, hread⟩ := unmarshal_of_readRecord h
  have hlt := int32_lt e.marshal.length
  by_cases hcrc : crc32 e.marshal = 0
  · -- the text would begin with a byte of the checksum
    rw [if_pos hcrc] at hread
    cases n with
    | zero => cases hread
    | succ n =>
      rw [show (toLE 4 0 ++ (e.marshal ++ post)).take (n + 1) =
        0 :: ([0, 0, 0] ++ (e.marshal ++ post)).take n from rfl,
        MemTableEntry.unmarshal_zero] at hread
      cases hread
  · refine ⟨hcrc, ?_⟩
    rw [if_neg hcrc] at hread
    by_contra hlong
    -- only a part of the text is read
    have hle : n ≤ e.marshal.length := by omega
    rw [List.take_append_of_le_length hle] at hread
    have hwhole := congrArg List.length
      (MemTableEntry.eq_of_unmarshal_part (List.take_prefix n e.marshal) hread)
    rw [List.length_take] at hwhole
    omega

/-! ## The keys of an index are short -/

theorem length_of_readIndexEntry {keyLen : Int} {bs rest : Bytes} {entry : IndexEntry}
    (h : readIndexEntry keyLen bs = .ok (entry, rest)) : (entry.key.length : Int) = keyLen := by
  obtain ⟨n, hslice, h⟩ := Validator.bind_eq_ok h
  obtain ⟨⟨key, bs'⟩, hfull, h⟩ := Validator.bind_eq_ok h
  obtain ⟨hle, hkey⟩ := readFull_eq_ok (eq_ok_of_wrapRead hfull)
  obtain ⟨_, -, h⟩ := Validator.bind_eq_ok h
  obtain ⟨_, -, h⟩ := Validator.bind_eq_ok h
  obtain ⟨_, -, h⟩ := Validator.bind_eq_ok h
  cases h
  change (key.length : Int) = keyLen
  rw [hkey, List.length_take, Nat.min_eq_left hle]
  exact makeSlice_eq_ok hslice

theorem readInt_four_lt {bs rest : Bytes} {x : Int} (h : readInt 4 bs = .ok (x, rest)) :
    x < 2 ^ 31 := by
  unfold readInt at h
  cases hread : readUint 4 bs with
  | error err =>
    rw [hread] at h
    cases h
  | ok p =>
    rw [hread] at h
    simp only [Except.map, Except.ok.injEq, Prod.mk.injEq] at h
    rw [← h.1]
    exact int32_lt p.1

/-- A key that does not fit into its field is not in the index. -/
theorem length_of_loadIndex : ∀ {fuel : Nat} {bs : Bytes} {index index' : Map Bytes IndexEntry},
    loadIndex fuel bs index = .ok index' →
      (∀ key entry, index.get? key = some entry → key.length < 2 ^ 31) →
      ∀ key entry, index'.get? key = some entry → key.length < 2 ^ 31
  | 0, _, _, _, h, hshort => by
    cases h
    exact hshort
  | fuel + 1, bs, index, index', h, hshort => by
    unfold loadIndex at h
    cases hlen : readInt 4 bs with
    | error err =>
      rw [hlen] at h
      cases err with
      | eof =>
        cases h
        exact hshort
      | unexpectedEOF => cases h
    | ok p =>
      obtain ⟨keyLen, bs'⟩ := p
      rw [hlen] at h
      obtain ⟨⟨entry, bs''⟩, hentry, h⟩ := Validator.bind_eq_ok h
      refine length_of_loadIndex h ?_
      intro key entry' hget
      rw [Map.get?_set] at hget
      split at hget
      · next heq =>
        have hkey := length_of_readIndexEntry hentry
        have hlt := readInt_four_lt hlen
        rw [← heq]
        omega
      · exact hshort key entry' hget

theorem length_of_new {files : TableFiles} {r : SSTableReader} (h : new files = .ok r) :
    ∀ key entry, r.index.get? key = some entry → key.length < 2 ^ 31 := by
  unfold new at h
  split at h
  · cases h
  · split at h
    · cases h
    · next indexFile _ =>
      cases hload : loadIndex (indexFile.length + 1) indexFile ∅ with
      | error fault =>
        rw [hload] at h
        cases h
      | ok index =>
        rw [hload] at h
        cases h
        exact length_of_loadIndex hload (by simp [Map.get?_empty])

end SSTableReader

/-! ## The table -/

/-- The entry as it is given to the writer. -/
def KeyValueEntry.memTableEntry (e : KeyValueEntry) : MemTableEntry where
  key := buildKey e.tenantID e.key
  value := e.value
  vectorClock := e.vectorClock
  timestamp := e.timestamp
  isTombstone := e.isTombstone

/-- What is read is the entry that was written. -/
theorem toKeyValueEntry_memTableEntry {e : KeyValueEntry} (h : ':' ∉ e.tenantID.toList) :
    SSTableReader.toKeyValueEntry e.memTableEntry = e := by
  unfold SSTableReader.toKeyValueEntry KeyValueEntry.memTableEntry
  rw [splitCompositeKey_buildKey h]

/-- A reader that is opened on the files returns every entry, nothing under other keys, and exactly
the keys of the entries. -/
def ReadsBack (files : TableFiles) (entries : List KeyValueEntry) : Prop :=
  ∃ r, SSTableReader.new files = .ok r ∧
    (∀ e ∈ entries, r.get (buildKey e.tenantID e.key) = .ok (some e)) ∧
    (∀ key, key ∉ entries.map (fun e => buildKey e.tenantID e.key) → r.get key = .ok none) ∧
    ∀ order, (r.getAllKeys order).Perm (entries.map fun e => utf8 (buildKey e.tenantID e.key))

section

open SSTableWriter SSTableReader

variable {params : BloomParams} {w : SSTableWriter} {entries : List KeyValueEntry}

theorem map_key_memTableEntry (entries : List KeyValueEntry) :
    (entries.map KeyValueEntry.memTableEntry).map MemTableEntry.key =
      entries.map fun e => buildKey e.tenantID e.key := by
  rw [List.map_map]
  rfl

/-- The keys of the index, in any order. -/
theorem perm_keys_index (entries : List MemTableEntry)
    (hnd : (entries.map MemTableEntry.key).Nodup) :
    (Map.ofList ((indexFrom 0 entries).map fun e => (e.key, e))).keys.Perm
      (entries.map fun e => utf8 e.key) := by
  have hkeys : (((indexFrom 0 entries).map fun e => (e.key, e)).map Prod.fst) =
      entries.map fun e => utf8 e.key := by
    rw [List.map_map]
    exact map_key_indexFrom entries 0
  have hinj : Function.Injective utf8 := fun _ _ h => utf8_inj h
  have hnodup : (entries.map fun e => utf8 e.key).Nodup := by
    rw [← Function.comp_def, ← List.map_map]
    exact hnd.map hinj
  refine (List.perm_ext_iff_of_nodup (AList.nodupKeys _) hnodup).mpr fun key => ?_
  change key ∈ AList.keys _ ↔ _
  rw [← hkeys, ← not_iff_not, ← Map.get?_eq_none_iff, Option.eq_none_iff_forall_ne_some]
  constructor
  · intro hnone hmem
    obtain ⟨p, hp, rfl⟩ := List.mem_map.mp hmem
    exact hnone p.2 ((Map.get?_ofList_eq_some_iff _ (hkeys ▸ hnodup) _ _).mpr hp)
  · intro hnot entry hsome
    exact hnot (List.mem_map.mpr ⟨_, Map.mem_of_get?_ofList hsome, rfl⟩)

/-- Every record and every key is short enough for its size field, no CRC-32 is 0, and the last
record begins where an offset can point to. -/
def Readable (entries : List KeyValueEntry) : Prop :=
  (∀ e ∈ entries, Storable e.memTableEntry ∧ (buildKey e.tenantID e.key).utf8ByteSize < 2 ^ 31) ∧
    (dataOf (entries.dropLast.map KeyValueEntry.memTableEntry)).length < 2 ^ 63

instance (entries : List KeyValueEntry) : Decidable (Readable entries) :=
  inferInstanceAs (Decidable (_ ∧ _))

theorem readsBack_of_readable
    (hw : (SSTableWriter.new params).bind
      (fun w => w.writeAll (entries.map KeyValueEntry.memTableEntry)) = .ok w)
    (htenant : ∀ e ∈ entries, ':' ∉ e.tenantID.toList)
    (hdistinct : (entries.map fun e => buildKey e.tenantID e.key).Nodup)
    (hreadable : Readable entries) : ReadsBack w.finalize entries := by
  obtain ⟨hstorable, hlast⟩ := hreadable
  have hshort : ∀ m ∈ entries.map KeyValueEntry.memTableEntry, m.key.utf8ByteSize < 2 ^ 31 := by
    intro m hm
    obtain ⟨e, he, rfl⟩ := List.mem_map.mp hm
    exact (hstorable e he).2
  rw [← map_key_memTableEntry] at hdistinct
  refine ⟨_, new_finalize hw hshort, ?_, ?_, ?_⟩
  · intro e he
    obtain ⟨pre, post, rfl⟩ := List.append_of_mem he
    rw [List.dropLast_append_cons, List.map_append, dataOf_append, List.length_append] at hlast
    rw [List.map_append, List.map_cons] at hdistinct ⊢
    have hget := get_of_storable hdistinct (by omega) (hstorable e he).1
    rw [toKeyValueEntry_memTableEntry (htenant e he)] at hget
    exact hget
  · intro key hkey
    rw [← map_key_memTableEntry] at hkey
    exact get_of_not_mem hkey
  · intro order
    refine (order.perm _).trans ((perm_keys_index _ hdistinct).trans ?_)
    rw [List.map_map]
    exact .refl _

theorem storable_of_get {pre post : List MemTableEntry} {e : MemTableEntry}
    {found : Option KeyValueEntry} (hnd : ((pre ++ e :: post).map MemTableEntry.key).Nodup)
    (hoffset : (dataOf pre).length < 2 ^ 63)
    (h : SSTableReader.get
      { dataFile := dataOf (pre ++ e :: post)
        index := Map.ofList ((indexFrom 0 (pre ++ e :: post)).map fun e => (e.key, e)) } e.key =
      .ok found) : Storable e := by
  rw [get_split hnd, int64_eq_self (by omega) (by omega)] at h
  cases hrecord : readRecord (dataOf pre ++ (record e ++ dataOf post)) e.key
      (indexEntry (dataOf pre).length e) with
  | error fault =>
    rw [hrecord] at h
    cases h
  | ok m => exact storable_of_readRecord hrecord

/-- An offset from 2⁶³ on is negative as an `int64`, where the reader cannot go. -/
theorem offset_lt_of_get {pre post : List MemTableEntry} {e : MemTableEntry}
    {found : Option KeyValueEntry} (hnd : ((pre ++ e :: post).map MemTableEntry.key).Nodup)
    (hoffset : (dataOf pre).length < 2 ^ 64)
    (h : SSTableReader.get
      { dataFile := dataOf (pre ++ e :: post)
        index := Map.ofList ((indexFrom 0 (pre ++ e :: post)).map fun e => (e.key, e)) } e.key =
      .ok found) : (dataOf pre).length < 2 ^ 63 := by
  by_contra hlong
  have hwrap : int64 (dataOf pre).length = (dataOf pre).length - 2 ^ 64 := by
    unfold int64 wrapInt
    rw [Int.bmod_def]
    split <;> omega
  have hneg : (indexEntry (int64 (dataOf pre).length) e).offset < 0 := by
    simp only [indexEntry, hwrap]
    omega
  rw [get_split hnd, readRecord, if_pos hneg] at h
  cases h

/-- If every key is found, then from the first record on, one record after the other begins where
an offset can point to. -/
theorem storable_of_gets {entries : List MemTableEntry}
    (hnd : (entries.map MemTableEntry.key).Nodup)
    (h : ∀ e ∈ entries, ∃ found, SSTableReader.get
      { dataFile := dataOf entries
        index := Map.ofList ((indexFrom 0 entries).map fun e => (e.key, e)) } e.key = .ok found) :
    ∀ pre e post, entries = pre ++ e :: post → (dataOf pre).length < 2 ^ 63 ∧ Storable e := by
  intro pre
  induction pre using List.reverseRecOn with
  | nil =>
    rintro e post rfl
    obtain ⟨found, hfound⟩ := h e (by simp)
    have hoffset : (dataOf []).length < 2 ^ 63 := by decide
    exact ⟨hoffset, storable_of_get hnd hoffset hfound⟩
  | append_singleton pre e' ih =>
    intro e post hsplit
    obtain ⟨hbefore, -, hlength⟩ := ih e' (e :: post) (by simpa using hsplit)
    subst hsplit
    obtain ⟨found, hfound⟩ := h e (by simp)
    have hnear : (dataOf (pre ++ [e'])).length < 2 ^ 64 := by
      rw [dataOf_append, List.length_append, dataOf_cons, List.length_append, length_record]
      change _ + (_ + 0) < _
      omega
    have hoffset := offset_lt_of_get hnd hnear hfound
    exact ⟨hoffset, storable_of_get hnd hoffset hfound⟩

theorem readable_of_readsBack
    (hw : (SSTableWriter.new params).bind
      (fun w => w.writeAll (entries.map KeyValueEntry.memTableEntry)) = .ok w)
    (hdistinct : (entries.map fun e => buildKey e.tenantID e.key).Nodup)
    (h : ReadsBack w.finalize entries) : Readable entries := by
  obtain ⟨r, hr, hget, -, hkeys⟩ := h
  -- all keys are in the index, so they are short
  have hshort : ∀ e ∈ entries, (buildKey e.tenantID e.key).utf8ByteSize < 2 ^ 31 := by
    intro e he
    have hmem : utf8 (buildKey e.tenantID e.key) ∈ r.index.keys :=
      (hkeys (.asHeld _)).mem_iff.mpr (List.mem_map_of_mem he)
    cases hentry : r.index.get? (utf8 (buildKey e.tenantID e.key)) with
    | none => exact absurd hmem ((Map.get?_eq_none_iff _ _).mp hentry)
    | some entry => exact length_of_new hr _ entry hentry
  have hshort' : ∀ m ∈ entries.map KeyValueEntry.memTableEntry, m.key.utf8ByteSize < 2 ^ 31 := by
    intro m hm
    obtain ⟨e, he, rfl⟩ := List.mem_map.mp hm
    exact hshort e he
  rw [new_finalize hw hshort'] at hr
  obtain rfl := Except.ok.inj hr
  rw [← map_key_memTableEntry] at hdistinct
  have hplaced := storable_of_gets hdistinct fun m hm => by
    obtain ⟨e, he, rfl⟩ := List.mem_map.mp hm
    exact ⟨some e, hget e he⟩
  refine ⟨fun e he => ⟨?_, hshort e he⟩, ?_⟩
  · obtain ⟨pre, post, hsplit⟩ := List.append_of_mem (List.mem_map_of_mem he)
    exact (hplaced pre _ post hsplit).2
  · rcases List.eq_nil_or_concat' entries with rfl | ⟨init, last, rfl⟩
    · decide
    · rw [List.dropLast_concat]
      exact (hplaced _ last.memTableEntry [] (by simp)).1

/--
**Reading a table back.** Entries with distinct composite keys, whose tenants have no colon, are
written to a table. A reader finds exactly them if and only if no CRC-32 is 0 and all sizes and
offsets fit into their fields.
-/
theorem readsBack_iff
    (hw : (SSTableWriter.new params).bind
      (fun w => w.writeAll (entries.map KeyValueEntry.memTableEntry)) = .ok w)
    (htenant : ∀ e ∈ entries, ':' ∉ e.tenantID.toList)
    (hdistinct : (entries.map fun e => buildKey e.tenantID e.key).Nodup) :
    ReadsBack w.finalize entries ↔ Readable entries :=
  ⟨readable_of_readsBack hw hdistinct, readsBack_of_readable hw htenant hdistinct⟩

end

namespace Sample

/-- Two entries of two tenants, one of them a tombstone. -/
def twoTenants : List KeyValueEntry :=
  [⟨"s", "k", some [1, 2], ⟨[⟨"n1", 1⟩]⟩, 5, false⟩, ⟨"t", "k", none, ⟨[]⟩, 6, true⟩]

/-- The CRC-32 of the text of this entry is 0. -/
def zeroChecksum : KeyValueEntry := ⟨"t", "k", some [1], ⟨[]⟩, 15948082781, false⟩

/-- The writer after all entries. -/
def written (entries : List KeyValueEntry) : Except Fault SSTableWriter :=
  (SSTableWriter.new ⟨8, 1⟩).bind fun w => w.writeAll (entries.map KeyValueEntry.memTableEntry)

theorem written_eq_ok {entries : List KeyValueEntry}
    (h : (written entries).toOption.isSome = true) : ∃ w, written entries = .ok w := by
  cases hw : written entries with
  | error fault =>
    rw [hw] at h
    cases h
  | ok w => exact ⟨w, rfl⟩

end Sample

open Sample in
set_option maxRecDepth 10000 in
theorem readsBack_twoTenants :
    ∃ w, written twoTenants = .ok w ∧ ReadsBack w.finalize twoTenants := by
  have hreadable : Readable twoTenants := by decide +kernel
  obtain ⟨w, hw⟩ := @written_eq_ok twoTenants (by decide +kernel)
  exact ⟨w, hw, (readsBack_iff hw (by decide) (by decide)).mpr hreadable⟩

open Sample in
set_option maxRecDepth 10000 in
/-- The four zero bytes of the checksum are read as the beginning of the text. -/
theorem zeroChecksum_not_read :
    ∃ w, written [zeroChecksum] = .ok w ∧ ¬ ReadsBack w.finalize [zeroChecksum] ∧
      ((SSTableReader.new w.finalize).bind fun r => r.get "t:k") =
        .error (.err "failed to unmarshal entry") := by
  have hfault : ((written [zeroChecksum]).bind fun w =>
      (SSTableReader.new w.finalize).bind fun r => r.get "t:k") =
        .error (.err "failed to unmarshal entry") := by
    decide +kernel
  obtain ⟨w, hw⟩ := @written_eq_ok [zeroChecksum] (by decide +kernel)
  rw [hw] at hfault
  refine ⟨w, hw, ?_, hfault⟩
  rintro ⟨r, hr, hget, -⟩
  have hread := hget zeroChecksum (by simp)
  change (SSTableReader.new w.finalize).bind _ = _ at hfault
  rw [hr] at hfault
  exact absurd (hread.symm.trans hfault) (by decide)

end PairDB.StorageNode
