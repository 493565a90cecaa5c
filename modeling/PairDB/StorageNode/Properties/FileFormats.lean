import PairDB.StorageNode.Properties.FilteredLookup

/-!
# The files of a table, whatever is in them

* `keeps_added_and_stored`: a Bloom filter has no false negatives, in memory and on disk.
* `loadIndex_eq_ok_iff`: which files `loadIndex` accepts, and what it makes of them. Only the last
  entry of a file may lack the checksum.
* `oldIndex_readable_iff`: so of the older files, in which no entry has one, those with more than one
  entry cannot be read. What follows an entry there is the key length of the next one, and it is
  taken for a checksum.
* `corrupt_files_iff`: which files make a lookup panic. All lengths come from the files, with a sign.
-/

namespace PairDB.StorageNode

open Infra

/-- The call does not return. -/
def Panics {α : Type} : Except Fault α → Prop
  | .error (.panic _) => True
  | .error (.err _) => False
  | .ok _ => False

instance {α : Type} : (x : Except Fault α) → Decidable (Panics x)
  | .error (.panic _) => .isTrue trivial
  | .error (.err _) => .isFalse id
  | .ok _ => .isFalse id

@[simp] theorem not_panics_ok {α : Type} (a : α) : ¬ Panics (.ok a : Except Fault α) := id

@[simp] theorem not_panics_err {α : Type} (message : String) :
    ¬ Panics (.error (.err message) : Except Fault α) := id

theorem panics_bind_iff {α β : Type} {x : Except Fault α} {f : α → Except Fault β} :
    Panics (x.bind f) ↔ Panics x ∨ ∃ a, x = .ok a ∧ Panics (f a) := by
  cases x with
  | error e => cases e <;> simp [Except.bind, Panics]
  | ok a => simp [Except.bind]

theorem panics_map_iff {α β : Type} {x : Except Fault α} {f : α → β} :
    Panics (x.map f) ↔ Panics x := by
  cases x with
  | error e => cases e <;> rfl
  | ok a => rfl

/-! ## Bloom filters -/

namespace BloomFilter

/-- A filter that the program can have in memory. -/
inductive Made : BloomFilter → Prop
  | new {params : BloomParams} {bf : BloomFilter} (h : new params = .ok bf) : Made bf
  | add {bf bf' : BloomFilter} {key : String} (hmade : Made bf) (h : bf.add key = .ok bf') : Made bf'
  | load {file : Bytes} {bf : BloomFilter} (h : load file = .ok bf) : Made bf

theorem size_load {file : Bytes} {bf : BloomFilter} (h : load file = .ok bf) :
    bf.size.toNat ≤ maxAlloc := by
  unfold load at h
  split at h
  · cases h
  · split at h
    · cases h
    · dsimp only at h
      split at h
      · cases h
      · split at h
        · cases h
        · split at h
          · cases h
          · next hle =>
            cases h
            exact not_lt.mp hle

/-- The bits of a filter have been allocated. -/
theorem Made.size_le {bf : BloomFilter} (h : Made bf) : bf.size.toNat ≤ maxAlloc := by
  induction h with
  | new h => exact (size_new h).2
  | add _ h ih =>
    rw [(add_spec h).1]
    exact ih
  | load h => exact size_load h

theorem exists_addAll {bf : BloomFilter} (hcount : 8 * bf.hashCount.toNat ≤ maxAlloc)
    (hsize : bf.size ≠ 0) (keys : List String) : ∃ bf', bf.addAll keys = .ok bf' := by
  induction keys generalizing bf with
  | nil => exact ⟨bf, rfl⟩
  | cons key keys ih =>
    obtain ⟨bf₁, hadd⟩ : ∃ bf₁, bf.add key = .ok bf₁ := by
      rw [add, positions_eq_ok_iff.mpr ⟨⟨hcount, fun h => absurd h hsize⟩, rfl⟩]
      exact ⟨_, rfl⟩
    obtain ⟨hsize₁, hcount₁, -⟩ := add_spec hadd
    rw [addAll, hadd]
    exact ih (by rwa [hcount₁]) (by rwa [hsize₁])

/-- **No false negatives.** A key that was added is found; the adding goes through as long as the
arrays can be allocated; and a filter is read back from its file as it was. -/
theorem keeps_added_and_stored :
    (∀ (params : BloomParams) (bf bf' : BloomFilter) (keys : List String),
      1 ≤ params.size → 1 ≤ params.hashCount → new params = .ok bf →
      bf.addAll keys = .ok bf' → ∀ key ∈ keys, bf'.mayContain key = .ok true) ∧
    (∀ (params : BloomParams) (keys : List String),
      1 ≤ params.size → 1 ≤ params.hashCount → params.size.toNat ≤ maxAlloc →
      8 * params.hashCount.toNat ≤ maxAlloc →
      ∃ bf bf', new params = .ok bf ∧ bf.addAll keys = .ok bf') ∧
    ∀ bf : BloomFilter, Made bf → ∃ bf', load bf.writeTo = .ok bf' ∧ bf'.size = bf.size ∧
      bf'.hashCount = bf.hashCount ∧ bf'.bits = bf.bits ∧
      ∀ key, bf'.mayContain key = bf.mayContain key := by
  refine ⟨fun params bf bf' keys _ _ _ hadd key hmem => mayContain_addAll keys hmem hadd,
    fun params keys hsize hcount halloc hhashes => ?_,
    fun bf hmade => ⟨bf, load_writeTo bf hmade.size_le, rfl, rfl, rfl, fun _ => rfl⟩⟩
  have hzero : params.hashCount ≠ 0 := by
    rintro h
    rw [h] at hcount
    revert hcount
    decide
  have hnonzero : params.size ≠ 0 := by
    rintro h
    rw [h] at hsize
    revert hsize
    decide
  obtain ⟨bf, hnew⟩ : ∃ bf, new params = .ok bf := by
    rw [new, if_neg (not_lt.mpr halloc)]
    exact ⟨_, rfl⟩
  have hparams : bf.hashCount = params.hashCount := by
    rw [new, if_neg (not_lt.mpr halloc)] at hnew
    cases hnew
    exact if_neg hzero
  obtain ⟨bf', hadd⟩ := @exists_addAll bf (by rwa [hparams])
    (by rwa [(size_new hnew).1]) keys
  exact ⟨bf, bf', hnew, hadd⟩

end BloomFilter

/-! ## The index file -/

namespace SSTableReader

open SSTableWriter

/-- `writeIndexEntry` of the earlier version, without a checksum. -/
def writeOldIndexEntry (entry : IndexEntry) : Bytes :=
  intToLE 4 (int32 entry.key.length) ++
    (entry.key ++ (intToLE 8 entry.offset ++ intToLE 4 entry.size))

theorem writeIndexEntry_eq (entry : IndexEntry) :
    writeIndexEntry entry = writeOldIndexEntry entry ++ toLE 4 entry.checksum.toNat := by
  simp only [writeIndexEntry, writeOldIndexEntry, List.append_assoc]

theorem length_writeOldIndexEntry (entry : IndexEntry) :
    (writeOldIndexEntry entry).length = entry.key.length + 16 := by
  simp only [writeOldIndexEntry, List.length_append, length_intToLE]
  omega

/-- The file is made of these entries. The last one may lack the checksum. -/
inductive Encodes : List IndexEntry → Bytes → Prop
  | nil : Encodes [] []
  | older {entry : IndexEntry} (hfits : Fits entry) (hchecksum : entry.checksum = 0) :
      Encodes [entry] (writeOldIndexEntry entry)
  | cons {entry : IndexEntry} {entries : List IndexEntry} {bs : Bytes} (hfits : Fits entry)
      (hrest : Encodes entries bs) : Encodes (entry :: entries) (writeIndexEntry entry ++ bs)

/-- No entry is made of no bytes. -/
theorem eq_nil_of_encodes_nil {entries : List IndexEntry} (h : Encodes entries []) :
    entries = [] := by
  generalize hnil : ([] : Bytes) = bs at h
  have hlen := congrArg List.length hnil
  cases h with
  | nil => rfl
  | older _ _ =>
    rw [length_writeOldIndexEntry, List.length_nil] at hlen
    omega
  | cons _ _ =>
    rw [writeIndexEntry_eq, List.length_append, List.length_append, length_writeOldIndexEntry,
      List.length_nil] at hlen
    omega

theorem makeSlice_eq_ok_iff {x : Int} {n : Nat} :
    makeSlice x = .ok n ↔ x = n ∧ n ≤ maxAlloc := by
  constructor
  · intro h
    refine ⟨(makeSlice_eq_ok h).symm, ?_⟩
    unfold makeSlice at h
    split at h
    · cases h
    · cases h
      omega
  · rintro ⟨rfl, hle⟩
    rw [makeSlice, if_neg (by omega), Int.toNat_natCast]

theorem readIndexChecksum_eq_ok_iff {bs rest : Bytes} {checksum : UInt32} :
    readIndexChecksum bs = .ok (checksum, rest) ↔
      bs = toLE 4 checksum.toNat ++ rest ∨ (checksum = 0 ∧ bs = [] ∧ rest = []) := by
  constructor
  · intro h
    unfold readIndexChecksum at h
    split at h
    · next c rest' hread =>
      obtain ⟨hlt, rfl⟩ := readUint_eq_ok_iff.mp hread
      cases h
      refine Or.inl ?_
      rw [UInt32.toNat_ofNat', Nat.mod_eq_of_lt (show c < 2 ^ 32 from hlt)]
    · next hread =>
      cases h
      exact Or.inr ⟨rfl, (readUint_eq_error hread).2.mp rfl, rfl⟩
    · cases h
  · rintro (rfl | ⟨rfl, rfl, rfl⟩)
    · rw [readIndexChecksum, readUint_checksum]
      simp only [UInt32.ofNat_toNat]
    · rfl

/-- What `readIndexEntry` accepts. -/
theorem readIndexEntry_eq_ok_iff {keyLen : Int} {bs rest : Bytes} {entry : IndexEntry} :
    readIndexEntry keyLen bs = .ok (entry, rest) ↔
      keyLen = entry.key.length ∧ entry.key.length ≤ maxAlloc ∧
      int64 entry.offset = entry.offset ∧ int32 entry.size = entry.size ∧
      ∃ tail, bs = entry.key ++ (intToLE 8 entry.offset ++ (intToLE 4 entry.size ++ tail)) ∧
        (tail = toLE 4 entry.checksum.toNat ++ rest ∨
          (entry.checksum = 0 ∧ tail = [] ∧ rest = [])) := by
  constructor
  · intro h
    obtain ⟨n, hslice, h⟩ := Validator.bind_eq_ok h
    obtain ⟨⟨key, bs₁⟩, hkey, h⟩ := Validator.bind_eq_ok h
    obtain ⟨⟨offset, bs₂⟩, hoffset, h⟩ := Validator.bind_eq_ok h
    obtain ⟨⟨size, bs₃⟩, hsize, h⟩ := Validator.bind_eq_ok h
    obtain ⟨⟨checksum, bs₄⟩, hchecksum, h⟩ := Validator.bind_eq_ok h
    cases h
    obtain ⟨rfl, hle⟩ := makeSlice_eq_ok_iff.mp hslice
    obtain ⟨rfl, rfl⟩ := readFull_eq_ok_iff.mp (eq_ok_of_wrapRead hkey)
    obtain ⟨hoff, rfl⟩ := readInt_eq_ok_iff.mp (eq_ok_of_wrapRead hoffset)
    obtain ⟨hsz, rfl⟩ := readInt_eq_ok_iff.mp (eq_ok_of_wrapRead hsize)
    exact ⟨rfl, hle, hoff, hsz, bs₃, rfl, readIndexChecksum_eq_ok_iff.mp hchecksum⟩
  · rintro ⟨rfl, hle, hoffset, hsize, tail, rfl, htail⟩
    have hchecksum := readIndexChecksum_eq_ok_iff.mpr htail
    simp only [readIndexEntry, makeSlice_eq_ok_iff.mpr ⟨rfl, hle⟩, Except.bind, readFull_append,
      wrapRead, readInt_intToLE_append (w := 8) hoffset, readInt_intToLE_append (w := 4) hsize,
      hchecksum]

theorem le_maxAlloc_of_lt {n : Nat} (h : n < 2 ^ 31) : n ≤ maxAlloc := by
  unfold maxAlloc
  omega

/-- One round of `loadIndex` on an entry of the file. -/
theorem loadIndex_round {fuel : Nat} {entry : IndexEntry} (hfits : Fits entry) {tail rest : Bytes}
    (htail : tail = toLE 4 entry.checksum.toNat ++ rest ∨
      (entry.checksum = 0 ∧ tail = [] ∧ rest = [])) (index : Map Bytes IndexEntry) :
    loadIndex (fuel + 1) (writeOldIndexEntry entry ++ tail) index =
      loadIndex fuel rest (index.set entry.key entry) := by
  obtain ⟨hkey, hoffset, hsize⟩ := hfits
  have hlen : readInt 4 (writeOldIndexEntry entry ++ tail) =
      .ok ((entry.key.length : Int), entry.key ++ (intToLE 8 entry.offset ++
        (intToLE 4 entry.size ++ tail))) := by
    refine readInt_eq_ok_iff.mpr ⟨int32_natCast hkey, ?_⟩
    rw [writeOldIndexEntry, int32_natCast hkey]
    simp only [List.append_assoc]
  have hentry := readIndexEntry_eq_ok_iff.mpr
    ⟨rfl, le_maxAlloc_of_lt hkey, hoffset, hsize, tail, rfl, htail⟩
  rw [loadIndex, hlen]
  simp only [hentry, Except.bind]

/-- A round of `loadIndex` that reads an entry. -/
theorem loadIndex_round_cases {bs bs' rest : Bytes} {keyLen : Int} {entry : IndexEntry}
    (hlen : readInt 4 bs = .ok (keyLen, bs')) (hentry : readIndexEntry keyLen bs' = .ok (entry, rest)) :
    Fits entry ∧ (bs = writeIndexEntry entry ++ rest ∨
      (entry.checksum = 0 ∧ bs = writeOldIndexEntry entry ∧ rest = [])) := by
  have hlt := readInt_four_lt hlen
  obtain ⟨-, rfl⟩ := readInt_eq_ok_iff.mp hlen
  obtain ⟨rfl, -, hoffset, hsize, tail, rfl, htail⟩ := readIndexEntry_eq_ok_iff.mp hentry
  have hkey : entry.key.length < 2 ^ 31 := by omega
  refine ⟨⟨hkey, hoffset, hsize⟩, ?_⟩
  rcases htail with rfl | ⟨hchecksum, rfl, rfl⟩
  · refine Or.inl ?_
    rw [writeIndexEntry, int32_natCast hkey]
    simp only [List.append_assoc]
  · refine Or.inr ⟨hchecksum, ?_, rfl⟩
    rw [writeOldIndexEntry, int32_natCast hkey, List.append_nil]

/-- **Which files `loadIndex` accepts,** and what it makes of them. -/
theorem loadIndex_eq_ok_iff {fuel : Nat} {bs : Bytes} (hfuel : bs.length < fuel)
    {index index' : Map Bytes IndexEntry} : loadIndex fuel bs index = .ok index' ↔
      ∃ entries, Encodes entries bs ∧
        index' = entries.foldl (fun m e => m.set e.key e) index := by
  constructor
  · induction fuel generalizing bs index with
    | zero => omega
    | succ fuel ih =>
      intro h
      unfold loadIndex at h
      cases hlen : readInt 4 bs with
      | error e =>
        rw [hlen] at h
        cases e with
        | eof =>
          cases h
          obtain rfl := (readInt_eq_error hlen).2.mp rfl
          exact ⟨[], .nil, rfl⟩
        | unexpectedEOF => cases h
      | ok p =>
        obtain ⟨keyLen, bs'⟩ := p
        rw [hlen] at h
        obtain ⟨⟨entry, rest⟩, hentry, h⟩ := Validator.bind_eq_ok h
        obtain ⟨hfits, rfl | ⟨hchecksum, rfl, rfl⟩⟩ := loadIndex_round_cases hlen hentry
        · have hshort : rest.length < fuel := by
            rw [writeIndexEntry_eq, List.length_append, List.length_append,
              length_writeOldIndexEntry] at hfuel
            omega
          obtain ⟨entries, henc, hindex⟩ := ih hshort h
          exact ⟨entry :: entries, .cons hfits henc, hindex⟩
        · -- nothing is left after an entry without a checksum
          rw [length_writeOldIndexEntry] at hfuel
          obtain ⟨entries, henc, hindex⟩ := ih (by simp; omega) h
          obtain rfl := eq_nil_of_encodes_nil henc
          exact ⟨[entry], .older hfits hchecksum, hindex⟩
  · rintro ⟨entries, henc, rfl⟩
    induction henc generalizing fuel index with
    | nil =>
      obtain ⟨fuel, rfl⟩ : ∃ k, fuel = k + 1 := ⟨fuel - 1, by omega⟩
      rfl
    | @older entry hfits hchecksum =>
      rw [length_writeOldIndexEntry] at hfuel
      obtain ⟨fuel, rfl⟩ : ∃ k, fuel = k + 1 + 1 := ⟨fuel - 2, by omega⟩
      have hround := @loadIndex_round (fuel + 1) entry hfits _ _
        (Or.inr ⟨hchecksum, rfl, rfl⟩ : _ ∨ (_ ∧ [] = [] ∧ [] = [])) index
      rw [List.append_nil] at hround
      rw [hround]
      rfl
    | @cons entry entries bs hfits hrest ih =>
      rw [writeIndexEntry_eq, List.length_append, List.length_append,
        length_writeOldIndexEntry] at hfuel
      obtain ⟨fuel, rfl⟩ : ∃ k, fuel = k + 1 := ⟨fuel - 1, by omega⟩
      rw [writeIndexEntry_eq, List.append_assoc, loadIndex_round hfits (Or.inl rfl)]
      exact ih (by omega)

/-! ## Files of the earlier version -/

/-- An index file of the earlier version. -/
def oldIndex (entries : List IndexEntry) : Bytes := entries.flatMap writeOldIndexEntry

/-- `loadIndex` reads the file of these entries, with checksum 0. -/
def ReadsOldIndex (entries : List IndexEntry) : Prop :=
  ∃ index, loadIndex ((oldIndex entries).length + 1) (oldIndex entries) ∅ = .ok index ∧
    ∀ e ∈ entries, index.get? e.key = some { e with checksum := 0 }

theorem fits_of_encodes {entries : List IndexEntry} {bs : Bytes} (h : Encodes entries bs) :
    ∀ e ∈ entries, Fits e := by
  induction h with
  | nil => simp
  | older hfits _ => simpa using hfits
  | cons hfits _ ih =>
    rw [List.forall_mem_cons]
    exact ⟨hfits, ih⟩

/-- Every entry but the last takes 20 bytes beside its key. -/
theorem sum_le_of_encodes {entries : List IndexEntry} {bs : Bytes} (h : Encodes entries bs) :
    ((entries.map IndexEntry.key).map fun key => key.length + 20).sum ≤ bs.length + 4 := by
  induction h with
  | nil => simp
  | older hfits _ =>
    rw [length_writeOldIndexEntry]
    simp
  | cons hfits _ ih =>
    rw [writeIndexEntry_eq, List.length_append, List.length_append, length_writeOldIndexEntry,
      length_toLE, List.map_cons, List.map_cons, List.sum_cons]
    omega

theorem length_oldIndex (entries : List IndexEntry) :
    (oldIndex entries).length + 4 * entries.length =
      ((entries.map IndexEntry.key).map fun key => key.length + 20).sum := by
  induction entries with
  | nil => rfl
  | cons e entries ih =>
    rw [oldIndex] at ih
    rw [oldIndex, List.flatMap_cons, List.length_append, length_writeOldIndexEntry, List.map_cons,
      List.map_cons, List.sum_cons, List.length_cons, ← ih]
    omega

theorem mem_keys_of_get?_foldl {entries : List IndexEntry} {key : Bytes} {e : IndexEntry}
    (h : (entries.foldl (fun m e => m.set e.key e) (∅ : Map Bytes IndexEntry)).get? key = some e) :
    key ∈ entries.map IndexEntry.key := by
  rw [foldl_set_eq_ofList] at h
  obtain ⟨e', he', heq⟩ := List.mem_map.mp (Map.mem_of_get?_ofList h)
  exact List.mem_map.mpr ⟨e', he', congrArg Prod.fst heq⟩

/-- **When an older index file can be read.** It has at most one entry, and the length of the key
fits into its field. -/
theorem oldIndex_readable_iff {entries : List IndexEntry}
    (hdistinct : (entries.map IndexEntry.key).Nodup)
    (hfields : ∀ e ∈ entries, int64 e.offset = e.offset ∧ int32 e.size = e.size) :
    ReadsOldIndex entries ↔ entries.length ≤ 1 ∧ ∀ e ∈ entries, e.key.length < 2 ^ 31 := by
  constructor
  · rintro ⟨index, hload, hread⟩
    obtain ⟨es, henc, rfl⟩ := (loadIndex_eq_ok_iff (Nat.lt_succ_self _)).mp hload
    have hkeys : ∀ e ∈ entries, e.key ∈ es.map IndexEntry.key := fun e he =>
      mem_keys_of_get?_foldl (hread e he)
    -- all keys take their bytes in what was read, with a checksum each but for the last
    have hsubset : entries.map IndexEntry.key ⊆ es.map IndexEntry.key := fun key hkey => by
      obtain ⟨e, he, rfl⟩ := List.mem_map.mp hkey
      exact hkeys e he
    have hsum : ((entries.map IndexEntry.key).map fun key => key.length + 20).sum ≤
        ((es.map IndexEntry.key).map fun key => key.length + 20).sum := by
      obtain ⟨l, hperm, hsub⟩ := hdistinct.subperm hsubset
      rw [← (hperm.map _).sum_eq]
      exact (hsub.map _).sum_le_sum fun _ _ => Nat.zero_le _
    have hbytes := sum_le_of_encodes henc
    have htotal := length_oldIndex entries
    refine ⟨by omega, fun e he => ?_⟩
    obtain ⟨e', he', hkey⟩ := List.mem_map.mp (hkeys e he)
    rw [← hkey]
    exact (fits_of_encodes henc e' he').1
  · rintro ⟨hone, hshort⟩
    match entries, hone with
    | [], _ => exact ⟨∅, rfl, by simp⟩
    | [e], _ =>
      have hfits : Fits { e with checksum := 0 } := ⟨hshort e (by simp), hfields e (by simp)⟩
      have henc : Encodes [{ e with checksum := 0 }] (oldIndex [e]) := by
        rw [oldIndex, List.flatMap_singleton]
        exact .older hfits rfl
      refine ⟨_, (loadIndex_eq_ok_iff (Nat.lt_succ_self _)).mpr ⟨_, henc, rfl⟩, ?_⟩
      simp [Map.get?_set]

/-! ## Negative lengths -/

@[simp] theorem not_panics_wrapRead {α : Type} (what : String) (x : Except ReadError α) :
    ¬ Panics (wrapRead what x) := by
  cases x <;> exact id

theorem panics_makeSlice_iff {n : Int} (hlt : n < 2 ^ 31) : Panics (makeSlice n) ↔ n < 0 := by
  constructor
  · intro h
    cases hslice : makeSlice n with
    | error fault => exact negative_of_makeSlice hlt hslice
    | ok m =>
      rw [hslice] at h
      exact absurd h (not_panics_ok m)
  · intro hneg
    rw [makeSlice_of_negative hneg]
    trivial

/-- After some whole entries of an index comes a negative key length. -/
inductive NegativeKeyLength : Bytes → Prop
  | here {keyLen : Int} {rest : Bytes} (hneg : keyLen < 0) (hint : int32 keyLen = keyLen) :
      NegativeKeyLength (intToLE 4 keyLen ++ rest)
  | later {entry : IndexEntry} {bs : Bytes} (hfits : Fits entry) (h : NegativeKeyLength bs) :
      NegativeKeyLength (writeIndexEntry entry ++ bs)

theorem not_panics_readIndexChecksum (bs : Bytes) : ¬ Panics (readIndexChecksum bs) := by
  unfold readIndexChecksum
  split <;> exact id

theorem panics_readIndexEntry_iff {keyLen : Int} (hlt : keyLen < 2 ^ 31) (bs : Bytes) :
    Panics (readIndexEntry keyLen bs) ↔ keyLen < 0 := by
  simp only [readIndexEntry, panics_bind_iff, not_panics_wrapRead, not_panics_readIndexChecksum,
    not_panics_ok, panics_makeSlice_iff hlt, and_false, exists_false, or_false]

theorem four_le_length {bs : Bytes} (h : NegativeKeyLength bs) : 4 ≤ bs.length := by
  cases h with
  | here _ _ => simp
  | later _ _ =>
    rw [writeIndexEntry_eq, List.length_append, List.length_append, length_writeOldIndexEntry]
    omega

theorem panics_loadIndex_iff {fuel : Nat} {bs : Bytes} (hfuel : bs.length < fuel)
    (index : Map Bytes IndexEntry) : Panics (loadIndex fuel bs index) ↔ NegativeKeyLength bs := by
  constructor
  · induction fuel generalizing bs index with
    | zero => omega
    | succ fuel ih =>
      intro h
      unfold loadIndex at h
      cases hlen : readInt 4 bs with
      | error e =>
        rw [hlen] at h
        cases e <;> exact absurd h id
      | ok p =>
        obtain ⟨keyLen, bs'⟩ := p
        rw [hlen] at h
        rcases panics_bind_iff.mp h with hpanic | ⟨⟨entry, rest⟩, hentry, h⟩
        · have hneg := (panics_readIndexEntry_iff (readInt_four_lt hlen) bs').mp hpanic
          obtain ⟨hint, rfl⟩ := readInt_eq_ok_iff.mp hlen
          exact .here hneg hint
        · obtain ⟨hfits, rfl | ⟨-, rfl, rfl⟩⟩ := loadIndex_round_cases hlen hentry
          · rw [writeIndexEntry_eq, List.length_append, List.length_append,
              length_writeOldIndexEntry] at hfuel
            exact .later hfits (ih (by omega) _ h)
          · rw [length_writeOldIndexEntry] at hfuel
            have hshort := four_le_length (ih (by simp; omega) _ h)
            simp at hshort
  · intro hneg
    induction hneg generalizing fuel index with
    | @here keyLen rest hneg hint =>
      obtain ⟨fuel, rfl⟩ : ∃ k, fuel = k + 1 := ⟨fuel - 1, by omega⟩
      have hlen : readInt 4 (intToLE 4 keyLen ++ rest) = .ok (keyLen, rest) :=
        readInt_eq_ok_iff.mpr ⟨hint, rfl⟩
      rw [loadIndex, hlen]
      exact panics_bind_iff.mpr (Or.inl
        ((panics_readIndexEntry_iff (readInt_four_lt hlen) rest).mpr hneg))
    | @later entry bs hfits _ ih =>
      rw [writeIndexEntry_eq, List.length_append, List.length_append,
        length_writeOldIndexEntry] at hfuel
      obtain ⟨fuel, rfl⟩ : ∃ k, fuel = k + 1 := ⟨fuel - 1, by omega⟩
      rw [writeIndexEntry_eq, List.append_assoc, loadIndex_round hfits (Or.inl rfl)]
      exact ih (by omega) _

/-- The index entry leads to a record with a negative size. -/
def NegativeSize (data : Bytes) (entry : IndexEntry) : Prop :=
  0 ≤ entry.offset ∧ ∃ size rest, size < 0 ∧ int32 size = size ∧
    data.drop entry.offset.toNat = intToLE 4 size ++ rest ∧
    (entry.checksum ≠ 0 → 4 ≤ rest.length)

theorem not_panics_readChecksum (entry : IndexEntry) (bs : Bytes) :
    ¬ Panics (readChecksum entry bs) := by
  unfold readChecksum
  split
  · rw [panics_map_iff]
    exact not_panics_wrapRead _ _
  · exact id

theorem exists_readChecksum_iff (entry : IndexEntry) (bs : Bytes) :
    (∃ p, readChecksum entry bs = .ok p) ↔ (entry.checksum ≠ 0 → 4 ≤ bs.length) := by
  unfold readChecksum
  by_cases hchecksum : entry.checksum ≠ 0
  · rw [if_pos hchecksum]
    cases hread : readUint 4 bs with
    | error e =>
      have hlen := (readUint_eq_error hread).1
      refine ⟨fun ⟨p, h⟩ => (by cases h), fun h => ?_⟩
      have := h hchecksum
      omega
    | ok p =>
      obtain ⟨-, rfl⟩ := readUint_eq_ok_iff.mp hread
      refine ⟨fun _ _ => ?_, fun _ => ⟨_, rfl⟩⟩
      simp
  · rw [if_neg hchecksum]
    exact ⟨fun _ h => absurd h hchecksum, fun _ => ⟨_, rfl⟩⟩

/-- What follows the allocation in `readRecord` returns. -/
theorem not_panics_readData (entry : IndexEntry) (key : String) (n : Nat) (bs : Bytes)
    (checksum : UInt32) : ¬ Panics
      ((wrapRead "failed to read entry data: " (readFull n bs)).bind fun (data, _) =>
        if entry.checksum ≠ 0 ∧ crc32 data ≠ checksum then
          .error (.err ("checksum validation failed for key " ++ key ++ ": expected " ++
            toString checksum.toNat ++ ", got " ++ toString (crc32 data).toNat))
        else
          match MemTableEntry.unmarshal data with
          | none => .error (.err "failed to unmarshal entry")
          | some memEntry => .ok memEntry) := by
  rw [panics_bind_iff]
  rintro (h | ⟨⟨data, rest⟩, -, h⟩)
  · exact not_panics_wrapRead _ _ h
  · dsimp only at h
    split at h
    · exact h
    · split at h <;> exact h

theorem panics_readRecord_iff (data : Bytes) (key : String) (entry : IndexEntry) :
    Panics (readRecord data key entry) ↔ NegativeSize data entry := by
  unfold readRecord NegativeSize
  by_cases hoffset : entry.offset < 0
  · rw [if_pos hoffset]
    exact iff_of_false (not_panics_err _) fun h => absurd h.1 (not_le.mpr hoffset)
  · rw [if_neg hoffset, and_iff_right (not_lt.mp hoffset)]
    constructor
    · intro h
      rcases panics_bind_iff.mp h with h | ⟨⟨size, rest⟩, hsize, h⟩
      · exact absurd h (not_panics_wrapRead _ _)
      have hread := eq_ok_of_wrapRead hsize
      rcases panics_bind_iff.mp h with h | ⟨p, hchecksum, h⟩
      · exact absurd h (not_panics_readChecksum _ _)
      rcases panics_bind_iff.mp h with h | ⟨n, -, h⟩
      · obtain ⟨hint, hdrop⟩ := readInt_eq_ok_iff.mp hread
        exact ⟨size, rest, (panics_makeSlice_iff (readInt_four_lt hread)).mp h, hint, hdrop,
          (exists_readChecksum_iff entry rest).mp ⟨p, hchecksum⟩⟩
      · exact absurd h (not_panics_readData _ _ _ _ _)
    · rintro ⟨size, rest, hneg, hint, hdrop, hlong⟩
      have hread : readInt 4 (data.drop entry.offset.toNat) = .ok (size, rest) :=
        readInt_eq_ok_iff.mpr ⟨hint, hdrop⟩
      obtain ⟨p, hchecksum⟩ := (exists_readChecksum_iff entry rest).mpr hlong
      rw [hread]
      refine panics_bind_iff.mpr (Or.inr ⟨(size, rest), rfl, ?_⟩)
      refine panics_bind_iff.mpr (Or.inr ⟨p, hchecksum, ?_⟩)
      exact panics_bind_iff.mpr (Or.inl ((panics_makeSlice_iff (readInt_four_lt hread)).mpr hneg))

theorem panics_get_iff (r : SSTableReader) (key : String) : Panics (r.get key) ↔
    ∃ entry, r.index.get? (utf8 key) = some entry ∧ NegativeSize r.dataFile entry := by
  unfold get
  cases r.index.get? (utf8 key) with
  | none => simp
  | some entry => simp [panics_map_iff, panics_readRecord_iff]

/-- The last entry of a key in an index file. -/
def lastEntry (key : Bytes) (entries : List IndexEntry) : Option IndexEntry :=
  (entries.filter fun e => e.key = key).getLast?

theorem get?_foldl_set (entries : List IndexEntry) (key : Bytes) :
    (entries.foldl (fun m e => m.set e.key e) (∅ : Map Bytes IndexEntry)).get? key =
      lastEntry key entries := by
  induction entries using List.reverseRecOn with
  | nil => rfl
  | append_singleton entries e ih =>
    rw [List.foldl_append, List.foldl_cons, List.foldl_nil, Map.get?_set, ih]
    by_cases hkey : e.key = key <;> simp [lastEntry, List.filter_append, hkey]

/-- When `NewSSTableReader` panics, and what it returns otherwise. -/
theorem panics_new_iff (data index : Bytes) (bloom : Option Bytes) :
    Panics (new ⟨some data, some index, bloom⟩) ↔ NegativeKeyLength index := by
  rw [← panics_loadIndex_iff (Nat.lt_succ_self index.length) ∅]
  exact panics_map_iff

theorem new_eq_ok_iff {data index : Bytes} {bloom : Option Bytes} {r : SSTableReader} :
    new ⟨some data, some index, bloom⟩ = .ok r ↔
      ∃ entries, Encodes entries index ∧
        r = ⟨data, entries.foldl (fun m e => m.set e.key e) ∅⟩ := by
  have hload := @loadIndex_eq_ok_iff _ _ (Nat.lt_succ_self index.length) ∅
  show (loadIndex (index.length + 1) index ∅).map _ = .ok r ↔ _
  constructor
  · intro h
    cases hindex : loadIndex (index.length + 1) index ∅ with
    | error e => rw [hindex] at h; cases h
    | ok m =>
      rw [hindex] at h
      cases h
      obtain ⟨entries, henc, rfl⟩ := hload.mp hindex
      exact ⟨entries, henc, rfl⟩
  · rintro ⟨entries, henc, rfl⟩
    rw [hload.mpr ⟨entries, henc, rfl⟩]
    rfl

end SSTableReader

/-! ## The numbers of a Bloom filter file -/

namespace BloomFilter

/-- The size that the file gives for the filter. -/
def sizeField (file : Bytes) : Nat := ofLE (file.take 8)

/-- The number of hash functions that the file gives for the filter. -/
def hashCountField (file : Bytes) : Nat := ofLE ((file.drop 8).take 8)

/-- The number of bytes that is computed for a size, with 64 bits. -/
def byteCount (size : Nat) : Nat := (size + 7) % 2 ^ 64 / 8

/-- The numbers in the file do no harm: the file ends before them or before its bits, or all arrays
can be allocated and no size is 0. -/
def FieldsSafe (file : Bytes) : Prop :=
  file.length < 16 ∨
    (byteCount (sizeField file) ≤ maxAlloc ∧
      (file.length < 16 + byteCount (sizeField file) ∨
        (sizeField file ≤ maxAlloc ∧ 8 * hashCountField file ≤ maxAlloc ∧
          (sizeField file = 0 → hashCountField file = 0))))

theorem not_panics_mayContain_iff (bf : BloomFilter) (key : String) :
    ¬ Panics (bf.mayContain key) ↔
      8 * bf.hashCount.toNat ≤ maxAlloc ∧ (bf.size = 0 → bf.hashCount = 0) := by
  rw [← exists_mayContain_iff bf key]
  unfold mayContain positions getHashes
  split
  · exact iff_of_false (fun h => h trivial) fun ⟨_, h⟩ => (by cases h)
  · simp only [Except.bind]
    split
    · exact iff_of_false (fun h => h trivial) fun ⟨_, h⟩ => (by cases h)
    · exact iff_of_true id ⟨_, rfl⟩

theorem readUint_of_le {w : Nat} {bs : Bytes} (h : w ≤ bs.length) :
    readUint w bs = .ok (ofLE (bs.take w), bs.drop w) := by
  rw [readUint, readFull, if_pos h]
  rfl

theorem ofLE_take_lt {bs : Bytes} {w : Nat} (h : w ≤ bs.length) : ofLE (bs.take w) < 256 ^ w := by
  have hlt := ofLE_lt (bs.take w)
  rwa [List.length_take_of_le h] at hlt

/-- A file without the two numbers is not loaded. -/
theorem load_of_short {file : Bytes} (h : file.length < 16) :
    ∃ message, load file = .error (.err message) := by
  unfold load
  cases hsize : readUint 8 file with
  | error e => exact ⟨_, rfl⟩
  | ok p =>
    obtain ⟨size, rest⟩ := p
    obtain ⟨-, rfl⟩ := readUint_eq_ok_iff.mp hsize
    dsimp only
    cases hcount : readUint 8 rest with
    | error e => exact ⟨_, rfl⟩
    | ok q =>
      obtain ⟨-, rfl⟩ := readUint_eq_ok_iff.mp hcount
      simp at h
      omega

theorem toNat_sizeField {file : Bytes} (h : 16 ≤ file.length) :
    (UInt64.ofNat (sizeField file)).toNat = sizeField file := by
  rw [UInt64.toNat_ofNat']
  exact Nat.mod_eq_of_lt (ofLE_take_lt (by omega) : sizeField file < 256 ^ 8)

theorem toNat_hashCountField {file : Bytes} (h : 16 ≤ file.length) :
    (UInt64.ofNat (hashCountField file)).toNat = hashCountField file := by
  rw [UInt64.toNat_ofNat']
  exact Nat.mod_eq_of_lt (ofLE_take_lt (by simp; omega) : hashCountField file < 256 ^ 8)

theorem toNat_byteCount {file : Bytes} (h : 16 ≤ file.length) :
    ((UInt64.ofNat (sizeField file) + 7) / 8).toNat = byteCount (sizeField file) := by
  rw [UInt64.toNat_div, UInt64.toNat_add, toNat_sizeField h]
  rfl

/-- What is loaded from a file that has the two numbers. -/
theorem load_of_long {file : Bytes} (h : 16 ≤ file.length) : load file =
    if byteCount (sizeField file) > maxAlloc then .error (.panic "makeslice: len out of range")
    else
      match readFull (byteCount (sizeField file)) (file.drop 16) with
      | .error e => .error (.err (readErrorText e))
      | .ok (bytes, _) =>
        if sizeField file > maxAlloc then .error (.panic "makeslice: len out of range")
        else .ok
          { bits := unpackBits (UInt64.ofNat (sizeField file)).toNat bytes
            size := UInt64.ofNat (sizeField file)
            hashCount := UInt64.ofNat (hashCountField file)
            length_bits := length_unpackBits _ _ } := by
  have hsize : readUint 8 file = .ok (sizeField file, file.drop 8) := readUint_of_le (by omega)
  have hcount : readUint 8 (file.drop 8) = .ok (hashCountField file, file.drop 16) := by
    rw [readUint_of_le (by simp; omega), List.drop_drop]
    rfl
  unfold load
  rw [hsize]
  simp only
  rw [hcount]
  simp only [toNat_byteCount h, toNat_sizeField h]
  all_goals rfl

theorem fieldsSafe_iff (file : Bytes) (key : String) :
    (¬ Panics (load file) ∧ ∀ bf, load file = .ok bf → ¬ Panics (bf.mayContain key)) ↔
      FieldsSafe file := by
  unfold FieldsSafe
  by_cases hshort : file.length < 16
  · obtain ⟨message, hload⟩ := load_of_short hshort
    rw [hload]
    exact iff_of_true ⟨id, fun _ h => (by cases h)⟩ (Or.inl hshort)
  · have hlong : 16 ≤ file.length := not_lt.mp hshort
    rw [load_of_long hlong]
    by_cases hbytes : byteCount (sizeField file) > maxAlloc
    · rw [if_pos hbytes]
      refine iff_of_false (fun h => h.1 trivial) ?_
      rintro (h | ⟨h, -⟩)
      · exact hshort h
      · exact absurd h (not_le.mpr hbytes)
    · rw [if_neg hbytes, or_iff_right hshort, and_iff_right (not_lt.mp hbytes)]
      cases hread : readFull (byteCount (sizeField file)) (file.drop 16) with
      | error e =>
        have hlen := (readFull_eq_error hread).1
        rw [List.length_drop] at hlen
        exact iff_of_true ⟨id, fun _ h => (by cases h)⟩ (Or.inl (by omega))
      | ok p =>
        obtain ⟨hlen, hdrop⟩ := readFull_eq_ok_iff.mp hread
        have hdrop := congrArg List.length hdrop
        rw [List.length_drop, List.length_append, hlen] at hdrop
        rw [or_iff_right (by omega)]
        dsimp only
        by_cases hsize : sizeField file > maxAlloc
        · rw [if_pos hsize]
          exact iff_of_false (fun h => h.1 trivial) fun h => absurd h.1 (not_le.mpr hsize)
        · rw [if_neg hsize, and_iff_right (not_lt.mp hsize)]
          have hzero : ∀ n : Nat, (UInt64.ofNat n).toNat = n → (UInt64.ofNat n = 0 ↔ n = 0) :=
            fun n hn => by rw [← UInt64.toNat_inj, hn]; rfl
          simp only [not_panics_ok, not_false_eq_true, true_and, Except.ok.injEq, forall_eq',
            not_panics_mayContain_iff, toNat_hashCountField hlong,
            hzero _ (toNat_sizeField hlong), hzero _ (toNat_hashCountField hlong)]

end BloomFilter

/-- **Which files make a lookup panic.** None of the four calls panics, exactly if the index has no
negative key length behind whole entries, the entry of the key does not lead to a record with a
negative size, and the numbers of the Bloom filter do no harm. -/
theorem corrupt_files_iff (data index bloom : Bytes) (key : String) :
    (¬ Panics (SSTableReader.new ⟨some data, some index, some bloom⟩) ∧
        (∀ r, SSTableReader.new ⟨some data, some index, some bloom⟩ = .ok r →
          ¬ Panics (r.get key)) ∧
        ¬ Panics (BloomFilter.load bloom) ∧
        ∀ bf, BloomFilter.load bloom = .ok bf → ¬ Panics (bf.mayContain key)) ↔
      (¬ SSTableReader.NegativeKeyLength index ∧
        (∀ entries, SSTableReader.Encodes entries index →
          ∀ entry, SSTableReader.lastEntry (utf8 key) entries = some entry →
            ¬ SSTableReader.NegativeSize data entry) ∧
        BloomFilter.FieldsSafe bloom) := by
  rw [SSTableReader.panics_new_iff, BloomFilter.fieldsSafe_iff bloom key]
  refine and_congr_right fun _ => and_congr_left fun _ => ?_
  constructor
  · intro hget entries henc entry hlast hneg
    refine hget _ (SSTableReader.new_eq_ok_iff.mpr ⟨entries, henc, rfl⟩) ?_
    rw [SSTableReader.panics_get_iff, SSTableReader.get?_foldl_set]
    exact ⟨entry, hlast, hneg⟩
  · intro hsafe r hnew hpanic
    obtain ⟨entries, henc, rfl⟩ := SSTableReader.new_eq_ok_iff.mp hnew
    rw [SSTableReader.panics_get_iff, SSTableReader.get?_foldl_set] at hpanic
    obtain ⟨entry, hlast, hneg⟩ := hpanic
    exact hsafe entries henc entry hlast hneg

/-! ## Files -/

namespace Sample

/-- Two entries of an index of the earlier version. -/
def oldEntries : List IndexEntry := [⟨[97], 0, 5, 0⟩, ⟨[98], 9, 5, 0⟩]

/-- A table with one entry, whose record begins with a negative size. -/
def negativeRecord : TableFiles :=
  ⟨some (intToLE 4 (-1)), some (SSTableWriter.writeIndexEntry ⟨utf8 "t:a", 0, 1, 0⟩), none⟩

/-- A Bloom filter file that says: no bits, one hash function. -/
def emptyFilter : Bytes := toLE 8 0 ++ toLE 8 1

end Sample

open Sample

theorem keeps_added_and_stored_twoKeys : ∃ bf bf', BloomFilter.new ⟨13, 3⟩ = .ok bf ∧
    bf.addAll ["t:a", "t:b"] = .ok bf' ∧ bf'.mayContain "t:a" = .ok true ∧
    ∃ loaded, BloomFilter.load bf'.writeTo = .ok loaded ∧ loaded.bits = bf'.bits := by
  obtain ⟨hfound, hexists, hstored⟩ := BloomFilter.keeps_added_and_stored
  obtain ⟨bf, bf', hnew, hadd⟩ := hexists ⟨13, 3⟩ ["t:a", "t:b"] (by decide) (by decide)
    (by decide) (by decide)
  have hmade : BloomFilter.Made bf' := by
    obtain ⟨bf₁, h₁, hadd⟩ := Validator.bind_eq_ok hadd
    obtain ⟨bf₂, h₂, hadd⟩ := Validator.bind_eq_ok hadd
    cases hadd
    exact .add (.add (.new hnew) h₁) h₂
  obtain ⟨loaded, hload, -, -, hbits, -⟩ := hstored bf' hmade
  exact ⟨bf, bf', hnew, hadd, hfound ⟨13, 3⟩ bf bf' _ (by decide) (by decide) hnew hadd "t:a"
    (by simp), loaded, hload, hbits⟩

theorem oldIndex_readable_oneEntry : SSTableReader.ReadsOldIndex [⟨[97], 0, 5, 0⟩] :=
  (SSTableReader.oldIndex_readable_iff (by decide) (by decide)).mpr (by decide)

/-- The length of the second key is taken for a checksum, and the second key for a length. -/
theorem oldIndex_twoEntries_not_read :
    (SSTableReader.loadIndex ((SSTableReader.oldIndex oldEntries).length + 1)
        (SSTableReader.oldIndex oldEntries) ∅).map (fun _ => ()) =
      .error (.err "failed to load index: unexpected EOF") ∧
    ¬ SSTableReader.ReadsOldIndex oldEntries := by
  have hload : (SSTableReader.loadIndex ((SSTableReader.oldIndex oldEntries).length + 1)
        (SSTableReader.oldIndex oldEntries) ∅).map (fun _ => ()) =
      .error (.err "failed to load index: unexpected EOF") := by
    decide +kernel
  refine ⟨hload, ?_⟩
  rintro ⟨index, hok, -⟩
  rw [hok] at hload
  cases hload

/-- A key length of -1, a record size of -1, and a Bloom filter without bits. -/
theorem corrupt_files_panic :
    Panics (SSTableReader.new ⟨some [], some (intToLE 4 (-1)), none⟩) ∧
      (¬ Panics (SSTableReader.new negativeRecord) ∧
        Panics ((SSTableReader.new negativeRecord).bind fun r => r.get "t:a")) ∧
      ¬ Panics (BloomFilter.load emptyFilter) ∧
      Panics ((BloomFilter.load emptyFilter).bind fun bf => bf.mayContain "t:a") := by
  decide +kernel

end PairDB.StorageNode
