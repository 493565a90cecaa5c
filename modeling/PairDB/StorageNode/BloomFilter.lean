import PairDB.Infra.Bits

/-!
# `sstable.BloomFilter`

The number of bits and of hash functions comes out of a floating-point computation in the source;
here they are given. Two things can go wrong at run time: an array that is too long to be allocated
(the bits, the bytes of the file, or the hashes of a key), and a division by zero when the filter has
no bits. Both are panics, which are told apart from the errors that a caller can handle (`Fault`).

The two results are that there are no false negatives (`mayContain_addAll`) and that a filter is
read back as it was written (`load_writeTo`).
-/

namespace PairDB.StorageNode

open Infra

/-- How a call can end without a value. -/
inductive Fault where
  | err (message : String)
  | panic (reason : String)
  deriving DecidableEq, Repr

/-- The text of a read error. -/
def readErrorText : ReadError → String
  | .eof => "EOF"
  | .unexpectedEOF => "unexpected EOF"

/-- The number of bytes beyond which `make` panics. -/
def maxAlloc : Nat := 2 ^ 48

/-- `BloomFilter`. -/
structure BloomFilter where
  bits : List Bool
  size : UInt64
  hashCount : UInt64
  length_bits : bits.length = size.toNat

/-- The two numbers that `NewBloomFilter` computes from the false-positive rate. -/
structure BloomParams where
  size : UInt64
  hashCount : UInt64
  deriving DecidableEq, Repr

namespace BloomFilter

/-- `NewBloomFilter`. There is at least one hash function. -/
def new (params : BloomParams) : Except Fault BloomFilter :=
  if params.size.toNat > maxAlloc then .error (.panic "makeslice: len out of range")
  else .ok
    { bits := List.replicate params.size.toNat false
      size := params.size
      hashCount := if params.hashCount = 0 then 1 else params.hashCount
      length_bits := List.length_replicate }

/-- FNV-1 with 64 bits. -/
def fnv64 (bs : Bytes) : UInt64 :=
  bs.foldl (fun hash b => (hash * 1099511628211) ^^^ b.toUInt64) 14695981039346656037

/-- Double hashing: `h(i) = h1(x) + i*h2(x)`. -/
def hashAt (key : String) (i : Nat) : UInt64 :=
  let hash1 := fnv64 (utf8 key)
  let hash2 := fnv64 (utf8 (key ++ "salt"))
  hash1 + UInt64.ofNat i * hash2

/-- `getHashes`. A hash takes eight bytes. -/
def getHashes (bf : BloomFilter) (key : String) : Except Fault (List UInt64) :=
  if 8 * bf.hashCount.toNat > maxAlloc then .error (.panic "makeslice: len out of range")
  else .ok ((List.range bf.hashCount.toNat).map (hashAt key))

/-- The positions of a key. -/
def positions (bf : BloomFilter) (key : String) : Except Fault (List Nat) :=
  (bf.getHashes key).bind fun hashes =>
    if bf.size = 0 ∧ hashes ≠ [] then .error (.panic "integer divide by zero")
    else .ok (hashes.map fun hash => (hash % bf.size).toNat)

/-- `Add`. -/
def add (bf : BloomFilter) (key : String) : Except Fault BloomFilter :=
  (bf.positions key).map fun positions =>
    { bf with
      bits := positions.foldl (fun bits i => bits.set i true) bf.bits
      length_bits := by
        have hset : ∀ (l : List Nat) (bits : List Bool),
            (l.foldl (fun bits i => bits.set i true) bits).length = bits.length := by
          intro l
          induction l with
          | nil => intro bits; rfl
          | cons i l ih => intro bits; rw [List.foldl_cons, ih, List.length_set]
        rw [hset, bf.length_bits] }

/-- `MayContain`. -/
def mayContain (bf : BloomFilter) (key : String) : Except Fault Bool :=
  (bf.positions key).map fun positions => positions.all fun i => bf.bits.getD i false

/-- Add one key after another. -/
def addAll (bf : BloomFilter) : List String → Except Fault BloomFilter
  | [] => .ok bf
  | key :: keys => (bf.add key).bind fun bf' => bf'.addAll keys

/-! ## The file -/

/-- `WriteTo`. -/
def writeTo (bf : BloomFilter) : Bytes :=
  toLE 8 bf.size.toNat ++ (toLE 8 bf.hashCount.toNat ++ packBits bf.bits)

/-- `LoadBloomFilter`, on the contents of the file. -/
def load (file : Bytes) : Except Fault BloomFilter :=
  match readUint 8 file with
  | .error e => .error (.err (readErrorText e))
  | .ok (size, rest) =>
    match readUint 8 rest with
    | .error e => .error (.err (readErrorText e))
    | .ok (hashCount, rest) =>
      let size := UInt64.ofNat size
      let byteCount := ((size + 7) / 8).toNat
      if byteCount > maxAlloc then .error (.panic "makeslice: len out of range")
      else
        match readFull byteCount rest with
        | .error e => .error (.err (readErrorText e))
        | .ok (bytes, _) =>
          if size.toNat > maxAlloc then .error (.panic "makeslice: len out of range")
          else .ok
            { bits := unpackBits size.toNat bytes
              size
              hashCount := UInt64.ofNat hashCount
              length_bits := length_unpackBits _ _ }

/-! ## No false negatives -/

variable {bf bf' : BloomFilter}

theorem getD_set_true (bits : List Bool) (i j : Nat) (h : bits.getD j false = true) :
    (bits.set i true).getD j false = true := by
  rw [List.getD_eq_getElem?_getD] at h ⊢
  rw [List.getElem?_set]
  split
  · split
    · rfl
    · next hij hlen =>
      subst hij
      rw [List.getElem?_eq_none (by omega)] at h
      exact h
  · exact h

theorem getD_foldl_set_of_true (l : List Nat) (bits : List Bool) {j : Nat}
    (h : bits.getD j false = true) :
    (l.foldl (fun bits i => bits.set i true) bits).getD j false = true := by
  induction l generalizing bits with
  | nil => exact h
  | cons i l ih => exact ih _ (getD_set_true bits i j h)

theorem getD_foldl_set_of_mem {l : List Nat} {bits : List Bool} {j : Nat} (hj : j ∈ l)
    (hlt : j < bits.length) :
    (l.foldl (fun bits i => bits.set i true) bits).getD j false = true := by
  induction l generalizing bits with
  | nil => cases hj
  | cons i l ih =>
    rcases List.mem_cons.mp hj with rfl | hj
    · rw [List.foldl_cons]
      refine getD_foldl_set_of_true l _ ?_
      rw [List.getD_eq_getElem?_getD, List.getElem?_set_self hlt]
      rfl
    · exact ih hj (by rwa [List.length_set])

/-- When the positions can be computed, and what they are. -/
theorem positions_eq_ok_iff {key : String} {l : List Nat} : bf.positions key = .ok l ↔
    (8 * bf.hashCount.toNat ≤ maxAlloc ∧ (bf.size = 0 → bf.hashCount = 0)) ∧
      l = (List.range bf.hashCount.toNat).map fun i => (hashAt key i % bf.size).toNat := by
  have hnil : (List.range bf.hashCount.toNat).map (hashAt key) = [] ↔ bf.hashCount = 0 := by
    rw [List.map_eq_nil_iff, List.range_eq_nil, ← UInt64.toNat_inj]
    rfl
  unfold positions getHashes
  by_cases hlarge : 8 * bf.hashCount.toNat > maxAlloc
  · rw [if_pos hlarge]
    exact ⟨fun h => (by cases h), fun h => absurd h.1.1 (not_le.mpr hlarge)⟩
  · rw [if_neg hlarge]
    show (if _ then _ else _) = _ ↔ _
    by_cases hzero : bf.size = 0 ∧ (List.range bf.hashCount.toNat).map (hashAt key) ≠ []
    · rw [if_pos hzero]
      exact ⟨fun h => (by cases h), fun h => absurd (hnil.mpr (h.1.2 hzero.1)) hzero.2⟩
    · rw [if_neg hzero, Except.ok.injEq, List.map_map]
      have hok : 8 * bf.hashCount.toNat ≤ maxAlloc ∧ (bf.size = 0 → bf.hashCount = 0) :=
        ⟨not_lt.mp hlarge, fun hs => hnil.mp (not_not.mp fun hc => hzero ⟨hs, hc⟩)⟩
      rw [and_iff_right hok]
      exact eq_comm

theorem position_lt {key : String} {l : List Nat} (h : bf.positions key = .ok l) {i : Nat}
    (hi : i ∈ l) : i < bf.bits.length := by
  obtain ⟨⟨-, hzero⟩, rfl⟩ := positions_eq_ok_iff.mp h
  obtain ⟨j, hj, rfl⟩ := List.mem_map.mp hi
  have hpos : 0 < bf.size.toNat := by
    by_contra hnot
    have hsize : bf.size = 0 := UInt64.toNat_inj.mp (Nat.eq_zero_of_not_pos hnot)
    rw [hzero hsize] at hj
    cases hj
  rw [bf.length_bits, UInt64.toNat_mod]
  exact Nat.mod_lt _ hpos

theorem positions_eq (hsize : bf'.size = bf.size) (hcount : bf'.hashCount = bf.hashCount)
    (key : String) : bf'.positions key = bf.positions key := by
  rw [positions, positions, getHashes, getHashes, hsize, hcount]

/-- What a successful `Add` does. -/
theorem add_spec {key : String} (h : bf.add key = .ok bf') :
    bf'.size = bf.size ∧ bf'.hashCount = bf.hashCount ∧ ∃ l, bf.positions key = .ok l ∧
      bf'.bits = l.foldl (fun bits i => bits.set i true) bf.bits := by
  unfold add at h
  cases hl : bf.positions key with
  | error e => rw [hl] at h; cases h
  | ok l =>
    rw [hl] at h
    cases h
    exact ⟨rfl, rfl, l, rfl, rfl⟩

theorem mayContain_eq_true_iff {key : String} : bf.mayContain key = .ok true ↔
    ∃ l, bf.positions key = .ok l ∧ ∀ i ∈ l, bf.bits.getD i false = true := by
  unfold mayContain
  cases bf.positions key with
  | error e => exact ⟨fun h => (by cases h), fun ⟨_, h, _⟩ => (by cases h)⟩
  | ok l =>
    show (Except.ok _ = Except.ok true) ↔ _
    simp [List.all_eq_true]

theorem mayContain_of_add {key : String} (h : bf.add key = .ok bf') :
    bf'.mayContain key = .ok true := by
  obtain ⟨hsize, hcount, l, hl, hbits⟩ := add_spec h
  refine mayContain_eq_true_iff.mpr ⟨l, (positions_eq hsize hcount key).trans hl, fun i hi => ?_⟩
  rw [hbits]
  exact getD_foldl_set_of_mem hi (position_lt hl hi)

/-- A key that may be contained still is after another key was added. -/
theorem mayContain_add {key other : String} (hkey : bf.mayContain key = .ok true)
    (h : bf.add other = .ok bf') : bf'.mayContain key = .ok true := by
  obtain ⟨hsize, hcount, _, -, hbits⟩ := add_spec h
  obtain ⟨l, hl, htrue⟩ := mayContain_eq_true_iff.mp hkey
  refine mayContain_eq_true_iff.mpr ⟨l, (positions_eq hsize hcount key).trans hl, fun i hi => ?_⟩
  rw [hbits]
  exact getD_foldl_set_of_true _ _ (htrue i hi)

theorem mayContain_addAll_of_mayContain {key : String} (keys : List String)
    (hkey : bf.mayContain key = .ok true) (h : bf.addAll keys = .ok bf') :
    bf'.mayContain key = .ok true := by
  induction keys generalizing bf with
  | nil =>
    cases h
    exact hkey
  | cons other keys ih =>
    unfold addAll at h
    cases hadd : bf.add other with
    | error e => rw [hadd] at h; cases h
    | ok bf₁ =>
      rw [hadd] at h
      exact ih (mayContain_add hkey hadd) h

/-- **A key that was added is never reported as absent.** -/
theorem mayContain_addAll {key : String} (keys : List String) (hmem : key ∈ keys)
    (h : bf.addAll keys = .ok bf') : bf'.mayContain key = .ok true := by
  induction keys generalizing bf with
  | nil => cases hmem
  | cons other keys ih =>
    unfold addAll at h
    cases hadd : bf.add other with
    | error e => rw [hadd] at h; cases h
    | ok bf₁ =>
      rw [hadd] at h
      rcases List.mem_cons.mp hmem with rfl | hmem
      · exact mayContain_addAll_of_mayContain keys (mayContain_of_add hadd) h
      · exact ih hmem h

/-- Whether a lookup panics does not depend on the key. -/
theorem exists_mayContain_iff (bf : BloomFilter) (key : String) :
    (∃ b, bf.mayContain key = .ok b) ↔
      8 * bf.hashCount.toNat ≤ maxAlloc ∧ (bf.size = 0 → bf.hashCount = 0) := by
  unfold mayContain
  cases hl : bf.positions key with
  | error e =>
    refine ⟨fun ⟨_, h⟩ => (by cases h), fun hok => ?_⟩
    rw [positions_eq_ok_iff.mpr ⟨hok, rfl⟩] at hl
    cases hl
  | ok l => exact ⟨fun _ => (positions_eq_ok_iff.mp hl).1, fun _ => ⟨_, rfl⟩⟩

/-- After a key was added, no lookup panics. -/
theorem exists_mayContain_addAll {keys : List String} (hne : keys ≠ [])
    (h : bf.addAll keys = .ok bf') (key : String) : ∃ b, bf'.mayContain key = .ok b := by
  obtain ⟨other, keys, rfl⟩ := List.exists_cons_of_ne_nil hne
  have hother := mayContain_addAll _ List.mem_cons_self h
  exact (exists_mayContain_iff bf' key).mpr ((exists_mayContain_iff bf' other).mp ⟨true, hother⟩)

theorem addAll_size {keys : List String} (h : bf.addAll keys = .ok bf') : bf'.size = bf.size := by
  induction keys generalizing bf with
  | nil =>
    cases h
    rfl
  | cons key keys ih =>
    unfold addAll at h
    cases hadd : bf.add key with
    | error e => rw [hadd] at h; cases h
    | ok bf₁ =>
      rw [hadd] at h
      rw [ih h, (add_spec hadd).1]

theorem size_new {params : BloomParams} (h : new params = .ok bf) :
    bf.size = params.size ∧ bf.size.toNat ≤ maxAlloc := by
  unfold new at h
  split at h
  · cases h
  · next hle =>
    cases h
    exact ⟨rfl, not_lt.mp hle⟩

/-! ## The round trip -/

/-- **A filter is read back as it was written.** -/
theorem load_writeTo (bf : BloomFilter) (hsize : bf.size.toNat ≤ maxAlloc) :
    load (writeTo bf) = .ok bf := by
  have hpow : (256 : Nat) ^ 8 = 2 ^ 64 := by norm_num
  have hbytes : ((bf.size + 7) / 8).toNat = (packBits bf.bits).length := by
    have hmax : bf.size.toNat ≤ 2 ^ 48 := hsize
    rw [length_packBits, bf.length_bits, UInt64.toNat_div, UInt64.toNat_add]
    show (bf.size.toNat + 7) % 2 ^ 64 / 8 = _
    rw [Nat.mod_eq_of_lt (by omega)]
  have hle : (packBits bf.bits).length ≤ maxAlloc := by
    rw [length_packBits, bf.length_bits]
    unfold maxAlloc at hsize ⊢
    omega
  have hread := readFull_append (packBits bf.bits) []
  rw [List.append_nil] at hread
  have hunpack := unpackBits_packBits bf.bits
  rw [bf.length_bits] at hunpack
  unfold load writeTo
  simp only [readUint_toLE_append, hpow, Nat.mod_eq_of_lt (UInt64.toNat_lt _), UInt64.ofNat_toNat,
    hbytes, hread, not_lt.mpr hle, not_lt.mpr hsize, if_false, hunpack]

end BloomFilter

end PairDB.StorageNode
