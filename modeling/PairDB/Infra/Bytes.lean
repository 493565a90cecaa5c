import PairDB.Infra.MachineInt

/-!
# Byte strings

Files and messages are lists of bytes. This file has the two encodings that everything else is
built from: strings as UTF-8, and integers of a fixed width, least significant byte first.

A read from a file that ends too early is told apart as in the library that is modelled: no byte at
all is `eof`, too few bytes are `unexpectedEOF`.
-/

namespace Infra

/-- A byte string. -/
abbrev Bytes := List UInt8

/-! ## UTF-8 -/

/-- The bytes of a string. -/
def utf8 (s : String) : Bytes := s.toByteArray.data.toList

/-- The string with the given bytes, if they are valid UTF-8. -/
def ofUtf8 (bs : Bytes) : Option String := String.fromUTF8? ⟨bs.toArray⟩

@[simp] theorem ofUtf8_utf8 (s : String) : ofUtf8 (utf8 s) = some s := by
  have hdata : (⟨(utf8 s).toArray⟩ : ByteArray) = s.toByteArray := by simp [utf8]
  rw [ofUtf8, hdata, String.fromUTF8?, dif_pos s.isValidUTF8]
  rfl

theorem utf8_inj {s t : String} (h : utf8 s = utf8 t) : s = t := by
  have hs := ofUtf8_utf8 s
  rw [h, ofUtf8_utf8] at hs
  exact (Option.some.inj hs).symm

theorem utf8_of_ofUtf8 {bs : Bytes} {s : String} (h : ofUtf8 bs = some s) : utf8 s = bs := by
  unfold ofUtf8 String.fromUTF8? at h
  split at h
  · cases h
    rfl
  · cases h

theorem utf8_ofList (l : List Char) :
    utf8 (String.ofList l) = l.flatMap String.utf8EncodeChar := by
  simp [utf8, String.toByteArray_ofList, List.utf8Encode]

/-- The code points from `0x20` on are encoded without a control byte. -/
theorem le_of_mem_utf8EncodeChar {c : Char} (hc : 0x20 ≤ c.toNat) {b : UInt8}
    (hb : b ∈ String.utf8EncodeChar c) : 0x20 ≤ b.toNat := by
  have hv : c.val.toNat = c.toNat := rfl
  unfold String.utf8EncodeChar at hb
  simp only [hv] at hb
  have hlt : c.toNat < 0x110000 := by
    rcases c.valid with h | h
    · have : c.toNat < 0xd800 := h
      omega
    · exact h.2
  split at hb
  · have hb' := List.mem_singleton.mp hb
    rw [hb', UInt8.toNat_ofNat']
    omega
  · split at hb
    · simp only [List.mem_cons, List.not_mem_nil, or_false] at hb
      rcases hb with rfl | rfl <;> rw [UInt8.toNat_ofNat'] <;> omega
    · split at hb
      · simp only [List.mem_cons, List.not_mem_nil, or_false] at hb
        rcases hb with rfl | rfl | rfl <;> rw [UInt8.toNat_ofNat'] <;> omega
      · simp only [List.mem_cons, List.not_mem_nil, or_false] at hb
        rcases hb with rfl | rfl | rfl | rfl <;> rw [UInt8.toNat_ofNat'] <;> omega

theorem le_of_mem_utf8_ofList {l : List Char} (hl : ∀ c ∈ l, 0x20 ≤ c.toNat) {b : UInt8}
    (hb : b ∈ utf8 (String.ofList l)) : 0x20 ≤ b.toNat := by
  rw [utf8_ofList, List.mem_flatMap] at hb
  obtain ⟨c, hc, hb⟩ := hb
  exact le_of_mem_utf8EncodeChar (hl c hc) hb

/-! ## Integers of a fixed width -/

/-- The lowest `w` bytes of `x`, least significant first. -/
def toLE : (w : Nat) → Nat → Bytes
  | 0, _ => []
  | w + 1, x => UInt8.ofNat x :: toLE w (x / 256)

/-- The number with the given bytes, least significant first. -/
def ofLE : Bytes → Nat
  | [] => 0
  | b :: bs => b.toNat + 256 * ofLE bs

@[simp] theorem length_toLE (w x : Nat) : (toLE w x).length = w := by
  induction w generalizing x with
  | zero => rfl
  | succ w ih => simp [toLE, ih]

theorem ofLE_toLE (w x : Nat) : ofLE (toLE w x) = x % 256 ^ w := by
  induction w generalizing x with
  | zero => simp [toLE, ofLE, Nat.mod_one]
  | succ w ih =>
    have hb : (UInt8.ofNat x).toNat = x % 256 := by simp
    rw [toLE, ofLE, ih, hb, Nat.pow_succ', Nat.mod_mul]

/-- Why a read failed. -/
inductive ReadError where
  | eof
  | unexpectedEOF
  deriving DecidableEq, Repr

/-- Read exactly `n` bytes. -/
def readFull (n : Nat) (bs : Bytes) : Except ReadError (Bytes × Bytes) :=
  if n ≤ bs.length then .ok (bs.take n, bs.drop n)
  else if bs.length = 0 then .error .eof
  else .error .unexpectedEOF

/-- Read an unsigned integer of `w` bytes. -/
def readUint (w : Nat) (bs : Bytes) : Except ReadError (Nat × Bytes) :=
  (readFull w bs).map fun p => (ofLE p.1, p.2)

/-- Read a signed integer of `w` bytes. -/
def readInt (w : Nat) (bs : Bytes) : Except ReadError (Int × Bytes) :=
  (readUint w bs).map fun p => (wrapInt (8 * w) p.1, p.2)

/-- The bytes of a signed integer of `w` bytes. -/
def intToLE (w : Nat) (x : Int) : Bytes := toLE w (x % 2 ^ (8 * w)).toNat

@[simp] theorem length_intToLE (w : Nat) (x : Int) : (intToLE w x).length = w := length_toLE _ _

theorem readFull_append (bs rest : Bytes) :
    readFull bs.length (bs ++ rest) = .ok (bs, rest) := by
  have hle : bs.length ≤ (bs ++ rest).length := by simp
  rw [readFull, if_pos hle, List.take_left, List.drop_left]

theorem readUint_toLE_append (w x : Nat) (rest : Bytes) :
    readUint w (toLE w x ++ rest) = .ok (x % 256 ^ w, rest) := by
  have h := readFull_append (toLE w x) rest
  rw [length_toLE] at h
  rw [readUint, h, Except.map, ofLE_toLE]

theorem readInt_intToLE_append {w : Nat} {x : Int} (hx : wrapInt (8 * w) x = x) (rest : Bytes) :
    readInt w (intToLE w x ++ rest) = .ok (x, rest) := by
  have hpow : (256 : Nat) ^ w = 2 ^ (8 * w) := by rw [show (256 : Nat) = 2 ^ 8 by rfl, pow_mul]
  have hpos : (0 : Int) < 2 ^ (8 * w) := by positivity
  have hlt : (x % 2 ^ (8 * w)).toNat < 2 ^ (8 * w) := by
    have h1 := Int.emod_lt_of_pos x hpos
    have h2 := Int.emod_nonneg x hpos.ne'
    zify
    rwa [Int.toNat_of_nonneg h2]
  have hnonneg : 0 ≤ x % 2 ^ (8 * w) := Int.emod_nonneg x hpos.ne'
  rw [readInt, intToLE, readUint_toLE_append, hpow, Nat.mod_eq_of_lt hlt, Except.map]
  simp only
  rw [Int.toNat_of_nonneg hnonneg, wrapInt]
  have hmod : (2 : Int) ^ (8 * w) = ((2 ^ (8 * w) : Nat) : Int) := by push_cast; rfl
  rw [hmod, Int.emod_bmod]
  exact congrArg (fun y => Except.ok (y, rest)) hx

/-! ## What a read says about the bytes -/

theorem toLE_ofLE (bs : Bytes) : toLE bs.length (ofLE bs) = bs := by
  induction bs with
  | nil => rfl
  | cons b bs ih =>
    have hlt := b.toNat_lt
    have hlow : UInt8.ofNat (b.toNat + 256 * ofLE bs) = b := by
      rw [← UInt8.toNat_inj, UInt8.toNat_ofNat']
      omega
    have hhigh : (b.toNat + 256 * ofLE bs) / 256 = ofLE bs := by omega
    rw [List.length_cons, ofLE, toLE, hlow, hhigh, ih]

theorem ofLE_lt (bs : Bytes) : ofLE bs < 256 ^ bs.length := by
  induction bs with
  | nil => simp [ofLE]
  | cons b bs ih =>
    have hlt := b.toNat_lt
    rw [ofLE, List.length_cons, pow_succ]
    omega

theorem readFull_eq_ok_iff {n : Nat} {bs data rest : Bytes} :
    readFull n bs = .ok (data, rest) ↔ data.length = n ∧ bs = data ++ rest := by
  constructor
  · intro h
    unfold readFull at h
    split at h
    · next hle =>
      cases h
      exact ⟨List.length_take_of_le hle, (List.take_append_drop n bs).symm⟩
    · split at h <;> cases h
  · rintro ⟨rfl, rfl⟩
    exact readFull_append data rest

theorem readFull_eq_error {n : Nat} {bs : Bytes} {e : ReadError} (h : readFull n bs = .error e) :
    bs.length < n ∧ (e = .eof ↔ bs = []) := by
  unfold readFull at h
  split at h
  · cases h
  · next hlt =>
    refine ⟨not_le.mp hlt, ?_⟩
    split at h
    · next hnil =>
      cases h
      exact iff_of_true rfl (List.length_eq_zero_iff.mp hnil)
    · next hne =>
      cases h
      refine iff_of_false (fun h => by cases h) fun hnil => hne ?_
      rw [hnil, List.length_nil]

theorem readUint_eq_ok_iff {w x : Nat} {bs rest : Bytes} :
    readUint w bs = .ok (x, rest) ↔ x < 256 ^ w ∧ bs = toLE w x ++ rest := by
  constructor
  · intro h
    unfold readUint at h
    cases hread : readFull w bs with
    | error e => rw [hread] at h; cases h
    | ok p =>
      obtain ⟨data, rest'⟩ := p
      rw [hread] at h
      obtain ⟨rfl, rfl⟩ := readFull_eq_ok_iff.mp hread
      cases h
      exact ⟨ofLE_lt data, by rw [toLE_ofLE]⟩
  · rintro ⟨hlt, rfl⟩
    rw [readUint_toLE_append, Nat.mod_eq_of_lt hlt]

theorem readUint_eq_error {w : Nat} {bs : Bytes} {e : ReadError} (h : readUint w bs = .error e) :
    bs.length < w ∧ (e = .eof ↔ bs = []) := by
  unfold readUint at h
  cases hread : readFull w bs with
  | ok p => rw [hread] at h; cases h
  | error e' =>
    rw [hread] at h
    cases h
    exact readFull_eq_error hread

theorem readInt_eq_ok_iff {w : Nat} {x : Int} {bs rest : Bytes} :
    readInt w bs = .ok (x, rest) ↔ wrapInt (8 * w) x = x ∧ bs = intToLE w x ++ rest := by
  constructor
  · intro h
    unfold readInt at h
    cases hread : readUint w bs with
    | error e => rw [hread] at h; cases h
    | ok p =>
      obtain ⟨n, rest'⟩ := p
      rw [hread] at h
      obtain ⟨hlt, rfl⟩ := readUint_eq_ok_iff.mp hread
      cases h
      have hpow : (256 : Nat) ^ w = 2 ^ (8 * w) := by rw [show (256 : Nat) = 2 ^ 8 by rfl, pow_mul]
      have hmod : wrapInt (8 * w) n % 2 ^ (8 * w) = n := by
        have hcast : (2 : Int) ^ (8 * w) = ((2 ^ (8 * w) : Nat) : Int) := by push_cast; rfl
        rw [wrapInt, hcast, Int.bmod_emod, ← hpow]
        exact_mod_cast Nat.mod_eq_of_lt hlt
      refine ⟨wrapInt_wrapInt _ _, ?_⟩
      rw [intToLE, hmod, Int.toNat_natCast]
  · rintro ⟨hx, rfl⟩
    exact readInt_intToLE_append hx rest

theorem readInt_eq_error {w : Nat} {bs : Bytes} {e : ReadError} (h : readInt w bs = .error e) :
    bs.length < w ∧ (e = .eof ↔ bs = []) := by
  unfold readInt at h
  cases hread : readUint w bs with
  | ok p => rw [hread] at h; cases h
  | error e' =>
    rw [hread] at h
    cases h
    exact readUint_eq_error hread

end Infra
