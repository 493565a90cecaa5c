import PairDB.Infra.Bytes

/-!
# CRC-32

The checksum with the IEEE polynomial, bit by bit. Two texts that differ in one byte have different
checksums (`crc32_ne_of_byte_ne`).
-/

namespace Infra

/-- One bit: shift, and subtract the polynomial if a one falls out. -/
def crcBit (crc : UInt32) : UInt32 :=
  if crc &&& 1 = 1 then (crc >>> 1) ^^^ 0xEDB88320 else crc >>> 1

/-- One byte. -/
def crcByte (crc : UInt32) (b : UInt8) : UInt32 := crcBit^[8] (crc ^^^ b.toUInt32)

/-- The CRC-32 of a byte string. -/
def crc32 (bs : Bytes) : UInt32 := bs.foldl crcByte 0xFFFFFFFF ^^^ 0xFFFFFFFF

-- the check value of the polynomial
example : crc32 (utf8 "123456789") = 0xCBF43926 := by decide +kernel

/-! ## A changed byte -/

theorem toNat_shiftRight_one (x : UInt32) : (x >>> 1).toNat = x.toNat / 2 := by
  rw [UInt32.toNat_shiftRight]
  rfl

theorem and_one_eq_one_iff (x : UInt32) : x &&& 1 = 1 ↔ x.toNat % 2 = 1 := by
  rw [← UInt32.toNat_inj, UInt32.toNat_and]
  exact iff_of_eq (congrArg (· = 1) (Nat.and_one_is_mod _))

/-- A one that falls out can be seen in the highest bit of the result. -/
theorem crcBit_injective : Function.Injective crcBit := by
  have hhigh : ∀ x y : UInt32, (x >>> 1) ^^^ (0xEDB88320 : UInt32) ≠ y >>> 1 := by
    intro x y h
    have hpoly : (x >>> 1) ^^^ (y >>> 1) = 0xEDB88320 := by
      rw [← h, ← UInt32.xor_assoc, UInt32.xor_self, UInt32.zero_xor]
    have hlt : ((x >>> 1) ^^^ (y >>> 1)).toNat < 2 ^ 31 := by
      rw [UInt32.toNat_xor, toNat_shiftRight_one, toNat_shiftRight_one]
      have hx := x.toNat_lt
      have hy := y.toNat_lt
      exact Nat.xor_lt_two_pow (by omega) (by omega)
    rw [hpoly] at hlt
    exact absurd hlt (by decide)
  have hhalf : ∀ x y : UInt32, x >>> 1 = y >>> 1 → (x &&& 1 = 1 ↔ y &&& 1 = 1) → x = y := by
    intro x y h hbit
    have hdiv := congrArg UInt32.toNat h
    rw [toNat_shiftRight_one, toNat_shiftRight_one] at hdiv
    rw [and_one_eq_one_iff, and_one_eq_one_iff] at hbit
    apply UInt32.toNat_inj.mp
    omega
  intro x y h
  unfold crcBit at h
  split at h <;> split at h
  · next hx hy => exact hhalf x y ((UInt32.xor_left_inj _).mp h) (by simp [hx, hy])
  · exact absurd h (hhigh x y)
  · exact absurd h.symm (hhigh y x)
  · next hx hy => exact hhalf x y h (by simp [hx, hy])

theorem crcByte_left_injective (b : UInt8) : Function.Injective fun crc => crcByte crc b :=
  fun _ _ h => (UInt32.xor_left_inj _).mp (crcBit_injective.iterate 8 h)

theorem crcByte_right_injective (crc : UInt32) : Function.Injective (crcByte crc) := by
  intro a b h
  have hxor := (UInt32.xor_right_inj _).mp (crcBit_injective.iterate 8 h)
  exact UInt8.toUInt32_inj.mp hxor

theorem foldl_crcByte_injective (bs : Bytes) :
    Function.Injective fun crc => bs.foldl crcByte crc := by
  induction bs with
  | nil => exact Function.injective_id
  | cons b bs ih => exact ih.comp (crcByte_left_injective b)

/-- **A changed byte changes the checksum.** -/
theorem crc32_ne_of_byte_ne {a b : UInt8} (h : a ≠ b) (pre post : Bytes) :
    crc32 (pre ++ a :: post) ≠ crc32 (pre ++ b :: post) := by
  intro heq
  have hfold := (UInt32.xor_left_inj _).mp heq
  rw [List.foldl_append, List.foldl_append, List.foldl_cons, List.foldl_cons] at hfold
  exact h (crcByte_right_injective _ (foldl_crcByte_injective post hfold))

end Infra
