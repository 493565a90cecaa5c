import PairDB.Infra.Bytes

/-!
# Bit arrays packed into bytes

Eight bits go into a byte, the first one into the lowest bit; the last byte is filled up with zeros.
-/

namespace Infra

/-- The byte with the given bits. -/
def byteOfBits (f : Nat → Bool) : UInt8 := UInt8.ofNat (Nat.ofBits fun i : Fin 8 => f i)

/-- Bit `i` of a byte. -/
def bitOf (b : UInt8) (i : Nat) : Bool := b.toNat.testBit i

theorem bitOf_byteOfBits (f : Nat → Bool) {i : Nat} (h : i < 8) :
    bitOf (byteOfBits f) i = f i := by
  have hlt : (Nat.ofBits fun i : Fin 8 => f i) < 256 := Nat.ofBits_lt_two_pow _
  have hnat : (byteOfBits f).toNat = Nat.ofBits fun i : Fin 8 => f i := by
    rw [byteOfBits, UInt8.toNat_ofNat']
    exact Nat.mod_eq_of_lt hlt
  rw [bitOf, hnat, Nat.testBit_ofBits_lt _ i h]

/-- Pack a bit array. -/
def packBits (bits : List Bool) : Bytes :=
  (List.range ((bits.length + 7) / 8)).map fun j => byteOfBits fun i => bits.getD (8 * j + i) false

/-- The first `n` bits of a packed array. -/
def unpackBits (n : Nat) (bs : Bytes) : List Bool :=
  (List.range n).map fun i => bitOf (bs.getD (i / 8) 0) (i % 8)

@[simp] theorem length_packBits (bits : List Bool) :
    (packBits bits).length = (bits.length + 7) / 8 := by
  simp [packBits]

@[simp] theorem length_unpackBits (n : Nat) (bs : Bytes) : (unpackBits n bs).length = n := by
  simp [unpackBits]

/-- Unpacking gives the bits back. -/
theorem unpackBits_packBits (bits : List Bool) :
    unpackBits bits.length (packBits bits) = bits := by
  refine List.ext_getElem (by simp) ?_
  intro i h₁ h₂
  have hbyte : i / 8 < (bits.length + 7) / 8 := by omega
  have hget : (packBits bits).getD (i / 8) 0
      = byteOfBits fun j => bits.getD (8 * (i / 8) + j) false := by
    rw [List.getD_eq_getElem _ _ (by rw [length_packBits]; exact hbyte)]
    simp [packBits]
  have hidx : 8 * (i / 8) + i % 8 = i := Nat.div_add_mod i 8
  simp only [unpackBits, List.getElem_map, List.getElem_range]
  rw [hget, bitOf_byteOfBits _ (Nat.mod_lt _ (by decide)), hidx, List.getD_eq_getElem _ _ h₂]

end Infra
