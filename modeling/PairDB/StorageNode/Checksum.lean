import PairDB.Infra.Bytes

/-!
# `util.AppendChecksum` and `util.ValidateAndStripChecksum`

A checksum of 32 bits follows the data as four bytes, the lowest byte first. The one direction packs
it with shifts and truncations, the other one unpacks it with shifts and ors. `packChecksum_eq_iff` says that
they are inverse to each other; nothing is needed about the checksum itself, so `computeChecksum` is a
parameter here. The source has CRC-32 (`crc32`) in its place.
-/

namespace PairDB.StorageNode

open Infra

/-! ## The trailer -/

/-- The four bytes that `AppendChecksum` writes. -/
def packChecksum (checksum : UInt32) : Bytes :=
  [checksum.toUInt8, (checksum >>> 8).toUInt8, (checksum >>> 16).toUInt8,
    (checksum >>> 24).toUInt8]

/-- The checksum that `ValidateAndStripChecksum` reads from the last four bytes. -/
def unpackChecksum (b₀ b₁ b₂ b₃ : UInt8) : UInt32 :=
  b₀.toUInt32 ||| b₁.toUInt32 <<< 8 ||| b₂.toUInt32 <<< 16 ||| b₃.toUInt32 <<< 24

/-- Bits that do not overlap are added. -/
theorem or_eq_add {low high k : Nat} (h : low < 2 ^ k) :
    low ||| 2 ^ k * high = low + 2 ^ k * high := by
  rw [Nat.or_comm, ← Nat.two_pow_add_eq_or_of_lt h, Nat.add_comm]

/-- A byte is not shifted out of the word. -/
theorem toNat_byte_shiftLeft (b : UInt8) {k : UInt32} (hk : k.toNat ≤ 24) :
    (b.toUInt32 <<< k).toNat = 2 ^ k.toNat * b.toNat := by
  have hb := b.toNat_lt
  have hmod : k.toNat % 32 = k.toNat := Nat.mod_eq_of_lt (by omega)
  have hle : 2 ^ k.toNat ≤ 2 ^ 24 := Nat.pow_le_pow_right (by decide) hk
  have hlt : 2 ^ k.toNat * b.toNat < 2 ^ 32 := by
    calc 2 ^ k.toNat * b.toNat ≤ 2 ^ 24 * b.toNat := Nat.mul_le_mul_right _ hle
      _ < 2 ^ 32 := by omega
  rw [UInt32.toNat_shiftLeft, UInt8.toNat_toUInt32, hmod, Nat.shiftLeft_eq, Nat.mul_comm,
    Nat.mod_eq_of_lt hlt]

theorem toNat_unpackChecksum (b₀ b₁ b₂ b₃ : UInt8) :
    (unpackChecksum b₀ b₁ b₂ b₃).toNat =
      b₀.toNat + 2 ^ 8 * b₁.toNat + 2 ^ 16 * b₂.toNat + 2 ^ 24 * b₃.toNat := by
  have h₀ : b₀.toNat < 2 ^ 8 := b₀.toNat_lt
  have h₁ : b₁.toNat < 2 ^ 8 := b₁.toNat_lt
  have h₂ : b₂.toNat < 2 ^ 8 := b₂.toNat_lt
  have hlow₁ : b₀.toNat + 2 ^ 8 * b₁.toNat < 2 ^ 16 := by omega
  have hlow₂ : b₀.toNat + 2 ^ 8 * b₁.toNat + 2 ^ 16 * b₂.toNat < 2 ^ 24 := by omega
  have hs₁ : (b₁.toUInt32 <<< 8).toNat = 2 ^ 8 * b₁.toNat := toNat_byte_shiftLeft b₁ (by decide)
  have hs₂ : (b₂.toUInt32 <<< 16).toNat = 2 ^ 16 * b₂.toNat := toNat_byte_shiftLeft b₂ (by decide)
  have hs₃ : (b₃.toUInt32 <<< 24).toNat = 2 ^ 24 * b₃.toNat := toNat_byte_shiftLeft b₃ (by decide)
  rw [unpackChecksum, UInt32.toNat_or, UInt32.toNat_or, UInt32.toNat_or, UInt8.toNat_toUInt32,
    hs₁, hs₂, hs₃, or_eq_add h₀, or_eq_add hlow₁, or_eq_add hlow₂]

/-- **Packing and unpacking are inverse to each other.** -/
theorem packChecksum_eq_iff {checksum : UInt32} {b₀ b₁ b₂ b₃ : UInt8} :
    packChecksum checksum = [b₀, b₁, b₂, b₃] ↔ unpackChecksum b₀ b₁ b₂ b₃ = checksum := by
  have hnat := toNat_unpackChecksum b₀ b₁ b₂ b₃
  have h₀ := b₀.toNat_lt
  have h₁ := b₁.toNat_lt
  have h₂ := b₂.toNat_lt
  have h₃ := b₃.toNat_lt
  have hc := checksum.toNat_lt
  simp only [packChecksum, List.cons.injEq, and_true, ← UInt8.toNat_inj, ← UInt32.toNat_inj, hnat,
    UInt32.toNat_toUInt8, UInt32.toNat_shiftRight, UInt32.toNat_ofNat, Nat.shiftRight_eq_div_pow]
  constructor
  · rintro ⟨e₀, e₁, e₂, e₃⟩
    simp only [Nat.reduceMod, Nat.reducePow] at *
    omega
  · intro h
    simp only [Nat.reduceMod, Nat.reducePow] at *
    omega

/-! ## Blocks -/

section

variable (computeChecksum : Bytes → UInt32)

/-- `ValidateChecksum`. -/
def validateChecksum (data : Bytes) (expected : UInt32) : Bool :=
  let actual := computeChecksum data
  actual == expected

/-- `AppendChecksum`. -/
def appendChecksum (data : Bytes) : Bytes := data ++ packChecksum (computeChecksum data)

/-- `ValidateAndStripChecksum`: the data, which is nil if there are not even four bytes, and whether
it is valid. -/
def validateAndStripChecksum (dataWithChecksum : Bytes) : Option Bytes × Bool :=
  if dataWithChecksum.length < 4 then (none, false)
  else
    let dataLen := dataWithChecksum.length - 4
    let data := dataWithChecksum.take dataLen
    let expectedChecksum := unpackChecksum (dataWithChecksum.getD dataLen 0)
      (dataWithChecksum.getD (dataLen + 1) 0) (dataWithChecksum.getD (dataLen + 2) 0)
      (dataWithChecksum.getD (dataLen + 3) 0)
    (some data, validateChecksum computeChecksum data expectedChecksum)

/-- A block is valid if its trailer is the one that `AppendChecksum` writes. -/
theorem validateAndStripChecksum_append (data : Bytes) {trailer : Bytes}
    (h : trailer.length = 4) :
    validateAndStripChecksum computeChecksum (data ++ trailer) =
      (some data, decide (trailer = packChecksum (computeChecksum data))) := by
  obtain ⟨b₀, b₁, b₂, b₃, rfl⟩ : ∃ b₀ b₁ b₂ b₃, trailer = [b₀, b₁, b₂, b₃] := by
    match trailer, h with
    | [b₀, b₁, b₂, b₃], _ => exact ⟨b₀, b₁, b₂, b₃, rfl⟩
  have hlen : (data ++ [b₀, b₁, b₂, b₃]).length - 4 = data.length := by simp
  have hget : ∀ i, (data ++ [b₀, b₁, b₂, b₃]).getD (data.length + i) 0 =
      [b₀, b₁, b₂, b₃].getD i 0 := by
    intro i
    simp [List.getD_eq_getElem?_getD, List.getElem?_append_right]
  have hzero := hget 0
  rw [Nat.add_zero] at hzero
  rw [validateAndStripChecksum, if_neg (by simp)]
  simp only [hlen, hget, hzero, List.take_left, validateChecksum]
  congr 1
  rw [beq_eq_decide, decide_eq_decide, eq_comm]
  exact packChecksum_eq_iff.symm.trans eq_comm

/-- **Checksummed blocks.** A block that was made by `AppendChecksum` is read back, and if its last
four bytes are changed in any way, it is invalid. -/
theorem checksummed_block_roundtrip (data : Bytes) :
    validateAndStripChecksum computeChecksum (appendChecksum computeChecksum data) =
        (some data, true) ∧
      ∀ damaged : Bytes, damaged.length = (appendChecksum computeChecksum data).length →
        damaged.take data.length = data → damaged ≠ appendChecksum computeChecksum data →
        (validateAndStripChecksum computeChecksum damaged).2 = false := by
  constructor
  · rw [appendChecksum, validateAndStripChecksum_append _ _ rfl, decide_eq_true rfl]
  · intro damaged hlen htake hne
    have hlen' : (damaged.drop data.length).length = 4 := by
      rw [List.length_drop, hlen, appendChecksum, List.length_append, Nat.add_sub_cancel_left]
      rfl
    have hsplit : data ++ damaged.drop data.length = damaged := by
      conv_rhs => rw [← List.take_append_drop data.length damaged, htake]
    rw [← hsplit, validateAndStripChecksum_append _ _ hlen', decide_eq_false_iff_not]
    intro htrailer
    exact hne (by rw [← hsplit, htrailer, appendChecksum])

end

end PairDB.StorageNode
