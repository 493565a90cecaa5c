import PairDB.Infra.Bytes

/-!
# Base64

The standard alphabet with padding. Three bytes become four digits, so the text is a third longer
than the bytes (`length_encode`).
-/

namespace Infra.Base64

/-- The character of a digit below 64. -/
def digitChar (d : Nat) : Char :=
  if d < 26 then Char.ofNat (65 + d)
  else if d < 52 then Char.ofNat (71 + d)
  else if d < 62 then Char.ofNat (d - 4)
  else if d = 62 then '+'
  else '/'

/-- The digit of a character of the alphabet. -/
def digitValue (c : Char) : Option Nat :=
  let n := c.toNat
  if 65 ≤ n ∧ n ≤ 90 then some (n - 65)
  else if 97 ≤ n ∧ n ≤ 122 then some (n - 71)
  else if 48 ≤ n ∧ n ≤ 57 then some (n + 4)
  else if c = '+' then some 62
  else if c = '/' then some 63
  else none

/-- A digit can be read back, and it is never mistaken for padding. -/
theorem digit_spec : ∀ d < 64, digitValue (digitChar d) = some d ∧ digitChar d ≠ '=' := by
  decide

/-- Three bytes at a time; the last group is filled up with `=`. -/
def encode : Bytes → List Char
  | [] => []
  | [a] =>
    let n := a.toNat * 16
    [digitChar (n / 64), digitChar (n % 64), '=', '=']
  | [a, b] =>
    let n := (a.toNat * 256 + b.toNat) * 4
    [digitChar (n / 4096), digitChar (n / 64 % 64), digitChar (n % 64), '=']
  | a :: b :: c :: rest =>
    let n := a.toNat * 65536 + b.toNat * 256 + c.toNat
    digitChar (n / 262144) :: digitChar (n / 4096 % 64) :: digitChar (n / 64 % 64)
      :: digitChar (n % 64) :: encode rest

/-- Four characters at a time. Padding is accepted at the end only. -/
def decode : List Char → Option Bytes
  | [] => some []
  | c₀ :: c₁ :: c₂ :: c₃ :: rest =>
    if c₃ = '=' then
      if rest ≠ [] then none
      else if c₂ = '=' then
        (digitValue c₀).bind fun d₀ => (digitValue c₁).bind fun d₁ =>
          some [UInt8.ofNat ((d₀ * 64 + d₁) / 16)]
      else
        (digitValue c₀).bind fun d₀ => (digitValue c₁).bind fun d₁ =>
          (digitValue c₂).bind fun d₂ =>
            let n := (d₀ * 4096 + d₁ * 64 + d₂) / 4
            some [UInt8.ofNat (n / 256), UInt8.ofNat (n % 256)]
    else
      (digitValue c₀).bind fun d₀ => (digitValue c₁).bind fun d₁ =>
        (digitValue c₂).bind fun d₂ => (digitValue c₃).bind fun d₃ =>
          let n := d₀ * 262144 + d₁ * 4096 + d₂ * 64 + d₃
          (decode rest).map fun bs =>
            UInt8.ofNat (n / 65536) :: UInt8.ofNat (n / 256 % 256) :: UInt8.ofNat (n % 256) :: bs
  | _ => none

theorem ofNat_eq {b : UInt8} {n : Nat} (h : n = b.toNat) : UInt8.ofNat n = b := by
  rw [h]
  exact UInt8.ofNat_toNat

/-- **Decoding inverts encoding.** -/
theorem decode_encode : ∀ bs : Bytes, decode (encode bs) = some bs
  | [] => rfl
  | [a] => by
    have ha := UInt8.toNat_lt a
    have h₀ : a.toNat * 16 / 64 < 64 := by omega
    have h₁ : a.toNat * 16 % 64 < 64 := by omega
    simp only [encode, decode, if_true, ne_eq, not_true_eq_false, if_false,
      (digit_spec _ h₀).1, (digit_spec _ h₁).1, Option.bind_some]
    rw [ofNat_eq (b := a) (by omega)]
  | [a, b] => by
    have ha := UInt8.toNat_lt a
    have hb := UInt8.toNat_lt b
    have h₀ : (a.toNat * 256 + b.toNat) * 4 / 4096 < 64 := by omega
    have h₁ : (a.toNat * 256 + b.toNat) * 4 / 64 % 64 < 64 := by omega
    have h₂ : (a.toNat * 256 + b.toNat) * 4 % 64 < 64 := by omega
    simp only [encode, decode, if_true, ne_eq, not_true_eq_false, if_false, (digit_spec _ h₂).2,
      (digit_spec _ h₀).1, (digit_spec _ h₁).1, (digit_spec _ h₂).1, Option.bind_some]
    rw [ofNat_eq (b := a) (by omega), ofNat_eq (b := b) (by omega)]
  | a :: b :: c :: rest => by
    have ha := UInt8.toNat_lt a
    have hb := UInt8.toNat_lt b
    have hc := UInt8.toNat_lt c
    have h₀ : (a.toNat * 65536 + b.toNat * 256 + c.toNat) / 262144 < 64 := by omega
    have h₁ : (a.toNat * 65536 + b.toNat * 256 + c.toNat) / 4096 % 64 < 64 := by omega
    have h₂ : (a.toNat * 65536 + b.toNat * 256 + c.toNat) / 64 % 64 < 64 := by omega
    have h₃ : (a.toNat * 65536 + b.toNat * 256 + c.toNat) % 64 < 64 := by omega
    simp only [encode, decode, (digit_spec _ h₃).2, if_false, (digit_spec _ h₀).1,
      (digit_spec _ h₁).1, (digit_spec _ h₂).1, (digit_spec _ h₃).1, Option.bind_some,
      decode_encode rest, Option.map_some]
    rw [ofNat_eq (b := a) (by omega), ofNat_eq (b := b) (by omega), ofNat_eq (b := c) (by omega)]

theorem length_encode : ∀ bs : Bytes, (encode bs).length = 4 * ((bs.length + 2) / 3)
  | [] => rfl
  | [_] => by simp [encode]
  | [_, _] => by simp [encode]
  | _ :: _ :: _ :: rest => by
    simp only [encode, List.length_cons, length_encode rest]
    omega

end Infra.Base64
