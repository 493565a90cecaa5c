import Mathlib

/-!
# Signed machine integers

A signed integer of `w` bits is an `Int`; an operation that can overflow is followed by
`wrapInt w`, the reduction to the two's complement range.
-/

namespace Infra

/-- The two's complement value of `x` in `w` bits. -/
def wrapInt (w : Nat) (x : Int) : Int := Int.bmod x (2 ^ w)

/-- An `int64` result. -/
abbrev int64 (x : Int) : Int := wrapInt 64 x

/-- An `int32` result. -/
abbrev int32 (x : Int) : Int := wrapInt 32 x

@[simp] theorem wrapInt_wrapInt (w : Nat) (x : Int) : wrapInt w (wrapInt w x) = wrapInt w x :=
  Int.bmod_bmod

theorem int64_eq_self {x : Int} (hlo : -2 ^ 63 ≤ x) (hhi : x < 2 ^ 63) : int64 x = x := by
  unfold int64 wrapInt
  rw [Int.bmod_def]
  split <;> omega

theorem int32_eq_self {x : Int} (hlo : -2 ^ 31 ≤ x) (hhi : x < 2 ^ 31) : int32 x = x := by
  unfold int32 wrapInt
  rw [Int.bmod_def]
  split <;> omega

end Infra
