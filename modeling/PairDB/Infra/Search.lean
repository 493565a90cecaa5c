import Mathlib

/-!
# Binary search

The loop of a library's `Search(n, f)`. Each round halves the interval, so `n` rounds are always
enough.
-/

namespace Infra

/-- One round after another, with `f` false below `i` and true from `j` on. -/
def searchLoop (f : Nat → Bool) : (rounds i j : Nat) → Nat
  | 0, i, _ => i
  | rounds + 1, i, j =>
    if i < j then
      let h := (i + j) / 2
      if !f h then searchLoop f rounds (h + 1) j else searchLoop f rounds i h
    else i

/-- The first index below `n` at which `f` becomes true, or `n`. -/
def search (n : Nat) (f : Nat → Bool) : Nat := searchLoop f n 0 n

end Infra
