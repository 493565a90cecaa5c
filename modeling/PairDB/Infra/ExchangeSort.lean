import Mathlib

/-!
# Exchange sort

For every place, the element there is exchanged with each later one that is less. The sort is not
stable, so what follows it may depend on where equal elements end up.
-/

namespace Infra

variable {α : Type*}

/-- The inner loop. `a` is at the place that is filled; what comes out is the element that stays
there, and the rest. -/
def exchange (lt : α → α → Bool) (a : α) : List α → α × List α
  | [] => (a, [])
  | b :: bs =>
    if lt b a then ((exchange lt b bs).1, a :: (exchange lt b bs).2)
    else ((exchange lt a bs).1, b :: (exchange lt a bs).2)

/-- The outer loop, for a number of places. -/
def exchangeRounds (lt : α → α → Bool) : Nat → List α → List α
  | _, [] => []
  | 0, l => l
  | n + 1, a :: l => (exchange lt a l).1 :: exchangeRounds lt n (exchange lt a l).2

/-- The sort fills every place. -/
def exchangeSort (lt : α → α → Bool) (l : List α) : List α := exchangeRounds lt l.length l

theorem exchange_perm (lt : α → α → Bool) (a : α) (l : List α) :
    ((exchange lt a l).1 :: (exchange lt a l).2).Perm (a :: l) := by
  induction l generalizing a with
  | nil => exact List.Perm.refl _
  | cons b bs ih =>
    by_cases hlt : lt b a = true
    · rw [exchange, if_pos hlt]
      exact (List.Perm.swap _ _ _).trans ((ih b).cons a)
    · rw [exchange, if_neg hlt]
      exact (List.Perm.swap _ _ _).trans (((ih a).cons b).trans (List.Perm.swap _ _ _))

theorem exchangeRounds_perm (lt : α → α → Bool) (n : Nat) (l : List α) :
    (exchangeRounds lt n l).Perm l := by
  induction n generalizing l with
  | zero => cases l <;> exact List.Perm.refl _
  | succ n ih =>
    cases l with
    | nil => exact List.Perm.refl _
    | cons a l => exact ((ih _).cons _).trans (exchange_perm lt a l)

theorem exchangeSort_perm (lt : α → α → Bool) (l : List α) : (exchangeSort lt l).Perm l :=
  exchangeRounds_perm lt l.length l

section

variable {lt : α → α → Bool} (hasymm : ∀ a b, lt a b = true → lt b a = false)
  (htrans : ∀ a b c, lt b a = false → lt c b = false → lt c a = false)

include hasymm htrans

/-- No element is less than the one that stays. -/
theorem exchange_least (a : α) (l : List α) : lt a (exchange lt a l).1 = false ∧
    ∀ b ∈ (exchange lt a l).2, lt b (exchange lt a l).1 = false := by
  induction l generalizing a with
  | nil =>
    refine ⟨?_, by simp [exchange]⟩
    show lt a a = false
    cases hlt : lt a a with
    | false => rfl
    | true => exact hlt.symm.trans (hasymm a a hlt)
  | cons b bs ih =>
    by_cases hlt : lt b a = true
    · rw [exchange, if_pos hlt]
      obtain ⟨hb, hrest⟩ := ih b
      have ha := htrans _ b a hb (hasymm b a hlt)
      refine ⟨ha, fun c hc => ?_⟩
      rcases List.mem_cons.mp hc with rfl | hc
      · exact ha
      · exact hrest c hc
    · rw [exchange, if_neg hlt]
      obtain ⟨ha, hrest⟩ := ih a
      refine ⟨ha, fun c hc => ?_⟩
      rcases List.mem_cons.mp hc with rfl | hc
      · exact htrans _ a c ha (Bool.not_eq_true _ ▸ hlt)
      · exact hrest c hc

theorem exchangeRounds_pairwise {n : Nat} {l : List α} (hn : l.length ≤ n) :
    (exchangeRounds lt n l).Pairwise fun a b => lt b a = false := by
  induction n generalizing l with
  | zero =>
    obtain rfl := List.length_eq_zero_iff.mp (Nat.le_zero.mp hn)
    exact List.Pairwise.nil
  | succ n ih =>
    cases l with
    | nil => exact List.Pairwise.nil
    | cons a l =>
      have hlen := (exchange_perm lt a l).length_eq
      rw [List.length_cons, List.length_cons] at hlen
      rw [List.length_cons] at hn
      refine List.Pairwise.cons (fun b hb => ?_) (ih (by omega))
      exact (exchange_least hasymm htrans a l).2 b ((exchangeRounds_perm lt n _).mem_iff.mp hb)

/-- The result is sorted. -/
theorem exchangeSort_pairwise (l : List α) :
    (exchangeSort lt l).Pairwise fun a b => lt b a = false :=
  exchangeRounds_pairwise hasymm htrans le_rfl

end

end Infra
