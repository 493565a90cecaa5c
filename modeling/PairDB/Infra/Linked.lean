import Mathlib.Data.List.Nodup

/-!
# Linked lists

`next a` is the link of the node `a`: `some none` is a null pointer, and `none` means that the node
has no link at all. `Linked next a l` says that `a` is followed by the nodes `l` and then by nothing.

A write to one link is seen through `Linked.splice`: what follows the written node is replaced, and
what is before it stays.
-/

namespace Infra

variable {α : Type*} {next next' : α → Option (Option α)} {a b : α} {l l₁ l₂ l₃ : List α}

theorem getLastD_append_cons (l₁ l₂ : List α) (a b : α) :
    (l₁ ++ b :: l₂).getLastD a = l₂.getLastD b := by
  induction l₁ generalizing a with
  | nil => exact List.getLastD_cons
  | cons c l₁ ih =>
    rw [List.cons_append, List.getLastD_cons]
    exact ih c

/-- The nodes `l` follow `a`, and the last of them points to nothing. -/
def Linked (next : α → Option (Option α)) : α → List α → Prop
  | a, [] => next a = some none
  | a, b :: l => next a = some (some b) ∧ Linked next b l

namespace Linked

theorem next_eq (h : Linked next a l) : next a = some l.head? := by
  cases l with
  | nil => exact h
  | cons b l => exact h.1

theorem of_next (h : next a = some l.head?) (hrest : ∀ b l', l = b :: l' → Linked next b l') :
    Linked next a l := by
  cases l with
  | nil => exact h
  | cons b l => exact ⟨h, hrest b l rfl⟩

theorem drop (h : Linked next a (l₁ ++ b :: l₂)) : Linked next b l₂ := by
  induction l₁ generalizing a with
  | nil => exact h.2
  | cons c l₁ ih => exact ih h.2

/-- The link behind a part of the list. -/
theorem next_getLastD (h : Linked next a (l₁ ++ l₂)) :
    next (l₁.getLastD a) = some l₂.head? := by
  induction l₁ generalizing a with
  | nil => exact h.next_eq
  | cons c l₁ ih =>
    rw [List.getLastD_cons]
    exact ih h.2

/-- Links of other nodes do not matter. -/
theorem congr (h : Linked next a l) (hsame : ∀ b ∈ a :: l, next' b = next b) :
    Linked next' a l := by
  induction l generalizing a with
  | nil => exact (hsame a (by simp)).trans h
  | cons b l ih =>
    refine ⟨(hsame a (by simp)).trans h.1, ih h.2 fun c hc => ?_⟩
    exact hsame c (List.mem_cons_of_mem a hc)

/-- A write to the last link of a part replaces what follows that part. -/
theorem splice (h : Linked next a (l₁ ++ l₂)) (hnodup : (a :: l₁).Nodup)
    (hsame : ∀ b ∈ a :: l₁, b ≠ l₁.getLastD a → next' b = next b)
    (hlast : next' (l₁.getLastD a) = some l₃.head?)
    (hrest : ∀ c l, l₃ = c :: l → Linked next' c l) : Linked next' a (l₁ ++ l₃) := by
  induction l₁ generalizing a with
  | nil => exact of_next hlast hrest
  | cons b l₁ ih =>
    rw [List.getLastD_cons] at hlast hsame
    obtain ⟨hnot, hnodup'⟩ := List.nodup_cons.mp hnodup
    have hne : a ≠ l₁.getLastD b := by
      rintro rfl
      exact hnot List.getLastD_mem_cons
    refine ⟨(hsame a (by simp) hne).trans h.1, ih h.2 hnodup' (fun c hc hlast' => ?_) hlast⟩
    exact hsame c (List.mem_cons_of_mem a hc) hlast'

end Linked

end Infra
