import Mathlib

/-!
# Quorums that meet

Two rounds of answers come from the same group of different members, each member answering once. If
the answers counted in the two rounds are together more than the group has members, some member is
counted in both.
-/

namespace Infra

variable {α β : Type*} [DecidableEq α]

/-- The members whose answer satisfies `p`. -/
def counted (p : α × β → Bool) (answers : List (α × β)) : Finset α :=
  ((answers.filter p).map Prod.fst).toFinset

theorem mem_counted {p : α × β → Bool} {answers : List (α × β)} {a : α} :
    a ∈ counted p answers ↔ ∃ b, (a, b) ∈ answers ∧ p (a, b) = true := by
  simp [counted]

theorem counted_subset {p : α × β → Bool} {answers : List (α × β)} {members : List α}
    (hperm : (answers.map Prod.fst).Perm members) : counted p answers ⊆ members.toFinset := by
  intro a ha
  obtain ⟨b, hb, -⟩ := mem_counted.mp ha
  rw [List.mem_toFinset, ← hperm.mem_iff]
  exact List.mem_map.mpr ⟨(a, b), hb, rfl⟩

theorem card_counted {p : α × β → Bool} {answers : List (α × β)} {members : List α}
    (hperm : (answers.map Prod.fst).Perm members) (hnd : members.Nodup) :
    (counted p answers).card = answers.countP p := by
  have hsub : ((answers.filter p).map Prod.fst).Nodup :=
    (hperm.nodup_iff.mpr hnd).sublist (List.filter_sublist.map Prod.fst)
  rw [counted, List.toFinset_card_of_nodup hsub, List.length_map, List.countP_eq_length_filter]

/-- **Two rounds that count more answers than there are members share one.** -/
theorem exists_counted_in_both {γ : Type*} {p : α × β → Bool} {q : α × γ → Bool}
    {first : List (α × β)} {second : List (α × γ)} {members : List α} (hnd : members.Nodup)
    (hfirst : (first.map Prod.fst).Perm members) (hsecond : (second.map Prod.fst).Perm members)
    (hlt : members.length < first.countP p + second.countP q) :
    ∃ a b c, (a, b) ∈ first ∧ p (a, b) = true ∧ (a, c) ∈ second ∧ q (a, c) = true := by
  have hcard : members.toFinset.card < (counted p first).card + (counted q second).card := by
    rw [card_counted hfirst hnd, card_counted hsecond hnd, List.toFinset_card_of_nodup hnd]
    exact hlt
  obtain ⟨a, ha⟩ := Finset.inter_nonempty_of_card_lt_card_add_card (counted_subset hfirst)
    (counted_subset hsecond) hcard
  obtain ⟨h₁, h₂⟩ := Finset.mem_inter.mp ha
  obtain ⟨b, hb, hp⟩ := mem_counted.mp h₁
  obtain ⟨c, hc, hq⟩ := mem_counted.mp h₂
  exact ⟨a, b, c, hb, hp, hc, hq⟩

end Infra
