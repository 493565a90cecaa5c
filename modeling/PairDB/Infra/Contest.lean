import Mathlib

/-!
# Contests

Newcomers come one after another, and each takes the place of the champion if it beats it. `beats`
is any relation, so who is champion at the end can depend on the order.

The elements are on one side or not. In `contest_side` the champion at the end is on the side,
whatever the order; `contest_eq_self` and `contest_mem` are about orders that somebody has chosen.
-/

namespace Infra

variable {α : Type*}

/-- The champion after a newcomer. -/
def challenge (beats : α → α → Prop) [DecidableRel beats] (champion newcomer : α) : α :=
  if beats newcomer champion then newcomer else champion

/-- The champion after all newcomers. -/
def contest (beats : α → α → Prop) [DecidableRel beats] (champion : α) (newcomers : List α) : α :=
  newcomers.foldl (challenge beats) champion

variable {beats : α → α → Prop} [DecidableRel beats] {champion : α} {newcomers : List α}

@[simp] theorem contest_nil : contest beats champion [] = champion := rfl

@[simp] theorem contest_cons (y : α) :
    contest beats champion (y :: newcomers) =
      contest beats (challenge beats champion y) newcomers := rfl

theorem contest_append (l l' : List α) :
    contest beats champion (l ++ l') = contest beats (contest beats champion l) l' :=
  List.foldl_append

/-- What holds of the first champion, and of each newcomer that beats a champion of whom it holds,
holds of the last one. -/
theorem contest_rule {P : α → Prop} (hfirst : P champion)
    (hnew : ∀ y ∈ newcomers, ∀ c, P c → beats y c → P y) :
    P (contest beats champion newcomers) := by
  induction newcomers generalizing champion with
  | nil => exact hfirst
  | cons y newcomers ih =>
    rw [List.forall_mem_cons] at hnew
    refine ih ?_ hnew.2
    unfold challenge
    split
    · next hbeats => exact hnew.1 champion hfirst hbeats
    · exact hfirst

theorem contest_mem : contest beats champion newcomers ∈ champion :: newcomers :=
  contest_rule List.mem_cons_self fun _ hy _ _ _ => List.mem_cons_of_mem _ hy

theorem contest_eq_self (h : ∀ y ∈ newcomers, ¬ beats y champion) :
    contest beats champion newcomers = champion :=
  contest_rule (P := fun c => c = champion) rfl fun y hy _ hc hbeats =>
    absurd (hc ▸ hbeats) (h y hy)

section Side

variable {S : α → Prop}

/-- A side that nobody beats from outside keeps the championship. -/
theorem contest_stays (hfirst : S champion)
    (hstays : ∀ y ∈ champion :: newcomers, ¬ S y →
      ∀ c ∈ champion :: newcomers, S c → ¬ beats y c) :
    S (contest beats champion newcomers) := by
  have hrule : S (contest beats champion newcomers) ∧
      contest beats champion newcomers ∈ champion :: newcomers := by
    refine contest_rule (P := fun c => S c ∧ c ∈ champion :: newcomers)
      ⟨hfirst, List.mem_cons_self⟩ fun y hy c hc hbeats => ?_
    have hmem := List.mem_cons_of_mem champion hy
    refine ⟨by_contra fun hside => ?_, hmem⟩
    exact hstays y hmem hside c hc.2 hc.1 hbeats
  exact hrule.1

/-- **A side that wins in every order.** One of its members beats everybody outside, and nobody
outside beats any of its members. -/
theorem contest_side {e : α} (hmem : e ∈ champion :: newcomers) (hside : S e)
    (hwins : ∀ y ∈ champion :: newcomers, ¬ S y → beats e y)
    (hstays : ∀ y ∈ champion :: newcomers, ¬ S y →
      ∀ c ∈ champion :: newcomers, S c → ¬ beats y c) :
    S (contest beats champion newcomers) := by
  rcases List.mem_cons.mp hmem with rfl | hnew
  · exact contest_stays hside hstays
  · obtain ⟨pre, post, rfl⟩ := List.append_of_mem hnew
    rw [contest_append, contest_cons]
    have hheld : contest beats champion pre ∈ champion :: (pre ++ e :: post) :=
      List.cons_subset_cons _ (List.subset_append_left pre _) contest_mem
    -- after `e` the champion is on the side, and it is one of the list
    have hafter : S (challenge beats (contest beats champion pre) e) ∧
        challenge beats (contest beats champion pre) e ∈ champion :: (pre ++ e :: post) := by
      unfold challenge
      split
      · exact ⟨hside, hmem⟩
      · next hloses => exact ⟨by_contra fun hout => hloses (hwins _ hheld hout), hheld⟩
    have hsub : challenge beats (contest beats champion pre) e :: post ⊆
        champion :: (pre ++ e :: post) := by
      refine List.cons_subset.mpr ⟨hafter.2, fun y hy => ?_⟩
      exact List.mem_cons_of_mem _ (List.mem_append_right _ (List.mem_cons_of_mem _ hy))
    exact contest_stays hafter.1 fun y hy hout c hc => hstays y (hsub hy) hout c (hsub hc)

end Side

end Infra
