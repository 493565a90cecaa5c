import Mathlib

/-!
# Runs of a step function

A system is a state, a set of actions and `step : σ → α → Option σ`. `none` means that the action
is not possible in that state. A run takes a list of actions.

A condition on the steps (`AllSteps`) is a condition on the state *before* each step, so a result
"every run whose steps all meet the condition ..." is an induction over the run with one step
lemma. The two rules below package that induction.
-/

namespace Infra

variable {σ α : Type*}

/-- Take the actions one after another. -/
def run (step : σ → α → Option σ) : σ → List α → Option σ
  | s, [] => some s
  | s, a :: as => (step s a).bind fun s' => run step s' as

/-- Every step of the run meets `P` in the state before it. -/
def AllSteps (step : σ → α → Option σ) (P : σ → α → Prop) : σ → List α → Prop
  | _, [] => True
  | s, a :: as => P s a ∧
    match step s a with
    | none => True
    | some s' => AllSteps step P s' as

section

variable {step : σ → α → Option σ} {P : σ → α → Prop}

@[simp] theorem run_nil (s : σ) : run step s [] = some s := rfl

theorem run_cons {s s' : σ} {a : α} {as : List α} :
    run step s (a :: as) = some s' ↔ ∃ s₁, step s a = some s₁ ∧ run step s₁ as = some s' := by
  simp only [run, Option.bind_eq_some_iff]

theorem run_append (as bs : List α) (s : σ) :
    run step s (as ++ bs) = (run step s as).bind fun s' => run step s' bs := by
  induction as generalizing s with
  | nil => rfl
  | cons a as ih =>
    simp only [List.cons_append, run]
    cases step s a with
    | none => rfl
    | some s₁ => exact ih s₁

theorem AllSteps.tail {s s' : σ} {a : α} {as : List α} (h : AllSteps step P s (a :: as))
    (hs : step s a = some s') : AllSteps step P s' as := by
  have h2 := h.2
  rw [hs] at h2
  exact h2

theorem AllSteps.mono {Q : σ → α → Prop} (hPQ : ∀ s a, P s a → Q s a) :
    ∀ {s : σ} {as : List α}, AllSteps step P s as → AllSteps step Q s as
  | _, [], _ => trivial
  | s, a :: as, h => by
    refine ⟨hPQ s a h.1, ?_⟩
    have h2 := h.2
    cases hs : step s a with
    | none => trivial
    | some s' =>
      rw [hs] at h2
      exact AllSteps.mono hPQ h2

theorem AllSteps.and {Q : σ → α → Prop} :
    ∀ {s : σ} {as : List α}, AllSteps step P s as → AllSteps step Q s as →
      AllSteps step (fun s a => P s a ∧ Q s a) s as
  | _, [], _, _ => trivial
  | s, a :: as, hP, hQ => by
    refine ⟨⟨hP.1, hQ.1⟩, ?_⟩
    cases hs : step s a with
    | none => trivial
    | some s' => exact AllSteps.and (hP.tail hs) (hQ.tail hs)

theorem allSteps_append {as bs : List α} {s : σ} :
    AllSteps step P s (as ++ bs) ↔
      AllSteps step P s as ∧ ∀ s', run step s as = some s' → AllSteps step P s' bs := by
  induction as generalizing s with
  | nil => simp [AllSteps]
  | cons a as ih =>
    simp only [List.cons_append, AllSteps, run]
    cases step s a with
    | none => simp
    | some s₁ => simp only [ih, and_assoc, Option.bind_some]

/-- A condition on the steps is a condition on every place of the run. -/
theorem allSteps_of_splits {as : List α} {s : σ}
    (h : ∀ pre a post s', as = pre ++ a :: post → run step s pre = some s' → P s' a) :
    AllSteps step P s as := by
  induction as generalizing s with
  | nil => trivial
  | cons a as ih =>
    refine ⟨h [] a as s rfl rfl, ?_⟩
    cases hs : step s a with
    | none => trivial
    | some s₁ =>
      refine ih fun pre b post s' heq hr => h (a :: pre) b post s' ?_ ?_
      · rw [heq, List.cons_append]
      · exact run_cons.mpr ⟨s₁, hs, hr⟩

/-- A run of a system is a run of every system that takes the same steps and more. -/
theorem run_of_le {step' : σ → α → Option σ}
    (hle : ∀ s a s', step s a = some s' → step' s a = some s') :
    ∀ {s : σ} {as : List α} {t : σ}, run step s as = some t → run step' s as = some t
  | _, [], _, h => h
  | _, _ :: _, _, h => by
    obtain ⟨s₁, hs₁, hr⟩ := run_cons.mp h
    exact run_cons.mpr ⟨s₁, hle _ _ _ hs₁, run_of_le hle hr⟩

theorem AllSteps.of_le {step' : σ → α → Option σ}
    (hle : ∀ s a s', step s a = some s' → step' s a = some s') :
    ∀ {s : σ} {as : List α} {t : σ}, AllSteps step P s as → run step s as = some t →
      AllSteps step' P s as
  | _, [], _, _, _ => trivial
  | s, a :: as, _, h, hr => by
    obtain ⟨s₁, hs₁, hr₁⟩ := run_cons.mp hr
    refine ⟨h.1, ?_⟩
    rw [hle _ _ _ hs₁]
    exact AllSteps.of_le hle (h.tail hs₁) hr₁

/-- Whether a run meets a decidable condition can be computed. -/
instance AllSteps.decidable [∀ s a, Decidable (P s a)] :
    (s : σ) → (as : List α) → Decidable (AllSteps step P s as)
  | _, [] => .isTrue trivial
  | s, a :: as =>
    have : Decidable (match step s a with
        | none => True
        | some s' => AllSteps step P s' as) :=
      match step s a with
      | none => .isTrue trivial
      | some s' => AllSteps.decidable s' as
    inferInstanceAs (Decidable (_ ∧ _))

/--
**The invariant rule with a history.**

`I` speaks of the actions taken so far and of the state reached. It holds at the start, and a step
that meets `P` carries it from `pre` to `pre ++ [a]`.
-/
theorem run_invariant_history {I : List α → σ → Prop}
    (hstep : ∀ pre s a s', I pre s → P s a → step s a = some s' → I (pre ++ [a]) s') :
    ∀ (as pre : List α) (s s' : σ), I pre s → AllSteps step P s as →
      run step s as = some s' → I (pre ++ as) s'
  | [], pre, s, s', hI, _, hr => by
    rw [run_nil, Option.some.injEq] at hr
    rw [List.append_nil, ← hr]
    exact hI
  | a :: as, pre, s, s', hI, hall, hr => by
    obtain ⟨s₁, hs₁, hr₁⟩ := run_cons.mp hr
    have hI₁ := hstep pre s a s₁ hI hall.1 hs₁
    have := run_invariant_history hstep as (pre ++ [a]) s₁ s' hI₁ (hall.tail hs₁) hr₁
    rwa [List.append_assoc] at this

/-- The invariant rule, when the invariant is about the state alone. -/
theorem run_invariant {I : σ → Prop}
    (hstep : ∀ s a s', I s → P s a → step s a = some s' → I s')
    {as : List α} {s s' : σ} (hI : I s) (hall : AllSteps step P s as)
    (hr : run step s as = some s') : I s' :=
  run_invariant_history (I := fun _ s => I s) (fun _ => hstep) as [] s s' hI hall hr

/-- What the invariant says about a step holds for every step. -/
theorem AllSteps.of_invariant {I : σ → Prop} {Q : σ → α → Prop}
    (hstep : ∀ s a s', I s → P s a → step s a = some s' → I s')
    (hQ : ∀ s a, I s → P s a → Q s a) :
    ∀ {s : σ} {as : List α}, I s → AllSteps step P s as → AllSteps step Q s as
  | _, [], _, _ => trivial
  | s, a :: as, hI, hall => by
    refine ⟨hQ s a hI hall.1, ?_⟩
    cases hs : step s a with
    | none => trivial
    | some s' => exact AllSteps.of_invariant hstep hQ (hstep s a s' hI hall.1 hs) (hall.tail hs)

/-- A run without a condition meets the trivial one. -/
theorem allSteps_trivial : ∀ (as : List α) (s : σ), AllSteps step (fun _ _ => True) s as
  | [], _ => trivial
  | a :: as, s => by
    refine ⟨trivial, ?_⟩
    cases step s a with
    | none => trivial
    | some s' => exact allSteps_trivial as s'

end

end Infra
