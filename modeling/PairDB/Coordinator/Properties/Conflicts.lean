import PairDB.Infra.Contest
import PairDB.Coordinator.Properties.QuorumRead

/-!
# The loop of `DetectConflicts`

The loop keeps one response. A response takes its place if it is After it, or if the two are
concurrent and it has the later timestamp. So the loop is a contest of the responses that are Found
(`detectConflicts_eq_resolve`), with a flag that is raised when two concurrent clocks meet.
-/

namespace PairDB.Coordinator

open Infra VectorClockOps

/-! ## The loop is a contest -/

/-- The response takes the place of the latest one. -/
def Supersedes (resp latest : StorageResponse) : Prop :=
  compare resp.vectorClock latest.vectorClock = .after ∨
    compare resp.vectorClock latest.vectorClock = .concurrent ∧ resp.timestamp > latest.timestamp

instance : DecidableRel Supersedes := fun _ _ => inferInstanceAs (Decidable (_ ∨ _))

/-- The latest response meets a concurrent one. -/
def meets : StorageResponse → List StorageResponse → Bool
  | _, [] => false
  | latest, resp :: rest =>
    decide (compare resp.vectorClock latest.vectorClock = .concurrent) ||
      meets (challenge Supersedes latest resp) rest

/-- What becomes of the responses that are Found. -/
def resolve : List StorageResponse → Option StorageResponse × Bool
  | [] => (none, false)
  | first :: rest => (some (contest Supersedes first rest), meets first rest)

theorem detectFound_some (latest resp : StorageResponse) (conflict : Bool) :
    detectFound (some latest, conflict) resp = (some (challenge Supersedes latest resp),
      conflict || decide (compare resp.vectorClock latest.vectorClock = .concurrent)) := by
  have hsupersedes : Supersedes resp latest ↔
      compare resp.vectorClock latest.vectorClock = .after ∨
        compare resp.vectorClock latest.vectorClock = .concurrent ∧
          resp.timestamp > latest.timestamp := Iff.rfl
  simp only [detectFound, challenge, hsupersedes]
  rcases compare resp.vectorClock latest.vectorClock with _ | _ | _ | _
  · simp
  · simp
  · simp
  · simp only [reduceCtorEq, false_or, true_and, decide_true, Bool.or_true]
    split <;> rfl

theorem foldl_detectFound (latest : StorageResponse) (conflict : Bool)
    (rest : List StorageResponse) : rest.foldl detectFound (some latest, conflict) =
      (some (contest Supersedes latest rest), conflict || meets latest rest) := by
  induction rest generalizing latest conflict with
  | nil => simp [meets]
  | cons resp rest ih =>
    rw [List.foldl_cons, detectFound_some, ih, contest_cons, meets, Bool.or_assoc]

/-- The loop skips the responses that are not Found, and is a contest of the others. -/
theorem detectConflicts_eq_resolve (responses : List StorageResponse) :
    detectConflicts responses = resolve (responses.filter StorageResponse.counts) := by
  have hskip : responses.foldl detectStep (none, false) =
      (responses.filter StorageResponse.counts).foldl detectFound (none, false) := by
    rw [List.foldl_filter]
    refine congrArg (fun f => responses.foldl f _) (funext fun acc => funext fun resp => ?_)
    cases hc : resp.counts with
    | false => exact detectStep_of_not_counts hc
    | true => exact detectStep_of_counts hc
  rw [detectConflicts, hskip]
  cases responses.filter StorageResponse.counts with
  | nil => rfl
  | cons first rest =>
    rw [List.foldl_cons]
    show (let found := rest.foldl detectFound (some first, false)
      if found.1.isNone then (none, false) else found) = _
    rw [foldl_detectFound, Bool.false_or]
    rfl

/-! ## The flag -/

/-- A clock that is not below another one. -/
theorem not_supersedes_of_le {resp latest : StorageResponse}
    (h : resp.vectorClock.timestamp ≤ latest.vectorClock.timestamp) :
    ¬ Supersedes resp latest := by
  rintro (hafter | ⟨hconcurrent, -⟩)
  · exact absurd h (not_le_of_gt (compare_eq_after_iff.mp hafter))
  · exact (compare_eq_concurrent_iff.mp hconcurrent).1 h

/-- Without a conflict the loop ends on a greatest clock. -/
theorem le_contest_of_not_meets {latest : StorageResponse} {rest : List StorageResponse}
    (h : meets latest rest = false) : ∀ y ∈ latest :: rest,
      y.vectorClock.timestamp ≤ (contest Supersedes latest rest).vectorClock.timestamp := by
  induction rest generalizing latest with
  | nil =>
    intro y hy
    rw [List.mem_singleton.mp hy]
    exact le_refl _
  | cons resp rest ih =>
    rw [meets, Bool.or_eq_false_iff, decide_eq_false_iff_not] at h
    have hrest := ih h.2
    have hnext := hrest _ List.mem_cons_self
    -- the two are comparable, so both are at most the one that is kept
    have hboth : latest.vectorClock.timestamp ≤
          (challenge Supersedes latest resp).vectorClock.timestamp ∧
        resp.vectorClock.timestamp ≤
          (challenge Supersedes latest resp).vectorClock.timestamp := by
      unfold challenge
      cases hcmp : compare resp.vectorClock latest.vectorClock with
      | after =>
        rw [if_pos (show Supersedes resp latest from Or.inl hcmp)]
        exact ⟨(compare_eq_after_iff.mp hcmp).le, le_refl _⟩
      | before =>
        have hlt := compare_eq_before_iff.mp hcmp
        rw [if_neg (not_supersedes_of_le hlt.le)]
        exact ⟨le_refl _, hlt.le⟩
      | identical =>
        have heq := compare_eq_identical_iff.mp hcmp
        rw [if_neg (not_supersedes_of_le heq.le)]
        exact ⟨le_refl _, heq.le⟩
      | concurrent => exact absurd hcmp h.1
    intro y hy
    rw [contest_cons]
    rcases List.mem_cons.mp hy with rfl | hy
    · exact hboth.1.trans hnext
    · rcases List.mem_cons.mp hy with rfl | hy
      · exact hboth.2.trans hnext
      · exact hrest y (List.mem_cons_of_mem _ hy)

/-- After a greatest clock there is no conflict. -/
theorem meets_eq_false_of_ge {latest : StorageResponse} {rest : List StorageResponse}
    (h : ∀ y ∈ rest, y.vectorClock.timestamp ≤ latest.vectorClock.timestamp) :
    meets latest rest = false := by
  induction rest with
  | nil => rfl
  | cons resp rest ih =>
    rw [List.forall_mem_cons] at h
    rw [meets, challenge, if_neg (not_supersedes_of_le h.1), ih h.2, Bool.or_false,
      decide_eq_false_iff_not, compare_eq_concurrent_iff]
    exact fun hconcurrent => hconcurrent.1 h.1

/-- A conflict has two sides. -/
theorem exists_concurrent_of_meets {latest : StorageResponse} {rest : List StorageResponse}
    (h : meets latest rest = true) : ∃ r ∈ latest :: rest, ∃ r' ∈ latest :: rest,
      compare r.vectorClock r'.vectorClock = .concurrent := by
  induction rest generalizing latest with
  | nil => cases h
  | cons resp rest ih =>
    rw [meets, Bool.or_eq_true, decide_eq_true_eq] at h
    rcases h with hconcurrent | h
    · exact ⟨resp, by simp, latest, by simp, hconcurrent⟩
    · have hsub : challenge Supersedes latest resp :: rest ⊆ latest :: resp :: rest := by
        refine List.cons_subset.mpr ⟨?_, fun r hr => by simp [hr]⟩
        unfold challenge
        split <;> simp
      obtain ⟨r, hr, r', hr', hconcurrent⟩ := ih h
      exact ⟨r, hsub hr, r', hsub hr', hconcurrent⟩

theorem exists_concurrent_of_conflict {responses : List StorageResponse}
    (h : (detectConflicts responses).2 = true) : ∃ r ∈ responses, ∃ r' ∈ responses,
      r.counts = true ∧ r'.counts = true ∧ compare r.vectorClock r'.vectorClock = .concurrent := by
  rw [detectConflicts_eq_resolve] at h
  cases hfound : responses.filter StorageResponse.counts with
  | nil =>
    rw [hfound] at h
    cases h
  | cons first rest =>
    rw [hfound] at h
    obtain ⟨r, hr, r', hr', hconcurrent⟩ := exists_concurrent_of_meets h
    rw [← hfound] at hr hr'
    obtain ⟨hr, hc⟩ := List.mem_filter.mp hr
    obtain ⟨hr', hc'⟩ := List.mem_filter.mp hr'
    exact ⟨r, hr, r', hr', hc, hc', hconcurrent⟩

end PairDB.Coordinator
