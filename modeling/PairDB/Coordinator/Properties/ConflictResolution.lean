import PairDB.Coordinator.Properties.AnsweredReads
import PairDB.Coordinator.Properties.Conflicts

/-!
# What `DetectConflicts` makes of the answers

* With equal timestamps the response that is kept is maximal: no other one is After it.
* The answer depends on the order of the responses. `detectConflicts_perm_iff` says for which
  responses it does not. `StorageClient.Read` leaves the timestamps at 0, and then these are the
  responses whose clocks are comparable, with one value for the greatest clock.
-/

namespace PairDB.Coordinator

open Infra VectorClockOps

/-! ## With equal timestamps -/

/-- **The response that is kept is causally maximal.** -/
theorem detectConflicts_maximal {responses : List StorageResponse}
    (htime : ∀ r ∈ responses, ∀ r' ∈ responses, r.timestamp = r'.timestamp) :
    ((∃ r ∈ responses, r.success = true ∧ r.found = true) →
      ∃ latest ∈ responses, (detectConflicts responses).1 = some latest ∧
        latest.success = true ∧ latest.found = true ∧
        ∀ r ∈ responses, r.success = true → r.found = true →
          compare r.vectorClock latest.vectorClock ≠ .after) ∧
      ((∀ r ∈ responses, ∀ r' ∈ responses, r.success = true → r.found = true →
          r'.success = true → r'.found = true →
          compare r.vectorClock r'.vectorClock ≠ .concurrent) →
        (detectConflicts responses).2 = false) := by
  constructor
  · rintro ⟨r, hr, hsuccess, hfound⟩
    have hheld := held_detectConflicts fun r' hr' => htime r' hr' r hr
    cases hlatest : (detectConflicts responses).1 with
    | none =>
      rw [hlatest] at hheld
      have hnot := hheld r hr
      rw [StorageResponse.counts, hsuccess, hfound] at hnot
      cases hnot
    | some latest =>
      rw [hlatest] at hheld
      have hcounts := Bool.and_eq_true_iff.mp hheld.counts
      refine ⟨latest, hheld.mem, rfl, hcounts.1, hcounts.2, fun r' hr' hs hf => ?_⟩
      exact hheld.maximal r' hr' (Bool.and_eq_true_iff.mpr ⟨hs, hf⟩)
  · intro hcomparable
    rw [Bool.eq_false_iff]
    intro hconflict
    obtain ⟨r, hr, r', hr', hc, hc', hconcurrent⟩ := exists_concurrent_of_conflict hconflict
    rw [StorageResponse.counts, Bool.and_eq_true] at hc hc'
    exact hcomparable r hr r' hr' hc.1 hc.2 hc'.1 hc'.2 hconcurrent

namespace Sample

/-- The answer of a replica with a value and the counters of two coordinators. -/
def answerOf (nodeID : String) (value : List UInt8) (a b : Int) : StorageResponse where
  nodeID := nodeID
  success := true
  value := value
  vectorClock := ⟨[⟨"a", a⟩, ⟨"b", b⟩]⟩
  timestamp := 0
  found := true
  error := none

end Sample

open Sample in
theorem detectConflicts_maximal_threeReplicas :
    ∃ latest ∈ [answerOf "n1" [1] 1 0, answerOf "n2" [2] 0 1, answerOf "n3" [3] 1 1],
      (detectConflicts [answerOf "n1" [1] 1 0, answerOf "n2" [2] 0 1,
        answerOf "n3" [3] 1 1]).1 = some latest ∧ latest.value = [3] := by
  have hmax := @detectConflicts_maximal [answerOf "n1" [1] 1 0, answerOf "n2" [2] 0 1,
    answerOf "n3" [3] 1 1] (by decide)
  obtain ⟨latest, hmem, hlatest, -, -, hnone⟩ := hmax.1 ⟨_, List.mem_cons_self, rfl, rfl⟩
  refine ⟨latest, hmem, hlatest, ?_⟩
  have hthird := hnone (answerOf "n3" [3] 1 1) (by decide) rfl rfl
  simp only [List.mem_cons, List.not_mem_nil, or_false] at hmem
  rcases hmem with rfl | rfl | rfl
  · exact absurd (by decide +kernel) hthird
  · exact absurd (by decide +kernel) hthird
  · rfl

/-! ## The order of the responses -/

/-- The same value under the same clock, up to Identical. -/
def SameVersion (resp resp' : StorageResponse) : Prop :=
  resp.value = resp'.value ∧ compare resp.vectorClock resp'.vectorClock = .identical

instance : DecidableRel SameVersion := fun _ _ => inferInstanceAs (Decidable (_ ∧ _))

/-- The answers are the same: both have no response, or responses with the same version, and the
flags are equal. -/
def SameAnswer (answer answer' : Option StorageResponse × Bool) : Prop :=
  Option.Rel SameVersion answer.1 answer'.1 ∧ answer.2 = answer'.2

/-- Nothing stands against the version of `e`: it supersedes all other versions, and none of these
supersedes a response with its version. -/
structure Prevails (found : List StorageResponse) (e : StorageResponse) : Prop where
  supersedes : ∀ r ∈ found, ¬ SameVersion r e → Supersedes e r
  stays : ∀ r ∈ found, ¬ SameVersion r e → ∀ e' ∈ found, SameVersion e' e → ¬ Supersedes r e'

/-- What the responses that are Found have to meet: one version prevails, if there is any, and either
all clocks are comparable or none is the greatest. -/
structure OrderFree (found : List StorageResponse) : Prop where
  prevails : found = [] ∨ ∃ e ∈ found, Prevails found e
  flag : (∀ r ∈ found, ∀ r' ∈ found, compare r.vectorClock r'.vectorClock ≠ .concurrent) ∨
    ∀ r ∈ found, ∃ r' ∈ found, ¬ r'.vectorClock.timestamp ≤ r.vectorClock.timestamp

theorem sameVersion_iff {r r' : StorageResponse} : SameVersion r r' ↔
    r.value = r'.value ∧ r.vectorClock.timestamp = r'.vectorClock.timestamp := by
  rw [SameVersion, compare_eq_identical_iff]

theorem SameVersion.refl (r : StorageResponse) : SameVersion r r := sameVersion_iff.mpr ⟨rfl, rfl⟩

theorem SameVersion.symm {r r' : StorageResponse} (h : SameVersion r r') : SameVersion r' r := by
  rw [sameVersion_iff] at h ⊢
  exact ⟨h.1.symm, h.2.symm⟩

theorem SameVersion.trans {r r' r'' : StorageResponse} (h : SameVersion r r')
    (h' : SameVersion r' r'') : SameVersion r r'' := by
  rw [sameVersion_iff] at h h' ⊢
  exact ⟨h.1.trans h'.1, h.2.trans h'.2⟩

theorem SameVersion.not_supersedes {r r' : StorageResponse} (h : SameVersion r r') :
    ¬ Supersedes r r' := not_supersedes_of_le (sameVersion_iff.mp h).2.le

/-- Among responses with one version the latest timestamp decides. -/
theorem Supersedes.of_sameVersion {e e' r : StorageResponse} (h : Supersedes e r)
    (hsame : SameVersion e e') (htime : e.timestamp ≤ e'.timestamp) : Supersedes e' r := by
  have hclock := (sameVersion_iff.mp hsame).2
  rcases h with hafter | ⟨hconcurrent, hlater⟩
  · rw [compare_eq_after_iff, hclock] at hafter
    exact Or.inl (compare_eq_after_iff.mpr hafter)
  · rw [compare_eq_concurrent_iff, hclock] at hconcurrent
    exact Or.inr ⟨compare_eq_concurrent_iff.mpr hconcurrent, lt_of_lt_of_le hlater htime⟩

section Sufficient

variable {found : List StorageResponse}

/-- Where a version prevails, it is the answer in every order. -/
theorem Prevails.contest {e : StorageResponse} (he : e ∈ found) (h : Prevails found e)
    {first : StorageResponse} {rest : List StorageResponse} (hperm : (first :: rest).Perm found) :
    SameVersion (contest Supersedes first rest) e := by
  have hmem : ∀ r, r ∈ first :: rest ↔ r ∈ found := fun r => hperm.mem_iff
  refine contest_side (S := fun r => SameVersion r e) ((hmem e).mpr he) (SameVersion.refl e)
    (fun r hr => h.supersedes r ((hmem r).mp hr)) ?_
  exact fun r hr hout c hc => h.stays r ((hmem r).mp hr) hout c ((hmem c).mp hc)

/-- The flag is the same in every order. -/
theorem OrderFree.meets_iff (h : OrderFree found) {first : StorageResponse}
    {rest : List StorageResponse} (hperm : (first :: rest).Perm found) :
    meets first rest = true ↔
      ∀ r ∈ found, ∃ r' ∈ found, ¬ r'.vectorClock.timestamp ≤ r.vectorClock.timestamp := by
  have hmem : ∀ r, r ∈ first :: rest ↔ r ∈ found := fun r => hperm.mem_iff
  constructor
  · intro hmeets
    refine h.flag.resolve_left fun hcomparable => ?_
    obtain ⟨r, hr, r', hr', hconcurrent⟩ := exists_concurrent_of_meets hmeets
    exact hcomparable r ((hmem r).mp hr) r' ((hmem r').mp hr') hconcurrent
  · intro hnone
    by_contra hmeets
    obtain ⟨r', hr', hnot⟩ := hnone (contest Supersedes first rest) ((hmem _).mp contest_mem)
    exact hnot (le_contest_of_not_meets (Bool.eq_false_iff.mpr hmeets) r' ((hmem r').mpr hr'))

theorem OrderFree.sameAnswer (h : OrderFree found) {l l' : List StorageResponse}
    (hl : l.Perm found) (hl' : l'.Perm found) : SameAnswer (resolve l) (resolve l') := by
  cases l with
  | nil =>
    rw [(hl'.trans hl.symm).eq_nil]
    exact ⟨.none, rfl⟩
  | cons first rest =>
    cases l' with
    | nil => exact absurd (hl.trans hl'.symm).eq_nil (List.cons_ne_nil _ _)
    | cons first' rest' =>
      obtain ⟨e, he, hprevails⟩ := h.prevails.resolve_left fun hnil => by
        rw [hnil] at hl
        exact List.cons_ne_nil _ _ hl.eq_nil
      refine ⟨.some ?_, ?_⟩
      · exact (hprevails.contest he hl).trans (hprevails.contest he hl').symm
      · exact Bool.eq_iff_iff.mpr ((h.meets_iff hl).trans (h.meets_iff hl').symm)

end Sufficient

section Necessary

variable {found : List StorageResponse}

/-- The answers in all orders have the version of `c`. -/
def Always (found : List StorageResponse) (c : StorageResponse) : Prop :=
  ∀ first rest, (first :: rest).Perm found → SameVersion (contest Supersedes first rest) c

theorem perm_filter (c : StorageResponse) (found : List StorageResponse) :
    (found.filter (fun r => SameVersion r c) ++ found.filter fun r => ¬ SameVersion r c).Perm
      found := by
  have := List.filter_append_perm (fun r => decide (SameVersion r c)) found
  simpa only [decide_not] using this

/-- The others keep the place of the latest response among themselves. -/
theorem not_sameVersion_contest {c r : StorageResponse} {others : List StorageResponse}
    (hr : r ∈ others) (hothers : ∀ y ∈ others, ¬ SameVersion y c) :
    ¬ SameVersion (contest Supersedes r (others.erase r)) c := by
  have hend : contest Supersedes r (others.erase r) ∈ r :: others.erase r := contest_mem
  rcases List.mem_cons.mp hend with heq | hmem
  · rw [heq]
    exact hothers r hr
  · exact hothers _ (List.mem_of_mem_erase hmem)

/-- First a response that is superseded, then the rest of its version, then what supersedes it. -/
theorem Always.not_supersedes {c r e : StorageResponse} (h : Always found c) (hr : r ∈ found)
    (hout : ¬ SameVersion r c) (he : e ∈ found) (hsame : SameVersion e c) :
    ¬ Supersedes r e := by
  intro hsupersedes
  have hside : e ∈ found.filter (fun r => SameVersion r c) :=
    List.mem_filter.mpr ⟨he, decide_eq_true hsame⟩
  have hothers : r ∈ found.filter (fun r => ¬ SameVersion r c) :=
    List.mem_filter.mpr ⟨hr, decide_eq_true hout⟩
  have hperm : (e :: ((found.filter (fun r => SameVersion r c)).erase e ++
      r :: (found.filter fun r => ¬ SameVersion r c).erase r)).Perm found :=
    (((List.perm_cons_erase hside).append (List.perm_cons_erase hothers)).symm).trans
      (perm_filter c found)
  have hstays : contest Supersedes e ((found.filter (fun r => SameVersion r c)).erase e) = e := by
    refine contest_eq_self fun y hy => SameVersion.not_supersedes (SameVersion.trans ?_ hsame.symm)
    exact of_decide_eq_true (List.mem_filter.mp (List.mem_of_mem_erase hy)).2
  have hend := h _ _ hperm
  rw [contest_append, hstays, contest_cons, challenge, if_pos hsupersedes] at hend
  exact not_sameVersion_contest hothers
    (fun y hy => of_decide_eq_true (List.mem_filter.mp hy).2) hend

/-- First a response of another version, then all that have the version. -/
theorem Always.exists_supersedes {c r : StorageResponse} (h : Always found c) (hr : r ∈ found)
    (hout : ¬ SameVersion r c) : ∃ e ∈ found, SameVersion e c ∧ Supersedes e r := by
  by_contra hnone
  have hothers : r ∈ found.filter (fun r => ¬ SameVersion r c) :=
    List.mem_filter.mpr ⟨hr, decide_eq_true hout⟩
  have hperm : (r :: (found.filter (fun r => SameVersion r c) ++
      (found.filter fun r => ¬ SameVersion r c).erase r)).Perm found :=
    List.perm_middle.symm.trans (((List.perm_cons_erase hothers).symm.append_left _).trans
      (perm_filter c found))
  have hstays : contest Supersedes r (found.filter fun r => SameVersion r c) = r := by
    refine contest_eq_self fun y hy hsupersedes => hnone ?_
    obtain ⟨hy, hsame⟩ := List.mem_filter.mp hy
    exact ⟨y, hy, of_decide_eq_true hsame, hsupersedes⟩
  have hend := h _ _ hperm
  rw [contest_append, hstays] at hend
  exact not_sameVersion_contest hothers
    (fun y hy => of_decide_eq_true (List.mem_filter.mp hy).2) hend

/-- The response with the latest timestamp among those with the version of `c`. -/
theorem Always.prevails {c : StorageResponse} (h : Always found c) (hc : c ∈ found) :
    ∃ e ∈ found, Prevails found e := by
  have hne : (found.filter fun r => SameVersion r c).toFinset.Nonempty :=
    ⟨c, by simp [hc, SameVersion.refl]⟩
  obtain ⟨e, he, hlatest⟩ := Finset.exists_max_image _ StorageResponse.timestamp hne
  simp only [List.mem_toFinset, List.mem_filter, decide_eq_true_eq] at he hlatest
  obtain ⟨he, hsame⟩ := he
  refine ⟨e, he, fun r hr hout => ?_, fun r hr hout e' he' hsame' => ?_⟩
  · obtain ⟨e', he', hsame', hsupersedes⟩ :=
      h.exists_supersedes hr fun hrc => hout (hrc.trans hsame.symm)
    exact hsupersedes.of_sameVersion (hsame'.trans hsame.symm) (hlatest e' ⟨he', hsame'⟩)
  · exact h.not_supersedes hr (fun hrc => hout (hrc.trans hsame.symm)) he' (hsame'.trans hsame)

/-- With a greatest clock first there is no conflict, with two concurrent clocks first there is. -/
theorem comparable_or_of_flag {flag : Bool}
    (h : ∀ first rest, (first :: rest).Perm found → meets first rest = flag) :
    (∀ r ∈ found, ∀ r' ∈ found, compare r.vectorClock r'.vectorClock ≠ .concurrent) ∨
      ∀ r ∈ found, ∃ r' ∈ found, ¬ r'.vectorClock.timestamp ≤ r.vectorClock.timestamp := by
  by_contra hneither
  simp only [not_or, not_forall, not_exists, not_and, not_not] at hneither
  obtain ⟨⟨r, hr, r', hr', hconcurrent⟩, g, hg, hgreatest⟩ := hneither
  have hfalse : flag = false := by
    rw [← h g (found.erase g) (List.perm_cons_erase hg).symm]
    exact meets_eq_false_of_ge fun y hy => hgreatest y (List.mem_of_mem_erase hy)
  have hne : r ≠ r' := by
    rintro rfl
    rw [compare_eq_identical_iff.mpr rfl] at hconcurrent
    cases hconcurrent
  have hr₁ : r ∈ found.erase r' := (List.mem_erase_of_ne hne).mpr hr
  have htrue : flag = true := by
    rw [← h r' (r :: (found.erase r').erase r)
      (((List.perm_cons_erase hr₁).symm.cons r').trans (List.perm_cons_erase hr').symm), meets,
      hconcurrent]
    rfl
  rw [hfalse] at htrue
  cases htrue

end Necessary

/-- Every order of the responses that are Found is met. -/
theorem exists_perm_filter {responses found : List StorageResponse}
    (h : found.Perm (responses.filter StorageResponse.counts)) :
    ∃ l : List StorageResponse, l.Perm responses ∧
      l.filter StorageResponse.counts = found := by
  refine ⟨found ++ responses.filter (fun r => !r.counts), ?_, ?_⟩
  · exact (h.append_right _).trans (List.filter_append_perm _ _)
  · have hself : found.filter StorageResponse.counts = found :=
      List.filter_eq_self.mpr fun r hr => (List.mem_filter.mp (h.mem_iff.mp hr)).2
    have hnone : (responses.filter fun r => !r.counts).filter StorageResponse.counts = [] := by
      rw [List.filter_eq_nil_iff]
      intro r hr
      have hnot := (List.mem_filter.mp hr).2
      rw [Bool.not_eq_true'] at hnot
      exact Bool.eq_false_iff.mp hnot
    rw [List.filter_append, hself, hnone, List.append_nil]

/-- **When the answer does not depend on the order.** For all responses: every permutation gets the
same version and the same flag exactly if the responses that are Found are `OrderFree`. -/
theorem detectConflicts_perm_iff (responses : List StorageResponse) :
    (∀ l : List StorageResponse, l.Perm responses →
        SameAnswer (detectConflicts l) (detectConflicts responses)) ↔
      OrderFree (responses.filter StorageResponse.counts) := by
  constructor
  · intro h
    have hresolve : ∀ found, found.Perm (responses.filter StorageResponse.counts) →
        SameAnswer (resolve found) (resolve (responses.filter StorageResponse.counts)) := by
      intro found hfound
      obtain ⟨l, hl, rfl⟩ := exists_perm_filter hfound
      rw [← detectConflicts_eq_resolve, ← detectConflicts_eq_resolve]
      exact h l hl
    cases hfound : responses.filter StorageResponse.counts with
    | nil => exact ⟨Or.inl rfl, Or.inl fun r hr => by cases hr⟩
    | cons first rest =>
      rw [hfound] at hresolve
      have halways : Always (first :: rest) (contest Supersedes first rest) := by
        intro first' rest' hperm
        cases (hresolve _ hperm).1 with
        | some hsame => exact hsame
      exact ⟨Or.inr (halways.prevails contest_mem),
        comparable_or_of_flag fun first' rest' hperm => (hresolve _ hperm).2⟩
  · intro h l hl
    rw [detectConflicts_eq_resolve, detectConflicts_eq_resolve]
    exact h.sameAnswer (hl.filter _) (List.Perm.refl _)

open Sample in
/-- Two replicas with concurrent clocks: the one that answers first is the answer. And a third one
that is After both hides the conflict if it answers first. -/
theorem detectConflicts_depends_on_order :
    (detectConflicts [answerOf "n1" [1] 1 0, answerOf "n2" [2] 0 1]).1.map StorageResponse.value =
        some [1] ∧
      (detectConflicts [answerOf "n2" [2] 0 1, answerOf "n1" [1] 1 0]).1.map
        StorageResponse.value = some [2] ∧
      (detectConflicts [answerOf "n1" [1] 1 0, answerOf "n2" [2] 0 1,
        answerOf "n3" [3] 1 1]).2 = true ∧
      (detectConflicts [answerOf "n3" [3] 1 1, answerOf "n1" [1] 1 0,
        answerOf "n2" [2] 0 1]).2 = false := by
  decide +kernel

end PairDB.Coordinator
