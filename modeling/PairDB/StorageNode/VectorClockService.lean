import PairDB.Model.VectorClock

/-!
# The storage node's `VectorClockService`

`compare` looks at the nodes of the first clock and then at those of the second clock only. A node
that the second clock does not have makes the first one greater even if its timestamp is 0, but a
node that only the second clock has must have a timestamp above 0 to count.
-/

namespace PairDB.StorageNode.VectorClockService

open Infra

/-- `Compare`: 1, -1 or 0. The flags only go up, so the order in which the maps are walked does not
matter. -/
def compare (a b : VectorClock) : Int :=
  let aMap := a.toMap
  let bMap := b.toMap
  let aGreater := aMap.toPairs.any fun p =>
    match bMap.get? p.1 with
    | none => true
    | some bTS => p.2 > bTS
  let bGreater := (aMap.toPairs.any fun p =>
    match bMap.get? p.1 with
    | none => false
    | some bTS => !(p.2 > bTS) && p.2 < bTS) ||
    bMap.toPairs.any fun p => (aMap.get? p.1).isNone && p.2 > 0
  if aGreater && !bGreater then 1 else if !aGreater && bGreater then -1 else 0

/-- One node of the second loop of `Merge`. -/
def mergeNode (merged : Map String Int) (p : String × Int) : Map String Int :=
  match merged.get? p.1 with
  | none => merged.set p.1 p.2
  | some existing => if p.2 > existing then merged.set p.1 p.2 else merged

/-- `Merge`. The three orders are those in which the maps are walked. -/
def merge (ordA ordB ord : RangeOrder (String × Int)) (a b : VectorClock) : VectorClock :=
  let merged := Map.ofList (ordA.visit a.toMap.toPairs)
  VectorClock.ofMap ord ((ordB.visit b.toMap.toPairs).foldl mergeNode merged)

/-! ## The flags -/

variable {a b : VectorClock}

/-- A node that is missing in the second clock counts as ahead. -/
theorem aGreater_iff :
    (a.toMap.toPairs.any fun p =>
      match b.toMap.get? p.1 with
      | none => true
      | some bTS => decide (p.2 > bTS)) = true ↔
      ∃ n ∈ a.toMap.keys, n ∉ b.toMap.keys ∨ b.timestamp n < a.timestamp n := by
  refine (a.any_toPairs_iff fun n t =>
    match b.toMap.get? n with
    | none => true
    | some bTS => t > bTS).trans (exists_congr fun n => and_congr_right fun _ => ?_)
  rw [← Map.get?_eq_none_iff]
  cases hget : b.toMap.get? n with
  | none => simp
  | some bTS => simp [VectorClock.timestamp_of_lookup hget]

theorem bGreater_iff (ha : a.NonNegative) :
    ((a.toMap.toPairs.any fun p =>
      match b.toMap.get? p.1 with
      | none => false
      | some bTS => !decide (p.2 > bTS) && decide (p.2 < bTS)) ||
      b.toMap.toPairs.any fun p => (a.toMap.get? p.1).isNone && p.2 > 0) = true ↔
      ∃ n, a.timestamp n < b.timestamp n := by
  have hboth : (a.toMap.toPairs.any fun p =>
      match b.toMap.get? p.1 with
      | none => false
      | some bTS => !decide (p.2 > bTS) && decide (p.2 < bTS)) = true ↔
      ∃ n ∈ a.toMap.keys, a.timestamp n < b.timestamp n := by
    refine (a.any_toPairs_iff fun n t =>
      match b.toMap.get? n with
      | none => false
      | some bTS => !decide (t > bTS) && decide (t < bTS)).trans
        (exists_congr fun n => and_congr_right fun _ => ?_)
    cases hget : b.toMap.get? n with
    | none =>
      have hzero : b.timestamp n = 0 := by rw [VectorClock.timestamp, hget, Option.getD_none]
      simp [hzero, VectorClock.timestamp_nonneg ha n]
    | some bTS =>
      rw [VectorClock.timestamp_of_lookup hget]
      simp only [Bool.and_eq_true, Bool.not_eq_true', decide_eq_false_iff_not, decide_eq_true_eq]
      omega
  have honly := b.any_toPairs_iff fun n t => (a.toMap.get? n).isNone && t > 0
  rw [Bool.or_eq_true, hboth, honly]
  simp only [decide_eq_true_eq, Bool.and_eq_true, Option.isNone_iff_eq_none, Map.get?_eq_none_iff]
  exact VectorClock.exists_lt_iff.symm

/-- What `compare` decides by. -/
theorem compare_eq (ha : a.NonNegative) {greater less : Prop}
    (hgreater : greater ↔ ∃ n ∈ a.toMap.keys, n ∉ b.toMap.keys ∨ b.timestamp n < a.timestamp n)
    (hless : less ↔ ∃ n, a.timestamp n < b.timestamp n) :
    (compare a b = 1 ↔ greater ∧ ¬ less) ∧ (compare a b = -1 ↔ less ∧ ¬ greater) ∧
      (compare a b = 0 ↔ (greater ↔ less)) := by
  rw [← aGreater_iff] at hgreater
  rw [← bGreater_iff ha] at hless
  unfold compare
  dsimp only
  rw [hgreater, hless]
  generalize (a.toMap.toPairs.any fun p =>
    match b.toMap.get? p.1 with
    | none => true
    | some bTS => decide (p.2 > bTS)) = aGreater
  generalize ((a.toMap.toPairs.any fun p =>
    match b.toMap.get? p.1 with
    | none => false
    | some bTS => !decide (p.2 > bTS) && decide (p.2 < bTS)) ||
    b.toMap.toPairs.any fun p => (a.toMap.get? p.1).isNone && p.2 > 0) = bGreater
  cases aGreater <;> cases bGreater <;> decide

end PairDB.StorageNode.VectorClockService
