import PairDB.Model.VectorClock

/-!
# `algorithm.VectorClockOps`

`compare` walks the union of the node ids and keeps two flags. The flags say that one timestamp
function lies below or above the other, so the four answers are the four ways in which two
functions can stand to each other in the pointwise order.

`merge` is the least upper bound in that order (`timestamp_merge_le_iff`).
-/

namespace PairDB

/-- `model.VectorClockComparison`. -/
inductive VectorClockComparison where
  | identical
  | before
  | after
  | concurrent
  deriving DecidableEq, Repr

namespace VectorClockOps

open Infra

/-- One node of the comparison loop. The flags are `(allBefore, allAfter)`. -/
def compareNode (map1 map2 : Map String Int) (flags : Bool × Bool) (nodeID : String) :
    Bool × Bool :=
  let ts1 := (map1.get? nodeID).getD 0
  let ts2 := (map2.get? nodeID).getD 0
  if ts1 < ts2 then (flags.1, false)
  else if ts1 > ts2 then (false, flags.2)
  else flags

/-- The flags after the loop over all node ids. -/
def compareFlags (vc1 vc2 : VectorClock) : Bool × Bool :=
  let map1 := vc1.toMap
  let map2 := vc2.toMap
  let allNodes := map1.keys ∪ map2.keys
  allNodes.foldl (compareNode map1 map2) (true, true)

/-- `Compare`. -/
def compare (vc1 vc2 : VectorClock) : VectorClockComparison :=
  let flags := compareFlags vc1 vc2
  if flags.1 && flags.2 then .identical
  else if flags.1 then .before
  else if flags.2 then .after
  else .concurrent

/-! ## The flags -/

variable (a b : VectorClock)

theorem compareNode_fst (flags : Bool × Bool) (n : String) :
    (compareNode a.toMap b.toMap flags n).1 = (flags.1 && decide (a.timestamp n ≤ b.timestamp n)) := by
  unfold compareNode VectorClock.timestamp
  simp only
  split
  · next h => simp [le_of_lt h]
  · split
    · next h => simp [h]
    · next h1 h2 => simp [not_lt.mp h2]

theorem compareNode_snd (flags : Bool × Bool) (n : String) :
    (compareNode a.toMap b.toMap flags n).2 = (flags.2 && decide (b.timestamp n ≤ a.timestamp n)) := by
  unfold compareNode VectorClock.timestamp
  simp only
  split
  · next h => simp [h]
  · split
    · next h => simp [le_of_lt h]
    · next h1 h2 => simp [not_lt.mp h1]

theorem foldl_compareNode_fst (l : List String) (flags : Bool × Bool) :
    (l.foldl (compareNode a.toMap b.toMap) flags).1 = true
      ↔ flags.1 = true ∧ ∀ n ∈ l, a.timestamp n ≤ b.timestamp n := by
  induction l generalizing flags with
  | nil => simp
  | cons n l ih =>
    rw [List.foldl_cons, ih, compareNode_fst]
    simp [and_assoc]

theorem foldl_compareNode_snd (l : List String) (flags : Bool × Bool) :
    (l.foldl (compareNode a.toMap b.toMap) flags).2 = true
      ↔ flags.2 = true ∧ ∀ n ∈ l, b.timestamp n ≤ a.timestamp n := by
  induction l generalizing flags with
  | nil => simp
  | cons n l ih =>
    rw [List.foldl_cons, ih, compareNode_snd]
    simp [and_assoc]

/-- A node outside both maps reads 0 on both sides, so the loop sees every node that matters. -/
theorem forall_allNodes_iff (P : Int → Int → Prop) (h0 : P 0 0) :
    (∀ n ∈ a.toMap.keys ∪ b.toMap.keys, P (a.timestamp n) (b.timestamp n))
      ↔ ∀ n, P (a.timestamp n) (b.timestamp n) := by
  refine ⟨fun h n => ?_, fun h n _ => h n⟩
  by_cases hn : n ∈ a.toMap.keys ∪ b.toMap.keys
  · exact h n hn
  · rw [List.mem_union_iff, not_or] at hn
    rw [VectorClock.timestamp_of_not_mem hn.1, VectorClock.timestamp_of_not_mem hn.2]
    exact h0

theorem allBefore_iff : (compareFlags a b).1 = true ↔ a.timestamp ≤ b.timestamp := by
  unfold compareFlags
  rw [foldl_compareNode_fst, forall_allNodes_iff a b (· ≤ ·) le_rfl]
  simp [Pi.le_def]

theorem allAfter_iff : (compareFlags a b).2 = true ↔ b.timestamp ≤ a.timestamp := by
  unfold compareFlags
  rw [foldl_compareNode_snd, forall_allNodes_iff a b (fun x y => y ≤ x) le_rfl]
  simp [Pi.le_def]

/-! ## The four answers -/

variable {a b}

theorem compare_eq_identical_iff : compare a b = .identical ↔ a.timestamp = b.timestamp := by
  rw [le_antisymm_iff (a := a.timestamp), ← allBefore_iff a b, ← allAfter_iff a b, compare]
  cases (compareFlags a b).1 <;> cases (compareFlags a b).2 <;> simp

theorem compare_eq_before_iff : compare a b = .before ↔ a.timestamp < b.timestamp := by
  rw [lt_iff_le_not_ge, ← allBefore_iff a b, ← allAfter_iff a b, compare]
  cases (compareFlags a b).1 <;> cases (compareFlags a b).2 <;> simp

theorem compare_eq_after_iff : compare a b = .after ↔ b.timestamp < a.timestamp := by
  rw [lt_iff_le_not_ge, ← allBefore_iff a b, ← allAfter_iff a b, compare]
  cases (compareFlags a b).1 <;> cases (compareFlags a b).2 <;> simp

/-- Before and After are one relation read from its two ends. -/
theorem compare_eq_before_iff_after : compare a b = .before ↔ compare b a = .after := by
  rw [compare_eq_before_iff, compare_eq_after_iff]

/-! ## The order of the loop -/

/-- The answer for the flags. -/
def ofFlags (flags : Bool × Bool) : VectorClockComparison :=
  if flags.1 && flags.2 then .identical
  else if flags.1 then .before
  else if flags.2 then .after
  else .concurrent

/-- `Compare` with the order in which Go walks `allNodes`. -/
def compareIn (order : RangeOrder String) (vc1 vc2 : VectorClock) : VectorClockComparison :=
  let map1 := vc1.toMap
  let map2 := vc2.toMap
  ofFlags ((order.visit (map1.keys ∪ map2.keys)).foldl (compareNode map1 map2) (true, true))

/-- The answer does not depend on the order. -/
theorem compareIn_eq (order : RangeOrder String) (a b : VectorClock) :
    compareIn order a b = compare a b := by
  have hmem : ∀ n, n ∈ order.visit (a.toMap.keys ∪ b.toMap.keys) ↔
      n ∈ a.toMap.keys ∪ b.toMap.keys := fun n => (order.perm _).mem_iff
  suffices ((order.visit (a.toMap.keys ∪ b.toMap.keys)).foldl (compareNode a.toMap b.toMap)
      (true, true)) = compareFlags a b from congrArg ofFlags this
  refine Prod.ext (Bool.eq_iff_iff.mpr ?_) (Bool.eq_iff_iff.mpr ?_)
  · rw [foldl_compareNode_fst, compareFlags, foldl_compareNode_fst]
    simp only [hmem]
  · rw [foldl_compareNode_snd, compareFlags, foldl_compareNode_snd]
    simp only [hmem]

theorem compare_eq_concurrent_iff {a b : VectorClock} : compare a b = .concurrent ↔
    ¬ a.timestamp ≤ b.timestamp ∧ ¬ b.timestamp ≤ a.timestamp := by
  rw [← allBefore_iff a b, ← allAfter_iff a b, compare]
  cases (compareFlags a b).1 <;> cases (compareFlags a b).2 <;> simp

/-- The answer is determined by the timestamps. -/
theorem compare_congr {a a' b b' : VectorClock} (ha : a'.timestamp = a.timestamp)
    (hb : b'.timestamp = b.timestamp) : compare a' b' = compare a b := by
  cases h : compare a b with
  | identical => rwa [compare_eq_identical_iff, ha, hb, ← compare_eq_identical_iff]
  | before => rwa [compare_eq_before_iff, ha, hb, ← compare_eq_before_iff]
  | after => rwa [compare_eq_after_iff, ha, hb, ← compare_eq_after_iff]
  | concurrent => rwa [compare_eq_concurrent_iff, ha, hb, ← compare_eq_concurrent_iff]

/-- After or Identical is the pointwise order. -/
theorem compare_after_or_identical_iff {a b : VectorClock} :
    compare a b = .after ∨ compare a b = .identical ↔ b.timestamp ≤ a.timestamp := by
  rw [compare_eq_after_iff, compare_eq_identical_iff, le_iff_lt_or_eq]
  exact or_congr_right eq_comm

theorem compare_before_or_identical_iff {a b : VectorClock} :
    compare a b = .before ∨ compare a b = .identical ↔ a.timestamp ≤ b.timestamp := by
  rw [compare_eq_before_iff, compare_eq_identical_iff, le_iff_lt_or_eq]

/-! ## `Merge` -/

/-- One entry of the loop of `Merge`. -/
def mergeEntry (merged : Map String Int) (entry : VectorClockEntry) : Map String Int :=
  match merged.get? entry.coordinatorNodeID with
  | none => merged.set entry.coordinatorNodeID entry.logicalTimestamp
  | some existing =>
    if entry.logicalTimestamp > existing then
      merged.set entry.coordinatorNodeID entry.logicalTimestamp
    else merged

/-- `Merge`. `ord` is the order in which the result map is walked. -/
def merge (ord : RangeOrder (String × Int)) (clocks : List VectorClock) : VectorClock :=
  VectorClock.ofMap ord
    (clocks.foldl (fun merged clock => clock.entries.foldl mergeEntry merged) ∅)

theorem mergeEntry_le_iff {merged : Map String Int} {entry : VectorClockEntry}
    (h : 0 ≤ entry.logicalTimestamp) (n : String) (x : Int) :
    ((mergeEntry merged entry).get? n).getD 0 ≤ x ↔ (merged.get? n).getD 0 ≤ x ∧
      (entry.coordinatorNodeID = n → entry.logicalTimestamp ≤ x) := by
  by_cases hn : entry.coordinatorNodeID = n
  · subst hn
    unfold mergeEntry
    cases hget : merged.get? entry.coordinatorNodeID with
    | none =>
      simp only [Map.get?_set, if_true, Option.getD_some, Option.getD_none, true_imp_iff]
      omega
    | some existing =>
      simp only [Option.getD_some, true_imp_iff]
      split
      · rw [Map.get?_set, if_pos rfl, Option.getD_some]
        omega
      · rw [hget, Option.getD_some]
        omega
  · have hother : (mergeEntry merged entry).get? n = merged.get? n := by
      unfold mergeEntry
      split
      · rw [Map.get?_set, if_neg hn]
      · split
        · rw [Map.get?_set, if_neg hn]
        · rfl
    simp [hother, hn]

theorem foldl_mergeEntry_le_iff {entries : List VectorClockEntry}
    (h : ∀ e ∈ entries, 0 ≤ e.logicalTimestamp) (merged : Map String Int) (n : String) (x : Int) :
    ((entries.foldl mergeEntry merged).get? n).getD 0 ≤ x ↔ (merged.get? n).getD 0 ≤ x ∧
      ∀ e ∈ entries, e.coordinatorNodeID = n → e.logicalTimestamp ≤ x := by
  induction entries generalizing merged with
  | nil => simp
  | cons e entries ih =>
    rw [List.forall_mem_cons] at h
    rw [List.foldl_cons, ih h.2, mergeEntry_le_iff h.1, List.forall_mem_cons, and_assoc]

/-- **A merged clock is below a bound if all its clocks are.** -/
theorem timestamp_merge_le_iff {clocks : List VectorClock}
    (hdistinct : ∀ c ∈ clocks, c.DistinctIDs) (hnonneg : ∀ c ∈ clocks, c.NonNegative)
    (ord : RangeOrder (String × Int)) (n : String) (x : Int) :
    (merge ord clocks).timestamp n ≤ x ↔ 0 ≤ x ∧ ∀ c ∈ clocks, c.timestamp n ≤ x := by
  have hentries : ∀ e ∈ clocks.flatMap VectorClock.entries, 0 ≤ e.logicalTimestamp := by
    intro e he
    obtain ⟨c, hc, he⟩ := List.mem_flatMap.mp he
    exact hnonneg c hc e he
  rw [merge, VectorClock.timestamp_ofMap, ← List.foldl_flatMap, foldl_mergeEntry_le_iff hentries,
    Map.get?_empty, Option.getD_none]
  refine and_congr_right fun hx => ?_
  constructor
  · intro h c hc
    rw [VectorClock.timestamp_le_iff (hdistinct c hc) hx]
    exact fun e he => h e (List.mem_flatMap.mpr ⟨c, hc, he⟩)
  · intro h e he
    obtain ⟨c, hc, he⟩ := List.mem_flatMap.mp he
    exact (VectorClock.timestamp_le_iff (hdistinct c hc) hx).mp (h c hc) e he

theorem nonneg_mergeEntry {merged : Map String Int} {entry : VectorClockEntry}
    (hmerged : ∀ n t, merged.get? n = some t → 0 ≤ t) (hentry : 0 ≤ entry.logicalTimestamp) :
    ∀ n t, (mergeEntry merged entry).get? n = some t → 0 ≤ t := by
  intro n t h
  have hset : (merged.set entry.coordinatorNodeID entry.logicalTimestamp).get? n = some t →
      0 ≤ t := by
    intro h
    rw [Map.get?_set] at h
    split at h
    · cases h
      exact hentry
    · exact hmerged n t h
  unfold mergeEntry at h
  split at h
  · exact hset h
  · split at h
    · exact hset h
    · exact hmerged n t h

theorem nonneg_foldl_mergeEntry {entries : List VectorClockEntry}
    (h : ∀ e ∈ entries, 0 ≤ e.logicalTimestamp) {merged : Map String Int}
    (hmerged : ∀ n t, merged.get? n = some t → 0 ≤ t) :
    ∀ n t, (entries.foldl mergeEntry merged).get? n = some t → 0 ≤ t := by
  induction entries generalizing merged with
  | nil => exact hmerged
  | cons e entries ih =>
    rw [List.forall_mem_cons] at h
    exact ih h.2 (nonneg_mergeEntry hmerged h.1)

theorem nonNegative_merge {clocks : List VectorClock} (hnonneg : ∀ c ∈ clocks, c.NonNegative)
    (ord : RangeOrder (String × Int)) : (merge ord clocks).NonNegative := by
  refine VectorClock.nonNegative_ofMap ?_ ord
  rw [← List.foldl_flatMap]
  refine nonneg_foldl_mergeEntry ?_ ?_
  · intro e he
    obtain ⟨c, hc, he⟩ := List.mem_flatMap.mp he
    exact hnonneg c hc e he
  · intro n t h
    cases h

end VectorClockOps

end PairDB
