import PairDB.Coordinator.VectorClockOps
import PairDB.StorageNode.Compaction
import PairDB.StorageNode.Validation
import PairDB.StorageNode.VectorClockService

/-!
# Vector clocks of both services

The comparisons of the coordinator, of the compaction and of the storage node's clock service are
measured against one order: the pointwise order of the timestamps, in which an absent node counts as
0.

The coordinator's `Compare` is this order (`compareIn_causal`), and its `Merge` is the least upper
bound (`merge_lub`). The compaction agrees with it (`compareVectorClocks_iff`). The storage node's
`Compare` does not: a node with timestamp 0 that the other clock does not have makes a clock greater
(`compare_antisymm_iff`).
-/

namespace PairDB

open Infra

/-! ## The coordinator's comparison -/

namespace VectorClock

/-- The same entries in an order in which those of each node stand as before. -/
def Rearranged (vc vc' : VectorClock) : Prop :=
  ∀ n, (vc'.entries.filter fun e => e.coordinatorNodeID = n) =
    vc.entries.filter fun e => e.coordinatorNodeID = n

/-- Only the last entry of a node counts. -/
theorem get?_toMap (vc : VectorClock) (n : String) : vc.toMap.get? n =
    (vc.entries.filter fun e => e.coordinatorNodeID = n).getLast?.map
      VectorClockEntry.logicalTimestamp := by
  suffices ∀ l : List VectorClockEntry,
      (Map.ofList (l.map fun e => (e.coordinatorNodeID, e.logicalTimestamp))).get? n =
        (l.filter fun e => e.coordinatorNodeID = n).getLast?.map
          VectorClockEntry.logicalTimestamp from this vc.entries
  intro l
  induction l using List.reverseRecOn with
  | nil => rfl
  | append_singleton l e ih =>
    rw [List.map_append, List.map_singleton, Map.get?_ofList_concat, List.filter_append]
    by_cases h : e.coordinatorNodeID = n
    · simp [h]
    · simp [h, ih]

theorem Rearranged.timestamp_eq {vc vc' : VectorClock} (h : vc.Rearranged vc') :
    vc'.timestamp = vc.timestamp := by
  funext n
  rw [timestamp, get?_toMap, h n, timestamp, get?_toMap]

end VectorClock

namespace VectorClockOps

/--
**`Compare` is the causal order.**

The four answers are the four ways in which the timestamps can stand to each other, whatever order
the loop has. So Before is a strict order, After is its converse, and the entries can be rearranged
as long as the last entry of each node stays the last one.
-/
theorem compareIn_causal (order : RangeOrder String) (a b : VectorClock) :
    ((compareIn order a b = .identical ↔ a.timestamp = b.timestamp) ∧
      (compareIn order a b = .before ↔ a.timestamp < b.timestamp) ∧
      (compareIn order a b = .after ↔ b.timestamp < a.timestamp) ∧
      (compareIn order a b = .concurrent ↔
        ¬ a.timestamp ≤ b.timestamp ∧ ¬ b.timestamp ≤ a.timestamp)) ∧
    compareIn order a a ≠ .before ∧
    (∀ c, compareIn order a b = .before → compareIn order b c = .before →
      compareIn order a c = .before) ∧
    (compareIn order a b = .before ↔ compareIn order b a = .after) ∧
    (∀ order', compareIn order' a b = compareIn order a b) ∧
    ∀ a' b', a.Rearranged a' → b.Rearranged b' → compareIn order a' b' = compareIn order a b := by
  simp only [compareIn_eq]
  refine ⟨⟨compare_eq_identical_iff, compare_eq_before_iff, compare_eq_after_iff,
    compare_eq_concurrent_iff⟩, ?_, ?_, compare_eq_before_iff_after, fun _ => trivial, ?_⟩
  · rw [Ne, compare_eq_before_iff]
    exact lt_irrefl _
  · intro c hab hbc
    rw [compare_eq_before_iff] at *
    exact hab.trans hbc
  · intro a' b' ha hb
    exact compare_congr ha.timestamp_eq hb.timestamp_eq

/-- The order of two entries of one node does matter. -/
theorem compareIn_entry_order :
    ([⟨"n", 2⟩, ⟨"n", 1⟩] : List VectorClockEntry).Perm [⟨"n", 1⟩, ⟨"n", 2⟩] ∧
      compareIn (.asHeld String) ⟨[⟨"n", 1⟩, ⟨"n", 2⟩]⟩ ⟨[⟨"n", 2⟩]⟩ = .identical ∧
      compareIn (.asHeld String) ⟨[⟨"n", 2⟩, ⟨"n", 1⟩]⟩ ⟨[⟨"n", 2⟩]⟩ = .before := by
  decide

/-! ## The comparison of the compaction -/

/-- A node at which a clock is ahead of one without negative entries has an entry. -/
theorem exists_gt_iff {a b : VectorClock} (hb : b.NonNegative) :
    (∃ n ∈ a.toMap.keys, b.timestamp n < a.timestamp n) ↔
      ∃ n, b.timestamp n < a.timestamp n := by
  constructor
  · rintro ⟨n, -, hlt⟩
    exact ⟨n, hlt⟩
  · rintro ⟨n, hlt⟩
    refine ⟨n, ?_, hlt⟩
    by_contra hn
    rw [VectorClock.timestamp_of_not_mem hn] at hlt
    exact absurd hlt (not_lt.mpr (VectorClock.timestamp_nonneg hb n))

theorem exists_lt_iff_not_le {a b : VectorClock} :
    (∃ n, a.timestamp n < b.timestamp n) ↔ ¬ b.timestamp ≤ a.timestamp := by
  simp [Pi.le_def]

end VectorClockOps

namespace StorageNode

open VectorClockOps

theorem nonneg_of_validateClockEntries {entries : List VectorClockEntry} {i : Nat}
    (h : Validator.validateClockEntries i entries = .ok ()) :
    ∀ e ∈ entries, 0 ≤ e.logicalTimestamp := by
  induction entries generalizing i with
  | nil => simp
  | cons e entries ih =>
    obtain ⟨_, hentry, hrest⟩ := Validator.bind_eq_ok h
    refine List.forall_mem_cons.mpr ⟨?_, ih hrest⟩
    by_contra hneg
    simp only [Validator.validateClockEntry, if_pos (not_le.mp hneg)] at hentry
    repeat' split at hentry
    all_goals cases hentry

/-- The clocks that are admitted have no negative timestamps. -/
theorem nonNegative_of_validateVectorClock {vc : VectorClock}
    (h : Validator.validateVectorClock vc = .ok ()) : vc.NonNegative := by
  unfold Validator.validateVectorClock at h
  split at h
  · cases h
  · exact nonneg_of_validateClockEntries h

/--
**Compaction and coordinator agree.** `compareVectorClocks` is 1 for After, -1 for Before and 0
otherwise. Only the second clock has to be without negative timestamps.
-/
theorem compareVectorClocks_iff {a b : VectorClock} (hb : b.NonNegative) :
    (compareVectorClocks a b = 1 ↔ VectorClockOps.compare a b = .after) ∧
      (compareVectorClocks a b = -1 ↔ VectorClockOps.compare a b = .before) ∧
      (compareVectorClocks a b = 0 ↔
        VectorClockOps.compare a b = .identical ∨ VectorClockOps.compare a b = .concurrent) := by
  obtain ⟨hone, hminus, hzero⟩ := compareVectorClocks_eq a b
    ((exists_gt_iff hb).trans exists_lt_iff_not_le).symm exists_lt_iff_not_le.symm
  rw [hone, hminus, hzero, compare_eq_after_iff, compare_eq_before_iff, compare_eq_identical_iff,
    compare_eq_concurrent_iff, lt_iff_le_not_ge, lt_iff_le_not_ge,
    le_antisymm_iff (a := a.timestamp)]
  by_cases hab : a.timestamp ≤ b.timestamp <;> by_cases hba : b.timestamp ≤ a.timestamp <;>
    simp [hab, hba]

/-- Two clocks with an entry of 0 and entries of one side only. -/
theorem compareVectorClocks_iff_sides :
    Validator.validateVectorClock ⟨[⟨"b", 1⟩]⟩ = .ok () ∧
      (compareVectorClocks ⟨[⟨"a", 1⟩, ⟨"z", 0⟩]⟩ ⟨[⟨"b", 1⟩]⟩ = 0 ↔
        VectorClockOps.compare ⟨[⟨"a", 1⟩, ⟨"z", 0⟩]⟩ ⟨[⟨"b", 1⟩]⟩ = .identical ∨
          VectorClockOps.compare ⟨[⟨"a", 1⟩, ⟨"z", 0⟩]⟩ ⟨[⟨"b", 1⟩]⟩ = .concurrent) := by
  have hvalid : Validator.validateVectorClock ⟨[⟨"b", 1⟩]⟩ = .ok () := by decide
  exact ⟨hvalid, (compareVectorClocks_iff (nonNegative_of_validateVectorClock hvalid)).2.2⟩

/-! ## The comparison of the storage node's clock service -/

/-- If the first clock has an entry of 0 for a node that the second one does not have, then it is
ahead somewhere anyway. -/
def ZeroCovered (a b : VectorClock) : Prop :=
  (∃ n ∈ a.toMap.keys, n ∉ b.toMap.keys ∧ a.timestamp n = 0) → ∃ n, b.timestamp n < a.timestamp n

/-- A missing node counts as ahead, so an entry of 0 can make the difference. -/
theorem exists_ahead_iff {a b : VectorClock} (ha : a.NonNegative) (hb : b.NonNegative) :
    (∃ n ∈ a.toMap.keys, n ∉ b.toMap.keys ∨ b.timestamp n < a.timestamp n) ↔
      (∃ n ∈ a.toMap.keys, n ∉ b.toMap.keys ∧ a.timestamp n = 0) ∨
        ∃ n, b.timestamp n < a.timestamp n := by
  constructor
  · rintro ⟨n, hn, hnot | hlt⟩
    · have hpos := VectorClock.timestamp_nonneg ha n
      rcases hpos.eq_or_lt with hzero | hpos
      · exact Or.inl ⟨n, hn, hnot, hzero.symm⟩
      · exact Or.inr ⟨n, by rwa [VectorClock.timestamp_of_not_mem hnot]⟩
    · exact Or.inr ⟨n, hlt⟩
  · rintro (⟨n, hn, hnot, -⟩ | hlt)
    · exact ⟨n, hn, Or.inl hnot⟩
    · obtain ⟨n, hn, hlt⟩ := (exists_gt_iff hb).mpr hlt
      exact ⟨n, hn, Or.inr hlt⟩

/-- The answers of `Compare` are -1, 0 and 1. -/
theorem compare_range (a b : VectorClock) : VectorClockService.compare a b = 1 ∨
    VectorClockService.compare a b = -1 ∨ VectorClockService.compare a b = 0 := by
  unfold VectorClockService.compare
  dsimp only
  split
  · exact Or.inl rfl
  · split
    · exact Or.inr (Or.inl rfl)
    · exact Or.inr (Or.inr rfl)

theorem compareVectorClocks_range (a b : VectorClock) : compareVectorClocks a b = 1 ∨
    compareVectorClocks a b = -1 ∨ compareVectorClocks a b = 0 := by
  unfold compareVectorClocks
  dsimp only
  split
  · exact Or.inl rfl
  · split
    · exact Or.inr (Or.inl rfl)
    · exact Or.inr (Or.inr rfl)

/--
**When the storage node's `Compare` is antisymmetric.** On clocks without negative timestamps it is
antisymmetric and agrees with the compaction if and only if every entry of 0 whose node is missing on
the other side is on a clock that is ahead anyway.
-/
theorem compare_antisymm_iff {a b : VectorClock} (ha : a.NonNegative) (hb : b.NonNegative) :
    (VectorClockService.compare a b = - VectorClockService.compare b a ∧
      VectorClockService.compare a b = compareVectorClocks a b) ↔
      ZeroCovered a b ∧ ZeroCovered b a := by
  obtain ⟨hab₁, hab₂, hab₃⟩ := VectorClockService.compare_eq ha (exists_ahead_iff ha hb).symm Iff.rfl
  obtain ⟨hba₁, hba₂, hba₃⟩ := VectorClockService.compare_eq hb (exists_ahead_iff hb ha).symm Iff.rfl
  obtain ⟨hc₁, hc₂, hc₃⟩ := compareVectorClocks_eq a b (exists_gt_iff hb).symm Iff.rfl
  unfold ZeroCovered
  -- only the four questions matter: who is ahead, and who has such an entry
  generalize (∃ n ∈ a.toMap.keys, n ∉ b.toMap.keys ∧ a.timestamp n = 0) = zeroA at *
  generalize (∃ n ∈ b.toMap.keys, n ∉ a.toMap.keys ∧ b.timestamp n = 0) = zeroB at *
  generalize (∃ n, b.timestamp n < a.timestamp n) = aheadA at *
  generalize (∃ n, a.timestamp n < b.timestamp n) = aheadB at *
  rcases compare_range a b with h | h | h <;> rcases compare_range b a with h' | h' | h' <;>
    rcases compareVectorClocks_range a b with h'' | h'' | h'' <;> grind

theorem compare_antisymm_positive :
    VectorClockService.compare ⟨[⟨"a", 2⟩, ⟨"b", 1⟩]⟩ ⟨[⟨"a", 1⟩]⟩ =
        - VectorClockService.compare ⟨[⟨"a", 1⟩]⟩ ⟨[⟨"a", 2⟩, ⟨"b", 1⟩]⟩ ∧
      VectorClockService.compare ⟨[⟨"a", 2⟩, ⟨"b", 1⟩]⟩ ⟨[⟨"a", 1⟩]⟩ =
        compareVectorClocks ⟨[⟨"a", 2⟩, ⟨"b", 1⟩]⟩ ⟨[⟨"a", 1⟩]⟩ := by
  refine (compare_antisymm_iff (by decide) (by decide)).mpr ⟨?_, ?_⟩
  · exact fun _ => ⟨"b", by decide⟩
  · rintro ⟨n, hn, hnot, -⟩
    have hmem : n = "a" := by simpa [VectorClock.mem_keys_toMap, VectorClock.nodeIDs] using hn
    exact absurd (hmem ▸ hnot) (by decide)

/-- An entry of 0 counts on the left side and not on the right side. -/
theorem compare_zero_entry :
    VectorClockService.compare ⟨[⟨"n", 0⟩]⟩ ⟨[]⟩ = 1 ∧
      VectorClockService.compare ⟨[]⟩ ⟨[⟨"n", 0⟩]⟩ = 0 ∧
      compareVectorClocks ⟨[⟨"n", 0⟩]⟩ ⟨[]⟩ = 0 ∧
      Validator.validateVectorClock ⟨[⟨"n", 0⟩]⟩ = .ok () := by
  decide

/-! ## Merging -/

theorem timestamp_merge_storage_le_iff {a b : VectorClock} (ha : a.NonNegative)
    (hb : b.NonNegative) (ordA ordB ord : RangeOrder (String × Int)) (n : String) (x : Int) :
    (VectorClockService.merge ordA ordB ord a b).timestamp n ≤ x ↔
      a.timestamp n ≤ x ∧ b.timestamp n ≤ x := by
  have hpairs : ∀ p ∈ ordB.visit b.toMap.toPairs, b.toMap.get? p.1 = some p.2 := fun p hp =>
    (Map.mem_toPairs_iff _ _ _).mp ((ordB.perm _).mem_iff.mp hp)
  have hfold : (ordB.visit b.toMap.toPairs).foldl VectorClockService.mergeNode
      (Map.ofList (ordA.visit a.toMap.toPairs)) =
      ((ordB.visit b.toMap.toPairs).map fun p => (⟨p.1, p.2⟩ : VectorClockEntry)).foldl mergeEntry
        (Map.ofList (ordA.visit a.toMap.toPairs)) := by
    rw [List.foldl_map]
    rfl
  have hnonneg : ∀ e ∈ (ordB.visit b.toMap.toPairs).map fun p => (⟨p.1, p.2⟩ : VectorClockEntry),
      0 ≤ e.logicalTimestamp := by
    intro e he
    obtain ⟨p, hp, rfl⟩ := List.mem_map.mp he
    exact hb _ (VectorClock.mem_entries_of_lookup (hpairs p hp))
  have hfirst : (Map.ofList (ordA.visit a.toMap.toPairs)).get? n = a.toMap.get? n := by
    have hperm := ordA.perm a.toMap.toPairs
    rw [Map.get?_ofList_perm hperm ((hperm.map Prod.fst).nodup_iff.mpr (Map.toPairs_nodup _)),
      Map.get?_ofList_toPairs]
  rw [VectorClockService.merge, VectorClock.timestamp_ofMap, hfold,
    foldl_mergeEntry_le_iff hnonneg, hfirst]
  refine and_congr_right fun hle => ?_
  have hx : 0 ≤ x := (VectorClock.timestamp_nonneg ha n).trans hle
  constructor
  · intro hall
    cases hget : b.toMap.get? n with
    | none => rwa [VectorClock.timestamp, hget, Option.getD_none]
    | some t =>
      rw [VectorClock.timestamp_of_lookup hget]
      refine hall ⟨n, t⟩ (List.mem_map.mpr ⟨(n, t), ?_, rfl⟩) rfl
      exact (ordB.perm _).mem_iff.mpr ((Map.mem_toPairs_iff _ _ _).mpr hget)
  · rintro hle e he rfl
    obtain ⟨p, hp, rfl⟩ := List.mem_map.mp he
    rwa [VectorClock.timestamp_of_lookup (hpairs p hp)] at hle

end StorageNode

namespace VectorClockOps

/-- Two merges with the same upper bounds are the same clock. -/
theorem compare_eq_identical_of_le_iff {a b : VectorClock}
    (h : ∀ n x, a.timestamp n ≤ x ↔ b.timestamp n ≤ x) : compare a b = .identical :=
  compare_eq_identical_iff.mpr (funext fun n => eq_of_forall_ge_iff (h n))

/--
**`Merge` is the least upper bound.**

The merged clock is above every one of the clocks and below every clock that is above all of them.
Rearranging and repeating the clocks does not change it, merging some of them first does not change
it, and the storage node merges two clocks to the same one.
-/
theorem merge_lub {clocks : List VectorClock} (hdistinct : ∀ c ∈ clocks, c.DistinctIDs)
    (hnonneg : ∀ c ∈ clocks, c.NonNegative) (ord : RangeOrder (String × Int)) :
    (∀ c ∈ clocks, compare (merge ord clocks) c = .after ∨
      compare (merge ord clocks) c = .identical) ∧
    (∀ d, clocks ≠ [] ∨ d.NonNegative →
      (∀ c ∈ clocks, compare d c = .after ∨ compare d c = .identical) →
      compare (merge ord clocks) d = .before ∨ compare (merge ord clocks) d = .identical) ∧
    (∀ ord' clocks', (∀ c, c ∈ clocks' ↔ c ∈ clocks) →
      compare (merge ord clocks) (merge ord' clocks') = .identical) ∧
    (∀ ord' ord'' pre inner post, clocks = pre ++ inner ++ post →
      compare (merge ord clocks) (merge ord' (pre ++ merge ord'' inner :: post)) = .identical) ∧
    ∀ ordA ordB ord' a b, clocks = [a, b] →
      compare (merge ord clocks) (StorageNode.VectorClockService.merge ordA ordB ord' a b) =
        .identical := by
  have hmerge := timestamp_merge_le_iff hdistinct hnonneg ord
  refine ⟨?_, ?_, ?_, ?_, ?_⟩
  · intro c hc
    rw [compare_after_or_identical_iff]
    exact fun n => ((hmerge n _).mp le_rfl).2 c hc
  · intro d hd habove
    rw [compare_before_or_identical_iff]
    have habove' : ∀ c ∈ clocks, c.timestamp ≤ d.timestamp := fun c hc =>
      compare_after_or_identical_iff.mp (habove c hc)
    intro n
    refine (hmerge n _).mpr ⟨?_, fun c hc => habove' c hc n⟩
    rcases hd with hne | hd
    · obtain ⟨c, hc⟩ := List.exists_mem_of_ne_nil clocks hne
      exact (VectorClock.timestamp_nonneg (hnonneg c hc) n).trans (habove' c hc n)
    · exact VectorClock.timestamp_nonneg hd n
  · intro ord' clocks' hsame
    refine compare_eq_identical_of_le_iff fun n x => ?_
    rw [hmerge, timestamp_merge_le_iff (fun c hc => hdistinct c ((hsame c).mp hc))
      (fun c hc => hnonneg c ((hsame c).mp hc))]
    simp only [hsame]
  · rintro ord' ord'' pre inner post rfl
    have hinner := @timestamp_merge_le_iff inner
      (fun c hc => hdistinct c (by simp [hc])) (fun c hc => hnonneg c (by simp [hc])) ord''
    have hdistinct' : ∀ c ∈ pre ++ merge ord'' inner :: post, c.DistinctIDs := by
      intro c hc
      rcases List.mem_append.mp hc with hc | hc
      · exact hdistinct c (by simp [hc])
      · rcases List.mem_cons.mp hc with rfl | hc
        · exact VectorClock.distinctIDs_ofMap _ _
        · exact hdistinct c (by simp [hc])
    have hnonneg' : ∀ c ∈ pre ++ merge ord'' inner :: post, c.NonNegative := by
      intro c hc
      rcases List.mem_append.mp hc with hc | hc
      · exact hnonneg c (by simp [hc])
      · rcases List.mem_cons.mp hc with rfl | hc
        · exact nonNegative_merge (fun c hc => hnonneg c (by simp [hc])) _
        · exact hnonneg c (by simp [hc])
    refine compare_eq_identical_of_le_iff fun n x => ?_
    rw [hmerge, timestamp_merge_le_iff hdistinct' hnonneg']
    simp only [List.mem_append, List.mem_cons, or_imp, forall_and, forall_eq, hinner]
    tauto
  · rintro ordA ordB ord' a b rfl
    refine compare_eq_identical_of_le_iff fun n x => ?_
    have ha := hnonneg a (by simp)
    rw [hmerge, StorageNode.timestamp_merge_storage_le_iff ha (hnonneg b (by simp))]
    simp only [List.mem_cons, List.not_mem_nil, or_false, forall_eq_or_imp, forall_eq]
    refine ⟨fun h => h.2, fun h => ⟨?_, h⟩⟩
    exact (VectorClock.timestamp_nonneg ha n).trans h.1

theorem merge_lub_pair :
    compare (merge (.asHeld _) [⟨[⟨"a", 1⟩, ⟨"b", 0⟩]⟩, ⟨[⟨"a", 2⟩]⟩]) ⟨[⟨"a", 2⟩]⟩ = .after ∨
      compare (merge (.asHeld _) [⟨[⟨"a", 1⟩, ⟨"b", 0⟩]⟩, ⟨[⟨"a", 2⟩]⟩]) ⟨[⟨"a", 2⟩]⟩ =
        .identical :=
  (merge_lub (by decide) (by decide) _).1 _ (by decide)

/-! ## `Equals` -/

/-- Clocks with one positive entry for each of some nodes. -/
structure Ordinary (vc : VectorClock) : Prop where
  distinct : vc.DistinctIDs
  positive : vc.Positive

theorem equals_iff {a b : VectorClock} : a.equals b = true ↔
    a.entries.length = b.entries.length ∧
      ∀ e ∈ b.entries, a.toMap.get? e.coordinatorNodeID = some e.logicalTimestamp := by
  simp [VectorClock.equals]

/-- On ordinary clocks `Equals` decides whether the timestamps are the same. -/
theorem equals_iff_timestamp_eq {a b : VectorClock} (ha : Ordinary a) (hb : Ordinary b) :
    a.equals b = true ↔ a.timestamp = b.timestamp := by
  have hlength : ∀ vc : VectorClock, vc.nodeIDs.length = vc.entries.length := fun vc =>
    List.length_map _
  rw [equals_iff]
  constructor
  · rintro ⟨hlen, hall⟩
    -- the ids of `b` are among those of `a`, and there are as many
    have hsub : b.nodeIDs ⊆ a.nodeIDs := by
      intro n hn
      obtain ⟨e, he, rfl⟩ := List.mem_map.mp hn
      exact List.mem_map.mpr ⟨_, VectorClock.mem_entries_of_lookup (hall e he), rfl⟩
    have hperm : b.nodeIDs.Perm a.nodeIDs :=
      (List.subperm_of_subset hb.distinct hsub).perm_of_length_le (by rw [hlength, hlength, hlen])
    funext n
    cases hget : b.toMap.get? n with
    | some t =>
      rw [VectorClock.timestamp_of_lookup hget,
        VectorClock.timestamp_of_lookup (hall _ (VectorClock.mem_entries_of_lookup hget))]
    | none =>
      have hnot : n ∉ b.nodeIDs := by
        rw [← VectorClock.mem_keys_toMap]
        exact (Map.get?_eq_none_iff _ _).mp hget
      have hnot' : n ∉ a.nodeIDs := fun h => hnot (hperm.mem_iff.mpr h)
      rw [VectorClock.timestamp_of_not_mem (mt VectorClock.mem_keys_toMap.mp hnot),
        VectorClock.timestamp_of_not_mem (mt VectorClock.mem_keys_toMap.mp hnot')]
  · intro heq
    have hmem : ∀ n, n ∈ a.nodeIDs ↔ n ∈ b.nodeIDs := fun n => by
      rw [← VectorClock.timestamp_ne_zero_iff ha.positive, heq,
        VectorClock.timestamp_ne_zero_iff hb.positive]
    have hperm := (List.perm_ext_iff_of_nodup ha.distinct hb.distinct).mpr hmem
    refine ⟨by rw [← hlength, ← hlength, hperm.length_eq], fun e he => ?_⟩
    have hid : e.coordinatorNodeID ∈ a.nodeIDs := (hmem _).mpr (List.mem_map_of_mem he)
    cases hget : a.toMap.get? e.coordinatorNodeID with
    | none => exact absurd (VectorClock.mem_keys_toMap.mpr hid) ((Map.get?_eq_none_iff _ _).mp hget)
    | some t =>
      rw [← VectorClock.timestamp_of_lookup hget, heq,
        VectorClock.timestamp_of_lookup ((VectorClock.lookup_iff_mem hb.distinct).mpr he)]

theorem Ordinary.perm {a a' : VectorClock} (h : Ordinary a) (hperm : a'.entries.Perm a.entries) :
    Ordinary a' :=
  ⟨((hperm.map _).nodup_iff).mpr h.distinct, fun e he => h.positive e (hperm.mem_iff.mp he)⟩

/-- With one entry for each node, the order of the entries does not matter. -/
theorem timestamp_perm {a a' : VectorClock} (h : a.DistinctIDs)
    (hperm : a'.entries.Perm a.entries) : a'.timestamp = a.timestamp := by
  funext n
  have hnd : ((a'.entries.map fun e => (e.coordinatorNodeID, e.logicalTimestamp)).map
      Prod.fst).Nodup := by
    rw [List.map_map]
    exact ((hperm.map _).nodup_iff).mpr h
  rw [VectorClock.timestamp, VectorClock.toMap, Map.get?_ofList_perm (hperm.map _) hnd]
  rfl

/--
**`Equals` decides clock identity.** On clocks with one positive entry for each of their nodes it
holds exactly if `Compare` says Identical. So it is symmetric and transitive, and the order of the
entries does not matter.
-/
theorem equals_iff_identical {a b : VectorClock} (ha : Ordinary a) (hb : Ordinary b) :
    (a.equals b = true ↔ compare a b = .identical) ∧
      a.equals b = b.equals a ∧
      (∀ c, Ordinary c → a.equals b = true → b.equals c = true → a.equals c = true) ∧
      ∀ a' b' : VectorClock, a'.entries.Perm a.entries → b'.entries.Perm b.entries →
        a'.equals b' = a.equals b := by
  refine ⟨?_, ?_, ?_, ?_⟩
  · rw [equals_iff_timestamp_eq ha hb, compare_eq_identical_iff]
  · rw [Bool.eq_iff_iff, equals_iff_timestamp_eq ha hb, equals_iff_timestamp_eq hb ha]
    exact eq_comm
  · intro c hc hab hbc
    rw [equals_iff_timestamp_eq ha hb] at hab
    rw [equals_iff_timestamp_eq hb hc] at hbc
    rw [equals_iff_timestamp_eq ha hc, hab, hbc]
  · intro a' b' hpa hpb
    rw [Bool.eq_iff_iff, equals_iff_timestamp_eq (ha.perm hpa) (hb.perm hpb),
      equals_iff_timestamp_eq ha hb, timestamp_perm ha.distinct hpa, timestamp_perm hb.distinct hpb]

theorem equals_iff_identical_swapped :
    VectorClock.equals ⟨[⟨"a", 1⟩, ⟨"b", 2⟩]⟩ ⟨[⟨"b", 2⟩, ⟨"a", 1⟩]⟩ = true ↔
      compare ⟨[⟨"a", 1⟩, ⟨"b", 2⟩]⟩ ⟨[⟨"b", 2⟩, ⟨"a", 1⟩]⟩ = .identical :=
  (equals_iff_identical ⟨by decide, by decide⟩ ⟨by decide, by decide⟩).1

end VectorClockOps

end PairDB
