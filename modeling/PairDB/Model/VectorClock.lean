import PairDB.Infra.Map

/-!
# Vector clocks

Coordinator and storage node declare the same `model.VectorClock`: a list of entries in which a
node id may occur more than once. Every operation first turns the list into a Go map, so the last
entry of a node counts and an absent node reads as 0.

`timestamp` is that reading as a total function. Causality is the pointwise order of these
functions, and the comparison functions of both services are measured against it.
-/

namespace PairDB

open Infra

/-- `model.VectorClockEntry`. -/
structure VectorClockEntry where
  coordinatorNodeID : String
  logicalTimestamp : Int
  deriving DecidableEq, Repr

/-- `model.VectorClock`. -/
structure VectorClock where
  entries : List VectorClockEntry
  deriving DecidableEq, Repr

namespace VectorClock

/-- `toMap` of both services. -/
def toMap (vc : VectorClock) : Map String Int :=
  Map.ofList (vc.entries.map fun e => (e.coordinatorNodeID, e.logicalTimestamp))

/-- `map[nodeID]` as Go reads it: 0 when the node has no entry. -/
def timestamp (vc : VectorClock) (nodeID : String) : Int := (vc.toMap.get? nodeID).getD 0

/-- The clock without entries. -/
def empty : VectorClock := ⟨[]⟩

@[simp] theorem timestamp_empty (n : String) : empty.timestamp n = 0 := rfl

theorem timestamp_of_lookup {vc : VectorClock} {n : String} {t : Int}
    (h : vc.toMap.get? n = some t) : vc.timestamp n = t := by
  rw [timestamp, h, Option.getD_some]

theorem timestamp_of_not_mem {vc : VectorClock} {n : String} (h : n ∉ vc.toMap.keys) :
    vc.timestamp n = 0 := by
  rw [timestamp, (Map.get?_eq_none_iff _ _).mpr h, Option.getD_none]

/-- Turn a map back into a list of entries, walking it in the order `ord`. -/
def ofMap (ord : RangeOrder (String × Int)) (m : Map String Int) : VectorClock :=
  ⟨(ord.visit (Map.toPairs m)).map fun p => ⟨p.1, p.2⟩⟩

/-- The order in which the map is walked does not show in the clock's timestamps. -/
theorem get?_toMap_ofMap (ord : RangeOrder (String × Int)) (m : Map String Int) (n : String) :
    (ofMap ord m).toMap.get? n = m.get? n := by
  have hmap : (ofMap ord m).entries.map (fun e => (e.coordinatorNodeID, e.logicalTimestamp))
      = ord.visit (Map.toPairs m) := by
    simp [ofMap, Function.comp_def]
  have hperm := ord.perm (Map.toPairs m)
  have hnd : ((ord.visit (Map.toPairs m)).map Prod.fst).Nodup :=
    (hperm.map Prod.fst).nodup_iff.mpr (Map.toPairs_nodup m)
  rw [toMap, hmap, Map.get?_ofList_perm hperm hnd, Map.get?_ofList_toPairs]

/-! ## Ordinary clocks -/

/-- No entry is below 0. -/
def NonNegative (vc : VectorClock) : Prop := ∀ e ∈ vc.entries, 0 ≤ e.logicalTimestamp

/-- Every entry is above 0. -/
def Positive (vc : VectorClock) : Prop := ∀ e ∈ vc.entries, 0 < e.logicalTimestamp

/-- The ids of the entries. -/
def nodeIDs (vc : VectorClock) : List String := vc.entries.map VectorClockEntry.coordinatorNodeID

/-- No node has two entries. -/
def DistinctIDs (vc : VectorClock) : Prop := vc.nodeIDs.Nodup

instance (vc : VectorClock) : Decidable vc.NonNegative := inferInstanceAs (Decidable (∀ _ ∈ _, _))

instance (vc : VectorClock) : Decidable vc.Positive := inferInstanceAs (Decidable (∀ _ ∈ _, _))

instance (vc : VectorClock) : Decidable vc.DistinctIDs := inferInstanceAs (Decidable (List.Nodup _))

/-- What the map has for a node is one of the entries. -/
theorem mem_entries_of_lookup {vc : VectorClock} {n : String} {t : Int}
    (h : vc.toMap.get? n = some t) : ⟨n, t⟩ ∈ vc.entries := by
  obtain ⟨⟨id, ts⟩, he, heq⟩ := List.mem_map.mp (Map.mem_of_get?_ofList h)
  cases heq
  exact he

theorem lookup_iff_mem {vc : VectorClock} (hd : vc.DistinctIDs) {n : String} {t : Int} :
    vc.toMap.get? n = some t ↔ ⟨n, t⟩ ∈ vc.entries := by
  refine ⟨mem_entries_of_lookup, fun h => ?_⟩
  refine (Map.get?_ofList_eq_some_iff _ ?_ n t).mpr (List.mem_map.mpr ⟨_, h, rfl⟩)
  rw [List.map_map]
  exact hd

theorem mem_keys_toMap {vc : VectorClock} {n : String} : n ∈ vc.toMap.keys ↔ n ∈ vc.nodeIDs := by
  suffices ∀ l : List VectorClockEntry,
      (Map.ofList (l.map fun e => (e.coordinatorNodeID, e.logicalTimestamp))).get? n = none ↔
        n ∉ l.map VectorClockEntry.coordinatorNodeID by
    rw [← not_iff_not, ← Map.get?_eq_none_iff]
    exact this vc.entries
  intro l
  induction l using List.reverseRecOn with
  | nil => simp [Map.get?_ofList_nil]
  | append_singleton l e ih =>
    rw [List.map_append, List.map_append, List.map_singleton, List.map_singleton,
      Map.get?_ofList_concat, List.mem_append, List.mem_singleton, not_or, ← ih]
    by_cases h : e.coordinatorNodeID = n
    · simp [h]
    · simp [h, Ne.symm h]

theorem timestamp_nonneg {vc : VectorClock} (h : vc.NonNegative) (n : String) :
    0 ≤ vc.timestamp n := by
  cases hget : vc.toMap.get? n with
  | none => rw [timestamp, hget, Option.getD_none]
  | some t =>
    rw [timestamp_of_lookup hget]
    exact h _ (mem_entries_of_lookup hget)

/-- With positive entries, the nodes that have an entry are those with a timestamp. -/
theorem timestamp_ne_zero_iff {vc : VectorClock} (h : vc.Positive) {n : String} :
    vc.timestamp n ≠ 0 ↔ n ∈ vc.nodeIDs := by
  rw [← mem_keys_toMap]
  constructor
  · intro hne
    by_contra hnot
    exact hne (timestamp_of_not_mem hnot)
  · intro hmem
    cases hget : vc.toMap.get? n with
    | none => exact absurd hmem ((Map.get?_eq_none_iff _ _).mp hget)
    | some t =>
      rw [timestamp_of_lookup hget]
      exact (h _ (mem_entries_of_lookup hget)).ne'

/-- A clock is below a bound if its entries are. -/
theorem timestamp_le_iff {vc : VectorClock} (hd : vc.DistinctIDs) {n : String} {x : Int}
    (hx : 0 ≤ x) : vc.timestamp n ≤ x ↔
      ∀ e ∈ vc.entries, e.coordinatorNodeID = n → e.logicalTimestamp ≤ x := by
  constructor
  · rintro hle ⟨id, ts⟩ he rfl
    rwa [timestamp_of_lookup ((lookup_iff_mem hd).mpr he)] at hle
  · intro hall
    cases hget : vc.toMap.get? n with
    | none => rwa [timestamp, hget, Option.getD_none]
    | some t =>
      rw [timestamp_of_lookup hget]
      exact hall _ (mem_entries_of_lookup hget) rfl

/-- A loop over the map of a clock looks at the nodes that have an entry. -/
theorem any_toPairs_iff (vc : VectorClock) (p : String → Int → Bool) :
    (vc.toMap.toPairs.any fun q => p q.1 q.2) = true ↔
      ∃ n ∈ vc.toMap.keys, p n (vc.timestamp n) = true := by
  rw [List.any_eq_true]
  constructor
  · rintro ⟨⟨n, t⟩, hq, hp⟩
    refine ⟨n, (Map.mem_keys_iff_toPairs _ _).mpr (List.mem_map_of_mem hq), ?_⟩
    rwa [timestamp_of_lookup ((Map.mem_toPairs_iff _ _ _).mp hq)]
  · rintro ⟨n, hn, hp⟩
    obtain ⟨⟨m, t⟩, hq, rfl⟩ := List.mem_map.mp ((Map.mem_keys_iff_toPairs _ _).mp hn)
    refine ⟨(m, t), hq, ?_⟩
    rwa [timestamp_of_lookup ((Map.mem_toPairs_iff _ _ _).mp hq)] at hp

/-- A node at which one clock is behind the other is in the first clock, or only in the second. -/
theorem exists_lt_iff {a b : VectorClock} : (∃ n, a.timestamp n < b.timestamp n) ↔
    (∃ n ∈ a.toMap.keys, a.timestamp n < b.timestamp n) ∨
      ∃ n ∈ b.toMap.keys, n ∉ a.toMap.keys ∧ b.timestamp n > 0 := by
  constructor
  · rintro ⟨n, hlt⟩
    by_cases hn : n ∈ a.toMap.keys
    · exact Or.inl ⟨n, hn, hlt⟩
    · rw [timestamp_of_not_mem hn] at hlt
      have hb : n ∈ b.toMap.keys := by
        by_contra hb
        rw [timestamp_of_not_mem hb] at hlt
        exact lt_irrefl _ hlt
      exact Or.inr ⟨n, hb, hn, hlt⟩
  · rintro (⟨n, -, hlt⟩ | ⟨n, -, hn, hlt⟩)
    · exact ⟨n, hlt⟩
    · exact ⟨n, by rwa [timestamp_of_not_mem hn]⟩

/-- The clocks that `ofMap` makes have one entry for each node. -/
theorem distinctIDs_ofMap (ord : RangeOrder (String × Int)) (m : Map String Int) :
    (ofMap ord m).DistinctIDs := by
  have hids : (ofMap ord m).nodeIDs = (ord.visit (Map.toPairs m)).map Prod.fst := by
    simp [nodeIDs, ofMap, Function.comp_def]
  rw [DistinctIDs, hids]
  exact ((ord.perm _).map Prod.fst).nodup_iff.mpr (Map.toPairs_nodup m)

theorem timestamp_ofMap (ord : RangeOrder (String × Int)) (m : Map String Int) (n : String) :
    (ofMap ord m).timestamp n = (m.get? n).getD 0 := by
  rw [timestamp, get?_toMap_ofMap]

theorem nonNegative_ofMap {m : Map String Int} (h : ∀ n t, m.get? n = some t → 0 ≤ t)
    (ord : RangeOrder (String × Int)) : (ofMap ord m).NonNegative := by
  intro e he
  obtain ⟨⟨n, t⟩, hp, rfl⟩ := List.mem_map.mp he
  exact h n t ((Map.mem_toPairs_iff _ _ _).mp ((ord.perm _).mem_iff.mp hp))

/-! ## `model.VectorClock.Equals` -/

/-- `Equals` of the coordinator's model. -/
def equals (vc other : VectorClock) : Bool :=
  vc.entries.length == other.entries.length && other.entries.all fun entry =>
    vc.toMap.get? entry.coordinatorNodeID == some entry.logicalTimestamp

end VectorClock

end PairDB
