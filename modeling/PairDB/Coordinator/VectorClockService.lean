import PairDB.Infra.MachineInt
import PairDB.Coordinator.VectorClockOps

/-!
# The coordinator's `VectorClockService`

One counter per coordinator process. `incrementFrom` raises the coordinator's own component above
the counter and above the component it finds in the existing clock, and keeps the others.
-/

namespace PairDB.Coordinator

open Infra

/-- `VectorClockService`: the id of the coordinator and its counter. -/
structure VectorClockService where
  nodeID : String
  localTimestamp : Int
  deriving DecidableEq, Repr

namespace VectorClockService

/-- `NewVectorClockService`. The counter is not stored anywhere, so a restart begins at 0 again. -/
def new (nodeID : String) : VectorClockService := ⟨nodeID, 0⟩

/-- `Increment`. The argument is not used by the source. -/
def increment (s : VectorClockService) (_nodeID : String) : VectorClock × VectorClockService :=
  let s := { s with localTimestamp := int64 (s.localTimestamp + 1) }
  (⟨[⟨s.nodeID, s.localTimestamp⟩]⟩, s)

/-- `IncrementFrom`. `ord` is the order in which the result map is walked. -/
def incrementFrom (ord : RangeOrder (String × Int)) (s : VectorClockService)
    (existing : VectorClock) : VectorClock × VectorClockService :=
  let localTimestamp := int64 (s.localTimestamp + 1)
  let vcMap := existing.toMap
  let localTimestamp :=
    match vcMap.get? s.nodeID with
    | some existingTS =>
      if existingTS ≥ localTimestamp then int64 (existingTS + 1) else localTimestamp
    | none => localTimestamp
  (VectorClock.ofMap ord (vcMap.set s.nodeID localTimestamp), { s with localTimestamp })

/-- The own component of the next clock, when nothing overflows. -/
def nextTimestamp (s : VectorClockService) (existing : VectorClock) : Int :=
  max s.localTimestamp (existing.timestamp s.nodeID) + 1

/-- The counter can be raised once more without leaving `int64`. -/
structure Headroom (s : VectorClockService) (existing : VectorClock) : Prop where
  nonneg : 0 ≤ s.localTimestamp
  lt : max s.localTimestamp (existing.timestamp s.nodeID) < 2 ^ 63 - 1

variable {s : VectorClockService} {existing : VectorClock}

theorem incrementFrom_localTimestamp (ord : RangeOrder (String × Int)) (h : Headroom s existing) :
    (incrementFrom ord s existing).2.localTimestamp = s.nextTimestamp existing := by
  obtain ⟨h0, hlt⟩ := h
  have hinc : int64 (s.localTimestamp + 1) = s.localTimestamp + 1 :=
    int64_eq_self (by omega) (by omega)
  unfold incrementFrom nextTimestamp
  cases hl : existing.toMap.get? s.nodeID with
  | none =>
    have hz : existing.timestamp s.nodeID = 0 := by rw [VectorClock.timestamp, hl]; rfl
    simp only [hinc, hz, hl]
    show s.localTimestamp + 1 = max s.localTimestamp 0 + 1
    omega
  | some t =>
    have ht : existing.timestamp s.nodeID = t := VectorClock.timestamp_of_lookup hl
    rw [ht] at hlt
    simp only [hinc, ht, hl]
    split
    · rw [int64_eq_self (by omega) (by omega)]
      omega
    · show s.localTimestamp + 1 = max s.localTimestamp t + 1
      omega

theorem timestamp_incrementFrom (ord : RangeOrder (String × Int)) (h : Headroom s existing) :
    (incrementFrom ord s existing).1.timestamp
      = Function.update existing.timestamp s.nodeID (s.nextTimestamp existing) := by
  have hclock : (incrementFrom ord s existing).1 = VectorClock.ofMap ord
      (existing.toMap.set s.nodeID (incrementFrom ord s existing).2.localTimestamp) := rfl
  funext n
  rw [hclock, VectorClock.timestamp, VectorClock.get?_toMap_ofMap,
    incrementFrom_localTimestamp ord h, Map.get?_set]
  by_cases hn : n = s.nodeID
  · rw [hn, if_pos rfl, Function.update_self, Option.getD_some]
  · rw [if_neg (Ne.symm hn), Function.update_of_ne hn]
    rfl

/-- Without an existing clock the result is the one an empty clock would give. -/
theorem timestamp_increment (arg : String) (h : Headroom s VectorClock.empty) :
    (increment s arg).1.timestamp
      = Function.update VectorClock.empty.timestamp s.nodeID
          (s.nextTimestamp VectorClock.empty) := by
  obtain ⟨h0, hlt⟩ := h
  rw [VectorClock.timestamp_empty] at hlt
  have hinc : int64 (s.localTimestamp + 1) = s.localTimestamp + 1 :=
    int64_eq_self (by omega) (by omega)
  have hnext : s.nextTimestamp VectorClock.empty = s.localTimestamp + 1 := by
    rw [nextTimestamp, VectorClock.timestamp_empty]
    omega
  funext n
  rw [hnext]
  simp only [increment, hinc, VectorClock.timestamp, VectorClock.toMap, List.map_cons,
    List.map_nil]
  rw [← List.nil_append [(s.nodeID, s.localTimestamp + 1)], Map.get?_ofList_concat]
  by_cases hn : n = s.nodeID
  · simp [hn]
  · rw [if_neg (Ne.symm hn), Function.update_of_ne hn]
    rfl

theorem increment_localTimestamp (arg : String) (h : Headroom s VectorClock.empty) :
    (increment s arg).2.localTimestamp = s.nextTimestamp VectorClock.empty := by
  obtain ⟨h0, hlt⟩ := h
  rw [VectorClock.timestamp_empty] at hlt
  have hinc : int64 (s.localTimestamp + 1) = s.localTimestamp + 1 :=
    int64_eq_self (by omega) (by omega)
  simp only [increment, nextTimestamp, hinc, VectorClock.timestamp_empty]
  omega

end VectorClockService

end PairDB.Coordinator
