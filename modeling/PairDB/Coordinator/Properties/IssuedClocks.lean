import PairDB.Infra.Run
import PairDB.Coordinator.VectorClockService

/-!
# The clocks of one coordinator are fresh

Both calls hold the mutex of the service from beginning to end, so what several callers do is a
sequence of calls. The counter is raised by every call, and it is the own component of the clock
that the call returns. So this component grows from one clock to the next, whatever clocks the
callers bring.
-/

namespace PairDB.Coordinator

open Infra VectorClockOps

/-- A call of the service. -/
inductive ClockCall where
  | increment (nodeID : String)
  | incrementFrom (ord : RangeOrder (String × Int)) (existing : VectorClock)

/-- The service, and the calls so far with the clocks that they returned. -/
structure ClockIssuer where
  service : VectorClockService
  issued : List (ClockCall × VectorClock)

namespace ClockIssuer

/-- A service that was just made. -/
def new (nodeID : String) : ClockIssuer := ⟨VectorClockService.new nodeID, []⟩

/-- What a call returns, and the service after it. -/
def answer (service : VectorClockService) : ClockCall → VectorClock × VectorClockService
  | .increment nodeID => service.increment nodeID
  | .incrementFrom ord existing => service.incrementFrom ord existing

/-- One call. -/
def step (s : ClockIssuer) (call : ClockCall) : Option ClockIssuer :=
  let (clock, service) := answer s.service call
  some ⟨service, s.issued ++ [(call, clock)]⟩

/-- The clock that a call goes on from. -/
def base : ClockCall → VectorClock
  | .increment _ => VectorClock.empty
  | .incrementFrom _ existing => existing

/-- The counter and the own timestamp of the existing clock are below the greatest `int64`. -/
def BelowMax (s : ClockIssuer) (call : ClockCall) : Prop :=
  s.service.localTimestamp < 2 ^ 63 - 1 ∧ (base call).timestamp s.service.nodeID < 2 ^ 63 - 1

instance (s : ClockIssuer) (call : ClockCall) : Decidable (BelowMax s call) :=
  inferInstanceAs (Decidable (_ ∧ _))

/-- A clock that goes on from an existing one is After it, with the other components as they were. -/
def Advances (nodeID : String) : ClockCall × VectorClock → Prop
  | (.increment _, _) => True
  | (.incrementFrom _ existing, clock) => compare clock existing = .after ∧
      ∀ n, n ≠ nodeID → clock.toMap.get? n = existing.toMap.get? n

/-- The counter is the greatest own component so far, and these components grow. -/
structure Fresh (nodeID : String) (s : ClockIssuer) : Prop where
  own : s.service.nodeID = nodeID
  nonneg : 0 ≤ s.service.localTimestamp
  bounded : ∀ p ∈ s.issued, p.2.timestamp nodeID ≤ s.service.localTimestamp
  growing : s.issued.Pairwise fun p q => p.2.timestamp nodeID < q.2.timestamp nodeID
  advances : ∀ p ∈ s.issued, Advances nodeID p

variable {nodeID : String} {s s' : ClockIssuer} {call : ClockCall}

theorem headroom (hnonneg : 0 ≤ s.service.localTimestamp) (h : BelowMax s call) :
    s.service.Headroom (base call) := ⟨hnonneg, max_lt h.1 h.2⟩

/-- What a call does to the counter and to the clock it goes on from. -/
theorem answer_spec (h : s.service.Headroom (base call)) :
    (answer s.service call).2.localTimestamp = s.service.nextTimestamp (base call) ∧
      (answer s.service call).2.nodeID = s.service.nodeID ∧
      (answer s.service call).1.timestamp = Function.update (base call).timestamp s.service.nodeID
        (s.service.nextTimestamp (base call)) := by
  cases call with
  | increment arg =>
    exact ⟨VectorClockService.increment_localTimestamp arg h, rfl,
      VectorClockService.timestamp_increment arg h⟩
  | incrementFrom ord existing =>
    exact ⟨VectorClockService.incrementFrom_localTimestamp ord h, rfl,
      VectorClockService.timestamp_incrementFrom ord h⟩

theorem advances_answer (h : s.service.Headroom (base call)) :
    Advances s.service.nodeID (call, (answer s.service call).1) := by
  cases call with
  | increment arg => trivial
  | incrementFrom ord existing =>
    refine ⟨?_, fun n hn => ?_⟩
    · have hclock := (answer_spec h).2.2
      rw [compare_eq_after_iff, hclock]
      refine lt_update_self_iff.mpr ?_
      exact lt_of_le_of_lt (le_max_right _ _) (lt_add_one _)
    · show (VectorClock.ofMap ord _).toMap.get? n = _
      rw [VectorClock.get?_toMap_ofMap, Map.get?_set, if_neg (Ne.symm hn)]

/-- One call raises the own component above all earlier ones. -/
theorem fresh_step (hfresh : Fresh nodeID s) (hbelow : BelowMax s call)
    (hstep : step s call = some s') : Fresh nodeID s' := by
  obtain ⟨rfl, hnonneg, hbounded, hgrowing, hadvances⟩ := hfresh
  have hroom := headroom hnonneg hbelow
  obtain ⟨hlocal, hid, hclock⟩ := answer_spec hroom
  cases hstep
  have hown : (answer s.service call).1.timestamp s.service.nodeID =
      (answer s.service call).2.localTimestamp := by
    rw [hclock, Function.update_self, hlocal]
  have hraised : s.service.localTimestamp < (answer s.service call).2.localTimestamp := by
    rw [hlocal]
    exact lt_of_le_of_lt (le_max_left _ _) (lt_add_one _)
  refine ⟨hid, hnonneg.trans hraised.le, ?_, ?_, ?_⟩
  · intro p hp
    rcases List.mem_append.mp hp with hp | hp
    · exact (hbounded p hp).trans hraised.le
    · rw [List.mem_singleton.mp hp]
      exact hown.le
  · refine List.pairwise_append.mpr ⟨hgrowing, List.pairwise_singleton _ _, ?_⟩
    intro p hp q hq
    rw [List.mem_singleton.mp hq]
    exact lt_of_le_of_lt (hbounded p hp) (hown ▸ hraised)
  · intro p hp
    rcases List.mem_append.mp hp with hp | hp
    · exact hadvances p hp
    · rw [List.mem_singleton.mp hp]
      exact advances_answer hroom

theorem fresh_new (nodeID : String) : Fresh nodeID (new nodeID) :=
  ⟨rfl, le_rfl, by simp [new], List.Pairwise.nil, by simp [new]⟩

/--
**The clocks of one coordinator are fresh.**

As long as the counter and the own timestamps of the existing clocks stay below the greatest
`int64`, the own component grows from clock to clock, so no two clocks are Identical. A clock that
goes on from an existing one is After it, and differs from it in the own component only.
-/
theorem issued_fresh {nodeID : String} {calls : List ClockCall} {s : ClockIssuer}
    (hrun : run step (new nodeID) calls = some s)
    (hbelow : AllSteps step BelowMax (new nodeID) calls) :
    s.issued.map Prod.fst = calls ∧
      (s.issued.Pairwise fun p q => p.2.timestamp nodeID < q.2.timestamp nodeID) ∧
      (s.issued.Pairwise fun p q => VectorClockOps.compare p.2 q.2 ≠ .identical) ∧
      ∀ p ∈ s.issued, Advances nodeID p := by
  have hcalls := run_invariant_history (P := fun _ _ => True)
    (I := fun pre (s : ClockIssuer) => s.issued.map Prod.fst = pre)
    (fun pre s call s' hpre _ hstep => by
      cases hstep
      rw [List.map_append, hpre]
      rfl) calls [] (new nodeID) s rfl (allSteps_trivial _ _) hrun
  have hfresh := run_invariant (I := Fresh nodeID) (P := BelowMax)
    (fun s call s' hfresh hbelow hstep => fresh_step hfresh hbelow hstep) (fresh_new nodeID) hbelow
    hrun
  refine ⟨hcalls, hfresh.growing, hfresh.growing.imp ?_, hfresh.advances⟩
  intro p q hlt hsame
  rw [compare_eq_identical_iff] at hsame
  rw [hsame] at hlt
  exact lt_irrefl _ hlt

namespace Sample

/-- The second clock jumps past a timestamp of an earlier life of the coordinator. -/
def threeCalls : List ClockCall :=
  [.increment "t", .incrementFrom (.asHeld _) ⟨[⟨"c", 7⟩, ⟨"d", 3⟩]⟩, .increment "t"]

end Sample

open Sample in
theorem issued_fresh_threeCalls : ∃ s, run step (new "c") threeCalls = some s ∧
    s.issued.map Prod.snd = [⟨[⟨"c", 1⟩]⟩, ⟨[⟨"c", 8⟩, ⟨"d", 3⟩]⟩, ⟨[⟨"c", 9⟩]⟩] ∧
    s.issued.Pairwise fun p q => VectorClockOps.compare p.2 q.2 ≠ .identical := by
  refine ⟨_, rfl, by decide, ?_⟩
  exact (@issued_fresh _ threeCalls _ rfl (by decide)).2.2.1

end ClockIssuer

end PairDB.Coordinator
