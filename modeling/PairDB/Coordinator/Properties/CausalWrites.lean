import PairDB.Coordinator.WriteProtocol

/-!
# Are acknowledged writes causally ordered?

`Ordered` says that a quorum write that began after another quorum write was acknowledged has a
clock that comes After the other's. The write protocol does not guarantee it: the pre-read takes
the first answer that is Found, and the replica that gives it need not hold the acknowledged write
(`not_ordered_in_every_run`).

What decides is the answer of the pre-read together with the coordinator's counter, at the moment
the clock is taken. `PreReadCovers` is the exact condition for one pair of clocks
(`compare_nextClock_eq_after_iff`); if it holds whenever a clock is taken, every state that is
reached is ordered (`ordered_of_allSteps_coveringPreRead`).
-/

namespace PairDB.Coordinator

open Infra VectorClockOps

/-! ## One clock -/

/-- The clock that the pre-read found, or the empty one. -/
def existingClock (firstResponse : Option Version) : VectorClock :=
  (firstResponse.map Version.vectorClock).getD VectorClock.empty

/--
The pre-read covers the clock `acked`: outside the coordinator's own component the existing clock
is at least as new, and the own component that will be taken is newer. If it is only as new, some
other component has to be newer.
-/
def PreReadCovers (vcService : VectorClockService) (existing acked : VectorClock) : Prop :=
  (∀ node ≠ vcService.nodeID, acked.timestamp node ≤ existing.timestamp node) ∧
  (acked.timestamp vcService.nodeID < vcService.nextTimestamp existing ∨
    (acked.timestamp vcService.nodeID = vcService.nextTimestamp existing ∧
      ∃ node ≠ vcService.nodeID, acked.timestamp node < existing.timestamp node))

theorem timestamp_nextClock (ord : RangeOrder (String × Int)) (tenantID : String)
    {vcService : VectorClockService} {firstResponse : Option Version}
    (h : vcService.Headroom (existingClock firstResponse)) :
    (nextClock ord tenantID vcService firstResponse).1.timestamp
      = Function.update (existingClock firstResponse).timestamp vcService.nodeID
          (vcService.nextTimestamp (existingClock firstResponse)) := by
  cases firstResponse with
  | none => exact VectorClockService.timestamp_increment tenantID h
  | some v => exact VectorClockService.timestamp_incrementFrom ord h

/-- A function with one raised component lies above `g` exactly in these cases. -/
theorem lt_update_iff {f g : String → Int} {node : String} {t : Int} :
    g < Function.update f node t ↔
      (∀ m ≠ node, g m ≤ f m) ∧ (g node < t ∨ (g node = t ∧ ∃ m ≠ node, g m < f m)) := by
  rw [Pi.lt_def, Pi.le_def]
  constructor
  · rintro ⟨hle, m, hm⟩
    have hnode : g node ≤ t := by simpa using hle node
    refine ⟨fun m hne => by simpa [hne] using hle m, ?_⟩
    rcases lt_or_eq_of_le hnode with hlt | heq
    · exact Or.inl hlt
    · refine Or.inr ⟨heq, m, ?_⟩
      have hne : m ≠ node := by
        rintro rfl
        rw [Function.update_self] at hm
        omega
      exact ⟨hne, by simpa [hne] using hm⟩
  · rintro ⟨hle, hnode⟩
    have hbelow : g node ≤ t := by omega
    refine ⟨fun m => ?_, ?_⟩
    · by_cases hm : m = node
      · rw [hm, Function.update_self]
        exact hbelow
      · rw [Function.update_of_ne hm]
        exact hle m hm
    · rcases hnode with hlt | ⟨_, m, hne, hlt⟩
      · exact ⟨node, by rwa [Function.update_self]⟩
      · exact ⟨m, by rwa [Function.update_of_ne hne]⟩

/-- **The clock of a write comes After `acked` exactly when the pre-read covers `acked`.** -/
theorem compare_nextClock_eq_after_iff (ord : RangeOrder (String × Int)) (tenantID : String)
    {vcService : VectorClockService} {firstResponse : Option Version} {acked : VectorClock}
    (h : vcService.Headroom (existingClock firstResponse)) :
    compare (nextClock ord tenantID vcService firstResponse).1 acked = .after
      ↔ PreReadCovers vcService (existingClock firstResponse) acked := by
  rw [compare_eq_after_iff, timestamp_nextClock ord tenantID h, lt_update_iff, PreReadCovers]

/-! ## The property and the condition -/

namespace Cluster

variable {n : Nat}

/-- The write `i` is a quorum write and has taken the clock `c`. -/
def QuorumIssued (s : Cluster n) (i : Nat) (c : VectorClock) : Prop :=
  ∃ w, s.writes i = some w ∧ w.consistency = "quorum" ∧ w.vectorClock = some c

/-- The write `i` is a quorum write that was acknowledged, with the clock `c`. -/
def QuorumAcked (s : Cluster n) (i : Nat) (c : VectorClock) : Prop :=
  ∃ w, s.writes i = some w ∧ w.consistency = "quorum" ∧ w.vectorClock = some c ∧
    w.status = .acknowledged

theorem QuorumAcked.issued {s : Cluster n} {i : Nat} {c : VectorClock} (h : s.QuorumAcked i c) :
    s.QuorumIssued i c := by
  obtain ⟨w, hw, hlevel, hc, -⟩ := h
  exact ⟨w, hw, hlevel, hc⟩

/-- The write `j` began after the write `i` was acknowledged. -/
def BeganAfter (s : Cluster n) (j i : Nat) : Prop :=
  ∃ w, s.writes j = some w ∧ i ∈ w.ackedBefore

/-- Sequential quorum writes have ordered clocks. -/
def Ordered (s : Cluster n) : Prop :=
  ∀ i j c₁ c₂, s.QuorumAcked i c₁ → s.QuorumAcked j c₂ → s.BeganAfter j i →
    compare c₂ c₁ = .after

/--
The condition on a step: when a quorum write takes its clock, the counter has room and the pre-read
covers every quorum write that was acknowledged before this one began.
-/
def CoveringPreRead (s : Cluster n) : Action n → Prop
  | .issueClock j _ => ∀ w, s.writes j = some w → w.consistency = "quorum" →
      (s.vcService w.coordinator).Headroom (existingClock w.firstResponse) ∧
      ∀ i ∈ w.ackedBefore, ∀ c, s.QuorumIssued i c →
        PreReadCovers (s.vcService w.coordinator) (existingClock w.firstResponse) c
  | _ => True

/-! ## What a step does to a write -/

/-- The write before and after a step that leaves its clock alone. -/
structure Kept (w w' : WriteOp n) : Prop where
  consistency : w'.consistency = w.consistency
  ackedBefore : w'.ackedBefore = w.ackedBefore
  vectorClock : w'.vectorClock = w.vectorClock

/-- The write `w` with the clock that `ord` and the state give it. -/
def issued (s : Cluster n) (ord : RangeOrder (String × Int)) (w : WriteOp n) : WriteOp n :=
  let next := nextClock ord s.tenantID (s.vcService w.coordinator) w.firstResponse
  { w with vectorClock := some next.1 }

/-- Everything a step can do to the write `j`. -/
inductive WriteStep (s : Cluster n) (a : Action n) (j : Nat) :
    Option (WriteOp n) → Option (WriteOp n) → Prop where
  | absent : WriteStep s a j none none
  | begun (w : WriteOp n) (hbefore : w.ackedBefore = s.acknowledged)
      (hclock : w.vectorClock = none) : WriteStep s a j none (some w)
  | issued (w : WriteOp n) (ord : RangeOrder (String × Int)) (ha : a = .issueClock j ord)
      (hclock : w.vectorClock = none) : WriteStep s a j (some w) (some (s.issued ord w))
  | kept (w w' : WriteOp n) (h : Kept w w') : WriteStep s a j (some w) (some w')

theorem Kept.refl (w : WriteOp n) : Kept w w := ⟨rfl, rfl, rfl⟩

theorem WriteStep.same (s : Cluster n) (a : Action n) (j : Nat) (o : Option (WriteOp n)) :
    WriteStep s a j o o := by
  cases o with
  | none => exact .absent
  | some w => exact .kept w w (Kept.refl w)

theorem Kept.crashWrite (c : String) (w : WriteOp n) : Kept w (crashWrite c w) := by
  unfold Cluster.crashWrite
  split
  · exact ⟨rfl, rfl, rfl⟩
  · exact Kept.refl w

/-- A step that sets the write `i` leaves the others as they are. -/
theorem WriteStep.setWrite {s : Cluster n} {a : Action n} {i : Nat} (w' : WriteOp n)
    (h : WriteStep s a i (s.writes i) (some w')) (j : Nat) :
    WriteStep s a j (s.writes j) ((s.setWrite i w').writes j) := by
  by_cases hij : j = i
  · rw [hij]
    simpa [Cluster.setWrite] using h
  · have hsame : (s.setWrite i w').writes j = s.writes j := by simp [Cluster.setWrite, hij]
    rw [hsame]
    exact .same s a j _

theorem WriteStep.setKept {s : Cluster n} {a : Action n} {i : Nat} {w w' : WriteOp n}
    (hw : s.writes i = some w) (h : Kept w w') (j : Nat) :
    WriteStep s a j (s.writes j) ((s.setWrite i w').writes j) := by
  refine WriteStep.setWrite w' ?_ j
  rw [hw]
  exact .kept w w' h

/-- Everything that the invariant below needs to know of a step. -/
structure StepFacts (s : Cluster n) (a : Action n) (s' : Cluster n) : Prop where
  writes : ∀ j, WriteStep s a j (s.writes j) (s'.writes j)
  acknowledged : ∀ i ∈ s'.acknowledged,
    i ∈ s.acknowledged ∨ ∃ w, s.writes i = some w ∧ w.vectorClock ≠ none

/-- The steps that set one write, keep its clock and acknowledge nothing. -/
theorem StepFacts.setKept {s s' : Cluster n} {a : Action n} {i : Nat} {w w' : WriteOp n}
    (hw : s.writes i = some w) (h : Kept w w') (hwrites : s'.writes = (s.setWrite i w').writes)
    (hack : s'.acknowledged = s.acknowledged) : StepFacts s a s' := by
  refine ⟨fun j => ?_, fun k hk => Or.inl (hack ▸ hk)⟩
  rw [hwrites]
  exact WriteStep.setKept hw h j

theorem stepFacts {s s' : Cluster n} {a : Action n} (h : step s a = some s') :
    StepFacts s a s' := by
  cases a with
  | beginWrite i coordinator value consistency =>
    simp only [step] at h
    split at h
    · cases h
    · next hw =>
      cases h
      refine ⟨fun j => WriteStep.setWrite _ ?_ j, fun k hk => Or.inl hk⟩
      rw [hw]
      exact .begun _ rfl rfl
  | serveRead i r =>
    obtain ⟨w, hw, h⟩ := Option.bind_eq_some_iff.mp h
    split at h
    · cases h
      refine StepFacts.setKept hw ?_ rfl rfl
      exact ⟨rfl, rfl, rfl⟩
    · cases h
  | receiveRead i r =>
    obtain ⟨w, hw, h⟩ := Option.bind_eq_some_iff.mp h
    obtain ⟨answer, -, h⟩ := Option.bind_eq_some_iff.mp h
    split at h
    · cases h
      refine StepFacts.setKept hw ?_ rfl rfl
      exact ⟨rfl, rfl, rfl⟩
    · cases h
  | issueClock i ord =>
    obtain ⟨w, hw, h⟩ := Option.bind_eq_some_iff.mp h
    split at h
    · next hc =>
      cases h
      refine ⟨fun j => WriteStep.setWrite (s := s) (s.issued ord w) ?_ j, fun k hk => Or.inl hk⟩
      rw [hw]
      exact .issued w ord rfl hc.1
    · cases h
  | store i r =>
    obtain ⟨w, hw, h⟩ := Option.bind_eq_some_iff.mp h
    obtain ⟨vectorClock, -, h⟩ := Option.bind_eq_some_iff.mp h
    cases h
    refine StepFacts.setKept hw ?_ rfl rfl
    exact ⟨rfl, rfl, rfl⟩
  | receiveStored i r =>
    obtain ⟨w, hw, h⟩ := Option.bind_eq_some_iff.mp h
    split at h
    · cases h
      refine StepFacts.setKept hw ?_ rfl rfl
      exact ⟨rfl, rfl, rfl⟩
    · cases h
  | finish i =>
    obtain ⟨w, hw, h⟩ := Option.bind_eq_some_iff.mp h
    split at h
    · next hc =>
      split at h
      · -- the one step that acknowledges, and it asks for the clock
        cases h
        refine ⟨fun j => WriteStep.setKept (s := s) hw ?_ j, fun k hk => ?_⟩
        · exact ⟨rfl, rfl, rfl⟩
        · rcases List.mem_cons.mp hk with rfl | hk
          · exact Or.inr ⟨w, hw, hc.2⟩
          · exact Or.inl hk
      · cases h
        refine StepFacts.setKept hw ?_ rfl rfl
        exact ⟨rfl, rfl, rfl⟩
    · cases h
  | restart c =>
    cases h
    refine ⟨fun j => ?_, fun k hk => Or.inl hk⟩
    show WriteStep s _ j (s.writes j) ((s.writes j).map (crashWrite c))
    cases s.writes j with
    | none => exact .absent
    | some w => exact .kept w _ (Kept.crashWrite c w)

/-! ## The invariant -/

/-- The write `i` has taken its clock. -/
def HasClock (s : Cluster n) (i : Nat) : Prop := ∃ w, s.writes i = some w ∧ w.vectorClock ≠ none

/--
The invariant of a run: what is acknowledged has its clock, so has everything that was acknowledged
before a write began, and the clocks of quorum writes are ordered whether or not they have been
acknowledged yet.
-/
structure Inv (s : Cluster n) : Prop where
  acknowledged : ∀ i ∈ s.acknowledged, s.HasClock i
  ackedBefore : ∀ j w, s.writes j = some w → ∀ i ∈ w.ackedBefore, s.HasClock i
  ordered : ∀ i j c₁ c₂, s.QuorumIssued i c₁ → s.QuorumIssued j c₂ → s.BeganAfter j i →
    compare c₂ c₁ = .after

theorem inv_init (tenantID : String) : Inv (init n tenantID) where
  acknowledged := by intro i hi; simp [init] at hi
  ackedBefore := by intro j w hw; simp [init] at hw
  ordered := by rintro i j c₁ c₂ ⟨w, hw, _⟩; simp [init] at hw

section

variable {s s' : Cluster n} {a : Action n}

/-- A clock that has been taken stays. -/
theorem HasClock.step (hf : StepFacts s a s') {i : Nat} (h : s.HasClock i) : s'.HasClock i := by
  obtain ⟨w, hw, hc⟩ := h
  have hstep := hf.writes i
  rw [hw] at hstep
  generalize ho : s'.writes i = o at hstep
  cases hstep with
  | issued _ ord _ hclock => exact absurd hclock hc
  | kept _ w' hk => exact ⟨w', ho, by rwa [hk.vectorClock]⟩

/-- A write that had its clock before the step has the same one after it. -/
theorem QuorumIssued.of_step (hf : StepFacts s a s') {i : Nat} {c : VectorClock}
    (hold : s.HasClock i) (h : s'.QuorumIssued i c) : s.QuorumIssued i c := by
  obtain ⟨w, hw, hc⟩ := hold
  obtain ⟨w', hw', hlevel, hc'⟩ := h
  have hstep := hf.writes i
  rw [hw, hw'] at hstep
  cases hstep with
  | issued _ ord _ hclock => exact absurd hclock hc
  | kept _ _ hk => exact ⟨w, hw, by rw [← hk.consistency, hlevel], by rw [← hk.vectorClock, hc']⟩

theorem Inv.ackedBefore_step (hI : Inv s) (hf : StepFacts s a s') {j : Nat} {w' : WriteOp n}
    (hw' : s'.writes j = some w') {i : Nat} (hi : i ∈ w'.ackedBefore) : s.HasClock i := by
  have hstep := hf.writes j
  rw [hw'] at hstep
  generalize ho : s.writes j = o at hstep
  cases hstep with
  | begun _ hbefore _ => exact hI.acknowledged i (hbefore ▸ hi)
  | issued w ord _ _ => exact hI.ackedBefore j w ho i hi
  | kept w _ hk => exact hI.ackedBefore j w ho i (hk.ackedBefore ▸ hi)

theorem Inv.step (hI : Inv s) (hP : s.CoveringPreRead a) (h : Cluster.step s a = some s') :
    Inv s' := by
  have hf := stepFacts h
  refine ⟨fun i hi => ?_, fun j w' hw' i hi => ?_, ?_⟩
  · rcases hf.acknowledged i hi with hi | hi
    · exact (hI.acknowledged i hi).step hf
    · exact HasClock.step hf hi
  · exact (hI.ackedBefore_step hf hw' hi).step hf
  · rintro i j c₁ c₂ hi ⟨w', hw', hlevel, hc₂⟩ ⟨w'', hw'', hbefore⟩
    have heq : w'' = w' := Option.some.inj (hw''.symm.trans hw')
    subst heq
    -- the earlier write already had its clock before this step
    have hold : s.QuorumIssued i c₁ :=
      hi.of_step hf (hI.ackedBefore_step hf hw' hbefore)
    have hstep := hf.writes j
    rw [hw'] at hstep
    generalize ho : s.writes j = o at hstep
    cases hstep with
    | begun _ _ hclock => rw [hclock] at hc₂; cases hc₂
    | kept w _ hk =>
      exact hI.ordered i j c₁ c₂ hold
        ⟨w, ho, by rw [← hk.consistency, hlevel], by rw [← hk.vectorClock, hc₂]⟩
        ⟨w, ho, hk.ackedBefore ▸ hbefore⟩
    | issued w ord ha _ =>
      subst ha
      obtain ⟨hroom, hcover⟩ := hP w ho hlevel
      cases hc₂
      exact (compare_nextClock_eq_after_iff ord s.tenantID hroom).mpr (hcover i hbefore c₁ hold)

end

/--
**Sequential quorum writes are ordered in every run whose pre-reads cover what was acknowledged.**

The run may use any number of coordinators, restart them at any time, lose any message and deliver
any write late. `CoveringPreRead` looks at the state before a clock is taken.
-/
theorem ordered_of_allSteps_coveringPreRead (tenantID : String) (as : List (Action n))
    (s : Cluster n) (hall : AllSteps step CoveringPreRead (init n tenantID) as)
    (hrun : run step (init n tenantID) as = some s) : Ordered s := by
  have hI : Inv s := run_invariant (fun _ _ _ hI hP h => hI.step hP h) (inv_init tenantID) hall hrun
  intro i j c₁ c₂ hi hj hafter
  exact hI.ordered i j c₁ c₂ hi.issued hj.issued hafter

/-! ## A run that is ordered and one that is not -/

/-- A quorum write whose pre-read is answered by `reads` and that the replicas `stores` store. -/
def sequentialWrite (i : Nat) (coordinator : String) (value : List UInt8)
    (reads stores : List (Fin n)) : List (Action n) :=
  [.beginWrite i coordinator value "quorum"]
    ++ reads.flatMap (fun r => [.serveRead i r, .receiveRead i r])
    ++ [.issueClock i (RangeOrder.asHeld _)]
    ++ stores.flatMap (fun r => [.store i r, .receiveStored i r])
    ++ [.finish i]

/-- The second coordinator reads what the first one has written. -/
def freshAnswer : List (Action 1) :=
  sequentialWrite 0 "a" [1] [] [0] ++ sequentialWrite 1 "b" [2] [0] [0]

theorem ordered_of_freshAnswer :
    ∃ s, run step (init 1 "t") freshAnswer = some s ∧ Ordered s := by
  obtain ⟨s, hs⟩ : ∃ s, run step (init 1 "t") freshAnswer = some s :=
    Option.isSome_iff_exists.mp (by decide)
  refine ⟨s, hs, ordered_of_allSteps_coveringPreRead "t" freshAnswer s ?_ hs⟩
  -- only the two steps that take a clock have something to show
  refine And.intro trivial (And.intro ?_ ?_)
  · intro w hw _
    cases hw
    exact ⟨⟨by decide, by decide⟩, fun i hi => by cases hi⟩
  refine And.intro trivial (And.intro trivial (And.intro trivial ?_))
  refine And.intro trivial (And.intro trivial (And.intro trivial (And.intro ?_ ?_)))
  · intro w hw _
    cases hw
    refine ⟨⟨by decide, by decide⟩, fun i hi c hc => ?_⟩
    have hacked : c = ⟨[⟨"a", 1⟩]⟩ := by
      obtain ⟨w, hw, _, hc⟩ := hc
      cases List.mem_singleton.mp hi
      cases hw
      cases hc
      rfl
    subst hacked
    exact ⟨fun node _ => le_rfl, Or.inl (by decide)⟩
  exact And.intro trivial (And.intro trivial (And.intro trivial trivial))

/--
The second write of coordinator `a` misses the last replica. All replicas answer the pre-read of
`b`, but that replica is the first.
-/
def staleFirstAnswer : List (Action 3) :=
  sequentialWrite 0 "a" [1] [] [0, 1, 2] ++ sequentialWrite 1 "a" [2] [0] [0, 1]
    ++ sequentialWrite 2 "b" [3] [2, 0, 1] [0, 1, 2]

/-- The write of `b` began after the second write of `a` was acknowledged; the clocks conflict. -/
theorem not_ordered_in_every_run :
    ¬ ∀ (as : List (Action 3)) (s : Cluster 3), run step (init 3 "t") as = some s → Ordered s := by
  intro hall
  obtain ⟨s, hs⟩ : ∃ s, run step (init 3 "t") staleFirstAnswer = some s :=
    Option.isSome_iff_exists.mp (by decide)
  have h₁ : ((run step (init 3 "t") staleFirstAnswer).bind fun s =>
      (s.writes 1).map fun w => (w.consistency, w.vectorClock, w.status))
        = some ("quorum", some ⟨[⟨"a", 2⟩]⟩, .acknowledged) := by decide
  have h₂ : ((run step (init 3 "t") staleFirstAnswer).bind fun s =>
      (s.writes 2).map fun w => (w.consistency, w.vectorClock, w.status, w.ackedBefore))
        = some ("quorum", some ⟨[⟨"b", 1⟩, ⟨"a", 1⟩]⟩, .acknowledged, [1, 0]) := by decide
  rw [hs, Option.bind_some, Option.map_eq_some_iff] at h₁ h₂
  obtain ⟨w₁, hw₁, heq₁⟩ := h₁
  obtain ⟨w₂, hw₂, heq₂⟩ := h₂
  simp only [Prod.mk.injEq] at heq₁ heq₂
  obtain ⟨hlevel₁, hclock₁, hstatus₁⟩ := heq₁
  obtain ⟨hlevel₂, hclock₂, hstatus₂, hbefore⟩ := heq₂
  have hafter := hall staleFirstAnswer s hs 1 2 _ _ ⟨w₁, hw₁, hlevel₁, hclock₁, hstatus₁⟩
    ⟨w₂, hw₂, hlevel₂, hclock₂, hstatus₂⟩ ⟨w₂, hw₂, by rw [hbefore]; decide⟩
  exact absurd hafter (by decide)

end Cluster

end PairDB.Coordinator
