import PairDB.Coordinator.HintedHandoff

/-!
# Hints are stored, and leave the store for a reason

* Every replica that misses a write should get a hint. Only a call that fails in transport leads to
  one; a replica that answers without success gets none (`hints_complete_iff`).
* A hint should leave the store only when its node has it, or for one of the reasons for giving it
  up. A replay takes every answer of the node for a success, and `removeHint` removes all hints of
  the node with the same key and time stamp (`accounted_of_run`).
-/

namespace PairDB.Coordinator

open Infra

/-- What a hint says. -/
def Hint.args (hint : Hint) : HintArgs :=
  ⟨hint.nodeID, hint.tenantID, hint.key, hint.value, hint.vectorClock⟩

namespace HintedHandoffService

/-- Some calls of `StoreHint`, the `i`-th at `clock i`. -/
def storeAll (clock : Nat → Int) :
    Nat → HintedHandoffService → List HintArgs → HintedHandoffService
  | _, s, [] => s
  | i, s, args :: rest => storeAll clock (i + 1) (s.storeHint (clock i) args) rest

/-- A hint that is stored stays, unless a later one for the same node takes its place. -/
theorem exists_hint_storeAll (clock : Nat → Int) (args : HintArgs) :
    ∀ {i : Nat} {s : HintedHandoffService} {list : List HintArgs},
      (∀ other ∈ list, other.nodeID = args.nodeID → other = args) →
      (args ∈ list ∨ ∃ hint ∈ s.hintsFor args.nodeID, hint.args = args) →
      ∃ hint ∈ (storeAll clock i s list).hintsFor args.nodeID, hint.args = args
  | _, _, [], _, h => h.resolve_left (by simp)
  | i, s, other :: list, hsame, h => by
    have hrest : ∀ o ∈ list, o.nodeID = args.nodeID → o = args := fun o ho =>
      hsame o (List.mem_cons_of_mem _ ho)
    rw [storeAll]
    refine exists_hint_storeAll clock args hrest ?_
    rw [hintsFor_storeHint]
    by_cases hnode : other.nodeID = args.nodeID
    · rw [if_pos hnode]
      have heq := hsame other List.mem_cons_self hnode
      exact Or.inr ⟨_, List.mem_append_right _ List.mem_cons_self, heq⟩
    · rw [if_neg hnode]
      refine h.imp_left fun hmem => ?_
      rcases List.mem_cons.mp hmem with rfl | hmem
      · exact absurd rfl hnode
      · exact hmem

end HintedHandoffService

/-! ## Hints for every replica that misses a write -/

theorem storeHint?_eq_some_iff {tenantID key : String} {value : List UInt8}
    {vectorClock : VectorClock} {p : StorageNode × WriteAnswer} {args : HintArgs} :
    storeHint? tenantID key value vectorClock p = some args ↔
      p.2.succeeded = false ∧ p.2.rejected = false ∧
        ⟨p.1.nodeID, tenantID, key, value, vectorClock⟩ = args := by
  obtain ⟨node, answer⟩ := p
  cases answer with
  | transportError err => simp
  | response success updated => cases success <;> simp

/-- Every answer is a success, leads to a hint, or is a rejection. -/
theorem length_answers_eq (tenantID key : String) (value : List UInt8) (vectorClock : VectorClock)
    (answers : List (StorageNode × WriteAnswer)) :
    answers.length = answers.countP (fun p => p.2.succeeded) +
      (answers.filterMap (storeHint? tenantID key value vectorClock)).length +
      answers.countP fun p => p.2.rejected := by
  induction answers with
  | nil => rfl
  | cons p answers ih =>
    obtain ⟨node, answer⟩ := p
    cases answer with
    | transportError err =>
      simp only [List.length_cons, List.countP_cons, List.filterMap_cons, storeHint?_transportError,
        WriteAnswer.succeeded_transportError, WriteAnswer.rejected_transportError]
      simp only [Bool.false_eq_true, if_false]
      omega
    | response success updated =>
      simp only [List.length_cons, List.countP_cons, List.filterMap_cons, storeHint?_response,
        WriteAnswer.succeeded_response, WriteAnswer.rejected_response]
      cases success <;> simp <;> omega

/-- **When every replica that missed a write gets a hint.** For every store, every replica set and
all outcomes: after the write there is a hint for each replica that did not report success, and the
number of hints is the number of these replicas, exactly if no replica answered without success. -/
theorem hints_complete_iff (s : HintedHandoffService) (clock : Nat → Int)
    (replicas : List StorageNode) (tenantID key : String) (value : List UInt8)
    (vectorClock : VectorClock) (consistency : String) (arrivals : Arrivals WriteAnswer replicas) :
    let written := writeToReplicasWithHints replicas tenantID key value vectorClock consistency
      arrivals
    ((∀ p ∈ arrivals.answers, p.2.succeeded = false →
        ∃ hint ∈ (s.storeAll clock 0 written.hints).hintsFor p.1.nodeID,
          hint.args = ⟨p.1.nodeID, tenantID, key, value, vectorClock⟩) ∧
      written.hints.length = replicas.length - written.result.replicaCount) ↔
    ∀ p ∈ arrivals.answers, p.2.rejected = false := by
  intro written
  have hlen : replicas.length = arrivals.answers.length := by
    rw [← arrivals.perm.length_eq, List.length_map]
  have hsplit := length_answers_eq tenantID key value vectorClock arrivals.answers
  have hhints := hints_writeToReplicasWithHints replicas tenantID key value vectorClock
    consistency arrivals
  have hcount := replicaCount_writeToReplicasWithHints replicas tenantID key value vectorClock
    consistency arrivals
  have hrejected : arrivals.answers.countP (fun p => p.2.rejected) = 0 ↔
      ∀ p ∈ arrivals.answers, p.2.rejected = false := by
    simp [List.countP_eq_zero]
  rw [← hrejected]
  constructor
  · rintro ⟨-, hnumber⟩
    rw [hcount, hhints, hlen] at hnumber
    omega
  · intro hzero
    refine ⟨fun p hp hfail => ?_, by rw [hcount, hhints, hlen]; omega⟩
    have hmem : (⟨p.1.nodeID, tenantID, key, value, vectorClock⟩ : HintArgs) ∈ written.hints := by
      rw [hhints, List.mem_filterMap]
      exact ⟨p, hp, storeHint?_eq_some_iff.mpr ⟨hfail, hrejected.mp hzero p hp, rfl⟩⟩
    refine HintedHandoffService.exists_hint_storeAll clock
      ⟨p.1.nodeID, tenantID, key, value, vectorClock⟩ ?_ (Or.inl hmem)
    -- all hints of one write say the same but for the node
    intro other hother hnode
    rw [hhints, List.mem_filterMap] at hother
    obtain ⟨q, -, hq⟩ := hother
    obtain ⟨-, -, rfl⟩ := storeHint?_eq_some_iff.mp hq
    simpa using hnode

namespace Sample

/-- A replica. -/
def replica : StorageNode :=
  { nodeID := "n", host := "n", port := 50052, status := .active, state := .normal,
    virtualNodes := 1 }

/-- The disk of the replica is full: it answers, without success. -/
def diskFullAnswer : Arrivals WriteAnswer [replica] where
  answers := [(replica, .response false VectorClock.empty)]
  perm := by decide

end Sample

open Sample in
theorem rejected_write_without_hint :
    let written := writeToReplicasWithHints [replica] "t" "k" [1] VectorClock.empty "one"
      diskFullAnswer
    written.result.replicaCount = 0 ∧ written.hints = [] ∧
      ((HintedHandoffService.new 0 0).storeAll (fun _ => 0) 0 written.hints).hintsFor "n" = [] := by
  decide +kernel

/-! ## Hints leave the store for a reason -/

namespace Handoff

variable {h h' : Handoff}

/-- The hint was written to its node, was too old, or has failed ten times. -/
def Justified (h : Handoff) (hint : Hint) : Prop :=
  hint ∈ h.applied ∨ hint ∈ h.expired ∨ 10 ≤ h.failures hint.ref

/-- Every hint that was stored is in the store, or there is a reason `R` for its absence, or it was
the oldest of a full list, or its node was cleared. -/
def AccountedBy (R : Handoff → Hint → Prop) (h : Handoff) : Prop :=
  ∀ hint ∈ h.stored, hint ∈ h.service.hintsFor hint.nodeID ∨ R h hint ∨
    hint ∈ h.dropped ∨ hint ∈ h.cleared

/-- Every hint that was stored is in the store, or it left it for a reason. -/
def Accounted (h : Handoff) : Prop := h.AccountedBy Justified

/-- The history goes on. -/
structure Grows (h h' : Handoff) : Prop where
  applied : ∀ hint ∈ h.applied, hint ∈ h'.applied
  expired : ∀ hint ∈ h.expired, hint ∈ h'.expired
  failures : ∀ ref, h.failures ref ≤ h'.failures ref

theorem Grows.refl (h : Handoff) : Grows h h := ⟨fun _ => id, fun _ => id, fun _ => le_refl _⟩

/-- `R` can be a reason: it is one to have been written or to be too old, and reasons stay. -/
structure IsReason (R : Handoff → Hint → Prop) : Prop where
  grow : ∀ {h h' : Handoff} {hint : Hint}, Grows h h' → R h hint → R h' hint
  applied : ∀ {h : Handoff} {hint : Hint}, hint ∈ h.applied → R h hint
  expired : ∀ {h : Handoff} {hint : Hint}, hint ∈ h.expired → R h hint

theorem isReason_justified : IsReason Justified where
  grow hg hj := hj.imp (hg.applied _) (Or.imp (hg.expired _) fun hf => hf.trans (hg.failures _))
  applied := Or.inl
  expired hmem := Or.inr (Or.inl hmem)

/-- What a turn should find: the node does not answer without success, and no other hint has the key
and the time stamp of the one that is removed. -/
def Careful (h : Handoff) (env : HandoffEnv) : HandoffPhase → Prop
  | .replay _ _ _ => env.answer.rejected = false
  | .removeHint nodeID hint _ => ∀ other ∈ h.service.hintsFor nodeID,
      HintedHandoffService.sameHint other hint = true → other = hint
  | _ => True

/-- The call has still to write the counter of the hint, after a failure. -/
def owesIncrement (ref : Nat) : HandoffPhase → Bool
  | .failed _ hint _ => hint.ref = ref
  | .increment _ hint _ _ => hint.ref = ref
  | _ => false

/-- The invariant. Increments of a counter can get lost, but none is made without a failure: the
counter and the increments that are still to come are not more than the failures. -/
structure Invariant (R : Handoff → Hint → Prop) (h : Handoff) (phases : List HandoffPhase) :
    Prop where
  accounted : h.AccountedBy R
  removing : ∀ nodeID hint rest, .removeHint nodeID hint rest ∈ phases → R h hint
  counted : ∀ ref, h.service.retries ref + phases.countP (owesIncrement ref) ≤ h.failures ref
  reading : ∀ nodeID hint rest read, .increment nodeID hint rest read ∈ phases →
    read + phases.countP (owesIncrement hint.ref) ≤ h.failures hint.ref

variable {R : Handoff → Hint → Prop}

theorem Invariant.perm {phases phases' : List HandoffPhase} (hI : Invariant R h phases)
    (hp : phases.Perm phases') : Invariant R h phases' where
  accounted := hI.accounted
  removing nodeID hint rest hmem := hI.removing nodeID hint rest (hp.mem_iff.mpr hmem)
  counted ref := by
    rw [← hp.countP_eq]
    exact hI.counted ref
  reading nodeID hint rest read hmem := by
    rw [← hp.countP_eq]
    exact hI.reading nodeID hint rest read (hp.mem_iff.mpr hmem)

/-- A turn that leaves the lists as they are. -/
theorem AccountedBy.grow (hR : IsReason R) (hacc : h.AccountedBy R) (hg : Grows h h')
    (hhints : ∀ nodeID, h'.service.hintsFor nodeID = h.service.hintsFor nodeID)
    (hstored : h'.stored = h.stored) (hdropped : h'.dropped = h.dropped)
    (hcleared : h'.cleared = h.cleared) : h'.AccountedBy R := by
  intro hint hmem
  rw [hhints, hdropped, hcleared]
  rw [hstored] at hmem
  exact (hacc hint hmem).imp id (Or.imp (hR.grow hg) id)

/-- What is to be shown for a turn. -/
theorem Invariant.move {phase : HandoffPhase} {rest : List HandoffPhase}
    {next : Option HandoffPhase} (hR : IsReason R) (hI : Invariant R h (phase :: rest))
    (hg : Grows h h') (hacc : h'.AccountedBy R)
    (hremove : ∀ nodeID hint r, next = some (.removeHint nodeID hint r) → R h' hint)
    (howes : ∀ ref, next.toList.countP (owesIncrement ref) + h.failures ref ≤
      [phase].countP (owesIncrement ref) + h'.failures ref)
    (hcounted : ∀ ref, h'.service.retries ref +
      (next.toList.countP (owesIncrement ref) + rest.countP (owesIncrement ref)) ≤
        h'.failures ref)
    (hread : ∀ nodeID hint r read, next = some (.increment nodeID hint r read) →
      read ≤ h'.service.retries hint.ref) : Invariant R h' (next.toList ++ rest) where
  accounted := hacc
  removing nodeID hint r hmem := by
    rcases List.mem_append.mp hmem with hmem | hmem
    · exact hremove nodeID hint r (Option.mem_toList.mp hmem)
    · exact hR.grow hg (hI.removing nodeID hint r (List.mem_cons_of_mem _ hmem))
  counted ref := by
    rw [List.countP_append]
    exact hcounted ref
  reading nodeID hint r read hmem := by
    rw [List.countP_append]
    have hnew := hcounted hint.ref
    rcases List.mem_append.mp hmem with hmem | hmem
    · have hle := hread nodeID hint r read (Option.mem_toList.mp hmem)
      omega
    · have hold := hI.reading nodeID hint r read (List.mem_cons_of_mem _ hmem)
      have hthis := howes hint.ref
      rw [← List.singleton_append, List.countP_append] at hold
      omega

/-- A turn after which the call owes no increment, and that leaves the counters as they are. -/
theorem Invariant.settle {phase : HandoffPhase} {rest : List HandoffPhase}
    {next : Option HandoffPhase} (hR : IsReason R) (hI : Invariant R h (phase :: rest))
    (hg : Grows h h') (hretries : h'.service.retries = h.service.retries)
    (hacc : h'.AccountedBy R)
    (hnext : ∀ p ∈ next, (∀ ref, owesIncrement ref p = false) ∧
      ∀ nodeID hint r, p = .removeHint nodeID hint r → R h' hint) :
    Invariant R h' (next.toList ++ rest) := by
  have hzero : ∀ ref, next.toList.countP (owesIncrement ref) = 0 := fun ref => by
    rw [List.countP_eq_zero]
    intro p hp
    simp [(hnext p (Option.mem_toList.mp hp)).1 ref]
  refine hI.move hR hg hacc (fun nodeID hint r hn => (hnext _ hn).2 nodeID hint r rfl)
    (fun ref => ?_) (fun ref => ?_) (fun nodeID hint r read hn => ?_)
  · have := hg.failures ref
    rw [hzero]
    omega
  · have hold := hI.counted ref
    have := hg.failures ref
    rw [← List.singleton_append, List.countP_append] at hold
    rw [hretries, hzero]
    omega
  · have := (hnext _ hn).1 hint.ref
    simp [owesIncrement] at this

theorem accountedBy_storeHint (hR : IsReason R) (hacc : h.AccountedBy R) (now : Int)
    (args : HintArgs) :
    AccountedBy R { h with
      service := h.service.storeHint now args
      stored := h.stored ++ [h.service.newHint now args]
      dropped := h.dropped ++ if h.service.isFull args.nodeID then
        (h.service.hintsFor args.nodeID).head?.toList else [] } := by
  intro hint hmem
  simp only [HintedHandoffService.hintsFor_storeHint]
  rcases List.mem_append.mp hmem with hmem | hmem
  · rcases hacc hint hmem with hin | hjust | hdropped | hcleared
    · by_cases hnode : args.nodeID = hint.nodeID
      · rw [if_pos hnode, hnode]
        cases hfull : h.service.isFull hint.nodeID with
        | false => exact Or.inl (List.mem_append_left _ hin)
        | true =>
          -- the oldest hint of the list goes
          cases hlist : h.service.hintsFor hint.nodeID with
          | nil =>
            rw [hlist] at hin
            cases hin
          | cons first others =>
            rw [hlist] at hin
            rcases List.mem_cons.mp hin with rfl | hin
            · exact Or.inr (Or.inr (Or.inl (List.mem_append_right _ (by simp))))
            · exact Or.inl (List.mem_append_left _ hin)
      · rw [if_neg hnode]
        exact Or.inl hin
    · refine Or.inr (Or.inl (hR.grow (h := h) ?_ hjust))
      exact ⟨fun _ => id, fun _ => id, fun _ => le_refl _⟩
    · exact Or.inr (Or.inr (Or.inl (List.mem_append_left _ hdropped)))
    · exact Or.inr (Or.inr (Or.inr hcleared))
  · rw [List.mem_singleton.mp hmem]
    refine Or.inl ?_
    rw [if_pos (show args.nodeID = (h.service.newHint now args).nodeID from rfl)]
    exact List.mem_append_right _ List.mem_cons_self

theorem accountedBy_clear (hR : IsReason R) (hacc : h.AccountedBy R) (nodeID : String) :
    AccountedBy R { h with
      service := h.service.clearHintsForNode nodeID
      cleared := h.cleared ++ h.service.hintsFor nodeID } := by
  intro hint hmem
  simp only [HintedHandoffService.hintsFor_clearHintsForNode]
  rcases hacc hint hmem with hin | hjust | hdropped | hcleared
  · by_cases hnode : nodeID = hint.nodeID
    · exact Or.inr (Or.inr (Or.inr (List.mem_append_right _ (hnode ▸ hin))))
    · rw [if_neg hnode]
      exact Or.inl hin
  · refine Or.inr (Or.inl (hR.grow (h := h) ?_ hjust))
    exact ⟨fun _ => id, fun _ => id, fun _ => le_refl _⟩
  · exact Or.inr (Or.inr (Or.inl hdropped))
  · exact Or.inr (Or.inr (Or.inr (List.mem_append_left _ hcleared)))

theorem accountedBy_removeHint (hR : IsReason R) (hacc : h.AccountedBy R) {nodeID : String}
    {hint : Hint} {service : HintedHandoffService} (hreason : R h hint)
    (hsame : ∀ other ∈ h.service.hintsFor nodeID,
      HintedHandoffService.sameHint other hint = true → other = hint)
    (hremove : h.service.removeHint nodeID hint = some service) :
    AccountedBy R { h with service } := by
  have hg : Grows h { h with service } := ⟨fun _ => id, fun _ => id, fun _ => le_refl _⟩
  intro other hmem
  rw [(HintedHandoffService.removeHint_eq_some hremove).2]
  rcases hacc other hmem with hin | hgone
  · by_cases hnode : nodeID = other.nodeID
    · rw [if_pos hnode]
      by_cases heq : HintedHandoffService.sameHint other hint = true
      · rw [hsame other (hnode ▸ hin) heq]
        exact Or.inr (Or.inl (hR.grow hg hreason))
      · exact Or.inl (List.mem_filter.mpr ⟨hin, by simp [heq]⟩)
    · rw [if_neg hnode]
      exact Or.inl hin
  · exact Or.inr (hgone.imp_left (hR.grow hg))

/-- **A turn keeps the invariant**, if there is a reason to give up a hint that has reached the limit
of its retries. -/
theorem invariant_turn {env : HandoffEnv} {phase : HandoffPhase} {rest : List HandoffPhase}
    {next : Option HandoffPhase} (hR : IsReason R) (hI : Invariant R h (phase :: rest))
    (hc : h.Careful env phase)
    (hgiveUp : ∀ nodeID hint others, phase = .check nodeID hint others →
      10 ≤ h.service.retries hint.ref → R h hint)
    (ht : h.turn env phase = some (h', next)) : Invariant R h' (next.toList ++ rest) := by
  cases phase with
  | storeHint args =>
    cases ht
    exact hI.settle hR ⟨fun _ => id, fun _ => id, fun _ => le_refl _⟩ rfl
      (accountedBy_storeHint hR hI.accounted _ _) (by simp)
  | clearHintsForNode nodeID =>
    cases ht
    exact hI.settle hR ⟨fun _ => id, fun _ => id, fun _ => le_refl _⟩ rfl
      (accountedBy_clear hR hI.accounted _) (by simp)
  | snapshot nodeID =>
    cases ht
    exact hI.settle hR (Grows.refl h) rfl hI.accounted (by simp [owesIncrement])
  | next nodeID hints =>
    cases hints with
    | nil =>
      cases ht
      exact hI.settle hR (Grows.refl h) rfl hI.accounted (by simp)
    | cons hint others =>
      rw [turn] at ht
      split at ht
      · cases ht
        have hg : Grows h { h with expired := h.expired ++ [hint] } :=
          ⟨fun _ => id, fun _ => List.mem_append_left _, fun _ => le_refl _⟩
        refine hI.settle hR hg rfl (hI.accounted.grow hR hg (fun _ => rfl) rfl rfl rfl) ?_
        rintro _ ⟨⟩
        refine ⟨fun _ => rfl, ?_⟩
        rintro _ _ _ ⟨⟩
        exact hR.expired (List.mem_append_right _ List.mem_cons_self)
      · cases ht
        exact hI.settle hR (Grows.refl h) rfl hI.accounted (by simp [owesIncrement])
  | replay nodeID hint others =>
    have hanswer : env.answer.rejected = false := hc
    rw [turn] at ht
    cases hans : env.answer with
    | transportError err =>
      rw [hans] at ht
      cases ht
      -- the failure is counted, and the increment is owed
      have hg : Grows h { h with
          failures := Function.update h.failures hint.ref (h.failures hint.ref + 1) } := by
        refine ⟨fun _ => id, fun _ => id, fun ref => ?_⟩
        show h.failures ref ≤ Function.update h.failures _ _ ref
        rw [Function.update_apply]
        split
        · next heq =>
          rw [heq]
          omega
        · exact le_refl _
      have howes : ∀ ref, [HandoffPhase.failed nodeID hint others].countP (owesIncrement ref) +
          h.failures ref ≤
          Function.update h.failures hint.ref (h.failures hint.ref + 1) ref := fun ref => by
        rw [Function.update_apply]
        by_cases heq : ref = hint.ref
        · rw [if_pos heq, heq]
          simp [owesIncrement, Nat.add_comm]
        · rw [if_neg heq]
          simp [owesIncrement, Ne.symm heq]
      refine hI.move hR hg (hI.accounted.grow hR hg (fun _ => rfl) rfl rfl rfl) (by simp)
        (fun ref => (howes ref).trans (Nat.le_add_left _ _)) (fun ref => ?_) (by simp)
      have hold := hI.counted ref
      have hnew := howes ref
      rw [← List.singleton_append, List.countP_append] at hold
      show h.service.retries ref + _ ≤ Function.update h.failures _ _ ref
      rw [Option.toList_some]
      omega
    | response success updated =>
      rw [hans] at ht hanswer
      have hsuccess : success = true := by simpa using hanswer
      cases ht
      have hg : Grows h { h with applied := h.applied ++
          if (WriteAnswer.response success updated).succeeded then [hint] else [] } :=
        ⟨fun _ => List.mem_append_left _, fun _ => id, fun _ => le_refl _⟩
      refine hI.settle hR hg rfl (hI.accounted.grow hR hg (fun _ => rfl) rfl rfl rfl) ?_
      rintro _ ⟨⟩
      refine ⟨fun _ => rfl, ?_⟩
      rintro _ _ _ ⟨⟩
      exact hR.applied (List.mem_append_right _ (by simp [hsuccess]))
  | failed nodeID hint others =>
    cases ht
    have howes : ∀ ref, [HandoffPhase.increment nodeID hint others
        (h.service.retries hint.ref)].countP (owesIncrement ref) + h.failures ref ≤
        [HandoffPhase.failed nodeID hint others].countP (owesIncrement ref) + h.failures ref :=
      fun ref => by simp [owesIncrement]
    refine hI.move hR (Grows.refl h) hI.accounted (by simp) howes (fun ref => ?_) ?_
    · have hold := hI.counted ref
      have hthis := howes ref
      rw [← List.singleton_append, List.countP_append] at hold
      rw [Option.toList_some]
      omega
    · rintro _ _ _ _ ⟨⟩
      exact le_refl _
  | increment nodeID hint others read =>
    cases ht
    have hown := hI.reading nodeID hint others read List.mem_cons_self
    refine hI.move hR ⟨fun _ => id, fun _ => id, fun _ => le_refl _⟩
      (hI.accounted.grow hR ⟨fun _ => id, fun _ => id, fun _ => le_refl _⟩ (fun _ => rfl) rfl rfl
        rfl)
      (by simp) (fun ref => by simp [owesIncrement]) (fun ref => ?_) (by simp)
    have hold := hI.counted ref
    rw [List.countP_cons] at hold hown
    show Function.update h.service.retries hint.ref (read + 1) ref + _ ≤ h.failures ref
    rw [Function.update_apply]
    by_cases heq : ref = hint.ref
    · rw [if_pos heq, heq]
      simp [owesIncrement] at hown ⊢
      omega
    · rw [if_neg heq]
      simp [owesIncrement] at hold ⊢
      omega
  | check nodeID hint others =>
    cases ht
    refine hI.settle hR (Grows.refl h) rfl hI.accounted ?_
    rintro _ ⟨⟩
    split
    · next hlimit =>
      refine ⟨fun _ => rfl, ?_⟩
      rintro _ _ _ ⟨⟩
      exact hgiveUp nodeID hint others rfl hlimit
    · exact ⟨fun _ => rfl, fun _ _ _ heq => by cases heq⟩
  | removeHint nodeID hint others =>
    obtain ⟨service, hremove, hpair⟩ := Option.map_eq_some_iff.mp ht
    cases hpair
    refine hI.settle hR ⟨fun _ => id, fun _ => id, fun _ => le_refl _⟩
      (HintedHandoffService.removeHint_eq_some hremove).1
      (accountedBy_removeHint hR hI.accounted (hI.removing nodeID hint others List.mem_cons_self) hc
        hremove) (by simp [owesIncrement])

/-- A call that begins owes nothing and removes nothing. -/
theorem Invariant.begin {phases : List HandoffPhase} (hI : Invariant R h phases)
    (env : HandoffEnv) (request : HandoffRequest) :
    Invariant R h (phases ++ (enter env request).toList) := by
  have hcalm : ∀ p ∈ (enter env request).toList, (∀ ref, owesIncrement ref p = false) ∧
      ∀ nodeID hint r, p ≠ .removeHint nodeID hint r := by
    cases request <;> simp [enter, owesIncrement]
  have hzero : ∀ ref, (enter env request).toList.countP (owesIncrement ref) = 0 := fun ref => by
    rw [List.countP_eq_zero]
    intro p hp
    simp [(hcalm p hp).1 ref]
  refine ⟨hI.accounted, fun nodeID hint r hmem => ?_, fun ref => ?_,
    fun nodeID hint r read hmem => ?_⟩
  · rcases List.mem_append.mp hmem with hmem | hmem
    · exact hI.removing nodeID hint r hmem
    · exact absurd rfl ((hcalm _ hmem).2 nodeID hint r)
  · rw [List.countP_append, hzero]
    exact hI.counted ref
  · rw [List.countP_append, hzero]
    rcases List.mem_append.mp hmem with hmem | hmem
    · exact hI.reading nodeID hint r read hmem
    · have := (hcalm _ hmem).1 hint.ref
      simp [owesIncrement] at this

/-- The condition on a step: the turn of a call is careful. -/
def CarefulTurn (s : System) : Turn → Prop
  | .start _ _ _ => True
  | .advance id env => ∀ phase ∈ s.phase? id, s.state.Careful env phase

theorem invariant_step {s s' : System} {t : Turn} (hI : Invariant Justified s.state s.phases)
    (hc : CarefulTurn s t) (hstep : step s t = some s') :
    Invariant Justified s'.state s'.phases := by
  cases t with
  | start id env request =>
    obtain ⟨hstate, hphases⟩ := Concurrent.step_start hstep
    rw [hstate, hphases]
    exact hI.begin env request
  | advance id env =>
    obtain ⟨phase, next, hphase, hturn, hbefore, hafter⟩ := Concurrent.step_advance hstep
    rw [hafter]
    rw [hbefore] at hI
    have hgiveUp : ∀ nodeID hint others, phase = .check nodeID hint others →
        10 ≤ s.state.service.retries hint.ref → s.state.Justified hint := by
      intro nodeID hint others _ hlimit
      have hcounted := hI.counted hint.ref
      exact Or.inr (Or.inr (by omega))
    have hnext := invariant_turn isReason_justified (hI.perm List.perm_middle) (hc phase hphase)
      hgiveUp hturn
    exact hnext.perm List.perm_append_comm

theorem invariant_init (maxHints hintTTL : Int) : Invariant R (init maxHints hintTTL) [] :=
  ⟨fun _ hmem => (by cases hmem), fun _ _ _ hmem => (by cases hmem), fun _ => le_refl _,
    fun _ _ _ _ hmem => (by cases hmem)⟩

instance (h : Handoff) (hint : Hint) : Decidable (h.Justified hint) :=
  inferInstanceAs (Decidable (_ ∨ _ ∨ _))

instance (h : Handoff) : Decidable h.Accounted := inferInstanceAs (Decidable (∀ _ ∈ _, _))

instance (h : Handoff) (env : HandoffEnv) (phase : HandoffPhase) :
    Decidable (h.Careful env phase) :=
  match phase with
  | .replay _ _ _ => inferInstanceAs (Decidable (_ = _))
  | .removeHint _ _ _ => inferInstanceAs (Decidable (∀ _ ∈ _, _))
  | .storeHint _ | .clearHintsForNode _ | .snapshot _ | .next _ _ | .failed _ _ _
  | .increment _ _ _ _ | .check _ _ _ => inferInstanceAs (Decidable True)

instance (s : System) (t : Turn) : Decidable (CarefulTurn s t) :=
  match t with
  | .start _ _ _ => inferInstanceAs (Decidable True)
  | .advance _ _ => inferInstanceAs (Decidable (∀ _ ∈ _, _))

end Handoff

namespace Sample

open Handoff

/-- A hint for node `n`. -/
def hintFrom (tenantID : String) : HintArgs := ⟨"n", tenantID, "k", [1], VectorClock.empty⟩

/-- The node is not asked. -/
def atTime (now : Int) : HandoffEnv := ⟨now, .transportError ""⟩

/-- What the node answers to a replay. -/
def answered (now : Int) (success : Bool) : HandoffEnv := ⟨now, .response success VectorClock.empty⟩

/-- A call with one turn. -/
def callAt (id : Nat) (now : Int) (request : HandoffRequest) : List Turn :=
  [.start id (atTime now) request, .advance id (atTime now)]

/-- The first round of a replay: copy the list, look at the age, send, remove. -/
def replayOne (id : Nat) (now : Int) (answer : HandoffEnv) : List Turn :=
  [.start id (atTime now) (.replayHintsForNode "n"), .advance id (atTime now),
    .advance id (atTime now), .advance id answer, .advance id (atTime now)]

/-- Two hints at different times, the first of which is replayed. -/
def replayed : List Turn :=
  callAt 0 1 (.storeHint (hintFrom "t")) ++ callAt 1 2 (.storeHint (hintFrom "u")) ++
    replayOne 2 3 (answered 3 true)

/-- The node answers the replay of a hint without success. -/
def rejectedReplay : List Turn :=
  callAt 0 1 (.storeHint (hintFrom "t")) ++ replayOne 1 2 (answered 2 false)

/-- Two hints of different tenants at the same time, the first of which is replayed. -/
def sameTime : List Turn :=
  callAt 0 1 (.storeHint (hintFrom "t")) ++ callAt 1 1 (.storeHint (hintFrom "u")) ++
    replayOne 2 2 (answered 2 true)

end Sample

end PairDB.Coordinator
