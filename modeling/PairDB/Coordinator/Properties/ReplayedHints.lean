import PairDB.Infra.Run
import PairDB.Coordinator.HintReplay
import PairDB.Coordinator.VectorClockOps

/-!
# The replay of the hints of the table

`ReplayHintsForNode` should end, should leave the node with the newest write, and should deliver the
clocks that were recorded.

* A hint that fails stays in the table, and nothing counts its failures. The replay ends, with at
  most `maxRetries + 1` attempts for each hint, exactly if the node takes every hint in time
  (`finishes_iff`).
* A hint that failed is sent again after newer ones. The newest write of a key comes last exactly if
  no hint is taken as the newest of its key while an older one is still in the table
  (`newestLast_iff`).
* The clock that is sent is made from the time of the hint (`keepsPosition_iff`).
-/

namespace PairDB.Coordinator

open Infra VectorClockOps

namespace HintReplayService

/-! ## An attempt, a batch, a replay -/

/-- The hint leaves the table after the attempt. -/
def Attempt.removes (attempt : Attempt) (hint : StoredHint) : Bool :=
  attempt.answer.succeeded || decide (hint.replayCount ≥ maxRetries)

theorem replayHint_eq_ok_iff (answer : WriteAnswer) :
    replayHint answer = .ok () ↔ answer.succeeded = true := by
  cases answer with
  | transportError err => simp [replayHint]
  | response success updated => cases success <;> simp [replayHint]

theorem hints_delete (r : Replay) {attempt : Attempt} (hdelete : attempt.deleteFails = false)
    (hintID : String) : (r.delete attempt hintID).store.hints =
      r.store.hints.filter fun hint => hint.hintID ≠ hintID := by
  rw [Replay.delete, if_neg (by simp [hdelete])]
  unfold HintStore.deleteHint
  split
  · rfl
  · next hnone =>
    -- no row has the id
    refine (List.filter_eq_self.mpr fun hint hmem => ?_).symm
    rw [decide_eq_true_eq]
    intro heq
    exact hnone (List.any_eq_true.mpr ⟨hint, hmem, decide_eq_true heq⟩)

theorem attempt_spec (r : Replay) {attempt : Attempt} (hdelete : attempt.deleteFails = false)
    (hint : StoredHint) :
    (r.attempt attempt hint).store.hints = (if attempt.removes hint then
        r.store.hints.filter fun other => other.hintID ≠ hint.hintID else r.store.hints) ∧
      (r.attempt attempt hint).written =
        r.written ++ if attempt.answer.succeeded then [hint] else [] := by
  have hwritten : ∀ (r : Replay) id, (r.delete attempt id).written = r.written := by
    intro r id
    unfold Replay.delete
    split <;> rfl
  unfold Replay.attempt
  cases hanswer : attempt.answer.succeeded with
  | true =>
    rw [(replayHint_eq_ok_iff _).mpr hanswer, Attempt.removes, hanswer]
    exact ⟨hints_delete _ hdelete _, hwritten _ _⟩
  | false =>
    cases hreplay : replayHint attempt.answer with
    | ok u =>
      rw [(replayHint_eq_ok_iff _).mp hreplay] at hanswer
      cases hanswer
    | error err =>
      simp only [Attempt.removes, hanswer, Bool.false_or, decide_eq_true_eq]
      split
      · exact ⟨hints_delete r hdelete _, by rw [hwritten]; simp⟩
      · exact ⟨rfl, by simp⟩

/-- The attempts of a batch. -/
def batchActions (attempts : Nat → Attempt) : Nat → List StoredHint → List (Attempt × StoredHint)
  | _, [] => []
  | i, hint :: hints => (attempts i, hint) :: batchActions attempts (i + 1) hints

/-- The attempts of a replay. -/
def actions (nodeID : String) : List Round → Replay → List (Attempt × StoredHint)
  | [], _ => []
  | round :: rounds, r =>
    let batch := r.store.getHintsForNode nodeID batchSize
    batchActions round.attempts 0 batch ++ actions nodeID rounds (r.batch round.attempts 0 batch)

/-- An attempt as a step. -/
def Replay.act (r : Replay) (action : Attempt × StoredHint) : Option Replay :=
  some (r.attempt action.1 action.2)

theorem run_batchActions (attempts : Nat → Attempt) (i : Nat) (r : Replay)
    (hints : List StoredHint) :
    run Replay.act r (batchActions attempts i hints) = some (r.batch attempts i hints) := by
  induction hints generalizing i r with
  | nil => rfl
  | cons hint hints ih => exact ih (i + 1) (r.attempt (attempts i) hint)

theorem mem_getHintsForNode {s : HintStore} {nodeID : String} {limit : Nat} {hint : StoredHint}
    (h : hint ∈ s.getHintsForNode nodeID limit) : hint ∈ s.hints ∧ hint.targetNodeID = nodeID := by
  have hmem := List.mem_of_mem_take h
  rw [List.mem_insertionSort] at hmem
  simpa using hmem

theorem getHintsForNode_eq_nil_iff {s : HintStore} {nodeID : String} :
    s.getHintsForNode nodeID batchSize = [] ↔ ∀ hint ∈ s.hints, hint.targetNodeID ≠ nodeID := by
  have hsize : batchSize ≠ 0 := by decide
  rw [HintStore.getHintsForNode, List.take_eq_nil_iff]
  simp only [hsize, false_or]
  rw [← List.length_eq_zero_iff, List.length_insertionSort, List.length_eq_zero_iff,
    List.filter_eq_nil_iff]
  simp

theorem getHintsForNode_eq_nil_of_count {s : HintStore} {nodeID : String}
    (h : s.getHintCount nodeID = 0) : s.getHintsForNode nodeID batchSize = [] := by
  refine getHintsForNode_eq_nil_iff.mpr fun hint hhint => ?_
  simpa using List.countP_eq_zero.mp h hint hhint

theorem nodup_getHintsForNode {s : HintStore} {nodeID : String} {limit : Nat}
    (hids : (s.hints.map StoredHint.hintID).Nodup) :
    ((s.getHintsForNode nodeID limit).map StoredHint.hintID).Nodup := by
  refine List.Nodup.sublist ((List.take_sublist _ _).map _) ?_
  rw [((List.perm_insertionSort _ _).map _).nodup_iff]
  exact hids.sublist (List.filter_sublist.map _)

theorem actions_of_empty {nodeID : String} {r : Replay}
    (h : r.store.getHintsForNode nodeID batchSize = []) (rounds : List Round) :
    actions nodeID rounds r = [] := by
  induction rounds with
  | nil => rfl
  | cons round rounds ih =>
    rw [actions, h]
    exact ih

/-- A replay that returns without an error has made its attempts, and nothing is left for the
node. -/
theorem run_actions {nodeID : String} {rounds : List Round} :
    ∀ {r r' : Replay}, Replay.loop nodeID rounds r = some (.ok (), r') →
      run Replay.act r (actions nodeID rounds r) = some r' ∧
        r'.store.getHintsForNode nodeID batchSize = [] := by
  induction rounds with
  | nil =>
    intro r r' h
    cases h
  | cons round rounds ih =>
    intro r r' h
    rw [Replay.loop] at h
    split at h
    · cases h
    · split at h
      · next hempty =>
        cases h
        rw [actions_of_empty hempty]
        exact ⟨rfl, hempty⟩
      · next hint hints hbatch =>
        rw [actions, run_append, run_batchActions, Option.bind_some, hbatch]
        exact ih h

theorem run_actions_of_returns {store : HintStore} {nodeID : String} {rounds : List Round}
    {r : Replay} (h : replayHintsForNode store nodeID none rounds = some (.ok (), r)) :
    run Replay.act ⟨store, []⟩ (actions nodeID rounds ⟨store, []⟩) = some r ∧
      r.store.getHintsForNode nodeID batchSize = [] := by
  unfold replayHintsForNode at h
  dsimp only at h
  split at h
  · next hcount =>
    cases h
    have hempty : store.getHintsForNode nodeID batchSize = [] :=
      getHintsForNode_eq_nil_of_count hcount
    rw [actions_of_empty hempty]
    exact ⟨rfl, hempty⟩
  · exact run_actions h

/-! ## The end of the replay -/

/-- A replay under way, with the number of attempts at each hint. -/
structure Sending where
  replay : Replay
  sent : String → Nat

namespace Sending

def start (store : HintStore) : Sending := ⟨⟨store, []⟩, fun _ => 0⟩

/-- The next batch. -/
def batch (nodeID : String) (s : Sending) : List StoredHint :=
  s.replay.store.getHintsForNode nodeID batchSize

/-- What the node answers, and a table that can be read and written. -/
def attemptAt (answers : String → Nat → WriteAnswer) (s : Sending) (hint : StoredHint) : Attempt :=
  ⟨answers hint.hintID (s.sent hint.hintID), false⟩

/-- The round of the next batch; `answers` has the answers to the attempts at each hint. -/
def round (answers : String → Nat → WriteAnswer) (nodeID : String) (s : Sending) : Round where
  getError := none
  attempts i := (s.batch nodeID)[i]?.elim ⟨.response true VectorClock.empty, false⟩
    (s.attemptAt answers)

/-- After the next batch. -/
def advance (answers : String → Nat → WriteAnswer) (nodeID : String) (s : Sending) : Sending where
  replay := s.replay.batch (s.round answers nodeID).attempts 0 (s.batch nodeID)
  sent hintID := s.sent hintID + (s.batch nodeID).countP fun hint => hint.hintID = hintID

/-- The first `n` rounds. -/
def rounds (answers : String → Nat → WriteAnswer) (nodeID : String) : Nat → Sending → List Round
  | 0, _ => []
  | n + 1, s => s.round answers nodeID :: rounds answers nodeID n (s.advance answers nodeID)

end Sending

/-- `ReplayHintsForNode` returns after finitely many batches, and no hint was sent more than
`maxRetries + 1` times. -/
def Finishes (answers : String → Nat → WriteAnswer) (store : HintStore) (nodeID : String) : Prop :=
  ∃ n r, replayHintsForNode store nodeID none
      (Sending.rounds answers nodeID n (Sending.start store)) = some (.ok (), r) ∧
    ∀ hintID, (((Sending.advance answers nodeID)^[n] (Sending.start store)).sent hintID : Int) ≤
      maxRetries + 1

section Finishes

variable {answers : String → Nat → WriteAnswer} {nodeID : String} {store : HintStore} {s : Sending}

/-- A batch in which the attempts do not depend on the place. -/
theorem batch_eq_foldl {f : StoredHint → Attempt} {attempts : Nat → Attempt}
    {hints : List StoredHint} {i : Nat} (r : Replay)
    (h : ∀ j hint, hints[j]? = some hint → attempts (i + j) = f hint) :
    r.batch attempts i hints = hints.foldl (fun r hint => r.attempt (f hint) hint) r := by
  induction hints generalizing i r with
  | nil => rfl
  | cons hint hints ih =>
    rw [Replay.batch, List.foldl_cons, show attempts i = f hint from h 0 hint rfl]
    refine ih _ fun j other hother => ?_
    rw [Nat.add_assoc, Nat.add_comm 1 j]
    exact h (j + 1) other hother

theorem hints_foldl_attempt {f : StoredHint → Attempt} (hf : ∀ hint, (f hint).deleteFails = false)
    (hints : List StoredHint) (r : Replay) :
    (hints.foldl (fun r hint => r.attempt (f hint) hint) r).store.hints =
      r.store.hints.filter fun hint => ∀ b ∈ hints, b.hintID = hint.hintID →
        (f b).removes b = false := by
  induction hints generalizing r with
  | nil => simp
  | cons b hints ih =>
    rw [List.foldl_cons, ih, (attempt_spec r (hf b) b).1]
    cases hremoves : (f b).removes b with
    | false =>
      rw [if_neg (by simp)]
      refine List.filter_congr fun hint _ => ?_
      simp [hremoves]
    | true =>
      rw [if_pos rfl, List.filter_filter]
      refine List.filter_congr fun hint _ => ?_
      rw [← Bool.decide_and, decide_eq_decide]
      simp only [List.forall_mem_cons, hremoves, Bool.true_eq_false, imp_false]
      rw [and_comm, ne_comm]

theorem hints_advance : (s.advance answers nodeID).replay.store.hints =
    s.replay.store.hints.filter fun hint => ∀ b ∈ s.batch nodeID, b.hintID = hint.hintID →
      (s.attemptAt answers b).removes b = false := by
  have hattempts : ∀ j hint, (s.batch nodeID)[j]? = some hint →
      (s.round answers nodeID).attempts (0 + j) = s.attemptAt answers hint := by
    intro j hint hj
    rw [Nat.zero_add, Sending.round]
    simp only [hj, Option.elim_some]
  rw [Sending.advance, batch_eq_foldl _ hattempts, hints_foldl_attempt fun _ => rfl]

/-- The state of a replay. `failed`, `settled` and `earlier` say what the attempts so far have
come to. -/
structure Tracks (answers : String → Nat → WriteAnswer) (nodeID : String) (store : HintStore)
    (s : Sending) : Prop where
  sublist : s.replay.store.hints.Sublist store.hints
  failed : ∀ hint ∈ s.replay.store.hints, hint.targetNodeID = nodeID →
    (∀ k < s.sent hint.hintID, (answers hint.hintID k).succeeded = false) ∧
      (0 < s.sent hint.hintID → hint.replayCount < maxRetries)
  settled : ∀ hint ∈ store.hints, hint.targetNodeID = nodeID → hint ∈ s.replay.store.hints ∨
    hint.replayCount ≥ maxRetries ∨
      ∃ k < s.sent hint.hintID, (answers hint.hintID k).succeeded = true
  earlier : ∀ hint ∈ store.hints,
    (∀ k, k + 1 < s.sent hint.hintID → (answers hint.hintID k).succeeded = false) ∧
      (1 < s.sent hint.hintID → hint.replayCount < maxRetries)
  unsent : ∀ hintID, (∀ hint ∈ store.hints, hint.hintID = hintID → hint.targetNodeID ≠ nodeID) →
    s.sent hintID = 0

theorem tracks_start (answers : String → Nat → WriteAnswer) (nodeID : String) (store : HintStore) :
    Tracks answers nodeID store (Sending.start store) where
  sublist := List.Sublist.refl _
  failed hint _ _ := ⟨fun k hk => absurd hk (Nat.not_lt_zero k), fun h => absurd h (Nat.lt_irrefl 0)⟩
  settled hint hmem _ := Or.inl hmem
  earlier hint _ := ⟨fun k hk => absurd hk (Nat.not_lt_zero _), fun h => absurd h (by
    exact Nat.not_lt_zero _)⟩
  unsent _ _ := rfl

theorem eq_of_hintID_eq (hids : (store.hints.map StoredHint.hintID).Nodup) {a b : StoredHint}
    (ha : a ∈ store.hints) (hb : b ∈ store.hints) (h : a.hintID = b.hintID) : a = b :=
  List.inj_on_of_nodup_map hids ha hb h

/-- A batch has each hint once. -/
theorem sent_advance (hids : (store.hints.map StoredHint.hintID).Nodup)
    (hsub : s.replay.store.hints.Sublist store.hints) (hintID : String) :
    (s.advance answers nodeID).sent hintID = s.sent hintID +
      if ∃ hint ∈ s.batch nodeID, hint.hintID = hintID then 1 else 0 := by
  have hbatch : ((s.batch nodeID).map StoredHint.hintID).Nodup :=
    nodup_getHintsForNode (hids.sublist (hsub.map _))
  have hcount : (s.batch nodeID).countP (fun hint => hint.hintID = hintID) =
      ((s.batch nodeID).map StoredHint.hintID).count hintID := by
    rw [List.count, List.countP_map]
    rfl
  show s.sent hintID + (s.batch nodeID).countP (fun hint => hint.hintID = hintID) = _
  rw [hcount]
  split
  · next hmem =>
    rw [List.count_eq_one_of_mem hbatch (List.mem_map.mpr hmem)]
  · next hmem =>
    rw [List.count_eq_zero_of_not_mem fun h => hmem (List.mem_map.mp h)]

theorem tracks_advance (hids : (store.hints.map StoredHint.hintID).Nodup)
    (h : Tracks answers nodeID store s) : Tracks answers nodeID store (s.advance answers nodeID) := by
  have hmem : ∀ b ∈ s.batch nodeID, b ∈ s.replay.store.hints ∧ b.targetNodeID = nodeID :=
    fun b hb => mem_getHintsForNode hb
  -- what the batch means for a hint of the table
  have hsent : ∀ hint ∈ store.hints, (s.advance answers nodeID).sent hint.hintID =
      s.sent hint.hintID + if hint ∈ s.batch nodeID then 1 else 0 := by
    intro hint hhint
    rw [sent_advance hids h.sublist]
    congr 2
    rw [eq_iff_iff]
    constructor
    · rintro ⟨b, hb, heq⟩
      rwa [← eq_of_hintID_eq hids (h.sublist.subset (hmem b hb).1) hhint heq]
    · intro hb
      exact ⟨hint, hb, rfl⟩
  have hstays : ∀ hint ∈ s.replay.store.hints,
      (hint ∈ (s.advance answers nodeID).replay.store.hints ↔
        (hint ∈ s.batch nodeID → (s.attemptAt answers hint).removes hint = false)) := by
    intro hint hhint
    rw [hints_advance, List.mem_filter, decide_eq_true_eq]
    constructor
    · rintro ⟨-, hall⟩ hb
      exact hall hint hb rfl
    · refine fun hb => ⟨hhint, fun b hbatch heq => ?_⟩
      have hsame := eq_of_hintID_eq hids (h.sublist.subset (hmem b hbatch).1)
        (h.sublist.subset hhint) heq
      rw [hsame] at hbatch ⊢
      exact hb hbatch
  have hsub : (s.advance answers nodeID).replay.store.hints.Sublist s.replay.store.hints := by
    rw [hints_advance]
    exact List.filter_sublist
  refine ⟨hsub.trans h.sublist, fun hint hhint htarget => ?_, fun hint hhint htarget => ?_,
    fun hint hhint => ?_, fun hintID hnone => ?_⟩
  · have hold := hsub.subset hhint
    obtain ⟨hfailed, hretries⟩ := h.failed hint hold htarget
    rw [hsent hint (h.sublist.subset hold)]
    split
    · next hb =>
      have hremoves := (hstays hint hold).mp hhint hb
      rw [Attempt.removes, Bool.or_eq_false_iff, decide_eq_false_iff_not, not_le] at hremoves
      refine ⟨fun k hk => ?_, fun _ => hremoves.2⟩
      rcases Nat.lt_succ_iff_lt_or_eq.mp hk with hk | rfl
      · exact hfailed k hk
      · exact hremoves.1
    · exact ⟨hfailed, hretries⟩
  · rcases h.settled hint hhint htarget with hold | hretries | ⟨k, hk, hok⟩
    · by_cases hnew : hint ∈ (s.advance answers nodeID).replay.store.hints
      · exact Or.inl hnew
      · rw [hstays hint hold, Classical.not_imp, Bool.not_eq_false] at hnew
        obtain ⟨hb, hremoves⟩ := hnew
        rw [Attempt.removes, Bool.or_eq_true, decide_eq_true_eq] at hremoves
        rcases hremoves with hok | hretries
        · refine Or.inr (Or.inr ⟨s.sent hint.hintID, ?_, hok⟩)
          rw [hsent hint hhint, if_pos hb]
          exact Nat.lt_succ_self _
        · exact Or.inr (Or.inl hretries)
    · exact Or.inr (Or.inl hretries)
    · refine Or.inr (Or.inr ⟨k, ?_, hok⟩)
      rw [hsent hint hhint]
      exact Nat.lt_add_right _ hk
  · obtain ⟨hearlier, hretries⟩ := h.earlier hint hhint
    rw [hsent hint hhint]
    split
    · next hb =>
      obtain ⟨hfailed, hcount⟩ := h.failed hint (hmem hint hb).1 (hmem hint hb).2
      exact ⟨fun k hk => hfailed k (Nat.lt_of_succ_lt_succ hk),
        fun hlt => hcount (Nat.lt_of_succ_lt_succ hlt)⟩
    · exact ⟨hearlier, hretries⟩
  · rw [sent_advance hids h.sublist, h.unsent hintID hnone, if_neg]
    rintro ⟨b, hb, heq⟩
    exact hnone b (h.sublist.subset (hmem b hb).1) heq (hmem b hb).2

theorem tracks_iterate (hids : (store.hints.map StoredHint.hintID).Nodup) (n : Nat) :
    Tracks answers nodeID store
      ((Sending.advance answers nodeID)^[n] (Sending.start store)) := by
  induction n with
  | zero => exact tracks_start answers nodeID store
  | succ n ih =>
    rw [Function.iterate_succ_apply']
    exact tracks_advance hids ih

/-! ### The loop ends when a batch is empty -/

theorem loop_rounds_succ (answers : String → Nat → WriteAnswer) (nodeID : String) (n : Nat)
    (s : Sending) :
    Replay.loop nodeID (Sending.rounds answers nodeID (n + 1) s) s.replay =
      if s.batch nodeID = [] then some (.ok (), s.replay)
      else Replay.loop nodeID (Sending.rounds answers nodeID n (s.advance answers nodeID))
        (s.advance answers nodeID).replay := by
  have hbatch : s.batch nodeID = s.replay.store.getHintsForNode nodeID batchSize := rfl
  rw [Sending.rounds, Replay.loop, show (s.round answers nodeID).getError = none from rfl]
  dsimp only
  split
  · next hempty => rw [if_pos (hbatch.trans hempty)]
  · next hint hints hcons =>
    rw [if_neg (by rw [hbatch, hcons]; exact List.cons_ne_nil _ _), ← hcons]
    rfl

theorem loop_isSome_iff (answers : String → Nat → WriteAnswer) (nodeID : String) (n : Nat)
    (s : Sending) :
    (Replay.loop nodeID (Sending.rounds answers nodeID n s) s.replay).isSome = true ↔
      ∃ j < n, ((Sending.advance answers nodeID)^[j] s).batch nodeID = [] := by
  induction n generalizing s with
  | zero => simp [Sending.rounds, Replay.loop]
  | succ n ih =>
    rw [loop_rounds_succ]
    split
    · next hempty => exact iff_of_true rfl ⟨0, Nat.succ_pos n, hempty⟩
    · next hne =>
      rw [ih]
      constructor
      · rintro ⟨j, hj, hempty⟩
        exact ⟨j + 1, Nat.succ_lt_succ hj, hempty⟩
      · rintro ⟨j, hj, hempty⟩
        cases j with
        | zero => exact absurd hempty hne
        | succ j => exact ⟨j, Nat.lt_of_succ_lt_succ hj, hempty⟩

theorem getError_rounds (n : Nat) (s : Sending) :
    ∀ round ∈ Sending.rounds answers nodeID n s, round.getError = none := by
  induction n generalizing s with
  | zero => simp [Sending.rounds]
  | succ n ih =>
    rw [Sending.rounds, List.forall_mem_cons]
    exact ⟨rfl, ih _⟩

/-- Every batch that is not empty is one more attempt. -/
theorem le_sum_sent (hids : (store.hints.map StoredHint.hintID).Nodup) {n : Nat}
    (hbusy : ∀ j < n, ((Sending.advance answers nodeID)^[j] (Sending.start store)).batch nodeID ≠
      []) :
    n ≤ (store.hints.map fun hint =>
      ((Sending.advance answers nodeID)^[n] (Sending.start store)).sent hint.hintID).sum := by
  induction n with
  | zero => exact Nat.zero_le _
  | succ n ih =>
    have hprev := ih fun j hj => hbusy j (Nat.lt_succ_of_lt hj)
    refine Nat.succ_le_of_lt (lt_of_le_of_lt hprev ?_)
    have htracks : Tracks answers nodeID store
      ((Sending.advance answers nodeID)^[n] (Sending.start store)) := tracks_iterate hids n
    obtain ⟨b, hb⟩ := List.exists_mem_of_ne_nil _ (hbusy n (Nat.lt_succ_self n))
    rw [Function.iterate_succ_apply']
    refine List.sum_lt_sum _ _ (fun hint _ => ?_)
      ⟨b, htracks.sublist.subset (mem_getHintsForNode hb).1, ?_⟩
    · rw [sent_advance hids htracks.sublist]
      exact Nat.le_add_right _ _
    · rw [sent_advance hids htracks.sublist, if_pos ⟨b, hb, rfl⟩]
      exact Nat.lt_succ_self _

theorem sent_mono (answers : String → Nat → WriteAnswer) (nodeID : String) {j n : Nat} (h : j ≤ n)
    (s : Sending) (hintID : String) :
    ((Sending.advance answers nodeID)^[j] s).sent hintID ≤
      ((Sending.advance answers nodeID)^[n] s).sent hintID := by
  refine monotone_nat_of_le_succ (f := fun n =>
    ((Sending.advance answers nodeID)^[n] s).sent hintID) (fun n => ?_) h
  rw [Function.iterate_succ_apply']
  exact Nat.le_add_right _ _

/-- The node takes every hint of its in one of the first `maxRetries + 1` attempts, unless the
hint has no retries left when the replay begins. -/
def TakenInTime (answers : String → Nat → WriteAnswer) (store : HintStore) (nodeID : String) :
    Prop :=
  ∀ hint ∈ store.hints, hint.targetNodeID = nodeID → hint.replayCount < maxRetries →
    ∃ k : Nat, (k : Int) ≤ maxRetries ∧ (answers hint.hintID k).succeeded = true

/-- The attempts at a hint that is taken in time. -/
theorem Tracks.sent_le (h : Tracks answers nodeID store s)
    (htaken : TakenInTime answers store nodeID) (hintID : String) : s.sent hintID ≤ 4 := by
  by_cases hmem : ∃ hint ∈ store.hints, hint.hintID = hintID ∧ hint.targetNodeID = nodeID
  · obtain ⟨hint, hhint, rfl, htarget⟩ := hmem
    by_contra hmany
    obtain ⟨hearlier, hretries⟩ := h.earlier hint hhint
    obtain ⟨k, hk, hok⟩ := htaken hint hhint htarget (hretries (by omega))
    have hk' : k ≤ 3 := by simpa [maxRetries] using hk
    rw [hearlier k (by omega)] at hok
    cases hok
  · rw [h.unsent hintID fun hint hhint heq htarget => hmem ⟨hint, hhint, heq, htarget⟩]
    exact Nat.zero_le 4

/-- As every batch is one more attempt, and there are at most four for each hint, a batch is empty
in the end. -/
theorem exists_empty_batch (hids : (store.hints.map StoredHint.hintID).Nodup)
    (htaken : TakenInTime answers store nodeID) :
    ∃ j < store.hints.length * 4 + 1,
      ((Sending.advance answers nodeID)^[j] (Sending.start store)).batch nodeID = [] := by
  by_contra hbusy
  simp only [not_exists, not_and] at hbusy
  have hmany := le_sum_sent hids hbusy
  have hfew : (store.hints.map fun hint => ((Sending.advance answers nodeID)^[
      store.hints.length * 4 + 1] (Sending.start store)).sent hint.hintID).sum ≤
      store.hints.length * 4 := by
    refine le_trans (List.sum_le_card_nsmul _ 4 ?_) (by simp)
    intro x hx
    obtain ⟨hint, -, rfl⟩ := List.mem_map.mp hx
    exact (tracks_iterate hids _).sent_le htaken hint.hintID
  omega

/-- **When the replay before activation ends.** For every table and every pattern of answers of the
node: `ReplayHintsForNode` returns after finitely many batches, with at most `maxRetries + 1` attempts
at each hint, exactly if the node takes the hints in time. -/
theorem finishes_iff (hids : (store.hints.map StoredHint.hintID).Nodup) :
    Finishes answers store nodeID ↔ TakenInTime answers store nodeID := by
  constructor
  · rintro ⟨n, r, hreturns, hsent⟩ hint hhint htarget hretries
    have hend : ∃ j ≤ n, ((Sending.advance answers nodeID)^[j] (Sending.start store)).batch nodeID =
        [] := by
      unfold replayHintsForNode at hreturns
      dsimp only at hreturns
      split at hreturns
      · next hcount => exact ⟨0, Nat.zero_le n, getHintsForNode_eq_nil_of_count hcount⟩
      · obtain ⟨j, hj, hempty⟩ := (loop_isSome_iff answers nodeID n (Sending.start store)).mp
          (Option.isSome_iff_exists.mpr ⟨_, hreturns⟩)
        exact ⟨j, hj.le, hempty⟩
    obtain ⟨j, hj, hempty⟩ := hend
    have htracks : Tracks answers nodeID store _ := tracks_iterate hids j
    -- the hint has left the table, so one of the attempts has succeeded
    rcases htracks.settled hint hhint htarget with hold | hlimit | ⟨k, hk, hok⟩
    · exact absurd htarget (getHintsForNode_eq_nil_iff.mp hempty hint hold)
    · exact absurd hlimit (not_le_of_gt hretries)
    · have hmono := sent_mono answers nodeID hj (Sending.start store) hint.hintID
      have hbound := hsent hint.hintID
      exact ⟨k, by omega, hok⟩
  · intro htaken
    obtain ⟨j, hj, hempty⟩ := exists_empty_batch hids htaken
    have hbound : ∀ n hintID, (((Sending.advance answers nodeID)^[n]
        (Sending.start store)).sent hintID : Int) ≤ maxRetries + 1 := by
      intro n hintID
      have hle : _ ≤ 4 := (tracks_iterate hids n).sent_le htaken hintID
      simp only [maxRetries]
      omega
    by_cases hcount : store.getHintCount nodeID = 0
    · refine ⟨0, ⟨store, []⟩, ?_, hbound 0⟩
      rw [replayHintsForNode]
      exact if_pos hcount
    · obtain ⟨⟨res, r⟩, hr⟩ := Option.isSome_iff_exists.mp
        ((loop_isSome_iff answers nodeID _ (Sending.start store)).mpr ⟨j, hj, hempty⟩)
      have hok := Replay.loop_eq_ok (getError_rounds _ _) hr
      dsimp only at hok
      rw [hok] at hr
      refine ⟨store.hints.length * 4 + 1, r, ?_, hbound _⟩
      rw [replayHintsForNode]
      exact (if_neg hcount).trans hr

end Finishes

namespace Sample

/-- A hint of the table. -/
def parkedHint : StoredHint := ⟨"h1", "node-3", "t1", "k", [1], "", 10, 10, 0⟩

/-- The node takes nothing. -/
def rejecting (_ : String) (_ : Nat) : WriteAnswer := .response false VectorClock.empty

/-- The node takes what was sent to it twice before. -/
def thirdTime (_ : String) (k : Nat) : WriteAnswer := .response (k = 2) VectorClock.empty

/-- A hint that is rejected is still there after every batch. -/
theorem replay_rejecting (n : Nat) :
    ((Sending.advance rejecting "node-3")^[n] (Sending.start ⟨[parkedHint]⟩)).replay =
      ⟨⟨[parkedHint]⟩, []⟩ := by
  induction n with
  | zero => rfl
  | succ n ih =>
    rw [Function.iterate_succ_apply']
    generalize (Sending.advance rejecting "node-3")^[n] (Sending.start ⟨[parkedHint]⟩) = s at ih
    obtain ⟨replay, sent⟩ := s
    cases ih
    rfl

end Sample

theorem finishes_thirdTime :
    Finishes Sample.thirdTime ⟨[Sample.parkedHint]⟩ "node-3" := by
  refine (finishes_iff (by decide)).mpr ?_
  rintro hint - - -
  exact ⟨2, by decide, rfl⟩

/-- One hint that the node rejects for ever keeps the replay going. -/
theorem not_finishes_rejecting :
    ¬ Finishes Sample.rejecting ⟨[Sample.parkedHint]⟩ "node-3" := by
  rintro ⟨n, r, hreturns, -⟩
  obtain ⟨j, -, hempty⟩ := (loop_isSome_iff Sample.rejecting "node-3" n _).mp
    (Option.isSome_iff_exists.mpr ⟨_, hreturns⟩)
  rw [Sending.batch, Sample.replay_rejecting] at hempty
  revert hempty
  decide

/-! ## The last write of a key -/

/-- A hint of the same key for the same node. -/
def Rival (hint other : StoredHint) : Prop :=
  other.targetNodeID = hint.targetNodeID ∧ other.tenantID = hint.tenantID ∧ other.key = hint.key

instance (hint other : StoredHint) : Decidable (Rival hint other) :=
  inferInstanceAs (Decidable (_ ∧ _))

theorem Rival.refl (hint : StoredHint) : Rival hint hint := ⟨rfl, rfl, rfl⟩

theorem Rival.symm {a b : StoredHint} (h : Rival a b) : Rival b a :=
  ⟨h.1.symm, h.2.1.symm, h.2.2.symm⟩

theorem Rival.trans {a b c : StoredHint} (h : Rival a b) (h' : Rival b c) : Rival a c :=
  ⟨h'.1.trans h.1, h'.2.1.trans h.2.1, h'.2.2.trans h.2.2⟩

/-- The hints in the order in which they were sent. -/
def sentHints (nodeID : String) (rounds : List Round) (store : HintStore) : List StoredHint :=
  (actions nodeID rounds ⟨store, []⟩).map Prod.snd

/-- The last write of every key that was sent to the node is that of the newest hint. -/
def NewestLast (store : HintStore) (nodeID : String) (sent : List StoredHint) : Prop :=
  ∀ hint ∈ store.hints, hint.targetNodeID = nodeID →
    (∀ other ∈ store.hints, Rival hint other → other.createdAt ≤ hint.createdAt) →
    (sent.filter fun other => Rival hint other).getLast? = some hint

/-- The node does not take the newest hint of a key that is in the table while an older one is
there too. -/
def InOrder (r : Replay) (action : Attempt × StoredHint) : Prop :=
  action.1.answer.succeeded = true →
    (∃ other ∈ r.store.hints, Rival action.2 other ∧ action.2.createdAt < other.createdAt) ∨
      ∀ other ∈ r.store.hints, Rival action.2 other → action.2.createdAt ≤ other.createdAt

/-- An attempt at a hint that is in the table, with a table that can be written. -/
structure Tabled (nodeID : String) (r : Replay) (action : Attempt × StoredHint) : Prop where
  reliable : action.1.deleteFails = false
  mem : action.2 ∈ r.store.hints
  target : action.2.targetNodeID = nodeID

section NewestLast

variable {nodeID : String} {store : HintStore} {r r' : Replay} {action : Attempt × StoredHint}
  {as : List (Attempt × StoredHint)} {hint : StoredHint}

/-- What an attempt does to the other hints: nothing. -/
theorem mem_hints_attempt (htabled : Tabled nodeID r action)
    (hne : hint.hintID ≠ action.2.hintID) :
    hint ∈ (r.attempt action.1 action.2).store.hints ↔ hint ∈ r.store.hints := by
  rw [(attempt_spec r htabled.reliable action.2).1]
  split
  · rw [List.mem_filter, decide_eq_true_eq]
    exact and_iff_left hne
  · exact Iff.rfl

/-- The hint that was sent stays if it was not taken and has retries left. -/
theorem mem_hints_attempt_self (htabled : Tabled nodeID r action) :
    action.2 ∈ (r.attempt action.1 action.2).store.hints ↔ action.1.removes action.2 = false := by
  rw [(attempt_spec r htabled.reliable action.2).1]
  split
  · next hremoves => simp [hremoves]
  · next hremoves => simp [hremoves, htabled.mem]

theorem sublist_attempt (htabled : Tabled nodeID r action) :
    (r.attempt action.1 action.2).store.hints.Sublist r.store.hints := by
  rw [(attempt_spec r htabled.reliable action.2).1]
  split
  · exact List.filter_sublist
  · exact List.Sublist.refl _

theorem sublist_run (hall : AllSteps Replay.act (Tabled nodeID) r as)
    (hrun : run Replay.act r as = some r') : r'.store.hints.Sublist r.store.hints :=
  run_invariant (I := fun s => s.store.hints.Sublist r.store.hints)
    (fun _ _ _ hsub htabled hs => by
      cases hs
      exact (sublist_attempt htabled).trans hsub) (List.Sublist.refl _) hall hrun

/-- What is gone is not sent again. -/
theorem not_mem_of_gone (hall : AllSteps Replay.act (Tabled nodeID) r as)
    (hgone : hint ∉ r.store.hints) : hint ∉ as.map Prod.snd := by
  induction as generalizing r with
  | nil => simp
  | cons action as ih =>
    rw [List.map_cons, List.mem_cons, not_or]
    refine ⟨fun heq => hgone (heq ▸ hall.1.mem), ih (hall.tail rfl) fun hmem => hgone ?_⟩
    exact (sublist_attempt hall.1).subset hmem

/-- What has left the table was sent. -/
theorem mem_of_removed (hids : (r.store.hints.map StoredHint.hintID).Nodup)
    (hall : AllSteps Replay.act (Tabled nodeID) r as) (hrun : run Replay.act r as = some r')
    (hhint : hint ∈ r.store.hints) (hgone : hint ∉ r'.store.hints) : hint ∈ as.map Prod.snd := by
  induction as generalizing r with
  | nil =>
    cases hrun
    exact absurd hhint hgone
  | cons action as ih =>
    obtain ⟨r₁, hr₁, hrest⟩ := run_cons.mp hrun
    cases hr₁
    rw [List.map_cons, List.mem_cons]
    by_cases hid : hint.hintID = action.2.hintID
    · exact Or.inl (List.inj_on_of_nodup_map hids hhint hall.1.mem hid)
    · refine Or.inr (ih ?_ (hall.tail rfl) hrest ((mem_hints_attempt hall.1 hid).mpr hhint))
      exact hids.sublist ((sublist_attempt hall.1).map _)

/-! ### Every attempt is at a hint of the table -/

theorem tabled_batchActions {attempts : Nat → Attempt}
    (hdelete : ∀ i, (attempts i).deleteFails = false) {hints : List StoredHint}
    (hbatch : (hints.map StoredHint.hintID).Nodup) (i : Nat)
    (hmem : ∀ hint ∈ hints, hint ∈ r.store.hints ∧ hint.targetNodeID = nodeID) :
    AllSteps Replay.act (Tabled nodeID) r (batchActions attempts i hints) := by
  induction hints generalizing i r with
  | nil => trivial
  | cons hint hints ih =>
    rw [List.forall_mem_cons] at hmem
    rw [List.map_cons, List.nodup_cons] at hbatch
    have htabled : Tabled nodeID r (attempts i, hint) := ⟨hdelete i, hmem.1.1, hmem.1.2⟩
    refine ⟨htabled, ih hbatch.2 (i + 1) fun other hother => ⟨?_, (hmem.2 other hother).2⟩⟩
    refine (mem_hints_attempt htabled fun heq => hbatch.1 ?_).mpr (hmem.2 other hother).1
    exact heq ▸ List.mem_map_of_mem hother

theorem tabled_actions {rounds : List Round}
    (hdelete : ∀ round ∈ rounds, ∀ i, (round.attempts i).deleteFails = false)
    (hids : (r.store.hints.map StoredHint.hintID).Nodup) :
    AllSteps Replay.act (Tabled nodeID) r (actions nodeID rounds r) := by
  induction rounds generalizing r with
  | nil => trivial
  | cons round rounds ih =>
    rw [List.forall_mem_cons] at hdelete
    have hbatch : AllSteps Replay.act (Tabled nodeID) r
        (batchActions round.attempts 0 (r.store.getHintsForNode nodeID batchSize)) :=
      tabled_batchActions hdelete.1 (nodup_getHintsForNode hids) 0 fun _ h => mem_getHintsForNode h
    refine allSteps_append.mpr ⟨hbatch, fun r₁ hr₁ => ?_⟩
    have hsub := sublist_run hbatch hr₁
    rw [run_batchActions, Option.some.injEq] at hr₁
    rw [hr₁]
    exact ih hdelete.2 (hids.sublist (hsub.map _))

/-! ### The newest hint of a key -/

/-- Where the newest hint of a key can be: in the table; taken, as the last of the key; or dropped. -/
inductive Standing (hint : StoredHint) (sent : List StoredHint) (r : Replay) : Prop
  | waiting (mem : hint ∈ r.store.hints) (unwritten : hint ∉ r.written)
  | last (lastSent : (sent.filter fun other => Rival hint other).getLast? = some hint)
      (alone : ∀ other ∈ r.store.hints, ¬ Rival hint other)
  | dropped (gone : hint ∉ r.store.hints) (unwritten : hint ∉ r.written)

/-- The newest hint of its key. -/
structure Newest (store : HintStore) (hint : StoredHint) : Prop where
  mem : hint ∈ store.hints
  le : ∀ other ∈ store.hints, Rival hint other → other.createdAt ≤ hint.createdAt

theorem exists_newest (hmem : hint ∈ store.hints) :
    ∃ newest, Rival hint newest ∧ Newest store newest := by
  obtain ⟨newest, hnewest, hmax⟩ := Finset.exists_max_image
    (store.hints.filter fun other => Rival hint other).toFinset StoredHint.createdAt
    ⟨hint, by simp [hmem, Rival.refl]⟩
  simp only [List.mem_toFinset, List.mem_filter, decide_eq_true_eq] at hnewest hmax
  exact ⟨newest, hnewest.2, hnewest.1, fun other hother hrival =>
    hmax other ⟨hother, hnewest.2.trans hrival⟩⟩

theorem written_attempt_of_ne (htabled : Tabled nodeID r action) (hne : action.2 ≠ hint)
    (h : hint ∉ r.written) : hint ∉ (r.attempt action.1 action.2).written := by
  rw [(attempt_spec r htabled.reliable action.2).2]
  split
  · rw [List.mem_append, List.mem_singleton]
    rintro (hmem | heq)
    · exact h hmem
    · exact hne heq.symm
  · rwa [List.append_nil]

/-- When the newest hint of a key is taken in order, no other one of the key is left. -/
theorem alone_of_inOrder (htimes : (store.hints.map StoredHint.createdAt).Nodup)
    (hsub : r.store.hints.Sublist store.hints) (hnewest : Newest store action.2)
    (htabled : Tabled nodeID r action) (hok : action.1.answer.succeeded = true)
    (hinOrder : InOrder r action) :
    ∀ other ∈ (r.attempt action.1 action.2).store.hints, ¬ Rival action.2 other := by
  intro other hother hrival
  have hold := (sublist_attempt htabled).subset hother
  have hle := hnewest.le other (hsub.subset hold) hrival
  rcases hinOrder hok with ⟨newer, hnewer, hrival', hlt⟩ | hoothers
  · exact absurd (hnewest.le newer (hsub.subset hnewer) hrival') (not_le_of_gt hlt)
  · have heq : other = action.2 := List.inj_on_of_nodup_map htimes (hsub.subset hold) hnewest.mem
      (le_antisymm hle (hoothers other hold hrival))
    rw [heq, mem_hints_attempt_self htabled, Attempt.removes, hok] at hother
    cases hother

theorem standing_step (hids : (store.hints.map StoredHint.hintID).Nodup)
    (htimes : (store.hints.map StoredHint.createdAt).Nodup)
    (hsub : r.store.hints.Sublist store.hints) (hnewest : Newest store hint)
    (htabled : Tabled nodeID r action) (hinOrder : InOrder r action) {sent : List StoredHint}
    (h : Standing hint sent r) :
    Standing hint (sent ++ [action.2]) (r.attempt action.1 action.2) := by
  cases h with
  | waiting hmem hunwritten =>
    by_cases hself : action.2 = hint
    · subst hself
      cases hok : action.1.answer.succeeded with
      | true =>
        refine Standing.last ?_ (alone_of_inOrder htimes hsub hnewest htabled hok hinOrder)
        rw [List.filter_append, List.filter_singleton, decide_eq_true (Rival.refl action.2)]
        exact List.getLast?_concat
      | false =>
        have hwritten : action.2 ∉ (r.attempt action.1 action.2).written := by
          rw [(attempt_spec r htabled.reliable action.2).2, hok, if_neg Bool.false_ne_true,
            List.append_nil]
          exact hunwritten
        by_cases hstays : action.2 ∈ (r.attempt action.1 action.2).store.hints
        · exact Standing.waiting hstays hwritten
        · exact Standing.dropped hstays hwritten
    · have hid : hint.hintID ≠ action.2.hintID := fun heq => hself
        (eq_of_hintID_eq hids (hsub.subset hmem) (hsub.subset htabled.mem) heq).symm
      exact Standing.waiting ((mem_hints_attempt htabled hid).mpr hmem)
        (written_attempt_of_ne htabled hself hunwritten)
  | last hlast halone =>
    refine Standing.last ?_ fun other hother => halone other ((sublist_attempt htabled).subset hother)
    rw [List.filter_append, List.filter_singleton,
      decide_eq_false (halone action.2 htabled.mem)]
    exact (congrArg List.getLast? (List.append_nil _)).trans hlast
  | dropped hgone hunwritten =>
    have hne : action.2 ≠ hint := fun heq => hgone (heq ▸ htabled.mem)
    exact Standing.dropped (fun hmem => hgone ((sublist_attempt htabled).subset hmem))
      (written_attempt_of_ne htabled hne hunwritten)

theorem standing_run (hids : (store.hints.map StoredHint.hintID).Nodup)
    (htimes : (store.hints.map StoredHint.createdAt).Nodup) (hnewest : Newest store hint)
    (htabled : AllSteps Replay.act (Tabled nodeID) ⟨store, []⟩ as)
    (hinOrder : AllSteps Replay.act InOrder ⟨store, []⟩ as)
    (hrun : run Replay.act ⟨store, []⟩ as = some r) : Standing hint (as.map Prod.snd) r := by
  have hboth : AllSteps Replay.act (fun r action => Tabled nodeID r action ∧ InOrder r action)
      ⟨store, []⟩ as := htabled.and hinOrder
  have hinv := run_invariant_history
    (I := fun pre r => Standing hint (pre.map Prod.snd) r ∧ r.store.hints.Sublist store.hints)
    (fun pre r action r' hI hP hs => by
      cases hs
      refine ⟨?_, (sublist_attempt hP.1).trans hI.2⟩
      rw [List.map_append]
      exact standing_step hids htimes hI.2 hnewest hP.1 hP.2 hI.1)
    as [] _ _ ⟨Standing.waiting hnewest.mem List.not_mem_nil, List.Sublist.refl _⟩ hboth hrun
  exact hinv.1

/-! ### An older hint that is sent after the newest -/

/-- If the newest hint of a key that is in the table is taken while an older one is there, the older
one is sent later, and the newest of all is not sent again. -/
theorem inOrder_of_newestLast (hids : (store.hints.map StoredHint.hintID).Nodup)
    (htimes : (store.hints.map StoredHint.createdAt).Nodup)
    (htabled : AllSteps Replay.act (Tabled nodeID) ⟨store, []⟩ as)
    (hrun : run Replay.act ⟨store, []⟩ as = some r)
    (hleft : ∀ hint ∈ r.store.hints, hint.targetNodeID ≠ nodeID)
    (hlast : NewestLast store nodeID (as.map Prod.snd)) :
    AllSteps Replay.act InOrder ⟨store, []⟩ as := by
  refine allSteps_of_splits fun pre action post r₁ heq hpre hok => ?_
  by_contra hbad
  simp only [not_or, not_exists, not_and, not_forall, not_le, not_lt] at hbad
  obtain ⟨hnewest, older, holder, hrival, hlt⟩ := hbad
  rw [heq, allSteps_append] at htabled
  obtain ⟨hpreTabled, hpostTabled⟩ := htabled
  have hcons := hpostTabled r₁ hpre
  have hsub : r₁.store.hints.Sublist store.hints := sublist_run hpreTabled hpre
  rw [heq, run_append, hpre, Option.bind_some] at hrun
  obtain ⟨r₂, hr₂, hpost⟩ := run_cons.mp hrun
  cases hr₂
  -- the older hint is sent
  have hsent : older ∈ post.map Prod.snd := by
    have hid : older.hintID ≠ action.2.hintID := fun hid =>
      hlt.ne (congrArg StoredHint.createdAt
        (eq_of_hintID_eq hids (hsub.subset holder) (hsub.subset hcons.1.mem) hid))
    refine mem_of_removed (hids.sublist (((sublist_attempt hcons.1).trans hsub).map _))
      (hcons.tail rfl) hpost ((mem_hints_attempt hcons.1 hid).mpr holder) fun hmem => ?_
    exact hleft older hmem (hrival.1.trans hcons.1.target)
  -- the newest is not
  obtain ⟨newest, hmem, hmax⟩ := exists_newest (hsub.subset hcons.1.mem)
  have hunsent : newest ∉ post.map Prod.snd := by
    refine not_mem_of_gone (hcons.tail rfl) fun hstill => ?_
    have hold := (sublist_attempt hcons.1).subset hstill
    have hself : newest = action.2 := List.inj_on_of_nodup_map htimes hmax.mem
      (hsub.subset hcons.1.mem) (le_antisymm (hnewest newest hold hmem)
        (hmax.le action.2 (hsub.subset hcons.1.mem) hmem.symm))
    rw [hself, mem_hints_attempt_self hcons.1, Attempt.removes, hok] at hstill
    cases hstill
  have hfinal := hlast newest hmax.mem (hmem.1.trans hcons.1.target) hmax.le
  rw [heq, List.map_append, List.map_cons, List.append_cons, List.filter_append,
    List.getLast?_append_of_ne_nil _ (List.ne_nil_of_mem (List.mem_filter.mpr
      ⟨hsent, decide_eq_true (hmem.symm.trans hrival)⟩))] at hfinal
  exact hunsent (List.mem_filter.mp (List.mem_of_getLast? hfinal)).1

/-- **When the newest write of a key comes last.** For every table with distinct creation times and
every pattern of failed writes after which every hint was written in the end: the last write of
every key is that of its newest hint exactly if every hint was taken in order. -/
theorem newestLast_iff {rounds : List Round} (hids : (store.hints.map StoredHint.hintID).Nodup)
    (htimes : (store.hints.map StoredHint.createdAt).Nodup)
    (hdelete : ∀ round ∈ rounds, ∀ i, (round.attempts i).deleteFails = false)
    (hreturns : replayHintsForNode store nodeID none rounds = some (.ok (), r))
    (hwritten : ∀ hint ∈ store.hints, hint.targetNodeID = nodeID → hint ∈ r.written) :
    NewestLast store nodeID (sentHints nodeID rounds store) ↔
      AllSteps Replay.act InOrder ⟨store, []⟩ (actions nodeID rounds ⟨store, []⟩) := by
  have htabled : AllSteps Replay.act (Tabled nodeID) ⟨store, []⟩ _ := tabled_actions hdelete hids
  obtain ⟨hrun, hempty⟩ := run_actions_of_returns hreturns
  have hleft := getHintsForNode_eq_nil_iff.mp hempty
  refine ⟨inOrder_of_newestLast hids htimes htabled hrun hleft, fun hinOrder => ?_⟩
  intro hint hmem htarget hle
  cases standing_run hids htimes ⟨hmem, hle⟩ htabled hinOrder hrun with
  | waiting hstill _ => exact absurd htarget (hleft hint hstill)
  | last hlast _ => exact hlast
  | dropped _ hunwritten => exact absurd (hwritten hint hmem htarget) hunwritten

end NewestLast

namespace Sample

/-- A newer hint of the same key. -/
def newerHint : StoredHint := ⟨"h2", "node-3", "t1", "k", [2], "", 20, 20, 0⟩

/-- The node takes the whole batch. -/
def takesAll : Round := ⟨none, fun _ => ⟨.response true VectorClock.empty, false⟩⟩

/-- The node takes all but the first hint of the batch. -/
def rejectsFirst : Round := ⟨none, fun i => ⟨.response (i ≠ 0) VectorClock.empty, false⟩⟩

end Sample

theorem newestLast_takesAll : NewestLast ⟨[Sample.newerHint, Sample.parkedHint]⟩ "node-3"
    (sentHints "node-3" [Sample.takesAll, Sample.takesAll]
      ⟨[Sample.newerHint, Sample.parkedHint]⟩) := by
  have hreturns : replayHintsForNode ⟨[Sample.newerHint, Sample.parkedHint]⟩ "node-3" none
      [Sample.takesAll, Sample.takesAll] =
        some (.ok (), ⟨⟨[]⟩, [Sample.parkedHint, Sample.newerHint]⟩) := by rfl
  refine (newestLast_iff (by decide) (by decide) ?_ hreturns (by decide)).mpr ?_
  · intro round hround i
    simp only [List.mem_cons, List.not_mem_nil, or_false, or_self] at hround
    rw [hround]
    rfl
  · unfold InOrder
    decide

/-- The older hint fails once and is sent again after the newer one. -/
theorem older_sent_last :
    replayHintsForNode ⟨[Sample.parkedHint, Sample.newerHint]⟩ "node-3" none
        [Sample.rejectsFirst, Sample.takesAll, Sample.takesAll] =
      some (.ok (), ⟨⟨[]⟩, [Sample.newerHint, Sample.parkedHint]⟩) ∧
    sentHints "node-3" [Sample.rejectsFirst, Sample.takesAll, Sample.takesAll]
        ⟨[Sample.parkedHint, Sample.newerHint]⟩ =
      [Sample.parkedHint, Sample.newerHint, Sample.parkedHint] ∧
    ¬ NewestLast ⟨[Sample.parkedHint, Sample.newerHint]⟩ "node-3"
      [Sample.parkedHint, Sample.newerHint, Sample.parkedHint] := by
  refine ⟨by rfl, by rfl, fun h => ?_⟩
  have hlast := h Sample.newerHint (by decide) rfl (by decide)
  revert hlast
  decide

/-! ## The clock of a replayed hint -/

/-- The clock that reaches the node. -/
def sentClock (hint : StoredHint) : VectorClock :=
  (StorageNodeClient.wireRequest (writeRequest hint)).vectorClock

/-- The clocks that reach the node compare like those that were recorded: with each other, and
with the clocks that ordinary writes have stored there. `recorded` reads the text of a clock. -/
structure KeepsPosition (recorded : String → VectorClock) (stored : Set VectorClock)
    (hint₁ hint₂ : StoredHint) : Prop where
  between : compare (sentClock hint₁) (sentClock hint₂) =
    compare (recorded hint₁.vectorClock) (recorded hint₂.vectorClock)
  first : ∀ vc ∈ stored, compare (sentClock hint₁) vc = compare (recorded hint₁.vectorClock) vc
  second : ∀ vc ∈ stored, compare (sentClock hint₂) vc = compare (recorded hint₂.vectorClock) vc

/-- The recorded clock reads the time of the hint at `coordinator-1` and nothing elsewhere. -/
def Stamped (recorded : String → VectorClock) (hint : StoredHint) : Prop :=
  (recorded hint.vectorClock).timestamp = Pi.single "coordinator-1" (unixNano hint.timestamp)

theorem timestamp_sentClock (hint : StoredHint) :
    (sentClock hint).timestamp = Pi.single "coordinator-1" (unixNano hint.timestamp) := by
  funext n
  have hget : (sentClock hint).toMap.get? n =
      if "coordinator-1" = n then some (unixNano hint.timestamp) else none :=
    Map.get?_ofList_concat [] ("coordinator-1", unixNano hint.timestamp) n
  rw [VectorClock.timestamp, hget]
  split
  · next heq =>
    rw [← heq, Pi.single_eq_same]
    rfl
  · next hne =>
    rw [Pi.single_eq_of_ne' hne]
    rfl

/-- **When replayed hints keep their causal position.** For all hints, however the recorded text is
read and whatever else is stored: the clocks that are sent compare as the recorded ones exactly if
these are the clocks that are sent anyway. -/
theorem keepsPosition_iff {recorded : String → VectorClock} {stored : Set VectorClock}
    {hint₁ hint₂ : StoredHint} (hstored₁ : recorded hint₁.vectorClock ∈ stored)
    (hstored₂ : recorded hint₂.vectorClock ∈ stored) :
    KeepsPosition recorded stored hint₁ hint₂ ↔ Stamped recorded hint₁ ∧ Stamped recorded hint₂ := by
  have hself : ∀ hint, compare (sentClock hint) (recorded hint.vectorClock) =
      compare (recorded hint.vectorClock) (recorded hint.vectorClock) → Stamped recorded hint := by
    intro hint heq
    rw [compare_eq_identical_iff.mpr rfl, compare_eq_identical_iff, timestamp_sentClock] at heq
    exact heq.symm
  constructor
  · intro h
    exact ⟨hself hint₁ (h.first _ hstored₁), hself hint₂ (h.second _ hstored₂)⟩
  · rintro ⟨h₁, h₂⟩
    have hsame₁ := (timestamp_sentClock hint₁).trans h₁.symm
    have hsame₂ := (timestamp_sentClock hint₂).trans h₂.symm
    exact ⟨compare_congr hsame₁ hsame₂, fun _ _ => compare_congr hsame₁ rfl,
      fun _ _ => compare_congr hsame₂ rfl⟩

namespace Sample

/-- Clocks as texts. -/
def readClock (text : String) : VectorClock :=
  if text = "a" then ⟨[⟨"coordinator-1", 1⟩]⟩
  else if text = "b" then ⟨[⟨"coordinator-2", 1⟩]⟩
  else VectorClock.empty

/-- A hint of the first write of a coordinator. -/
def firstHint : StoredHint := ⟨"h3", "node-3", "t1", "k", [1], "a", 1000, 1000, 0⟩

/-- A hint of the first write of another coordinator. -/
def otherHint : StoredHint := ⟨"h4", "node-3", "t1", "k", [2], "b", 2000, 2000, 0⟩

/-- A hint whose clock is its time. -/
def stampedHint : StoredHint := ⟨"h5", "node-3", "t1", "k", [1], "a", 1, 1, 0⟩

end Sample

theorem keepsPosition_stampedHint :
    KeepsPosition Sample.readClock Set.univ Sample.stampedHint Sample.stampedHint := by
  have hstamped : Stamped Sample.readClock Sample.stampedHint := timestamp_sentClock Sample.stampedHint
  exact (keepsPosition_iff (Set.mem_univ _) (Set.mem_univ _)).mpr ⟨hstamped, hstamped⟩

/-- The first write of a coordinator comes back as newer than its second, and as older than a
concurrent one. -/
theorem replayed_ahead :
    compare (Sample.readClock Sample.firstHint.vectorClock) ⟨[⟨"coordinator-1", 2⟩]⟩ = .before ∧
    compare (sentClock Sample.firstHint) ⟨[⟨"coordinator-1", 2⟩]⟩ = .after ∧
    compare (Sample.readClock Sample.firstHint.vectorClock)
      (Sample.readClock Sample.otherHint.vectorClock) = .concurrent ∧
    compare (sentClock Sample.firstHint) (sentClock Sample.otherHint) = .before := by
  decide

end HintReplayService

end PairDB.Coordinator
