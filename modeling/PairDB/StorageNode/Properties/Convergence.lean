import PairDB.Coordinator.VectorClockOps
import PairDB.StorageNode.Properties.ReadLatest

/-!
# Replicas and the order of deliveries

The versions of a key reach a node by `Write` and `Repair`: as first delivery, as a replayed hint, as
a read repair or as a streamed copy. The node does not compare vector clocks, so it returns what was
delivered last. That is the causally greatest version exactly if this one was delivered last
(`converges_iff_greatest_last`), and then all nodes with the same versions agree.
-/

namespace PairDB.StorageNode

open Infra StorageService

/-- The versions of a key that some requests deliver, in their order. -/
def deliveries (tenantID key : String) (requests : List Request) : List Seen :=
  (requests.filter fun r => r.Addresses tenantID key).filterMap fun r => r.apply none

/-- A version that is causally after all the others. -/
def Greatest (versions : List Seen) (g : Seen) : Prop :=
  g ∈ versions ∧
    ∀ v ∈ versions, v ≠ g → VectorClockOps.compare g.vectorClock v.vectorClock = .after

instance (versions : List Seen) (g : Seen) : Decidable (Greatest versions g) :=
  inferInstanceAs (Decidable (_ ∧ _))

/-- The node is reached by a run that delivers `versions` of the key, in this order, does not delete
it, and does it no harm. -/
def Receives (tenantID key : String) (versions : List Seen) (n : Node) : Prop :=
  ∃ (commitLog : CommitLogService) (flushThreshold cacheSize : Int) (dataDir : String)
    (bloom : BloomParams) (events : List Event),
    run Node.step (Node.init commitLog flushThreshold cacheSize dataDir bloom) events = some n ∧
    AllSteps Node.step (Steady tenantID key)
      (Node.init commitLog flushThreshold cacheSize dataDir bloom) events ∧
    (∀ vectorClock, .delete tenantID key vectorClock ∉ requestsOf events) ∧
    deliveries tenantID key (requestsOf events) = versions

variable {tenantID key : String} {versions versions' : List Seen} {n n' : Node}
  {s s' : StorageService} {r r' : Except Failure ReadResponse} {env env' : CallEnv}

theorem deliveries_concat (requests : List Request) (q : Request) :
    deliveries tenantID key (requests ++ [q]) = deliveries tenantID key requests ++
      if q.Addresses tenantID key then (q.apply none).toList else [] := by
  unfold deliveries
  rw [List.filter_append, List.filterMap_append]
  congr 1
  by_cases haddr : q.Addresses tenantID key
  · cases happly : q.apply none <;> simp [haddr, happly]
  · simp [haddr]

/-- Without a delete, what is to be seen is what was delivered last. -/
theorem lastSeen_eq_getLast? {requests : List Request}
    (hdelete : ∀ vectorClock, .delete tenantID key vectorClock ∉ requests) :
    lastSeen tenantID key requests = (deliveries tenantID key requests).getLast? := by
  induction requests using List.reverseRecOn with
  | nil => rfl
  | append_singleton requests q ih =>
    have hrest := ih fun vectorClock hmem => hdelete vectorClock (List.mem_append_left _ hmem)
    rw [lastSeen_concat, deliveries_concat, hrest]
    by_cases haddr : q.Addresses tenantID key
    · rw [if_pos haddr, if_pos haddr]
      cases q with
      | write t k value vectorClock => simp [Request.apply]
      | repair t k value vectorClock => simp [Request.apply]
      | delete t k vectorClock =>
        obtain ⟨rfl, rfl⟩ := haddr
        exact absurd (by simp [Request.tenantID, Request.key]) (hdelete vectorClock)
      | read t k => simp [Request.apply]
    · rw [if_neg haddr, if_neg haddr, List.append_nil]

/-- A node returns the version that was delivered last. -/
theorem answers_last_delivery (hcolon : ':' ∉ tenantID.toList)
    (hn : Receives tenantID key versions n) (hread : n.service.read env tenantID key = (s, r))
    (hret : r ≠ .error .blocked) : Answers tenantID key versions.getLast? r := by
  obtain ⟨commitLog, flushThreshold, cacheSize, dataDir, bloom, events, hrun, hok, hdelete, rfl⟩ :=
    hn
  rw [← lastSeen_eq_getLast? hdelete, ← seenAt_eq_lastSeen_of_run hcolon hok hrun]
  exact read_answers_seenAt (hok.mono fun _ _ h => h.1) hrun hread hret

/-- An answer shows one version only. -/
theorem StorageService.Answers.unique {seen seen' : Option Seen} (h : Answers tenantID key seen r)
    (h' : Answers tenantID key seen' r) : seen = seen' := by
  cases seen with
  | none =>
    cases seen' with
    | none => rfl
    | some v' =>
      obtain ⟨source, hr⟩ := h'
      rw [hr] at h
      cases h
  | some v =>
    obtain ⟨source, rfl⟩ := h
    cases seen' with
    | none => cases h'
    | some v' =>
      obtain ⟨source', hr⟩ := h'
      cases v
      cases v'
      cases hr
      rfl

/-- There is one greatest version at most. -/
theorem Greatest.unique {g g' : Seen} (h : Greatest versions g) (h' : Greatest versions' g')
    (hset : ∀ v, v ∈ versions ↔ v ∈ versions') : g = g' := by
  by_contra hne
  have hafter := h.2 g' ((hset g').mpr h'.1) (Ne.symm hne)
  have hafter' := h'.2 g ((hset g).mp h.1) hne
  rw [VectorClockOps.compare_eq_after_iff] at hafter hafter'
  exact lt_asymm hafter hafter'

/-- **A node returns the causally greatest version exactly if that one was delivered last**, and
nodes that received the same versions, each with the greatest one last, return the same. -/
theorem converges_iff_greatest_last (hcolon : ':' ∉ tenantID.toList)
    (hn : Receives tenantID key versions n) (hn' : Receives tenantID key versions' n')
    (hset : ∀ v, v ∈ versions ↔ v ∈ versions')
    (hread : n.service.read env tenantID key = (s, r)) (hret : r ≠ .error .blocked)
    (hread' : n'.service.read env' tenantID key = (s', r')) (hret' : r' ≠ .error .blocked) :
    ((∃ g, Greatest versions g ∧ Answers tenantID key (some g) r) ↔
        ∃ g, Greatest versions g ∧ versions.getLast? = some g) ∧
      ((∃ g, Greatest versions g ∧ versions.getLast? = some g) →
        (∃ g, Greatest versions' g ∧ versions'.getLast? = some g) →
        ∃ g, Greatest versions g ∧ Answers tenantID key (some g) r ∧
          Answers tenantID key (some g) r') := by
  have hans := answers_last_delivery hcolon hn hread hret
  have hans' := answers_last_delivery hcolon hn' hread' hret'
  refine ⟨⟨?_, ?_⟩, ?_⟩
  · rintro ⟨g, hg, hr⟩
    exact ⟨g, hg, hans.unique hr⟩
  · rintro ⟨g, hg, hlast⟩
    exact ⟨g, hg, hlast ▸ hans⟩
  · rintro ⟨g, hg, hlast⟩ ⟨g', hg', hlast'⟩
    have heq := hg.unique hg' hset
    subst heq
    exact ⟨g, hg, hlast ▸ hans, hlast' ▸ hans'⟩

/-! ## Two orders of two versions -/

namespace Sample

/-- The first version, delivered by a repair. -/
def late : Event := .call (at_ 7) (.repair "t" "k" (some [1]) (clock 1))

/-- The greater version arrives last, after a repetition. -/
def inOrder : List Event := [writeAt 5 [2] 2, writeAt 5 [1] 1, writeAt 6 [2] 2]

/-- The older version arrives late. -/
def outOfOrder : List Event := [writeAt 5 [1] 1, writeAt 6 [2] 2, late]

end Sample

open Sample

set_option maxRecDepth 10000 in
/-- Two nodes with the greater version last return it. -/
theorem converges_inOrder :
    ∃ n n', run Node.step node inOrder = some n ∧
      run Node.step node [writeAt 5 [1] 1, writeAt 6 [2] 2] = some n' ∧
      ∃ g, Greatest [⟨some [2], clock 2⟩, ⟨some [1], clock 1⟩, ⟨some [2], clock 2⟩] g ∧
        Answers "t" "k" (some g) (n.service.read (at_ 7) "t" "k").2 ∧
        Answers "t" "k" (some g) (n'.service.read (at_ 7) "t" "k").2 := by
  have hsome : (run Node.step node inOrder).isSome = true := by decide +kernel
  have hsome' : (run Node.step node [writeAt 5 [1] 1, writeAt 6 [2] 2]).isSome = true := by
    decide +kernel
  obtain ⟨n, hn⟩ := Option.isSome_iff_exists.mp hsome
  obtain ⟨n', hn'⟩ := Option.isSome_iff_exists.mp hsome'
  have hret : (run Node.step node inOrder).map
      (fun n => decide ((n.service.read (at_ 7) "t" "k").2 ≠ .error .blocked)) = some true := by
    decide +kernel
  have hret' : (run Node.step node [writeAt 5 [1] 1, writeAt 6 [2] 2]).map
      (fun n => decide ((n.service.read (at_ 7) "t" "k").2 ≠ .error .blocked)) = some true := by
    decide +kernel
  rw [hn, Option.map_some, Option.some.injEq, decide_eq_true_eq] at hret
  rw [hn', Option.map_some, Option.some.injEq, decide_eq_true_eq] at hret'
  have hrec : Receives "t" "k" [⟨some [2], clock 2⟩, ⟨some [1], clock 1⟩, ⟨some [2], clock 2⟩] n :=
    ⟨_, _, _, _, _, _, hn, by decide +kernel,
      by simp [requestsOf, inOrder, writeAt, Event.request?], by decide +kernel⟩
  have hrec' : Receives "t" "k" [⟨some [1], clock 1⟩, ⟨some [2], clock 2⟩] n' :=
    ⟨_, _, _, _, _, _, hn', by decide +kernel,
      by simp [requestsOf, writeAt, Event.request?], by decide +kernel⟩
  refine ⟨n, n', hn, hn', ?_⟩
  refine (converges_iff_greatest_last (by decide) hrec hrec' (fun v => by simp; tauto) rfl hret rfl
    hret').2 ⟨⟨some [2], clock 2⟩, by decide +kernel, rfl⟩
    ⟨⟨some [2], clock 2⟩, by decide +kernel, rfl⟩

set_option maxRecDepth 10000 in
/-- With the older version last, the node returns that one. -/
theorem read_of_older_version_outOfOrder :
    VectorClockOps.compare (clock 2) (clock 1) = .after ∧
      deliveries "t" "k" (requestsOf outOfOrder) =
        [⟨some [1], clock 1⟩, ⟨some [2], clock 2⟩, ⟨some [1], clock 1⟩] ∧
      (run Node.step node outOfOrder).map (fun n => (n.service.read (at_ 8) "t" "k").2) =
        some (.ok ⟨true, some [1], clock 1, .cache⟩) := by
  refine ⟨?_, ?_, ?_⟩
  · decide +kernel
  · decide +kernel
  · decide +kernel

end PairDB.StorageNode
