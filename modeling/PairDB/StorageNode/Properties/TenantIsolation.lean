import PairDB.StorageNode.Handler
import PairDB.StorageNode.Properties.ReadLatest

/-!
# Tenants do not see each other

What a read of a tenant answers depends on the requests with the same composite key only
(`read_answers_seenAt`). So a tenant is isolated from another one exactly if no composite key is
shared. `Write` and `Delete` refuse a tenant with a colon, which would make composite keys unique,
but `Repair` does not.
-/

namespace PairDB.StorageNode

open Infra StorageHandler

/-! ## Runs of the handler -/

theorem step_of_rpcStep {n n' : Node} {event : Event} (h : n.rpcStep event = some n') :
    n.step event = some n' := by
  cases event with
  | call env request =>
    simp only [Node.rpcStep, Node.stepWith] at h
    simp only [Node.step, Node.stepWith]
    split at h
    · next hclock =>
      obtain ⟨service, hserve, rfl⟩ := Option.map_eq_some_iff.mp h
      rw [if_pos hclock, (serve_spec hserve).2]
      rfl
    · cases h
  | beginFlush => exact h
  | writeTable nanos => exact h
  | endFlush => exact h
  | evict victim => exact h

/-- The answer of the handler to a valid read. -/
def reply : Option Seen → PbReadResponse
  | some seen => ⟨true, seen.value, some seen.vectorClock, "", .unknown⟩
  | none => ⟨false, none, none, "key not found", .keyNotFound⟩

/-- The handler passes on what the service answers. -/
theorem read_eq_reply {s s' : StorageService} {env : CallEnv} {tenantID key : String}
    {r : Except Failure PbReadResponse} {seen : Option Seen}
    (hvalid : validateReadRequest tenantID key = .ok ())
    (hservice : (s.read env tenantID key).2 ≠ .error .blocked →
      StorageService.Answers tenantID key seen (s.read env tenantID key).2)
    (h : StorageHandler.read s env tenantID key = (s', r)) (hret : r ≠ .error .blocked) :
    r = .ok (reply seen) := by
  simp only [StorageHandler.read, hvalid] at h
  rcases hread : s.read env tenantID key with ⟨s₁, failure | response⟩
  · rw [hread] at h hservice
    cases failure with
    | err e =>
      cases h
      have hans := hservice (by rintro ⟨⟩)
      cases seen with
      | none => rfl
      | some seen =>
        obtain ⟨source, heq⟩ := hans
        cases heq
    | panic reason =>
      have hans := hservice (by rintro ⟨⟩)
      cases seen with
      | none => cases hans
      | some seen =>
        obtain ⟨source, heq⟩ := hans
        cases heq
    | blocked =>
      cases h
      exact absurd rfl hret
  · rw [hread] at h hservice
    cases h
    have hans := hservice (by rintro ⟨⟩)
    cases seen with
    | none => cases hans
    | some seen =>
      obtain ⟨source, heq⟩ := hans
      cases heq
      rfl

/-! ## Isolation -/

/-- Whatever is done for `k₂` of `t₂`, a read of `k₁` of `t₁` answers as if it had not been done, and
a version that it answers was written by a request that is not addressed to `k₂` of `t₂`. Both runs
have their own flushes, which do no harm to the key. -/
def Isolated (t₁ k₁ t₂ k₂ : String) : Prop :=
  ∀ (commitLog : CommitLogService) (flushThreshold cacheSize : Int) (dataDir : String)
    (bloom : BloomParams) (events events' : List Event) (n n' : Node) (env env' : CallEnv)
    (s s' : StorageService) (r r' : Except Failure PbReadResponse),
    run Node.rpcStep (Node.init commitLog flushThreshold cacheSize dataDir bloom) events = some n →
    run Node.rpcStep (Node.init commitLog flushThreshold cacheSize dataDir bloom) events' =
      some n' →
    requestsOf events' = (requestsOf events).filter (fun q => ¬ q.Addresses t₂ k₂) →
    AllSteps Node.rpcStep (Undisturbed (buildKey t₁ k₁))
      (Node.init commitLog flushThreshold cacheSize dataDir bloom) events →
    AllSteps Node.rpcStep (Undisturbed (buildKey t₁ k₁))
      (Node.init commitLog flushThreshold cacheSize dataDir bloom) events' →
    StorageHandler.read n.service env t₁ k₁ = (s, r) →
    StorageHandler.read n'.service env' t₁ k₁ = (s', r') →
    r ≠ .error .blocked → r' ≠ .error .blocked →
    r = r' ∧ ∀ response, r = .ok response → response.success = true →
      ∃ q ∈ requestsOf events, ¬ q.Addresses t₂ k₂ ∧
        ∃ seen, q.apply none = some seen ∧ response = reply (some seen)

/-- What is to be seen under a composite key comes from a request. -/
theorem exists_request_of_seenAt {key : String} {requests : List Request} {seen : Seen}
    (h : seenAt key requests = some seen) : ∃ q ∈ requests, q.apply none = some seen := by
  induction requests using List.reverseRecOn with
  | nil => cases h
  | append_singleton requests q ih =>
    rw [seenAt_concat] at h
    have hold : seenAt key requests = some seen →
        ∃ q' ∈ requests ++ [q], q'.apply none = some seen := by
      intro hseen
      obtain ⟨q', hq', happly⟩ := ih hseen
      exact ⟨q', List.mem_append_left _ hq', happly⟩
    split at h
    · cases q with
      | write t k value vectorClock => exact ⟨.write t k value vectorClock, by simp, h⟩
      | repair t k value vectorClock => exact ⟨.repair t k value vectorClock, by simp, h⟩
      | delete t k vectorClock => cases h
      | read t k => exact hold h
    · exact hold h

/-- Requests with another composite key do not matter. -/
theorem seenAt_filter {key : String} {requests : List Request} {p : Request → Prop}
    [DecidablePred p] (h : ∀ q ∈ requests, q.compositeKey = key → p q) :
    seenAt key (requests.filter p) = seenAt key requests := by
  induction requests using List.reverseRecOn with
  | nil => rfl
  | append_singleton requests q ih =>
    have hrest := ih fun q' hq' => h q' (List.mem_append_left _ hq')
    rw [List.filter_append, seenAt_concat]
    by_cases hp : p q
    · have hfilter : [q].filter p = [q] := by simp [hp]
      rw [hfilter, seenAt_concat, hrest]
    · have hfilter : [q].filter p = [] := by simp [hp]
      have hkey : q.compositeKey ≠ key := fun hkey => hp (h q (by simp) hkey)
      rw [hfilter, List.append_nil, hrest, if_neg hkey]

section Run

variable {commitLog : CommitLogService} {flushThreshold cacheSize : Int} {dataDir : String}
  {bloom : BloomParams} {events : List Event} {n : Node}

/-- Every request of a run names a tenant and a key. -/
theorem named_of_run
    (hrun : run Node.rpcStep (Node.init commitLog flushThreshold cacheSize dataDir bloom) events =
      some n) : ∀ q ∈ requestsOf events, q.tenantID ≠ "" ∧ q.key ≠ "" := by
  refine run_invariant_history
    (I := fun pre _ => ∀ q ∈ requestsOf pre, q.tenantID ≠ "" ∧ q.key ≠ "") ?_ events [] _ n
    (fun q hq => by cases hq) (allSteps_trivial events _) hrun
  intro pre s event s' hI _ hstep q hq
  rw [requestsOf_concat, List.mem_append] at hq
  rcases hq with hq | hq
  · exact hI q hq
  · cases event with
    | call env request =>
      have hreq : q = request := by simpa [Event.request?] using hq
      subst hreq
      simp only [Node.rpcStep, Node.stepWith] at hstep
      split at hstep
      · obtain ⟨service, hserve, -⟩ := Option.map_eq_some_iff.mp hstep
        exact (serve_spec hserve).1
      · cases hstep
    | beginFlush => cases hq
    | writeTable nanos => cases hq
    | endFlush => cases hq
    | evict victim => cases hq

/-- What the handler answers to a valid read after a run. -/
theorem handler_read_eq_reply {tenantID key : String} {env : CallEnv} {s' : StorageService}
    {r : Except Failure PbReadResponse}
    (hrun : run Node.rpcStep (Node.init commitLog flushThreshold cacheSize dataDir bloom) events =
      some n)
    (hok : AllSteps Node.rpcStep (Undisturbed (buildKey tenantID key))
      (Node.init commitLog flushThreshold cacheSize dataDir bloom) events)
    (hvalid : validateReadRequest tenantID key = .ok ())
    (hread : StorageHandler.read n.service env tenantID key = (s', r))
    (hret : r ≠ .error .blocked) :
    r = .ok (reply (seenAt (buildKey tenantID key) (requestsOf events))) := by
  have hle : ∀ (n : Node) event n', n.rpcStep event = some n' → n.step event = some n' :=
    fun _ _ _ => step_of_rpcStep
  refine read_eq_reply hvalid (fun hservice => ?_) hread hret
  exact read_answers_seenAt (hok.of_le hle hrun) (run_of_le hle hrun) rfl hservice

end Run

/-- Without a shared composite key, tenants are isolated. -/
theorem isolated_of_no_collision {t₁ k₁ t₂ k₂ : String}
    (h : ¬ (buildKey t₁ k₁ = buildKey t₂ k₂ ∧ t₁ ≠ "" ∧ k₁ ≠ "" ∧ t₂ ≠ "" ∧ k₂ ≠ "")) :
    Isolated t₁ k₁ t₂ k₂ := by
  intro commitLog flushThreshold cacheSize dataDir bloom events events' n n' env env' s s' r r'
    hrun hrun' hreq hok hok' hread hread' hret hret'
  cases hvalid : validateReadRequest t₁ k₁ with
  | error message =>
    -- the read is refused in both runs
    simp only [StorageHandler.read, hvalid] at hread hread'
    cases hread
    cases hread'
    refine ⟨rfl, fun response heq hsuccess => ?_⟩
    cases heq
    cases hsuccess
  | ok u =>
    obtain ⟨ht₁, hk₁⟩ := validateReadRequest_eq_ok hvalid
    have hr := handler_read_eq_reply hrun hok hvalid hread hret
    have hr' := handler_read_eq_reply hrun' hok' hvalid hread' hret'
    have hsame : seenAt (buildKey t₁ k₁) (requestsOf events') =
        seenAt (buildKey t₁ k₁) (requestsOf events) := by
      rw [hreq]
      refine seenAt_filter fun q hq hkey haddr => ?_
      obtain ⟨ht₂, hk₂⟩ := named_of_run hrun q hq
      obtain ⟨rfl, rfl⟩ := haddr
      exact h ⟨hkey.symm, ht₁, hk₁, ht₂, hk₂⟩
    rw [hsame] at hr'
    refine ⟨hr.trans hr'.symm, fun response heq hsuccess => ?_⟩
    rw [hr, Except.ok.injEq] at heq
    cases hseen : seenAt (buildKey t₁ k₁) (requestsOf events) with
    | none =>
      rw [hseen] at heq
      subst heq
      cases hsuccess
    | some seen =>
      rw [hseen] at heq
      obtain ⟨q, hq, happly⟩ := exists_request_of_seenAt (hsame.trans hseen)
      rw [hreq, List.mem_filter, decide_eq_true_eq] at hq
      exact ⟨q, hq.1, hq.2, seen, happly, heq.symm⟩

/-! ## Collisions -/

/-- The repair of any key is accepted by a node whose cache has room for it, and is then cached. -/
theorem exists_run_repair {t k : String} (ht : t ≠ "") (hk : k ≠ "") (value : Option Bytes)
    (vectorClock : VectorClock) :
    ∃ n, run Node.rpcStep (Node.init Sample.log 100
        (CacheService.entrySize (buildKey t k) value) "data" ⟨8, 1⟩)
        [.call (Sample.at_ 1) (.repair t k value vectorClock)] = some n ∧
      n.service.cache.lookup (buildKey t k) = some ⟨value, vectorClock⟩ := by
  obtain ⟨c, hput⟩ := CacheService.exists_put_new (buildKey t k) value vectorClock 0
  have hempty : ¬ (t = "" ∨ k = "") := not_or.mpr ⟨ht, hk⟩
  have hclosed : Sample.log.closed = false := rfl
  have hrun : ∃ n, run Node.rpcStep (Node.init Sample.log 100
      (CacheService.entrySize (buildKey t k) value) "data" ⟨8, 1⟩)
      [.call (Sample.at_ 1) (.repair t k value vectorClock)] = some n ∧ n.service.cache = c := by
    simp [run, Node.rpcStep, Node.stepWith, serve, StorageHandler.repair, hempty,
      StorageService.repair, StorageService.mutate, CommitLogService.append, hclosed, Node.init,
      Sample.at_, hput]
  obtain ⟨n, hn, hc⟩ := hrun
  refine ⟨n, hn, ?_⟩
  rw [hc]
  exact CacheService.lookup_put_self hput

/-- A cached version is what a read answers. -/
theorem read_of_cached {s : StorageService} (env : CallEnv) {t k : String} {seen : Seen}
    (h : s.cache.lookup (buildKey t k) = some seen) :
    (s.read env t k).2 = .ok ⟨true, seen.value, seen.vectorClock, .cache⟩ := by
  have hfst := s.cache.get_fst (buildKey t k) env.score
  rw [h] at hfst
  obtain ⟨entry, hentry, hseen⟩ := Option.map_eq_some_iff.mp hfst
  rcases hget : s.cache.get (buildKey t k) env.score with ⟨found, cache⟩
  rw [hget] at hentry
  subst hentry hseen
  simp only [StorageService.read, hget]
  rfl

/-- A shared composite key breaks the isolation: a repair by one tenant is read by the other. -/
theorem not_isolated_of_collision {t₁ k₁ t₂ k₂ : String} (hkey : buildKey t₁ k₁ = buildKey t₂ k₂)
    (ht₁ : t₁ ≠ "") (hk₁ : k₁ ≠ "") (ht₂ : t₂ ≠ "") (hk₂ : k₂ ≠ "") : ¬ Isolated t₁ k₁ t₂ k₂ := by
  intro hiso
  have hvalid : validateReadRequest t₁ k₁ = .ok () := by simp [validateReadRequest, ht₁, hk₁]
  obtain ⟨n, hn, hcache⟩ := exists_run_repair ht₂ hk₂ (some []) ⟨[]⟩
  obtain ⟨s, hs⟩ : ∃ s, StorageHandler.read n.service (Sample.at_ 1) t₁ k₁ =
      (s, .ok ⟨true, some [], some ⟨[]⟩, "", .unknown⟩) := by
    rw [← hkey] at hcache
    have hservice := read_of_cached (Sample.at_ 1) hcache
    rcases hpair : n.service.read (Sample.at_ 1) t₁ k₁ with ⟨s, r⟩
    rw [hpair] at hservice
    subst hservice
    refine ⟨s, ?_⟩
    simp only [StorageHandler.read, hvalid, hpair]
  -- without the repair nothing is found
  obtain ⟨s', hs'⟩ : ∃ s', StorageHandler.read (Node.init Sample.log 100
      (CacheService.entrySize (buildKey t₂ k₂) (some [])) "data" ⟨8, 1⟩).service
      (Sample.at_ 1) t₁ k₁ = (s', .ok ⟨false, none, none, "key not found", .keyNotFound⟩) := by
    simp only [StorageHandler.read, hvalid]
    exact ⟨_, rfl⟩
  have hreq : requestsOf ([] : List Event) = (requestsOf
      [.call (Sample.at_ 1) (.repair t₂ k₂ (some []) ⟨[]⟩)]).filter
        (fun q => ¬ q.Addresses t₂ k₂) := by
    simp [requestsOf, Event.request?, Request.Addresses, Request.tenantID, Request.key]
  -- there is no flush in either run
  have hok : AllSteps Node.rpcStep (Undisturbed (buildKey t₁ k₁)) (Node.init Sample.log 100
      (CacheService.entrySize (buildKey t₂ k₂) (some [])) "data" ⟨8, 1⟩)
      [.call (Sample.at_ 1) (.repair t₂ k₂ (some []) ⟨[]⟩)] := by
    refine ⟨trivial, ?_⟩
    split <;> trivial
  have hdiff := hiso _ _ _ _ _ _ [] n _ _ _ _ _ _ _ hn rfl hreq hok trivial hs hs'
    (by rintro ⟨⟩) (by rintro ⟨⟩)
  cases hdiff.1

/-- **Two keys of two tenants are isolated exactly if they have different composite keys**, unless
one of the names is empty, when no request for it is accepted. -/
theorem isolated_iff_no_collision (t₁ k₁ t₂ k₂ : String) :
    Isolated t₁ k₁ t₂ k₂ ↔
      ¬ (buildKey t₁ k₁ = buildKey t₂ k₂ ∧ t₁ ≠ "" ∧ k₁ ≠ "" ∧ t₂ ≠ "" ∧ k₂ ≠ "") := by
  refine ⟨?_, isolated_of_no_collision⟩
  rintro hiso ⟨hkey, ht₁, hk₁, ht₂, hk₂⟩
  exact not_isolated_of_collision hkey ht₁ hk₁ ht₂ hk₂ hiso

set_option maxRecDepth 10000 in
/-- The repair of `c` of the tenant `a:b` is read under `b:c` of the tenant `a`, where there is
nothing without it. -/
theorem read_returns_version_of_other_tenant :
    (run Node.rpcStep Sample.node
        [.call (Sample.at_ 5) (.repair "a:b" "c" (some [7]) (Sample.clock 1))]).map
        (fun n => (StorageHandler.read n.service (Sample.at_ 6) "a" "b:c").2) =
      some (.ok ⟨true, some [7], some (Sample.clock 1), "", .unknown⟩) ∧
    (run Node.rpcStep Sample.node []).map
        (fun n => (StorageHandler.read n.service (Sample.at_ 6) "a" "b:c").2) =
      some (.ok ⟨false, none, none, "key not found", .keyNotFound⟩) := by
  constructor
  · decide +kernel
  · decide +kernel

end PairDB.StorageNode
