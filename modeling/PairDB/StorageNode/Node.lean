import PairDB.Infra.Run
import PairDB.StorageNode.StorageService

/-!
# A storage node over time

Calls come one after another. In between, the three parts of a flush and evictions from the cache
take place at any time. The clock does not go back.

A step is a call that succeeds; a read that finds no key counts as one. `newest` is the entry that
was stored last under a composite key, and `seenAt` and `lastSeen` are what a client should see,
under a composite key and under a key of a tenant.
-/

namespace PairDB.StorageNode

open Infra

/-- A call to the storage service. -/
inductive Request where
  | write (tenantID key : String) (value : Option Bytes) (vectorClock : VectorClock)
  | delete (tenantID key : String) (vectorClock : VectorClock)
  | repair (tenantID key : String) (value : Option Bytes) (vectorClock : VectorClock)
  | read (tenantID key : String)
  deriving DecidableEq, Repr

namespace Request

def tenantID : Request → String
  | write tenantID _ _ _ | delete tenantID _ _ | repair tenantID _ _ _ | read tenantID _ => tenantID

def key : Request → String
  | write _ key _ _ | delete _ key _ | repair _ key _ _ | read _ key => key

/-- The composite key of a request. -/
def compositeKey (r : Request) : String := buildKey r.tenantID r.key

/-- The request is addressed to this key of this tenant. -/
def Addresses (r : Request) (tenantID key : String) : Prop := r.tenantID = tenantID ∧ r.key = key

instance (r : Request) (tenantID key : String) : Decidable (r.Addresses tenantID key) :=
  inferInstanceAs (Decidable (_ ∧ _))

/-- What the request makes of what is to be seen under its key. -/
def apply (r : Request) (seen : Option Seen) : Option Seen :=
  match r with
  | write _ _ value vectorClock | repair _ _ value vectorClock => some ⟨value, vectorClock⟩
  | delete _ _ _ => none
  | read _ _ => seen

/-- The entry that the request stores. -/
def stored (env : CallEnv) : Request → Option MemTableEntry
  | write tenantID key value vectorClock | repair tenantID key value vectorClock =>
    some (StorageService.stored env tenantID key value vectorClock false)
  | delete tenantID key vectorClock =>
    some (StorageService.stored env tenantID key none vectorClock true)
  | read _ _ => none

/-- The entry that a request stores is under its composite key, and what a client sees of it is what
the request makes of the key. -/
theorem stored_spec {env : CallEnv} {r : Request} {e : MemTableEntry} (h : r.stored env = some e) :
    e.key = r.compositeKey ∧ ∀ seen, r.apply seen = StorageService.visible e := by
  cases r <;> cases h <;> exact ⟨rfl, fun _ => rfl⟩

/-- A request that stores nothing is a read. -/
theorem apply_of_stored_eq_none {env : CallEnv} {r : Request} (h : r.stored env = none)
    (seen : Option Seen) : r.apply seen = seen := by
  cases r <;> first | rfl | cases h

theorem timestamp_of_stored {env : CallEnv} {r : Request} {e : MemTableEntry}
    (h : r.stored env = some e) : e.timestamp = env.now := by
  cases r <;> cases h <;> rfl

end Request

/-- The service after a call that succeeds. -/
def StorageService.perform (s : StorageService) (env : CallEnv) : Request → Option StorageService
  | .write tenantID key value vectorClock =>
    match s.write env tenantID key value vectorClock with
    | (s', .ok _) => some s'
    | _ => none
  | .delete tenantID key vectorClock =>
    match s.delete env tenantID key vectorClock with
    | (s', .ok _) => some s'
    | _ => none
  | .repair tenantID key value vectorClock =>
    match s.repair env tenantID key value vectorClock with
    | (s', .ok _) => some s'
    | _ => none
  | .read tenantID key =>
    match s.read env tenantID key with
    | (s', .ok _) => some s'
    | (s', .error (.err e)) => if e.code = .keyNotFound then some s' else none
    | _ => none

/-- What a call that succeeds does: it stores an entry, or it is a read. -/
theorem StorageService.perform_spec {s s' : StorageService} {env : CallEnv} {request : Request}
    (h : s.perform env request = some s') :
    (∃ e, request.stored env = some e ∧ StorageService.Mutated s s' e) ∨
      (∃ tenantID key r, request = .read tenantID key ∧ s.read env tenantID key = (s', r) ∧
        r ≠ .error .blocked) := by
  cases request with
  | write tenantID key value vectorClock =>
    simp only [perform] at h
    split at h
    · next r hwrite =>
      cases h
      exact Or.inl ⟨_, rfl, (write_spec hwrite).2⟩
    · cases h
  | delete tenantID key vectorClock =>
    simp only [perform] at h
    split at h
    · next hdelete =>
      cases h
      exact Or.inl ⟨_, rfl, (delete_spec hdelete).2⟩
    · cases h
  | repair tenantID key value vectorClock =>
    simp only [perform] at h
    split at h
    · next hrepair =>
      cases h
      exact Or.inl ⟨_, rfl, repair_spec hrepair⟩
    · cases h
  | read tenantID key =>
    refine Or.inr ⟨tenantID, key, ?_⟩
    simp only [perform] at h
    split at h
    · next r hread =>
      cases h
      exact ⟨_, rfl, hread, by rintro ⟨⟩⟩
    · next e hread =>
      split at h
      · cases h
        exact ⟨_, rfl, hread, by rintro ⟨⟩⟩
      · cases h
    · cases h

/-- How far a flush is. -/
inductive FlushPhase where
  | idle
  | writing (immutable : MemTable)
  | written

/-- A storage node; `clock` is the last second that was read. -/
structure Node where
  service : StorageService
  flush : FlushPhase
  clock : Int

/-- What can happen on a node. -/
inductive Event where
  | call (env : CallEnv) (request : Request)
  | beginFlush
  | writeTable (nanos : Int)
  | endFlush
  | evict (key : String)

/-- The request of an event. -/
def Event.request? : Event → Option Request
  | .call _ request => some request
  | _ => none

/-- The entry that an event stores. -/
def Event.stored : Event → Option MemTableEntry
  | .call env request => request.stored env
  | _ => none

namespace Node

/-- A node with empty directories, at the first second. -/
def init (commitLog : CommitLogService) (flushThreshold cacheSize : Int) (dataDir : String)
    (bloom : BloomParams) : Node where
  service :=
    { commitLog
      memTable := MemTableService.new flushThreshold
      sstables := SSTableService.new dataDir bloom
      cache := CacheService.new cacheSize
      flushRequests := 0 }
  flush := .idle
  clock := 1

/-- A step of a node whose calls are served by `serve`. -/
def stepWith (serve : StorageService → CallEnv → Request → Option StorageService) (n : Node) :
    Event → Option Node
  | .call env request =>
    if n.clock ≤ env.now then
      (serve n.service env request).map fun service => { n with service, clock := env.now }
    else none
  | .beginFlush =>
    match n.flush with
    | .idle =>
      n.service.memTable.beginFlush.map fun (immutable, memTable) =>
        { n with service := { n.service with memTable }, flush := .writing immutable }
    | _ => none
  | .writeTable nanos =>
    match n.flush with
    | .writing immutable =>
      match n.service.sstables.writeFromMemTable nanos .complete immutable with
      | (sstables, .ok ()) =>
        some { n with service := { n.service with sstables }, flush := .written }
      | _ => none
    | _ => none
  | .endFlush =>
    match n.flush with
    | .written =>
      some { n with
        service := { n.service with memTable := n.service.memTable.endFlush }, flush := .idle }
    | _ => none
  | .evict key => some { n with service := { n.service with cache := n.service.cache.remove key } }

/-- A step of a node whose service is called directly. -/
def step (n : Node) (event : Event) : Option Node := n.stepWith StorageService.perform event

end Node

/-! ## What a key should have -/

/-- The entry that was last stored under a composite key. -/
def newest (key : String) (events : List Event) : Option MemTableEntry :=
  ((events.filterMap Event.stored).filter fun e => e.key = key).getLast?

/-- What is to be seen under a composite key after some requests. -/
def seenAt (key : String) (requests : List Request) : Option Seen :=
  requests.foldl (fun seen r => if r.compositeKey = key then r.apply seen else seen) none

/-- What is to be seen under a key of a tenant after some requests. -/
def lastSeen (tenantID key : String) (requests : List Request) : Option Seen :=
  requests.foldl (fun seen r => if r.Addresses tenantID key then r.apply seen else seen) none

/-- The requests among some events. -/
def requestsOf (events : List Event) : List Request := events.filterMap Event.request?

theorem newest_concat (key : String) (events : List Event) (event : Event) :
    newest key (events ++ [event]) =
      match event.stored with
      | some e => if e.key = key then some e else newest key events
      | none => newest key events := by
  unfold newest
  rw [List.filterMap_append]
  cases hstored : event.stored with
  | none => simp [hstored]
  | some e =>
    by_cases hkey : e.key = key
    · simp [hstored, hkey]
    · simp [hstored, hkey]

theorem requestsOf_concat (events : List Event) (event : Event) :
    requestsOf (events ++ [event]) = requestsOf events ++ event.request?.toList := by
  rw [requestsOf, List.filterMap_append, requestsOf]
  cases hreq : event.request? <;> simp [hreq]

theorem seenAt_concat (key : String) (requests : List Request) (r : Request) :
    seenAt key (requests ++ [r]) =
      if r.compositeKey = key then r.apply (seenAt key requests) else seenAt key requests := by
  rw [seenAt, List.foldl_append, List.foldl_cons, List.foldl_nil, seenAt]

theorem lastSeen_concat (tenantID key : String) (requests : List Request) (r : Request) :
    lastSeen tenantID key (requests ++ [r]) =
      if r.Addresses tenantID key then r.apply (lastSeen tenantID key requests)
      else lastSeen tenantID key requests := by
  rw [lastSeen, List.foldl_append, List.foldl_cons, List.foldl_nil, lastSeen]

/-- The entry that was stored last shows what the requests say. -/
theorem visible_newest (key : String) (events : List Event) :
    (newest key events).bind StorageService.visible = seenAt key (requestsOf events) := by
  induction events using List.reverseRecOn with
  | nil => rfl
  | append_singleton events event ih =>
    rw [newest_concat, requestsOf_concat]
    cases event with
    | call env request =>
      simp only [Event.request?, Option.toList_some, seenAt_concat, Event.stored]
      cases hstored : request.stored env with
      | none => rw [Request.apply_of_stored_eq_none hstored, ite_self, ih]
      | some e =>
        obtain ⟨hekey, happly⟩ := Request.stored_spec hstored
        by_cases hkey : e.key = key
        · rw [if_pos (hekey ▸ hkey), happly]
          simp only [if_pos hkey, Option.bind_some]
        · rw [if_neg (hekey ▸ hkey)]
          simp only [if_neg hkey, ih]
    | beginFlush => simpa [Event.stored, Event.request?] using ih
    | writeTable nanos => simpa [Event.stored, Event.request?] using ih
    | endFlush => simpa [Event.stored, Event.request?] using ih
    | evict victim => simpa [Event.stored, Event.request?] using ih

/-- A composite key shows what a tenant requested for a key, if all requests that have the composite
key are addressed to the tenant and the key, reads apart. -/
theorem seenAt_eq_lastSeen {tenantID key : String} {requests : List Request}
    (h : ∀ r ∈ requests, r.compositeKey = buildKey tenantID key →
      r.Addresses tenantID key ∨ ∀ seen, r.apply seen = seen) :
    seenAt (buildKey tenantID key) requests = lastSeen tenantID key requests := by
  unfold seenAt lastSeen
  refine List.foldl_ext _ _ none fun seen r hr => ?_
  by_cases hkey : r.compositeKey = buildKey tenantID key
  · rw [if_pos hkey]
    rcases h r hr hkey with haddr | hread
    · rw [if_pos haddr]
    · rw [hread, ite_self]
  · have hother : ¬ r.Addresses tenantID key := by
      rintro ⟨rfl, rfl⟩
      exact hkey rfl
    rw [if_neg hkey, if_neg hother]

end PairDB.StorageNode
