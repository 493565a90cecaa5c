import PairDB.Infra.Map
import PairDB.StorageNode.Entry

/-!
# `service.CacheService`

A score is a floating-point number that is computed from the clock at the moment of the call; here
it is an argument. What decides about evictions beside the scores is the order in which Go walks the
map, so `Put` also gets the order of each round of its loop. It returns only if the cache has room
after exactly these rounds.
-/

namespace PairDB.StorageNode

open Infra

/-- `model.CacheEntry`. -/
structure CacheEntry where
  key : String
  value : Option Bytes
  vectorClock : VectorClock
  accessCount : Int
  score : ℚ
  deriving DecidableEq, Repr

/-- The part of a version that a client sees. -/
structure Seen where
  value : Option Bytes
  vectorClock : VectorClock
  deriving DecidableEq, Repr

/-- What a cached entry shows. -/
def CacheEntry.seen (e : CacheEntry) : Seen := ⟨e.value, e.vectorClock⟩

/-- `CacheService`. -/
structure CacheService where
  maxSize : Int
  cache : Map String CacheEntry
  currentSize : Int

/-- What `Put` does not determine itself. -/
structure CacheEnv where
  score : ℚ
  orders : List (RangeOrder (String × CacheEntry))

namespace CacheService

/-- `NewCacheService`. -/
def new (maxSize : Int) : CacheService := ⟨maxSize, ∅, 0⟩

/-- The size that is accounted for an entry. -/
def entrySize (key : String) (value : Option Bytes) : Int := key.utf8ByteSize + valueLen value + 64

/-- `CacheService.Get`. The statistics of the entry change. -/
def get (s : CacheService) (key : String) (score : ℚ) : Option CacheEntry × CacheService :=
  match s.cache.get? key with
  | none => (none, s)
  | some entry =>
    let entry := { entry with accessCount := entry.accessCount + 1, score }
    (some entry, { s with cache := s.cache.set key entry })

/-- `Remove`. -/
def remove (s : CacheService) (key : String) : CacheService :=
  match s.cache.get? key with
  | none => s
  | some entry =>
    { s with
      cache := s.cache.remove key
      currentSize := s.currentSize - entrySize entry.key entry.value }

/-- The key that the loop of `evictLowestScore` ends with. -/
def lowestKey (s : CacheService) (order : RangeOrder (String × CacheEntry)) : String :=
  let lowest := (order.visit s.cache.toPairs).foldl
    (fun (lowest : String × ℚ) p => if p.2.score < lowest.2 then (p.1, p.2.score) else lowest)
    ("", 10 ^ 9)
  lowest.1

/-- `evictLowestScore`. The empty key stands for "none found". -/
def evictLowestScore (s : CacheService) (order : RangeOrder (String × CacheEntry)) : CacheService :=
  if s.lowestKey order ≠ "" then s.remove (s.lowestKey order) else s

/-- The loop of `Put`, with the orders of its rounds. -/
def makeRoom (size : Int) :
    List (RangeOrder (String × CacheEntry)) → CacheService → Option CacheService
  | [], s => if s.currentSize + size > s.maxSize then none else some s
  | order :: orders, s =>
    if s.currentSize + size > s.maxSize then makeRoom size orders (s.evictLowestScore order)
    else none

/-- `CacheService.Put`. -/
def put (s : CacheService) (key : String) (value : Option Bytes) (vectorClock : VectorClock)
    (env : CacheEnv) : Option CacheService :=
  match s.cache.get? key with
  | some existing =>
    let entry := { existing with
      value, vectorClock, accessCount := existing.accessCount + 1, score := env.score }
    some { s with
      cache := s.cache.set key entry
      currentSize := s.currentSize - entrySize existing.key existing.value + entrySize key value }
  | none =>
    (makeRoom (entrySize key value) env.orders s).map fun s =>
      { s with
        cache := s.cache.set key { key, value, vectorClock, accessCount := 1, score := env.score }
        currentSize := s.currentSize + entrySize key value }

/-! ## What is cached -/

/-- What is cached under a key. -/
def lookup (s : CacheService) (key : String) : Option Seen := (s.cache.get? key).map CacheEntry.seen

@[simp] theorem lookup_new (maxSize : Int) (key : String) : (new maxSize).lookup key = none := rfl

theorem get_fst (s : CacheService) (key : String) (score : ℚ) :
    (s.get key score).1.map CacheEntry.seen = s.lookup key := by
  unfold get lookup
  cases s.cache.get? key <;> rfl

/-- A lookup changes the statistics only. -/
theorem lookup_get (s : CacheService) (key : String) (score : ℚ) (k : String) :
    (s.get key score).2.lookup k = s.lookup k := by
  unfold get
  cases h : s.cache.get? key with
  | none => rfl
  | some entry =>
    simp only [lookup, Map.get?_set]
    by_cases hk : key = k
    · rw [if_pos hk, ← hk, h]
      rfl
    · rw [if_neg hk]

theorem lookup_remove (s : CacheService) (key k : String) :
    (s.remove key).lookup k = if key = k then none else s.lookup k := by
  unfold remove
  cases h : s.cache.get? key with
  | none =>
    by_cases hk : key = k
    · rw [if_pos hk, ← hk, lookup, h]
      rfl
    · rw [if_neg hk]
  | some entry =>
    simp only [lookup, Map.get?_remove]
    by_cases hk : key = k
    · rw [if_pos hk, if_pos hk]
      rfl
    · rw [if_neg hk, if_neg hk]

/-- Evictions only take entries away. -/
theorem lookup_evictLowestScore (s : CacheService) (order : RangeOrder (String × CacheEntry))
    (k : String) :
    (s.evictLowestScore order).lookup k = none ∨
      (s.evictLowestScore order).lookup k = s.lookup k := by
  unfold evictLowestScore
  split
  · rw [lookup_remove]
    by_cases hk : s.lowestKey order = k
    · exact Or.inl (if_pos hk)
    · exact Or.inr (if_neg hk)
  · exact Or.inr rfl

theorem lookup_makeRoom {size : Int} {orders : List (RangeOrder (String × CacheEntry))}
    {s s' : CacheService} (h : makeRoom size orders s = some s') (k : String) :
    s'.lookup k = none ∨ s'.lookup k = s.lookup k := by
  induction orders generalizing s with
  | nil =>
    unfold makeRoom at h
    split at h
    · cases h
    · cases h
      exact Or.inr rfl
  | cons order orders ih =>
    unfold makeRoom at h
    split at h
    · rcases ih h with hnone | heq
      · exact Or.inl hnone
      · rw [heq]
        exact lookup_evictLowestScore s order k
    · cases h

theorem lookup_set_self (s : CacheService) (key : String) (entry : CacheEntry) (size : Int) :
    lookup { s with cache := s.cache.set key entry, currentSize := size } key =
      some entry.seen := by
  simp [lookup, Map.get?_set]

theorem lookup_set_ne (s : CacheService) {key k : String} (entry : CacheEntry) (size : Int)
    (hk : key ≠ k) :
    lookup { s with cache := s.cache.set key entry, currentSize := size } k = s.lookup k := by
  simp [lookup, Map.get?_set, hk]

theorem lookup_put_self {s s' : CacheService} {key : String} {value : Option Bytes}
    {vectorClock : VectorClock} {env : CacheEnv}
    (h : s.put key value vectorClock env = some s') :
    s'.lookup key = some ⟨value, vectorClock⟩ := by
  unfold put at h
  split at h
  · cases h
    exact lookup_set_self _ _ _ _
  · obtain ⟨s₁, -, rfl⟩ := Option.map_eq_some_iff.mp h
    exact lookup_set_self _ _ _ _

/-- What is cached under another key is unchanged or was evicted. -/
theorem lookup_put_ne {s s' : CacheService} {key k : String} {value : Option Bytes}
    {vectorClock : VectorClock} {env : CacheEnv}
    (h : s.put key value vectorClock env = some s') (hk : key ≠ k) :
    s'.lookup k = none ∨ s'.lookup k = s.lookup k := by
  unfold put at h
  split at h
  · cases h
    exact Or.inr (lookup_set_ne _ _ _ hk)
  · obtain ⟨s₁, hroom, rfl⟩ := Option.map_eq_some_iff.mp h
    rw [lookup_set_ne _ _ _ hk]
    exact lookup_makeRoom hroom k

/-- An empty cache takes an entry of its size. -/
theorem exists_put_new (key : String) (value : Option Bytes) (vectorClock : VectorClock) (score : ℚ) :
    ∃ c, (new (entrySize key value)).put key value vectorClock ⟨score, []⟩ =
      some c := by
  simp [put, new, Map.get?_empty, makeRoom]

end CacheService

end PairDB.StorageNode
