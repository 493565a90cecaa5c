import PairDB.Infra.MapSum
import PairDB.Infra.Run
import PairDB.StorageNode.Cache

/-!
# What the cache holds and how large it is

A run is a list of calls that all return. `accounting_exact` says that `currentSize` is the size of
what is cached, and that this is what was put last.

The size is kept below `MaxSize` by the loop of `Put`, and a `Put` of a cached key does not go
through that loop: `bounded_iff` says which updates are harmless. The loop itself ends only if
evictions make enough room. `evictLowestScore` takes nothing if every score is `1e9` or more, or if
the lowest one belongs to the empty key, so `put_returns_iff` counts what can be evicted before
that.
-/

namespace PairDB.StorageNode

open Infra

/-- A call of the cache. -/
inductive CacheCall where
  | get (key : String) (score : ℚ)
  | put (key : String) (value : Option Bytes) (vectorClock : VectorClock) (env : CacheEnv)
  | remove (key : String)

/-- What a call puts under a key. -/
def CacheCall.puts (key : String) : CacheCall → Option Seen
  | .put k value vectorClock _ => if k = key then some ⟨value, vectorClock⟩ else none
  | .get _ _ => none
  | .remove _ => none

namespace CacheService

/-- A call that returns. -/
def call (s : CacheService) : CacheCall → Option CacheService
  | .get key score => some (s.get key score).2
  | .put key value vectorClock env => s.put key value vectorClock env
  | .remove key => some (s.remove key)

/-- What the last `Put` of a key put there. -/
def lastPut (key : String) (calls : List CacheCall) : Option Seen :=
  (calls.filterMap (CacheCall.puts key)).getLast?

theorem lastPut_concat (key : String) (calls : List CacheCall) (c : CacheCall) :
    lastPut key (calls ++ [c]) = (c.puts key).or (lastPut key calls) := by
  rw [lastPut, List.filterMap_append, List.getLast?_append, lastPut]
  cases hputs : c.puts key <;> simp [hputs]

/-! ## Sizes -/

/-- The size of a cached entry, as an eviction computes it. -/
def sizeOf (_ : String) (e : CacheEntry) : Int := entrySize e.key e.value

theorem entrySize_pos (key : String) (value : Option Bytes) : 0 < entrySize key value := by
  have hlen : 0 ≤ valueLen value := by
    unfold valueLen
    positivity
  unfold entrySize
  omega

/-- The size is that of the entries, and each of them is stored under its key. -/
structure Accounted (s : CacheService) : Prop where
  size : s.currentSize = Map.sum sizeOf s.cache
  key : ∀ key entry, s.cache.get? key = some entry → entry.key = key

/-- To overwrite an entry, or to add one. -/
theorem Accounted.set {s : CacheService} (h : s.Accounted) {key : String} {entry : CacheEntry}
    (hkey : entry.key = key) {size : Int}
    (hsize : size = Map.sum sizeOf (s.cache.set key entry)) :
    Accounted { s with cache := s.cache.set key entry, currentSize := size } where
  size := hsize
  key k e hget := by
    rw [Map.get?_set] at hget
    split at hget
    · next hk =>
      cases hget
      exact hkey.trans hk
    · exact h.key k e hget

theorem Accounted.get {s : CacheService} (h : s.Accounted) (key : String) (score : ℚ) :
    (s.get key score).2.Accounted := by
  unfold CacheService.get
  cases hget : s.cache.get? key with
  | none => exact h
  | some entry =>
    refine h.set ?_ ?_
    · exact h.key key entry hget
    · rw [Map.sum_set_of_some hget, ← h.size]
      simp [sizeOf]

theorem Accounted.remove {s : CacheService} (h : s.Accounted) (key : String) :
    (s.remove key).Accounted := by
  unfold CacheService.remove
  cases hget : s.cache.get? key with
  | none => exact h
  | some entry =>
    constructor
    · show s.currentSize - _ = _
      rw [h.size, Map.sum_eq_remove hget, sizeOf]
      ring
    · intro k e hk
      rw [Map.get?_remove] at hk
      split at hk
      · cases hk
      · exact h.key k e hk

theorem Accounted.evictLowestScore {s : CacheService} (h : s.Accounted)
    (order : RangeOrder (String × CacheEntry)) : (s.evictLowestScore order).Accounted := by
  unfold CacheService.evictLowestScore
  split
  · exact h.remove _
  · exact h

/-- The loop keeps what every eviction keeps, and it leaves room. -/
theorem makeRoom_spec {I : CacheService → Prop}
    (hevict : ∀ s order, I s → I (s.evictLowestScore order)) {size : Int}
    {orders : List (RangeOrder (String × CacheEntry))} {s s' : CacheService} (h : I s)
    (hroom : makeRoom size orders s = some s') : I s' ∧ s'.currentSize + size ≤ s'.maxSize := by
  induction orders generalizing s with
  | nil =>
    unfold makeRoom at hroom
    split at hroom
    · cases hroom
    · next hle =>
      cases hroom
      exact ⟨h, not_lt.mp hle⟩
  | cons order orders ih =>
    unfold makeRoom at hroom
    split at hroom
    · exact ih (hevict s order h) hroom
    · cases hroom

theorem get?_evictLowestScore {s : CacheService} {order : RangeOrder (String × CacheEntry)}
    {key : String} (h : s.cache.get? key = none) :
    (s.evictLowestScore order).cache.get? key = none := by
  unfold CacheService.evictLowestScore
  split
  · unfold CacheService.remove
    split
    · exact h
    · rw [Map.get?_remove, h, ite_self]
  · exact h

theorem Accounted.put {s s' : CacheService} (h : s.Accounted) {key : String}
    {value : Option Bytes} {vectorClock : VectorClock} {env : CacheEnv}
    (hput : s.put key value vectorClock env = some s') : s'.Accounted := by
  unfold CacheService.put at hput
  split at hput
  · next existing hget =>
    cases hput
    refine h.set ?_ ?_
    · exact h.key key existing hget
    · rw [Map.sum_set_of_some hget, ← h.size, sizeOf, sizeOf, h.key key existing hget]
  · next hget =>
    obtain ⟨s₁, hroom, rfl⟩ := Option.map_eq_some_iff.mp hput
    obtain ⟨⟨h₁, hget₁⟩, -⟩ := makeRoom_spec
      (I := fun s => s.Accounted ∧ s.cache.get? key = none)
      (fun s order hs => ⟨hs.1.evictLowestScore order, get?_evictLowestScore hs.2⟩) ⟨h, hget⟩ hroom
    refine h₁.set ?_ ?_
    · rfl
    · rw [Map.sum_set_of_none hget₁, ← h₁.size, sizeOf, add_comm]

theorem Accounted.call {s s' : CacheService} (h : s.Accounted) {c : CacheCall}
    (hcall : s.call c = some s') : s'.Accounted := by
  cases c with
  | get key score =>
    cases hcall
    exact h.get key score
  | put key value vectorClock env => exact h.put hcall
  | remove key =>
    cases hcall
    exact h.remove key

theorem accounted_new (maxSize : Int) : (new maxSize).Accounted := ⟨rfl, by simp [new, Map.get?_empty]⟩

/-! ## What was put last -/

/-- A call caches under a key what it puts there, what was there before, or nothing. -/
theorem lookup_call {s s' : CacheService} {c : CacheCall} (hcall : s.call c = some s')
    (key : String) : s'.lookup key = none ∨ s'.lookup key = (c.puts key).or (s.lookup key) := by
  cases c with
  | get k score =>
    cases hcall
    exact Or.inr (lookup_get s k score key)
  | remove k =>
    cases hcall
    rw [lookup_remove]
    by_cases hk : k = key
    · exact Or.inl (if_pos hk)
    · exact Or.inr (if_neg hk)
  | put k value vectorClock env =>
    by_cases hk : k = key
    · subst hk
      refine Or.inr ?_
      rw [lookup_put_self hcall, CacheCall.puts, if_pos rfl]
      rfl
    · rw [CacheCall.puts, if_neg hk]
      exact lookup_put_ne hcall hk

theorem lookup_of_run {maxSize : Int} {calls : List CacheCall} {s : CacheService}
    (hrun : run call (new maxSize) calls = some s) (key : String) :
    s.lookup key = none ∨ s.lookup key = lastPut key calls := by
  refine run_invariant_history (P := fun _ _ => True)
    (I := fun pre s => s.lookup key = none ∨ s.lookup key = lastPut key pre)
    ?_ calls [] (new maxSize) s (Or.inl rfl) (allSteps_trivial _ _) hrun
  intro pre s c s' hI _ hcall
  rw [lastPut_concat]
  rcases lookup_call hcall key with hnone | heq
  · exact Or.inl hnone
  · rw [heq]
    cases hputs : c.puts key with
    | some e => exact Or.inr rfl
    | none => simpa using hI

/-- **The accounting is exact.** -/
theorem accounting_exact {maxSize : Int} {calls : List CacheCall} {s : CacheService}
    (hrun : run call (new maxSize) calls = some s) :
    s.currentSize =
        Map.sum (fun _ e => (e.key.utf8ByteSize + valueLen e.value + 64 : Int)) s.cache ∧
      ∀ key entry, s.cache.get? key = some entry →
        entry.key = key ∧ lastPut key calls = some ⟨entry.value, entry.vectorClock⟩ := by
  have hacc : s.Accounted := run_invariant (P := fun _ _ => True)
    (fun _ _ _ h _ hcall => Accounted.call h hcall) (accounted_new maxSize)
    (allSteps_trivial _ _) hrun
  refine ⟨hacc.size, fun key entry hget => ⟨hacc.key key entry hget, ?_⟩⟩
  have hlookup : s.lookup key = some ⟨entry.value, entry.vectorClock⟩ := by
    rw [lookup, hget]
    rfl
  rcases lookup_of_run hrun key with hnone | heq
  · rw [hnone] at hlookup
    cases hlookup
  · rw [← heq, hlookup]

/-! ## The bound -/

/-- An update of a cached key finds room for what the new value adds. -/
def RoomForUpdate (s : CacheService) : CacheCall → Prop
  | .put key value _ _ => ∀ existing, s.cache.get? key = some existing →
      s.currentSize + (valueLen value - valueLen existing.value) ≤ s.maxSize
  | .get _ _ => True
  | .remove _ => True

/-- A condition on what is cached under a key can be computed. -/
instance decidableForallCached {P : CacheEntry → Prop} [DecidablePred P] :
    (o : Option CacheEntry) → Decidable (∀ e, o = some e → P e)
  | none => .isTrue (by simp)
  | some e => decidable_of_iff (P e) (by simp)

instance (s : CacheService) : (c : CacheCall) → Decidable (s.RoomForUpdate c)
  | .put key _ _ _ => decidableForallCached (s.cache.get? key)
  | .get _ _ => inferInstanceAs (Decidable True)
  | .remove _ => inferInstanceAs (Decidable True)

theorem maxSize_remove (s : CacheService) (key : String) : (s.remove key).maxSize = s.maxSize := by
  unfold CacheService.remove
  split <;> rfl

theorem maxSize_evictLowestScore (s : CacheService) (order : RangeOrder (String × CacheEntry)) :
    (s.evictLowestScore order).maxSize = s.maxSize := by
  unfold CacheService.evictLowestScore
  split
  · exact maxSize_remove s _
  · rfl

theorem maxSize_call {s s' : CacheService} {c : CacheCall} (hcall : s.call c = some s') :
    s'.maxSize = s.maxSize := by
  cases c with
  | get key score =>
    cases hcall
    unfold CacheService.get
    split <;> rfl
  | remove key =>
    cases hcall
    exact maxSize_remove s key
  | put key value vectorClock env =>
    simp only [call, CacheService.put] at hcall
    split at hcall
    · cases hcall
      rfl
    · obtain ⟨s₁, hroom, rfl⟩ := Option.map_eq_some_iff.mp hcall
      exact (makeRoom_spec (I := fun t => t.maxSize = s.maxSize)
        (fun t order ht => (maxSize_evictLowestScore t order).trans ht) rfl hroom).1

theorem currentSize_remove_le (s : CacheService) (key : String) :
    (s.remove key).currentSize ≤ s.currentSize := by
  unfold CacheService.remove
  split
  · exact le_rfl
  · next entry _ =>
    have hpos := entrySize_pos entry.key entry.value
    show s.currentSize - _ ≤ _
    omega

/-- An update changes the size by the difference of the values. -/
theorem currentSize_update {s s' : CacheService} (h : s.Accounted) {key : String}
    {existing : CacheEntry} (hget : s.cache.get? key = some existing) {value : Option Bytes}
    {vectorClock : VectorClock} {env : CacheEnv}
    (hput : s.put key value vectorClock env = some s') :
    s'.currentSize = s.currentSize + (valueLen value - valueLen existing.value) := by
  rw [CacheService.put, hget] at hput
  cases hput
  show s.currentSize - _ + _ = _
  rw [h.key key existing hget, entrySize, entrySize]
  ring

theorem currentSize_call_le {s s' : CacheService} (h : s.Accounted)
    (hle : s.currentSize ≤ s.maxSize) {c : CacheCall} (hroom : s.RoomForUpdate c)
    (hcall : s.call c = some s') : s'.currentSize ≤ s'.maxSize := by
  rw [maxSize_call hcall]
  cases c with
  | get key score =>
    cases hcall
    unfold CacheService.get
    split <;> exact hle
  | remove key =>
    cases hcall
    exact (currentSize_remove_le s key).trans hle
  | put key value vectorClock env =>
    cases hget : s.cache.get? key with
    | some existing =>
      rw [currentSize_update h hget hcall]
      exact hroom existing hget
    | none =>
      simp only [call, CacheService.put, hget] at hcall
      obtain ⟨s₁, hmade, rfl⟩ := Option.map_eq_some_iff.mp hcall
      obtain ⟨hmax, hfits⟩ := makeRoom_spec (I := fun t => t.maxSize = s.maxSize)
        (fun t order ht => (maxSize_evictLowestScore t order).trans ht) rfl hmade
      rw [← hmax]
      exact hfits

/-- **When the cache stays within its capacity.** -/
theorem bounded_iff {maxSize : Int} (hmax : 0 ≤ maxSize) {calls : List CacheCall}
    {s : CacheService} (hrun : run call (new maxSize) calls = some s) :
    (∀ pre s', pre <+: calls → run call (new maxSize) pre = some s' →
        s'.currentSize ≤ s'.maxSize) ↔
      AllSteps call RoomForUpdate (new maxSize) calls := by
  have haccounted : ∀ {pre s'}, run call (new maxSize) pre = some s' → s'.Accounted :=
    fun hpre => run_invariant (P := fun _ _ => True) (fun _ _ _ h _ hcall => Accounted.call h hcall)
      (accounted_new maxSize) (allSteps_trivial _ _) hpre
  constructor
  · intro hbound
    refine allSteps_of_splits fun pre c post s₁ hsplit hpre => ?_
    cases c with
    | get key score => trivial
    | remove key => trivial
    | put key value vectorClock env =>
      intro existing hget
      -- the update returns, so the state after it is within the bound as well
      obtain ⟨s₂, hput⟩ : ∃ s₂, s₁.put key value vectorClock env = some s₂ := by
        simp [CacheService.put, hget]
      have hpost : run call (new maxSize) (pre ++ [.put key value vectorClock env]) = some s₂ := by
        rw [run_append, hpre]
        exact run_cons.mpr ⟨s₂, hput, rfl⟩
      have hle := hbound _ s₂ ⟨post, by rw [hsplit, List.append_assoc]; rfl⟩ hpost
      rw [maxSize_call (c := .put key value vectorClock env) hput,
        currentSize_update (haccounted hpre) hget hput] at hle
      exact hle
  · rintro hall pre s' ⟨post, rfl⟩ hpre
    refine (run_invariant (P := RoomForUpdate)
      (I := fun t => t.Accounted ∧ t.currentSize ≤ t.maxSize) ?_ ⟨accounted_new maxSize, hmax⟩
      (allSteps_append.mp hall).1 hpre).2
    rintro t c t' ⟨hacc, hle⟩ hroom hcall
    exact ⟨hacc.call hcall, currentSize_call_le hacc hle hroom hcall⟩

/-! ## The loop of `Put` -/

/-- `Put` returns after at most as many evictions as there are entries, in whatever order Go walks
the map. -/
def Returns (s : CacheService) (key : String) (value : Option Bytes) : Prop :=
  ∀ (vectorClock : VectorClock) (score : ℚ) (orders : Nat → RangeOrder (String × CacheEntry)),
    ∃ n ≤ s.cache.keys.length,
      (s.put key value vectorClock ⟨score, (List.range n).map orders⟩).isSome = true

/-- An entry that evictions reach in every order: its score is below `1e9` and below that of the
empty key, which ends the evictions. -/
def Evictable (s : CacheService) (key : String) (e : CacheEntry) : Prop :=
  key ≠ "" ∧ e.score < 10 ^ 9 ∧ ∀ e₀, s.cache.get? "" = some e₀ → e.score < e₀.score

instance (s : CacheService) (key : String) (e : CacheEntry) : Decidable (s.Evictable key e) :=
  inferInstanceAs (Decidable (_ ∧ _ ∧ _))

/-- What evictions can free. -/
def evictableSize (s : CacheService) : Int :=
  Map.sum (fun key e => if s.Evictable key e then entrySize e.key e.value else 0) s.cache

/-- The fold of `evictLowestScore` ends with the start, or with an entry of the lowest score. -/
theorem foldl_lowest (l : List (String × CacheEntry)) (start : String × ℚ) :
    let step := fun (lowest : String × ℚ) (p : String × CacheEntry) =>
      if p.2.score < lowest.2 then (p.1, p.2.score) else lowest
    (l.foldl step start = start ∧ ∀ p ∈ l, start.2 ≤ p.2.score) ∨
      ∃ p ∈ l, l.foldl step start = (p.1, p.2.score) ∧ p.2.score < start.2 ∧
        ∀ q ∈ l, p.2.score ≤ q.2.score := by
  intro step
  induction l generalizing start with
  | nil => exact Or.inl ⟨rfl, by simp⟩
  | cons a l ih =>
    rw [List.foldl_cons]
    by_cases ha : a.2.score < start.2
    · have hstep : step start a = (a.1, a.2.score) := if_pos ha
      rw [hstep]
      refine Or.inr ?_
      rcases ih (a.1, a.2.score) with ⟨heq, hall⟩ | ⟨p, hp, heq, hlt, hall⟩
      · refine ⟨a, by simp, heq, ha, fun q hq => ?_⟩
        rcases List.mem_cons.mp hq with rfl | hq
        · exact le_rfl
        · exact hall q hq
      · refine ⟨p, by simp [hp], heq, hlt.trans ha, fun q hq => ?_⟩
        rcases List.mem_cons.mp hq with rfl | hq
        · exact hlt.le
        · exact hall q hq
    · have hstep : step start a = start := if_neg ha
      rw [hstep]
      rcases ih start with ⟨heq, hall⟩ | ⟨p, hp, heq, hlt, hall⟩
      · refine Or.inl ⟨heq, fun q hq => ?_⟩
        rcases List.mem_cons.mp hq with rfl | hq
        · exact not_lt.mp ha
        · exact hall q hq
      · refine Or.inr ⟨p, by simp [hp], heq, hlt, fun q hq => ?_⟩
        rcases List.mem_cons.mp hq with rfl | hq
        · exact (hlt.trans_le (not_lt.mp ha)).le
        · exact hall q hq

/-- What an eviction takes. -/
theorem lowestKey_cases (s : CacheService) (order : RangeOrder (String × CacheEntry)) :
    (s.lowestKey order = "" ∧ ∀ key e, s.cache.get? key = some e → 10 ^ 9 ≤ e.score) ∨
      ∃ key e, s.cache.get? key = some e ∧ s.lowestKey order = key ∧ e.score < 10 ^ 9 ∧
        ∀ k e', s.cache.get? k = some e' → e.score ≤ e'.score := by
  have hmem : ∀ p, p ∈ order.visit s.cache.toPairs ↔ s.cache.get? p.1 = some p.2 := fun p => by
    rw [(order.perm _).mem_iff, Map.mem_toPairs_iff]
  rcases foldl_lowest (order.visit s.cache.toPairs) ("", 10 ^ 9) with
    ⟨heq, hall⟩ | ⟨p, hp, heq, hlt, hall⟩
  · exact Or.inl ⟨congrArg Prod.fst heq, fun key e hget => hall (key, e) ((hmem _).mpr hget)⟩
  · exact Or.inr ⟨p.1, p.2, (hmem p).mp hp, congrArg Prod.fst heq, hlt,
      fun k e' hget => hall (k, e') ((hmem _).mpr hget)⟩

/-- If something is evictable, it is evicted. -/
theorem exists_evicted {s : CacheService} {key : String} {e : CacheEntry}
    (hget : s.cache.get? key = some e) (he : s.Evictable key e)
    (order : RangeOrder (String × CacheEntry)) :
    ∃ k e', s.cache.get? k = some e' ∧ s.Evictable k e' ∧
      s.evictLowestScore order = s.remove k := by
  rcases lowestKey_cases s order with ⟨-, hall⟩ | ⟨k, e', hk, hlowest, hlt, hall⟩
  · exact absurd he.2.1 (not_lt.mpr (hall key e hget))
  · have hne : k ≠ "" := by
      rintro rfl
      exact absurd (hall key e hget) (not_le.mpr (he.2.2 e' hk))
    refine ⟨k, e', hk, ⟨hne, hlt, fun e₀ h₀ => (hall key e hget).trans_lt (he.2.2 e₀ h₀)⟩, ?_⟩
    rw [CacheService.evictLowestScore, hlowest, if_pos hne]

/-- The eviction of an evictable entry frees what it takes off `evictableSize`. -/
theorem size_remove_evictable {s : CacheService} {key : String} {e : CacheEntry}
    (hget : s.cache.get? key = some e) (he : s.Evictable key e) :
    (s.remove key).currentSize - (s.remove key).evictableSize =
      s.currentSize - s.evictableSize := by
  have hremove : s.remove key = { s with
      cache := s.cache.remove key
      currentSize := s.currentSize - entrySize e.key e.value } := by
    rw [CacheService.remove, hget]
  -- the entry of the empty key stays
  have hempty : (s.remove key).cache.get? "" = s.cache.get? "" := by
    rw [hremove]
    exact (Map.get?_remove _ _ _).trans (if_neg he.1)
  have hsame : ∀ k e', (s.remove key).Evictable k e' ↔ s.Evictable k e' := fun k e' => by
    rw [Evictable, Evictable, hempty]
  have hsum : (s.remove key).evictableSize =
      Map.sum (fun k e' => if s.Evictable k e' then entrySize e'.key e'.value else 0)
        (s.cache.remove key) := by
    rw [evictableSize]
    simp only [hsame]
    rw [hremove]
  rw [hsum, evictableSize, Map.sum_eq_remove hget, if_pos he, hremove]
  ring

theorem evictableSize_nonneg (s : CacheService) : 0 ≤ s.evictableSize :=
  Map.sum_nonneg fun _ e _ => by
    split
    · exact (entrySize_pos e.key e.value).le
    · exact le_rfl

/-- Without an evictable entry nothing can be freed. -/
theorem evictableSize_eq_zero {s : CacheService}
    (h : ∀ key e, s.cache.get? key = some e → ¬ s.Evictable key e) : s.evictableSize = 0 :=
  Map.sum_eq_zero fun key e hget => if_neg (h key e hget)

/-- If enough can be freed, the loop ends. The induction is on the number of entries. -/
theorem exists_makeRoom {s : CacheService} {size : Int}
    (hfits : s.currentSize - s.evictableSize + size ≤ s.maxSize)
    (orders : Nat → RangeOrder (String × CacheEntry)) :
    ∃ n ≤ s.cache.keys.length, (makeRoom size ((List.range n).map orders) s).isSome = true := by
  induction hn : s.cache.keys.length generalizing s orders with
  | zero =>
    have hnone : ∀ key, s.cache.get? key = none := fun key => by
      rw [Map.get?_eq_none_iff, List.length_eq_zero_iff.mp hn]
      simp
    have hzero : s.evictableSize = 0 := evictableSize_eq_zero fun key e hget => by
      rw [hnone key] at hget
      cases hget
    refine ⟨0, le_rfl, ?_⟩
    rw [hzero] at hfits
    simp only [List.range_zero, List.map_nil, makeRoom]
    rw [if_neg (by omega)]
    rfl
  | succ m ih =>
    by_cases hroom : s.currentSize + size ≤ s.maxSize
    · refine ⟨0, Nat.zero_le _, ?_⟩
      simp only [List.range_zero, List.map_nil, makeRoom]
      rw [if_neg (not_lt.mpr hroom)]
      rfl
    · have hex : ∃ key e, s.cache.get? key = some e ∧ s.Evictable key e := by
        by_contra hno
        push Not at hno
        rw [evictableSize_eq_zero hno] at hfits
        omega
      obtain ⟨key, e, hget, he⟩ := hex
      obtain ⟨k, e', hk, he', hevict⟩ := exists_evicted hget he (orders 0)
      have hlen : (s.remove k).cache.keys.length = m := by
        have hkeys := Map.length_keys_remove hk
        rw [CacheService.remove, hk]
        show (s.cache.remove k).keys.length = m
        omega
      obtain ⟨n, hle, hsome⟩ := ih (s := s.remove k)
        (by rw [size_remove_evictable hk he', maxSize_remove]; exact hfits)
        (fun i => orders (i + 1)) hlen
      refine ⟨n + 1, by omega, ?_⟩
      rw [List.range_succ_eq_map, List.map_cons, List.map_map, makeRoom,
        if_pos (not_le.mp hroom), hevict]
      exact hsome

/-- The order that visits the empty key first. -/
def emptyKeyFirst : RangeOrder (String × CacheEntry) where
  visit l := l.filter (fun p => p.1 = "") ++ l.filter (fun p => ¬ p.1 = "")
  perm l := by simpa using List.filter_append_perm (fun p : String × CacheEntry => p.1 = "") l

/-- If nothing is evictable, an eviction that visits the empty key first takes nothing. -/
theorem evictLowestScore_emptyKeyFirst {s : CacheService}
    (h : ∀ key e, s.cache.get? key = some e → ¬ s.Evictable key e) :
    s.evictLowestScore emptyKeyFirst = s := by
  have hempty : s.lowestKey emptyKeyFirst = "" := by
    unfold lowestKey
    simp only [emptyKeyFirst, List.foldl_append]
    -- after the first part the key is the empty one, with its score if that is below `1e9`
    obtain ⟨r, hfirst, hle, hall⟩ : ∃ r : ℚ,
        (s.cache.toPairs.filter fun p => p.1 = "").foldl
          (fun (lowest : String × ℚ) p => if p.2.score < lowest.2 then (p.1, p.2.score) else lowest)
          ("", 10 ^ 9) = ("", r) ∧ r ≤ 10 ^ 9 ∧
        ∀ p ∈ s.cache.toPairs.filter (fun p => p.1 = ""), r ≤ p.2.score := by
      rcases foldl_lowest (s.cache.toPairs.filter fun p => p.1 = "") ("", 10 ^ 9) with
        ⟨heq, hall⟩ | ⟨p, hp, heq, hlt, hall⟩
      · exact ⟨10 ^ 9, heq, le_rfl, hall⟩
      · have hkey : p.1 = "" := of_decide_eq_true (List.mem_filter.mp hp).2
        rw [hkey] at heq
        exact ⟨p.2.score, heq, hlt.le, hall⟩
    rw [hfirst]
    rcases foldl_lowest (s.cache.toPairs.filter fun p => ¬ p.1 = "") ("", r) with
      ⟨heq, -⟩ | ⟨p, hp, -, hlt, -⟩
    · exact congrArg Prod.fst heq
    · obtain ⟨hmem, hne⟩ := List.mem_filter.mp hp
      have hget := (Map.mem_toPairs_iff s.cache p.1 p.2).mp hmem
      refine absurd ⟨of_decide_eq_true hne, hlt.trans_le hle, fun e₀ h₀ => ?_⟩ (h p.1 p.2 hget)
      exact hlt.trans_le (hall ("", e₀) (List.mem_filter.mpr
        ⟨(Map.mem_toPairs_iff s.cache "" e₀).mpr h₀, by simp⟩))
  rw [CacheService.evictLowestScore, hempty, if_neg (by simp)]

/-- If not enough can be freed, there is an order in which the loop does not end. -/
theorem makeRoom_eq_none {s : CacheService} {size : Int}
    (hfits : s.maxSize < s.currentSize - s.evictableSize + size) (n : Nat) :
    makeRoom size ((List.range n).map fun _ => emptyKeyFirst) s = none := by
  have hfull : ∀ {s : CacheService}, s.maxSize < s.currentSize - s.evictableSize + size →
      s.currentSize + size > s.maxSize := fun {s} hfits => by
    have hnonneg := evictableSize_nonneg s
    omega
  induction n generalizing s with
  | zero => exact if_pos (hfull hfits)
  | succ n ih =>
    rw [List.range_succ_eq_map, List.map_cons, List.map_map, makeRoom, if_pos (hfull hfits)]
    by_cases hex : ∃ key e, s.cache.get? key = some e ∧ s.Evictable key e
    · obtain ⟨key, e, hget, he⟩ := hex
      obtain ⟨k, e', hk, he', hevict⟩ := exists_evicted hget he emptyKeyFirst
      rw [hevict]
      exact ih (by rw [size_remove_evictable hk he', maxSize_remove]; exact hfits)
    · push Not at hex
      rw [evictLowestScore_emptyKeyFirst hex]
      exact ih hfits

theorem isSome_put_new {s : CacheService} {key : String} (hget : s.cache.get? key = none)
    (value : Option Bytes) (vectorClock : VectorClock) (env : CacheEnv) :
    (s.put key value vectorClock env).isSome =
      (makeRoom (entrySize key value) env.orders s).isSome := by
  rw [CacheService.put, hget, Option.isSome_map]

theorem not_returns {s : CacheService} {key : String} (hget : s.cache.get? key = none)
    {value : Option Bytes}
    (hfits : s.maxSize < s.currentSize - s.evictableSize + entrySize key value) :
    ¬ s.Returns key value := by
  intro hreturns
  obtain ⟨n, -, hsome⟩ := hreturns ⟨[]⟩ 0 fun _ => emptyKeyFirst
  rw [isSome_put_new hget, makeRoom_eq_none hfits] at hsome
  cases hsome

/-- **When `Put` returns.** The key is cached, or the entry fits beside what evictions cannot
free. -/
theorem put_returns_iff (s : CacheService) (key : String) (value : Option Bytes) :
    s.Returns key value ↔
      (s.cache.get? key).isSome = true ∨
        s.currentSize - s.evictableSize + entrySize key value ≤ s.maxSize := by
  constructor
  · intro hreturns
    by_contra hno
    rw [not_or, Option.not_isSome_iff_eq_none, not_le] at hno
    exact not_returns hno.1 hno.2 hreturns
  · intro h vectorClock score orders
    cases hget : s.cache.get? key with
    | some existing => exact ⟨0, Nat.zero_le _, by simp [CacheService.put, hget]⟩
    | none =>
      rw [hget, Option.isSome_none, Bool.false_eq_true, false_or] at h
      obtain ⟨n, hle, hsome⟩ := exists_makeRoom h orders
      exact ⟨n, hle, by rw [isSome_put_new hget]; exact hsome⟩

end CacheService

/-! ## Runs -/

namespace Sample

open CacheService

/-- A value is put, read, replaced and evicted by another one. -/
def cacheCalls : List CacheCall :=
  [.put "t:a" (some [1]) ⟨[]⟩ ⟨1, []⟩, .get "t:a" 2, .put "t:a" (some [2, 3]) ⟨[⟨"c", 1⟩]⟩ ⟨3, []⟩,
    .put "t:b" none ⟨[]⟩ ⟨1, [RangeOrder.asHeld _]⟩, .remove "t:c"]

/-- A value is replaced by a longer one. -/
def growingUpdate : List CacheCall :=
  [.put "t:a" (some [1]) ⟨[]⟩ ⟨1, []⟩, .put "t:a" (some [1, 2]) ⟨[]⟩ ⟨1, []⟩]

end Sample

open Sample CacheService

theorem accounting_exact_cacheCalls : ∃ s, run call (new 70) cacheCalls = some s ∧
    s.currentSize =
        Map.sum (fun _ e => (e.key.utf8ByteSize + valueLen e.value + 64 : Int)) s.cache ∧
      ∀ key entry, s.cache.get? key = some entry →
        entry.key = key ∧ lastPut key cacheCalls = some ⟨entry.value, entry.vectorClock⟩ := by
  have hsome : (run call (new 70) cacheCalls).isSome = true := by decide +kernel
  obtain ⟨s, hs⟩ := Option.isSome_iff_exists.mp hsome
  exact ⟨s, hs, accounting_exact hs⟩

theorem bounded_iff_cacheCalls :
    AllSteps call RoomForUpdate (new 70) cacheCalls ∧
      ∀ pre s', pre <+: cacheCalls → run call (new 70) pre = some s' →
        s'.currentSize ≤ s'.maxSize := by
  have hsome : (run call (new 70) cacheCalls).isSome = true := by decide +kernel
  obtain ⟨s, hs⟩ := Option.isSome_iff_exists.mp hsome
  have hall : AllSteps call RoomForUpdate (new 70) cacheCalls := by decide +kernel
  exact ⟨hall, (bounded_iff (by decide) hs).mpr hall⟩

/-- The cache exceeds its capacity by an update. -/
theorem growingUpdate_exceeds : ∃ s, run call (new 68) growingUpdate = some s ∧
    ¬ s.currentSize ≤ s.maxSize := by
  have hmap : (run call (new 68) growingUpdate).map
      (fun s => decide (s.currentSize ≤ s.maxSize)) = some false := by decide +kernel
  obtain ⟨s, hs, hsize⟩ := Option.map_eq_some_iff.mp hmap
  exact ⟨s, hs, of_decide_eq_false hsize⟩

/-- A value that is larger than the cache is never cached. -/
theorem large_value_not_returns : ¬ (new 100).Returns "t:a" (some (List.replicate 100 0)) :=
  not_returns rfl (by decide +kernel)

end PairDB.StorageNode
