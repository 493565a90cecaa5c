import PairDB.Coordinator.Properties.Idempotency

/-!
# Whose response is found

`buildStoreKey` joins tenant, key and idempotency key with colons, and all three can have colons
themselves. So one request can be answered with the response of another one. Whether that can happen
to a stored response is decided by its own three parts (`answeredFrom_same_iff`): the place has to
have only one reading in which the idempotency key is not empty.
-/

namespace PairDB.Coordinator

open Infra

/-! ## Reading the place of a response -/

/-- The first separator ends the first part, or it is inside the other first part. -/
theorem eq_or_of_separator {α : Type*} {c : α} {a b x y : List α} (ha : c ∉ a)
    (h : a ++ c :: x = b ++ c :: y) :
    (a = b ∧ x = y) ∨ ∃ w, b = a ++ c :: w ∧ x = w ++ c :: y := by
  rcases List.append_eq_append_iff.mp h with ⟨w, rfl, hw⟩ | ⟨w, rfl, hw⟩
  · cases w with
    | nil => exact Or.inl ⟨(List.append_nil a).symm, by simpa using hw⟩
    | cons d w =>
      simp only [List.cons_append, List.cons.injEq] at hw
      obtain ⟨rfl, rfl⟩ := hw
      exact Or.inr ⟨w, rfl, rfl⟩
  · cases w with
    | nil => exact Or.inl ⟨List.append_nil b, by simpa using hw.symm⟩
    | cons d w =>
      simp only [List.cons_append, List.cons.injEq] at hw
      obtain ⟨rfl, -⟩ := hw
      exact absurd (by simp) ha

/-- Neither the tenant nor the key has a colon, and the idempotency key has none that something
follows. -/
structure Unambiguous (tenantID key idempotencyKey : String) : Prop where
  tenantID : ':' ∉ tenantID.toList
  key : ':' ∉ key.toList
  idempotencyKey : ':' ∉ idempotencyKey.toList.dropLast

theorem buildStoreKey_eq_iff {t k i t' k' i' : String} :
    buildStoreKey t k i = buildStoreKey t' k' i' ↔
      t.toList ++ ':' :: (k.toList ++ ':' :: i.toList) =
        t'.toList ++ ':' :: (k'.toList ++ ':' :: i'.toList) := by
  rw [← String.toList_inj]
  simp [buildStoreKey]

/-- A colon that something follows. -/
theorem mem_dropLast_of_follows {w z : List Char} (hz : z ≠ []) :
    ':' ∈ (w ++ ':' :: z).dropLast := by
  rw [List.dropLast_append_cons, List.dropLast_cons_of_ne_nil hz]
  simp

/-- An unambiguous place has one reading. -/
theorem Unambiguous.eq_of_buildStoreKey {t k i t' k' i' : String} (h : Unambiguous t k i)
    (hi' : i' ≠ "") (heq : buildStoreKey t' k' i' = buildStoreKey t k i) :
    t' = t ∧ k' = k ∧ i' = i := by
  have hne : i'.toList ≠ [] := fun hnil => hi' (String.toList_eq_nil_iff.mp hnil)
  have hne' : k'.toList ++ ':' :: i'.toList ≠ [] := by simp
  rcases eq_or_of_separator h.tenantID (buildStoreKey_eq_iff.mp heq.symm) with
    ⟨ht, hrest⟩ | ⟨w, -, hrest⟩
  · rcases eq_or_of_separator h.key hrest with ⟨hk, hi⟩ | ⟨w, -, hi⟩
    · exact ⟨(String.toList_inj.mp ht).symm, (String.toList_inj.mp hk).symm,
        (String.toList_inj.mp hi).symm⟩
    · exact absurd (hi ▸ mem_dropLast_of_follows hne) h.idempotencyKey
  · rcases eq_or_of_separator h.key hrest with ⟨-, hi⟩ | ⟨w', -, hi⟩
    · exact absurd (hi ▸ mem_dropLast_of_follows hne) h.idempotencyKey
    · exact absurd (hi ▸ mem_dropLast_of_follows hne') h.idempotencyKey

theorem ofList_ne_of_length {l : List Char} {s : String} (h : l.length < s.toList.length) :
    String.ofList l ≠ s := by
  rintro rfl
  simp at h

/-- An ambiguous place has another reading. -/
theorem exists_other_reading {t k i : String} (h : ¬ Unambiguous t k i) :
    ∃ t' k' i' : String, i' ≠ "" ∧ buildStoreKey t' k' i' = buildStoreKey t k i ∧
      ¬ (t' = t ∧ k' = k ∧ i' = i) := by
  have hne : ∀ l l' : List Char, String.ofList (l ++ ':' :: l') ≠ "" := by
    intro l l' hempty
    have := congrArg String.toList hempty
    simp at this
  by_cases ht : ':' ∈ t.toList
  · -- the tenant ends at a colon inside it
    obtain ⟨u, v, huv⟩ := List.append_of_mem ht
    refine ⟨String.ofList u, String.ofList v, String.ofList (k.toList ++ ':' :: i.toList),
      hne _ _, ?_, fun hsame => ofList_ne_of_length (by simp [huv]) hsame.1⟩
    simp [buildStoreKey_eq_iff, huv]
  by_cases hk : ':' ∈ k.toList
  · -- the key ends at a colon inside it
    obtain ⟨u, v, huv⟩ := List.append_of_mem hk
    refine ⟨t, String.ofList u, String.ofList (v ++ ':' :: i.toList), hne _ _, ?_,
      fun hsame => ofList_ne_of_length (by simp [huv]) hsame.2.1⟩
    simp [buildStoreKey_eq_iff, huv]
  by_cases hi : ':' ∈ i.toList.dropLast
  · -- the key goes on up to a colon inside the idempotency key
    obtain ⟨u, v, z, huv⟩ : ∃ u v z, i.toList = u ++ ':' :: (v ++ [z]) := by
      obtain ⟨u, v, huv⟩ := List.append_of_mem hi
      have hnil : i.toList ≠ [] := by
        rintro hnil
        simp [hnil] at hi
      have hlast := List.dropLast_append_getLast hnil
      rw [huv, List.append_assoc, List.cons_append] at hlast
      exact ⟨u, v, i.toList.getLast hnil, hlast.symm⟩
    refine ⟨t, String.ofList (k.toList ++ ':' :: u), String.ofList (v ++ [z]), ?_, ?_,
      fun hsame => ofList_ne_of_length (by simp [huv]; omega) hsame.2.2⟩
    · intro hempty
      have := congrArg String.toList hempty
      simp at this
    · simp [buildStoreKey_eq_iff, huv]
  · exact absurd ⟨ht, hk, hi⟩ h

/-! ## Requests that are answered -/

namespace Deduplicated

variable {svc : IdempotencyService} {s : Deduplicated} {env env' : WriteEnv}
  {req req' : WriteRequest} {consistency : String} {result : WriteResult}

/-- The idempotency key under which the response of a request is stored. -/
def effectiveKey (env : WriteEnv) (req : WriteRequest) : String :=
  if req.idempotencyKey ≠ "" then req.idempotencyKey else env.generated

/-- The state without the entry in a place. -/
def without (s : Deduplicated) (storeKey : String) : Deduplicated :=
  { s with store := s.store.remove storeKey }

/-- `WriteKeyValue` answers the request as a duplicate, and it would not if the entry in the place
were not there. -/
def AnsweredFrom (svc : IdempotencyService) (s : Deduplicated) (storeKey : String)
    (env : WriteEnv) (req : WriteRequest) : Prop :=
  (∃ answer, (s.writeKeyValue svc env req).2 = .ok answer ∧ answer.isDuplicate = true) ∧
    ∀ answer, ((s.without storeKey).writeKeyValue svc env req).2 = .ok answer →
      answer.isDuplicate = false

theorem place_eq (env : WriteEnv) (req : WriteRequest) :
    place env req = buildStoreKey req.tenantID req.key (effectiveKey env req) := by
  unfold place effectiveKey
  split <;> rfl

/-- A duplicate was found in the place of the request. -/
theorem exists_get_of_duplicate {answer : WriteResult}
    (h : (s.writeKeyValue svc env req).2 = .ok answer) (hdup : answer.isDuplicate = true) :
    req.idempotencyKey ≠ "" ∧
      (∃ r, svc.get s.store env.now env.getError req.storeKey = .ok (some r)) ∧
      ∃ level, ConsistencyService.normalizeConsistencyLevel env.defaultLevel req.consistency =
        .ok level := by
  rcases hcheck : s.check svc env req with early | ⟨level, place⟩
  · have hanswer : early = .ok answer := by simpa [writeKeyValue, hcheck] using h
    rw [hanswer] at hcheck
    obtain ⟨r, hget, -⟩ := check_eq_error hcheck
    unfold check at hcheck
    split at hcheck
    · cases hcheck
    · next level hlevel =>
      split at hcheck
      · next hkey => exact ⟨hkey, ⟨r, hget⟩, level, hlevel⟩
      · cases hcheck
  · -- what a write returns is no duplicate
    rcases hex : s.execute env req level with ⟨s₁, written⟩
    simp only [writeKeyValue, hcheck, hex] at h
    obtain ⟨-, ⟨-, err, rfl⟩ | ⟨-, -, err, rfl⟩ | ⟨-, res, rfl, -, hfalse⟩⟩ := execute_cases hex
    · cases h
    · cases h
    · cases h
      rw [hfalse] at hdup
      cases hdup

/-- A response that is found is the answer. -/
theorem duplicate_of_get {r : IdempotencyResponse} {level : String} (hkey : req.idempotencyKey ≠ "")
    (hlevel : ConsistencyService.normalizeConsistencyLevel env.defaultLevel req.consistency =
      .ok level)
    (hget : svc.get s.store env.now env.getError req.storeKey = .ok (some r)) :
    (s.writeKeyValue svc env req).2 = .ok (duplicate req r) := by
  rw [writeKeyValue, check_of_get hkey hlevel hget]

theorem get_without_of_ne {storeKey : String} (hne : storeKey ≠ req.storeKey) :
    svc.get (s.without storeKey).store env.now env.getError req.storeKey =
      svc.get s.store env.now env.getError req.storeKey := by
  have hlookup : (s.without storeKey).store.lookup env.now req.storeKey =
      s.store.lookup env.now req.storeKey := by
    rw [IdempotencyStore.lookup, without, Map.get?_remove, if_neg hne]
    rfl
  unfold IdempotencyService.get
  rw [hlookup]

/-- A request that is answered from an entry looks in its place. -/
theorem AnsweredFrom.storeKey_eq {storeKey : String} (h : AnsweredFrom svc s storeKey env req) :
    req.idempotencyKey ≠ "" ∧ req.storeKey = storeKey := by
  obtain ⟨⟨answer, hanswer, hdup⟩, hwithout⟩ := h
  obtain ⟨hkey, ⟨r, hget⟩, level, hlevel⟩ := exists_get_of_duplicate hanswer hdup
  refine ⟨hkey, by_contra fun hne => ?_⟩
  rw [← get_without_of_ne (Ne.symm hne)] at hget
  cases hwithout _ (duplicate_of_get hkey hlevel hget)

/-- A request with the place of a stored response is answered from it. -/
theorem answeredFrom_of_storeKey (htyped : svc.format.Typed) (hset : env.setError = none)
    (hkey : req'.idempotencyKey ≠ "") (hplace : req'.storeKey = place env req)
    (hone : req'.consistency = "one") :
    AnsweredFrom svc (s.storeResponse svc env req consistency (place env req) result)
      (place env req) { env with getError := none } req' := by
  have hlevel : ConsistencyService.normalizeConsistencyLevel env.defaultLevel req'.consistency =
      .ok "one" := by
    rw [hone]
    rfl
  have hlookup : (s.storeResponse svc env req consistency (place env req) result).store.lookup
      env.now req'.storeKey = some (svc.format.marshal (responseOf env req consistency result)) := by
    simp only [storeResponse, hset]
    rw [IdempotencyStore.lookup_eq_some, IdempotencyStore.get?_put, if_pos hplace.symm]
    refine ⟨_, rfl, fun e he => ?_⟩
    split at he
    · next httl =>
      cases he
      omega
    · cases he
  refine ⟨⟨_, duplicate_of_get hkey hlevel (IdempotencyService.get_eq_some.mpr
    ⟨rfl, _, hlookup, htyped _⟩), rfl⟩, fun answer hanswer => Bool.eq_false_iff.mpr fun hdup => ?_⟩
  -- without the entry there is nothing in the place
  obtain ⟨-, ⟨r, hget⟩, -⟩ := exists_get_of_duplicate hanswer hdup
  obtain ⟨-, data, hdata, -⟩ := IdempotencyService.get_eq_some.mp hget
  obtain ⟨expiry, hentry, -⟩ := IdempotencyStore.lookup_eq_some.mp hdata
  rw [without, Map.get?_remove, if_pos hplace.symm] at hentry
  cases hentry

/-- **When only the same request is answered with a response.** For every request whose response is
stored, over a store that gives back what it was given: whatever the state before, every request that
is answered from this response has the same tenant, key and idempotency key, exactly if the three are
`Unambiguous`. -/
theorem answeredFrom_same_iff (htyped : svc.format.Typed) (hset : env.setError = none) :
    (∀ (s : Deduplicated) (consistency : String) (result : WriteResult) env' req',
      AnsweredFrom svc (s.storeResponse svc env req consistency (place env req) result)
        (place env req) env' req' →
      req'.tenantID = req.tenantID ∧ req'.key = req.key ∧
        req'.idempotencyKey = effectiveKey env req) ↔
      Unambiguous req.tenantID req.key (effectiveKey env req) := by
  constructor
  · intro h
    by_contra hnot
    obtain ⟨t, k, i, hi, heq, hother⟩ := exists_other_reading hnot
    have hplace : (⟨t, k, [], "one", i⟩ : WriteRequest).storeKey = place env req :=
      heq.trans (place_eq env req).symm
    exact hother (h init "" ⟨true, "", VectorClock.empty, 0, "", false, ""⟩ _ ⟨t, k, [], "one", i⟩
      (answeredFrom_of_storeKey htyped hset hi hplace rfl))
  · intro h s consistency result env' req' hanswered
    obtain ⟨hkey, hplace⟩ := hanswered.storeKey_eq
    rw [place_eq] at hplace
    exact h.eq_of_buildStoreKey hkey hplace

open Sample in
theorem answeredFrom_same_put : Unambiguous "t" "k" "i" ∧
    ∀ (s : Deduplicated) consistency result env' req',
      AnsweredFrom (service typedFormat) (s.storeResponse (service typedFormat) healthy put
        consistency (place healthy put) result) (place healthy put) env' req' →
      req'.tenantID = "t" ∧ req'.key = "k" ∧ req'.idempotencyKey = "i" := by
  have hplain : Unambiguous "t" "k" "i" := ⟨by decide, by decide, by decide⟩
  exact ⟨hplain, (answeredFrom_same_iff typed_typedFormat rfl).mpr hplain⟩

open Sample in
/-- Tenant `t:k` writes `l`, and tenant `t` gets its response for the key `k`. -/
theorem other_tenant_answered :
    let first := init.writeKeyValue (service typedFormat) healthy ⟨"t:k", "l", [1], "one", "i"⟩
    let second := first.1.writeKeyValue (service typedFormat) healthy ⟨"t", "k", [2], "one", "l:i"⟩
    first.2.toOption.map WriteResult.isDuplicate = some false ∧
      second.2.toOption.map WriteResult.isDuplicate = some true ∧
      second.1.writes = [⟨"t:k", "l", [1], "one", "i"⟩] := by
  decide +kernel

end Deduplicated

end PairDB.Coordinator
