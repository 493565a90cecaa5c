import Mathlib

/-!
# Hash maps

A map is Mathlib's `AList`: a list of entries with distinct keys. What an implementation leaves
open is the order in which the entries are visited, so a function that walks a map takes that order
as an argument (`RangeOrder`).
-/

namespace Infra

/-- A finite map from `α` to `β`. -/
abbrev Map (α β : Type) := AList (fun _ : α => β)

namespace Map

variable {α β : Type}

/-- The entries as pairs, in the order in which the list holds them. -/
def toPairs (m : Map α β) : List (α × β) := m.entries.map fun e => (e.1, e.2)

theorem toPairs_nodup (m : Map α β) : ((toPairs m).map Prod.fst).Nodup := by
  have h := m.nodupKeys
  rw [List.NodupKeys, List.keys] at h
  simpa [toPairs, Function.comp_def] using h

theorem mem_keys_iff_toPairs (m : Map α β) (a : α) : a ∈ m.keys ↔ a ∈ (toPairs m).map Prod.fst := by
  simp [toPairs, AList.keys, List.keys, Function.comp_def]

variable [DecidableEq α]

/-- `m[a]`, with the second result of Go's lookup in the `Option`. -/
def get? (m : Map α β) (a : α) : Option β := AList.lookup a m

/-- `m[a] = b`. -/
def set (m : Map α β) (a : α) (b : β) : Map α β := AList.insert a b m

/-- `delete(m, a)`. -/
def remove (m : Map α β) (a : α) : Map α β := AList.erase a m

theorem get?_empty (a : α) : get? (∅ : Map α β) a = none := rfl

theorem get?_set (m : Map α β) (a c : α) (b : β) :
    get? (set m a b) c = if a = c then some b else get? m c := by
  unfold get? set
  split
  · next h => rw [← h]; exact AList.lookup_insert m
  · next h => exact AList.lookup_insert_ne (Ne.symm h)

theorem get?_remove (m : Map α β) (a c : α) :
    get? (remove m a) c = if a = c then none else get? m c := by
  unfold get? remove
  split
  · next h => rw [← h]; exact AList.lookup_erase a m
  · next h => exact AList.lookup_erase_ne (Ne.symm h)

theorem get?_eq_none_iff (m : Map α β) (a : α) : get? m a = none ↔ a ∉ m.keys := by
  rw [get?, AList.lookup_eq_none, AList.mem_keys]

theorem mem_toPairs_iff (m : Map α β) (a : α) (b : β) :
    (a, b) ∈ toPairs m ↔ get? m a = some b := by
  rw [get?, ← Option.mem_def, AList.mem_lookup_iff]
  simp only [toPairs, List.mem_map, Prod.mk.injEq]
  constructor
  · rintro ⟨⟨x, y⟩, hm, rfl, rfl⟩
    exact hm
  · intro hm
    exact ⟨⟨a, b⟩, hm, rfl, rfl⟩

/-! ## Maps built from a list -/

/-- Insert the pairs from left to right, so that the last one for a key wins. -/
def ofList (l : List (α × β)) : Map α β := l.foldl (fun m p => set m p.1 p.2) ∅

theorem get?_ofList_nil (a : α) : get? (ofList ([] : List (α × β))) a = none := rfl

theorem get?_ofList_concat (l : List (α × β)) (p : α × β) (a : α) :
    get? (ofList (l ++ [p])) a = if p.1 = a then some p.2 else get? (ofList l) a := by
  rw [ofList, List.foldl_append, List.foldl_cons, List.foldl_nil, get?_set, ofList]

theorem mem_of_get?_ofList {l : List (α × β)} {a : α} {b : β} (h : get? (ofList l) a = some b) :
    (a, b) ∈ l := by
  induction l using List.reverseRecOn with
  | nil => cases h
  | append_singleton l p ih =>
    rw [get?_ofList_concat] at h
    rw [List.mem_append, List.mem_singleton]
    split at h
    · next hp => exact Or.inr (by rw [← hp, ← Option.some.inj h])
    · exact Or.inl (ih h)

/-- With distinct keys the order of the pairs does not matter. -/
theorem get?_ofList_eq_some_iff (l : List (α × β)) (hnd : (l.map Prod.fst).Nodup) (a : α)
    (b : β) : get? (ofList l) a = some b ↔ (a, b) ∈ l := by
  induction l using List.reverseRecOn with
  | nil => simp [get?_ofList_nil]
  | append_singleton l p ih =>
    rw [List.map_append, List.nodup_append] at hnd
    obtain ⟨hl, -, hdisj⟩ := hnd
    rw [get?_ofList_concat, List.mem_append, List.mem_singleton]
    split
    · next h =>
      constructor
      · intro hb
        exact Or.inr (by rw [← h, ← Option.some.inj hb])
      · rintro (hm | he)
        · exfalso
          have hmem : a ∈ l.map Prod.fst := List.mem_map.mpr ⟨(a, b), hm, rfl⟩
          exact hdisj a hmem p.1 (by simp) h.symm
        · rw [← he]
    · next h =>
      rw [ih hl]
      constructor
      · exact Or.inl
      · rintro (hm | he)
        · exact hm
        · exact absurd (by rw [← he]) h

theorem get?_ofList_perm {l l' : List (α × β)} (hp : l.Perm l')
    (hnd : (l.map Prod.fst).Nodup) (a : α) : get? (ofList l) a = get? (ofList l') a := by
  have hnd' : (l'.map Prod.fst).Nodup := (hp.map Prod.fst).nodup_iff.mp hnd
  refine Option.ext fun b => ?_
  rw [get?_ofList_eq_some_iff l hnd, get?_ofList_eq_some_iff l' hnd', hp.mem_iff]

/-- Reading the pairs of a map back gives the same lookups. -/
theorem get?_ofList_toPairs (m : Map α β) (a : α) : get? (ofList (toPairs m)) a = get? m a := by
  refine Option.ext fun b => ?_
  rw [get?_ofList_eq_some_iff _ (toPairs_nodup m), mem_toPairs_iff]

end Map

/-- An order in which a map is walked: every entry once, in no particular order. -/
structure RangeOrder (α : Type) where
  visit : List α → List α
  perm : ∀ l, (visit l).Perm l

/-- The order in which the list holds the entries. -/
def RangeOrder.asHeld (α : Type) : RangeOrder α := ⟨id, fun _ => List.Perm.refl _⟩

end Infra
