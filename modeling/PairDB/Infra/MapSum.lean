import PairDB.Infra.Map

/-!
# Sums over the entries of a map
-/

namespace Infra

namespace Map

variable {α β : Type} [DecidableEq α] {m : Map α β} {a : α} {b c : β}

theorem toPairs_set (m : Map α β) (a : α) (b : β) :
    toPairs (set m a b) = (a, b) :: toPairs (remove m a) := rfl

theorem remove_eq_self (h : get? m a = none) : remove m a = m := by
  refine AList.ext ?_
  exact List.kerase_of_notMem_keys ((get?_eq_none_iff m a).mp h)

/-- The entry of a key is one of the entries, and the others are what is left without it. -/
theorem toPairs_perm_remove (h : get? m a = some b) :
    (toPairs m).Perm ((a, b) :: toPairs (remove m a)) := by
  have hmem : a ∈ m.entries.keys := by
    by_contra hnot
    rw [(get?_eq_none_iff m a).mpr hnot] at h
    cases h
  obtain ⟨b', pre, post, -, hsplit, herase⟩ := List.exists_of_kerase hmem
  have hb : b' = b := by
    have hget : get? m a = some b' := by
      rw [← mem_toPairs_iff, toPairs, hsplit]
      simp
    exact Option.some.inj (hget.symm.trans h)
  subst hb
  have hrest : toPairs (remove m a) = (pre ++ post).map fun e => (e.1, e.2) := by
    rw [← herase]
    rfl
  rw [hrest, toPairs, hsplit, List.map_append, List.map_append, List.map_cons]
  exact List.perm_middle

theorem length_keys_remove (h : get? m a = some b) :
    (remove m a).keys.length + 1 = m.keys.length := by
  have hlen := (toPairs_perm_remove h).length_eq
  rw [List.length_cons] at hlen
  simpa [toPairs, AList.keys, List.keys] using hlen.symm

/-- The sum of a weight over the entries. -/
def sum (w : α → β → Int) (m : Map α β) : Int := ((toPairs m).map fun p => w p.1 p.2).sum

variable {w : α → β → Int}

omit [DecidableEq α] in
@[simp] theorem sum_empty : sum w (∅ : Map α β) = 0 := rfl

theorem sum_eq_remove (h : get? m a = some b) : sum w m = w a b + sum w (remove m a) := by
  rw [sum, ((toPairs_perm_remove h).map _).sum_eq, List.map_cons, List.sum_cons, sum]

theorem sum_set (w : α → β → Int) (m : Map α β) (a : α) (b : β) :
    sum w (set m a b) = w a b + sum w (remove m a) := by
  rw [sum, toPairs_set, List.map_cons, List.sum_cons, sum]

theorem sum_set_of_none (h : get? m a = none) : sum w (set m a b) = w a b + sum w m := by
  rw [sum_set, remove_eq_self h]

theorem sum_set_of_some (h : get? m a = some c) :
    sum w (set m a b) = sum w m - w a c + w a b := by
  rw [sum_set, sum_eq_remove h]
  ring

theorem sum_nonneg (h : ∀ a b, get? m a = some b → 0 ≤ w a b) : 0 ≤ sum w m := by
  refine List.sum_nonneg fun x hx => ?_
  obtain ⟨p, hp, rfl⟩ := List.mem_map.mp hx
  exact h p.1 p.2 ((mem_toPairs_iff m p.1 p.2).mp hp)

theorem sum_eq_zero (h : ∀ a b, get? m a = some b → w a b = 0) : sum w m = 0 := by
  refine List.sum_eq_zero fun x hx => ?_
  obtain ⟨p, hp, rfl⟩ := List.mem_map.mp hx
  exact h p.1 p.2 ((mem_toPairs_iff m p.1 p.2).mp hp)

end Map

end Infra
