import Mathlib

/-!
# The newest of each key

Items have a key and a stamp, and of the items with one key the newest is kept. `NewestOf` says so
without a loop; which of several newest items is kept is left open. The rules say what a loop may do
with the next item: keep it under a new key, drop it, or put it into the place of the one that was
kept under its key.
-/

namespace Infra

variable {α κ τ : Type*} [Preorder τ]

/-- Of every key in `items` one item is kept, which is one of the newest. -/
structure NewestOf (key : α → κ) (stamp : α → τ) (items kept : List α) : Prop where
  distinct : (kept.map key).Nodup
  newest : ∀ a ∈ kept, a ∈ items ∧ ∀ b ∈ items, key b = key a → stamp b ≤ stamp a
  complete : ∀ b ∈ items, key b ∈ kept.map key

namespace NewestOf

variable {key : α → κ} {stamp : α → τ} {items items' kept : List α} {a b : α}

theorem nil : NewestOf key stamp [] [] := ⟨List.nodup_nil, by simp, by simp⟩

theorem perm (h : NewestOf key stamp items kept) (hperm : items.Perm items') :
    NewestOf key stamp items' kept where
  distinct := h.distinct
  newest c hc := ⟨hperm.mem_iff.mp (h.newest c hc).1,
    fun d hd => (h.newest c hc).2 d (hperm.mem_iff.mpr hd)⟩
  complete d hd := h.complete d (hperm.mem_iff.mpr hd)

/-- An item with a new key. -/
theorem concat (h : NewestOf key stamp items kept) (hnew : key a ∉ kept.map key) :
    NewestOf key stamp (items ++ [a]) (kept ++ [a]) where
  distinct := by
    rw [List.map_append, List.map_singleton, List.nodup_append]
    refine ⟨h.distinct, List.nodup_singleton _, fun x hx y hy => ?_⟩
    rw [List.mem_singleton.mp hy]
    rintro rfl
    exact hnew hx
  newest c hc := by
    rcases List.mem_append.mp hc with hc | hc
    · obtain ⟨hmem, hle⟩ := h.newest c hc
      refine ⟨List.mem_append_left _ hmem, fun d hd hkey => ?_⟩
      rcases List.mem_append.mp hd with hd | hd
      · exact hle d hd hkey
      · rw [List.mem_singleton.mp hd] at hkey
        exact absurd (hkey ▸ List.mem_map_of_mem hc) hnew
    · rw [List.mem_singleton.mp hc]
      refine ⟨by simp, fun d hd hkey => ?_⟩
      rcases List.mem_append.mp hd with hd | hd
      · exact absurd (hkey ▸ h.complete d hd) hnew
      · rw [List.mem_singleton.mp hd]
  complete d hd := by
    rw [List.map_append]
    rcases List.mem_append.mp hd with hd | hd
    · exact List.mem_append_left _ (h.complete d hd)
    · rw [List.mem_singleton.mp hd]
      simp

/-- An item that is not newer than the one that was kept. -/
theorem drop (h : NewestOf key stamp items kept) (hb : b ∈ kept) (hkey : key a = key b)
    (hle : stamp a ≤ stamp b) : NewestOf key stamp (items ++ [a]) kept where
  distinct := h.distinct
  newest c hc := by
    refine ⟨List.mem_append_left _ (h.newest c hc).1, fun d hd hd' => ?_⟩
    rcases List.mem_append.mp hd with hd | hd
    · exact (h.newest c hc).2 d hd hd'
    · rw [List.mem_singleton.mp hd] at hd' ⊢
      exact hle.trans ((h.newest c hc).2 b (h.newest b hb).1 (hkey.symm.trans hd'))
  complete d hd := by
    rcases List.mem_append.mp hd with hd | hd
    · exact h.complete d hd
    · rw [List.mem_singleton.mp hd, hkey]
      exact List.mem_map_of_mem hb

/-- An item that is not older than the one that was kept. -/
theorem replace {i : Nat} (h : NewestOf key stamp items kept) (hb : kept[i]? = some b)
    (hkey : key a = key b) (hle : stamp b ≤ stamp a) :
    NewestOf key stamp (items ++ [a]) (kept.set i a) := by
  have hlt : i < (kept.map key).length := by
    rw [List.length_map]
    exact (List.getElem?_eq_some_iff.mp hb).1
  have hkeys : (kept.set i a).map key = kept.map key := by
    rw [List.map_set, hkey]
    refine List.ext_getElem? fun j => ?_
    rw [List.getElem?_set]
    split
    · next hij =>
      rw [← hij, List.getElem?_map, hb]
      rfl
    · rfl
  have hbmem : b ∈ kept := List.mem_of_getElem? hb
  constructor
  · rw [hkeys]
    exact h.distinct
  · intro c hc
    obtain ⟨j, hj⟩ := List.getElem?_of_mem hc
    rw [List.getElem?_set] at hj
    split at hj
    · have hca : c = a := by grind
      rw [hca]
      refine ⟨by simp, fun d hd hd' => ?_⟩
      rcases List.mem_append.mp hd with hd | hd
      · exact ((h.newest b hbmem).2 d hd (hd'.trans hkey)).trans hle
      · rw [List.mem_singleton.mp hd]
    · next hij =>
      obtain ⟨hmem, hnew⟩ := h.newest c (List.mem_of_getElem? hj)
      refine ⟨List.mem_append_left _ hmem, fun d hd hd' => ?_⟩
      rcases List.mem_append.mp hd with hd | hd
      · exact hnew d hd hd'
      · -- another place has another key
        rw [List.mem_singleton.mp hd, hkey] at hd'
        refine absurd ((List.getElem?_inj hlt h.distinct).mp ?_) hij
        rw [List.getElem?_map, List.getElem?_map, hb, hj, Option.map_some, Option.map_some, hd']
  · intro d hd
    rw [hkeys]
    rcases List.mem_append.mp hd with hd | hd
    · exact h.complete d hd
    · rw [List.mem_singleton.mp hd, hkey]
      exact List.mem_map_of_mem hbmem

end NewestOf

end Infra
