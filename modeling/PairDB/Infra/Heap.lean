import Mathlib

/-!
# The binary heap of `container/heap`

The heap is a slice in which the slot `i` has the slots `2 * i + 1` and `2 * i + 2` below it; no
slot has a smaller key than the one above it. The order of the elements is the one of their keys.

`up` and `down` are the two loops of the package, with as much fuel as they need. The two results
say what a user of the package relies on: `push` adds an element, and `pop` takes one with the
smallest key.
-/

namespace Infra

variable {α : Type} {β : Type*} [LinearOrder β]

/-- Exchange two slots. -/
def swapSlots (f : Nat → α) (i j : Nat) : Nat → α := fun k =>
  if k = i then f j else if k = j then f i else f k

/-- The slot above. -/
def parent (i : Nat) : Nat := (i - 1) / 2

/-- The loop `up` from the slot `j`. -/
def up (key : α → β) : Nat → (Nat → α) → Nat → Nat → α
  | 0, f, _ => f
  | fuel + 1, f, j =>
    if parent j ≠ j ∧ key (f j) < key (f (parent j)) then
      up key fuel (swapSlots f (parent j) j) (parent j)
    else f

/-- The smaller of the slots below `i`, among the first `n`; the left one if they are equal. -/
def smallerChild (key : α → β) (f : Nat → α) (i n : Nat) : Nat :=
  if 2 * i + 2 < n ∧ key (f (2 * i + 2)) < key (f (2 * i + 1)) then 2 * i + 2 else 2 * i + 1

/-- The loop `down` from the slot `i`, among the first `n`. -/
def down (key : α → β) : Nat → (Nat → α) → Nat → Nat → Nat → α
  | 0, f, _, _ => f
  | fuel + 1, f, i, n =>
    if 2 * i + 1 < n ∧ key (f (smallerChild key f i n)) < key (f i) then
      down key fuel (swapSlots f i (smallerChild key f i n)) (smallerChild key f i n) n
    else f

/-- No slot among the first `n` has a smaller key than the one above it. -/
def IsHeap (key : α → β) (f : Nat → α) (n : Nat) : Prop :=
  ∀ i, 0 < i → i < n → key (f (parent i)) ≤ key (f i)

section

variable {key : α → β} {f : Nat → α}

/-- The slot 0 has the smallest key. -/
theorem IsHeap.root_le {n : Nat} (h : IsHeap key f n) : ∀ i < n, key (f 0) ≤ key (f i) := by
  intro i
  induction i using Nat.strong_induction_on with
  | _ i ih =>
    intro hi
    by_cases h0 : i = 0
    · rw [h0]
    · have hlt : parent i < i := by unfold parent; omega
      exact (ih _ hlt (by omega)).trans (h i (by omega) hi)

/-! ## `up` -/

/-- Only the slot `j` may be smaller than the one above it, and what is below `j` is not smaller than
what is above it. -/
structure UpTo (key : α → β) (f : Nat → α) (n j : Nat) : Prop where
  others : ∀ i, 0 < i → i < n → i ≠ j → key (f (parent i)) ≤ key (f i)
  below : ∀ i, 0 < i → i < n → parent i = j → 0 < j → key (f (parent j)) ≤ key (f i)

theorem UpTo.swap {n j : Nat} (h : UpTo key f n j) (hj : j < n) (hne : parent j ≠ j)
    (hlt : key (f j) < key (f (parent j))) :
    UpTo key (swapSlots f (parent j) j) n (parent j) := by
  have hpos : 0 < j := by
    unfold parent at hne
    omega
  have hp : parent j < j := by unfold parent; omega
  -- the slots above the two that change
  have hpp : 0 < parent j → parent (parent j) < parent j := by unfold parent; omega
  constructor
  · intro i hi hin hij
    unfold swapSlots
    rw [if_neg hij]
    by_cases hi' : i = j
    · subst hi'
      rw [if_pos rfl, if_pos rfl]
      exact hlt.le
    · rw [if_neg hi']
      by_cases h1 : parent i = parent j
      · rw [if_pos h1]
        exact hlt.le.trans (h1 ▸ h.others i hi hin hi')
      · rw [if_neg h1]
        by_cases h2 : parent i = j
        · rw [if_pos h2]
          exact h.below i hi hin h2 hpos
        · rw [if_neg h2]
          exact h.others i hi hin hi'
  · intro i hi hin hij hp0
    have hup := h.others (parent j) hp0 (by omega) hne
    have hlt' := hpp hp0
    unfold swapSlots
    rw [if_neg (by omega : parent (parent j) ≠ parent j),
      if_neg (by omega : parent (parent j) ≠ j)]
    by_cases h1 : i = parent j
    · exfalso
      rw [h1] at hij
      omega
    · rw [if_neg h1]
      by_cases h2 : i = j
      · rw [if_pos h2]
        exact hup
      · rw [if_neg h2]
        exact hup.trans (hij ▸ h.others i hi hin h2)

theorem isHeap_up {n : Nat} : ∀ {fuel : Nat} {f : Nat → α} {j : Nat}, j ≤ fuel → j < n →
    UpTo key f n j → IsHeap key (up key fuel f j) n
  | 0, f, j, hfuel, _, h => by
    intro i hi hin
    exact h.others i hi hin (by omega)
  | fuel + 1, f, j, hfuel, hj, h => by
    rw [up]
    split
    · next hc =>
      have hp : parent j < j := by
        have := hc.1
        unfold parent at this ⊢
        omega
      exact isHeap_up (by omega) (by omega) (h.swap hj hc.1 hc.2)
    · next hc =>
      intro i hi hin
      by_cases hij : i = j
      · subst hij
        have hne : parent i ≠ i := by unfold parent; omega
        exact not_lt.mp fun hlt => hc ⟨hne, hlt⟩
      · exact h.others i hi hin hij

/-! ## `down` -/

/-- Only the slots below `i` may be smaller than `i`, and they are not smaller than what is above
`i`. -/
structure DownFrom (key : α → β) (f : Nat → α) (n i : Nat) : Prop where
  others : ∀ k, 0 < k → k < n → parent k ≠ i → key (f (parent k)) ≤ key (f k)
  below : ∀ k, 0 < k → k < n → parent k = i → 0 < i → key (f (parent i)) ≤ key (f k)

theorem parent_eq_iff {k i : Nat} (hk : 0 < k) : parent k = i ↔ k = 2 * i + 1 ∨ k = 2 * i + 2 := by
  unfold parent
  omega

theorem smallerChild_spec (key : α → β) (f : Nat → α) {i n : Nat} (h : 2 * i + 1 < n) :
    i < smallerChild key f i n ∧ smallerChild key f i n < n ∧ parent (smallerChild key f i n) = i ∧
      ∀ k, 0 < k → k < n → parent k = i → key (f (smallerChild key f i n)) ≤ key (f k) := by
  unfold smallerChild
  split
  · next hc =>
    refine ⟨by omega, hc.1, by unfold parent; omega, fun k hk hkn hp => ?_⟩
    rcases (parent_eq_iff hk).mp hp with rfl | rfl
    · exact hc.2.le
    · exact le_rfl
  · next hc =>
    refine ⟨by omega, h, by unfold parent; omega, fun k hk hkn hp => ?_⟩
    rcases (parent_eq_iff hk).mp hp with rfl | rfl
    · exact le_rfl
    · exact not_lt.mp fun hlt => hc ⟨hkn, hlt⟩

theorem DownFrom.swap {n i c : Nat} (h : DownFrom key f n i) (hic : i < c) (hc : c < n)
    (hparent : parent c = i)
    (hleast : ∀ k, 0 < k → k < n → parent k = i → key (f c) ≤ key (f k))
    (hlt : key (f c) < key (f i)) : DownFrom key (swapSlots f i c) n c := by
  constructor
  · intro k hk hkn hpc
    have hpk : parent k < k := by unfold parent; omega
    unfold swapSlots
    by_cases h1 : parent k = i
    · rw [if_pos h1, if_neg (by omega : k ≠ i)]
      by_cases h2 : k = c
      · rw [if_pos h2]
        exact hlt.le
      · rw [if_neg h2]
        exact hleast k hk hkn h1
    · rw [if_neg h1, if_neg hpc]
      by_cases h2 : k = i
      · -- the smallest slot below is not smaller than what is above
        rw [if_pos h2, h2]
        exact h.below c (by omega) hc hparent (by omega)
      · rw [if_neg h2]
        by_cases h3 : k = c
        · exact absurd (h3 ▸ hparent) h1
        · rw [if_neg h3]
          exact h.others k hk hkn h1
  · intro k hk hkn hpk _
    have hck : c < k := by
      have : parent k < k := by unfold parent; omega
      omega
    unfold swapSlots
    rw [hparent, if_pos rfl, if_neg (by omega : k ≠ i), if_neg (by omega : k ≠ c)]
    exact hpk ▸ h.others k hk hkn (by omega)

theorem isHeap_down {n : Nat} : ∀ {fuel : Nat} {f : Nat → α} {i : Nat}, n ≤ fuel + i →
    DownFrom key f n i → IsHeap key (down key fuel f i n) n
  | 0, f, i, hfuel, h => by
    intro k hk hkn
    refine h.others k hk hkn ?_
    unfold parent
    omega
  | fuel + 1, f, i, hfuel, h => by
    rw [down]
    split
    · next hc =>
      obtain ⟨hic, hcn, hparent, hleast⟩ := smallerChild_spec key f hc.1
      exact isHeap_down (by omega) (h.swap hic hcn hparent hleast hc.2)
    · next hc =>
      intro k hk hkn
      by_cases hp : parent k = i
      · have hchild : 2 * i + 1 < n := by
          rcases (parent_eq_iff hk).mp hp with rfl | rfl <;> omega
        have hleast := (smallerChild_spec key f hchild).2.2.2 k hk hkn hp
        rw [hp]
        exact (not_lt.mp fun hlt => hc ⟨hchild, hlt⟩).trans hleast
      · exact h.others k hk hkn hp

/-! ## The elements stay the same -/

/-- The first `n` slots. -/
def slotList (f : Nat → α) (n : Nat) : List α := (List.range n).map f

theorem slotList_succ (f : Nat → α) (n : Nat) : slotList f (n + 1) = slotList f n ++ [f n] := by
  rw [slotList, List.range_succ, List.map_append, slotList, List.map_singleton]

theorem slotList_congr {g : Nat → α} {n : Nat} (h : ∀ i < n, f i = g i) :
    slotList f n = slotList g n :=
  List.map_congr_left fun i hi => h i (List.mem_range.mp hi)

theorem slotList_swap {i j n : Nat} (hi : i < n) (hj : j < n) :
    (slotList (swapSlots f i j) n).Perm (slotList f n) := by
  have hswap : swapSlots f i j = f ∘ Equiv.swap i j := by
    funext k
    simp only [swapSlots, Function.comp_apply, Equiv.swap_apply_def]
    split
    · rfl
    · split <;> rfl
  have hrange : ((List.range n).map (Equiv.swap i j)).Perm (List.range n) := by
    refine (List.perm_ext_iff_of_nodup
      ((List.nodup_range).map (Equiv.swap i j).injective) List.nodup_range).mpr fun k => ?_
    rw [List.mem_map]
    constructor
    · rintro ⟨a, ha, rfl⟩
      rw [List.mem_range] at ha ⊢
      rw [Equiv.swap_apply_def]
      split
      · exact hj
      · split
        · exact hi
        · exact ha
    · intro hk
      refine ⟨Equiv.swap i j k, ?_, Equiv.swap_apply_self i j k⟩
      rw [List.mem_range] at hk ⊢
      rw [Equiv.swap_apply_def]
      split
      · exact hj
      · split
        · exact hi
        · exact hk
  rw [slotList, hswap, ← List.map_map]
  exact hrange.map f

theorem slotList_up {n : Nat} : ∀ {fuel : Nat} {f : Nat → α} {j : Nat}, j < n →
    (slotList (up key fuel f j) n).Perm (slotList f n)
  | 0, _, _, _ => List.Perm.refl _
  | fuel + 1, f, j, hj => by
    rw [up]
    split
    · have hp : parent j ≤ j := by unfold parent; omega
      exact (slotList_up (by omega)).trans (slotList_swap (by omega) hj)
    · exact List.Perm.refl _

theorem slotList_down {n : Nat} : ∀ {fuel : Nat} {f : Nat → α} {i : Nat},
    (slotList (down key fuel f i n) n).Perm (slotList f n)
  | 0, _, _ => List.Perm.refl _
  | fuel + 1, f, i => by
    rw [down]
    split
    · next hc =>
      obtain ⟨hic, hcn, -, -⟩ := smallerChild_spec key f hc.1
      exact slotList_down.trans (slotList_swap (by omega) hcn)
    · exact List.Perm.refl _


end

/-! ## The heap -/

/-- A heap: a slice whose first `size` slots are in order. -/
structure Heap (key : α → β) where
  size : Nat
  slots : Nat → α
  ordered : IsHeap key slots size

namespace Heap

variable {key : α → β}

/-- The elements in the order of the slice. -/
def toList (h : Heap key) : List α := slotList h.slots h.size

/-- The empty slice. -/
def empty [Inhabited α] : Heap key := ⟨0, fun _ => default, fun _ _ h => absurd h (Nat.not_lt_zero _)⟩

theorem upTo_push (h : Heap key) (x : α) :
    UpTo key (Function.update h.slots h.size x) (h.size + 1) h.size := by
  constructor
  · intro i hi hin hne
    have hp : parent i < i := by unfold parent; omega
    rw [Function.update_of_ne (by omega), Function.update_of_ne hne]
    exact h.ordered i hi (by omega)
  · intro i hi hin hp _
    exfalso
    have : parent i < i := by unfold parent; omega
    omega

/-- `heap.Push`. -/
def push (h : Heap key) (x : α) : Heap key where
  size := h.size + 1
  slots := up key h.size (Function.update h.slots h.size x) h.size
  ordered := isHeap_up le_rfl (Nat.lt_succ_self _) (h.upTo_push x)

theorem downFrom_pop {h : Heap key} {n : Nat} (hn : h.size = n + 1) :
    DownFrom key (swapSlots h.slots 0 n) n 0 := by
  constructor
  · intro k hk hkn hp
    have hpk : parent k < k := by unfold parent; omega
    unfold swapSlots
    rw [if_neg hp, if_neg (by omega : parent k ≠ n), if_neg (by omega : k ≠ 0),
      if_neg (by omega : k ≠ n)]
    exact h.ordered k hk (by omega)
  · intro k _ _ _ h0
    exact absurd h0 (lt_irrefl 0)

/-- `heap.Pop`; it is `none` for the empty heap, which Go must not be asked for. -/
def pop (h : Heap key) : Option (α × Heap key) :=
  match hn : h.size with
  | 0 => none
  | n + 1 =>
    some (h.slots 0,
      { size := n
        slots := down key n (swapSlots h.slots 0 n) 0 n
        ordered := isHeap_down (by omega) (downFrom_pop hn) })

/-- `push` adds the element. -/
theorem toList_push (h : Heap key) (x : α) : (h.push x).toList.Perm (x :: h.toList) := by
  have hlist : slotList (Function.update h.slots h.size x) (h.size + 1) = h.toList ++ [x] := by
    rw [slotList_succ, Function.update_self, toList]
    refine congrArg (· ++ [x]) (slotList_congr fun i hi => ?_)
    rw [Function.update_of_ne (by omega)]
  refine (slotList_up (Nat.lt_succ_self _)).trans ?_
  rw [hlist]
  exact List.perm_append_singleton x h.toList

theorem pop_eq_none_iff (h : Heap key) : h.pop = none ↔ h.toList = [] := by
  unfold pop
  split
  · next hn => simp [toList, slotList, hn]
  · next n hn => simp [toList, slotList, hn]

/-- `pop` takes an element with the smallest key. -/
theorem pop_spec {h h' : Heap key} {x : α} (hpop : h.pop = some (x, h')) :
    h.toList.Perm (x :: h'.toList) ∧ ∀ y ∈ h'.toList, key x ≤ key y := by
  unfold pop at hpop
  split at hpop
  · cases hpop
  · next n hn =>
    cases hpop
    have hperm : h.toList.Perm
        (h.slots 0 :: slotList (down key n (swapSlots h.slots 0 n) 0 n) n) := by
      have hswap := slotList_swap (f := h.slots) (show 0 < n + 1 by omega) (Nat.lt_succ_self n)
      have hlast : swapSlots h.slots 0 n n = h.slots 0 := by
        unfold swapSlots
        split
        · next h0 => rw [h0]
        · rw [if_pos rfl]
      rw [slotList_succ, hlast] at hswap
      rw [toList, hn]
      refine hswap.symm.trans ((List.perm_append_singleton _ _).trans ?_)
      exact List.Perm.cons _ slotList_down.symm
    refine ⟨hperm, fun y hy => ?_⟩
    have hmem : y ∈ h.toList := hperm.mem_iff.mpr (List.mem_cons_of_mem _ hy)
    obtain ⟨i, hi, rfl⟩ := List.mem_map.mp hmem
    exact h.ordered.root_le i (List.mem_range.mp hi)

end Heap

end Infra
