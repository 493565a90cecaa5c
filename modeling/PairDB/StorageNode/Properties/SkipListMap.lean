import PairDB.Infra.Linked
import PairDB.StorageNode.MemTable
import PairDB.StorageNode.SkipList

/-!
# The skip list is an ordered map

A skip list is well formed if its nodes can be put in a row of ascending keys such that the list of
each level has the nodes of the row that are high enough, in that order (`WellFormed`). A search
leaves every level at the last node before the key (`pred`), and the nodes that `Insert` and
`Delete` change are these.

So a skip list is a map from keys to values (`Represents`) that no call takes out of step
(`orderedMap`), and the ordered map of `MemTable` is what its skip list computes (`skipList_run`).
-/

namespace PairDB.StorageNode

open Infra

namespace SkipList

variable {κ V : Type*}

/-- The number of lists that a node is in. -/
def height (s : SkipList κ V) (a : Nat) : Nat := (s.heap a).forward.length

/-- The link of a node on a level. -/
def nextAt (s : SkipList κ V) (i a : Nat) : Option (Option Nat) := (s.heap a).forward[i]?

/-- Those of some nodes that are on a level. -/
def onLevel (s : SkipList κ V) (i : Nat) (nodes : List Nat) : List Nat :=
  nodes.filter fun a => i < s.height a

/-- The last of some nodes on a level, or the head. -/
def pred (s : SkipList κ V) (nodes : List Nat) (i : Nat) : Nat :=
  (s.onLevel i nodes).getLastD head

section Memory

variable {s t : SkipList κ V} {a i : Nat} {p : Option Nat}

theorem forwardAt_eq (h : s.nextAt i a = some p) : s.forwardAt a i = .ok p := by
  have hget : (s.heap a).forward[i]? = some p := h
  rw [forwardAt, hget]

theorem mem_onLevel {nodes : List Nat} : a ∈ s.onLevel i nodes ↔ a ∈ nodes ∧ i < s.height a := by
  rw [onLevel, List.mem_filter, decide_eq_true_eq]

theorem onLevel_append (l r : List Nat) :
    s.onLevel i (l ++ r) = s.onLevel i l ++ s.onLevel i r := List.filter_append l r

theorem onLevel_cons_of_lt {l : List Nat} (h : i < s.height a) :
    s.onLevel i (a :: l) = a :: s.onLevel i l :=
  List.filter_cons_of_pos (decide_eq_true h)

theorem onLevel_cons_of_le {l : List Nat} (h : s.height a ≤ i) :
    s.onLevel i (a :: l) = s.onLevel i l :=
  List.filter_cons_of_neg (by simpa using h)

theorem onLevel_eq_nil {l : List Nat} (h : ∀ a ∈ l, s.height a ≤ i) : s.onLevel i l = [] := by
  refine List.filter_eq_nil_iff.mpr fun a ha => ?_
  simpa using h a ha

theorem pred_mem (l : List Nat) : s.pred l i = head ∨ s.pred l i ∈ s.onLevel i l :=
  List.mem_cons.mp List.getLastD_mem_cons

/-- A node of one level is also on the level below. -/
theorem pred_succ_mem (l : List Nat) (i : Nat) :
    s.pred l (i + 1) = head ∨ s.pred l (i + 1) ∈ s.onLevel i l := by
  refine (pred_mem l).imp_right fun hmem => ?_
  obtain ⟨hmem, hlt⟩ := mem_onLevel.mp hmem
  exact mem_onLevel.mpr ⟨hmem, by omega⟩

/-- The links may differ, and the rest is the same. -/
structure SameNodes (s t : SkipList κ V) : Prop where
  key : ∀ a, (t.heap a).key = (s.heap a).key
  value : ∀ a, (t.heap a).value = (s.heap a).value
  height : ∀ a, t.height a = s.height a
  next : t.next = s.next
  level : t.level = s.level
  size : t.size = s.size

theorem SameNodes.trans {u : SkipList κ V} (h : SameNodes s t) (h' : SameNodes t u) :
    SameNodes s u where
  key := fun a => (h'.key a).trans (h.key a)
  value := fun a => (h'.value a).trans (h.value a)
  height := fun a => (h'.height a).trans (h.height a)
  next := h'.next.trans h.next
  level := h'.level.trans h.level
  size := h'.size.trans h.size

theorem SameNodes.refl (s : SkipList κ V) : SameNodes s s :=
  ⟨fun _ => rfl, fun _ => rfl, fun _ => rfl, rfl, rfl, rfl⟩

theorem SameNodes.onLevel (h : SameNodes s t) (i : Nat) (l : List Nat) :
    t.onLevel i l = s.onLevel i l :=
  List.filter_congr fun a _ => by rw [h.height a]

/-- A write within the height of a node changes one link. -/
theorem setForward_spec (h : i < s.height a) (p : Option Nat) :
    ∃ t, s.setForward a i p = .ok t ∧ SameNodes s t ∧ t.nextAt i a = some p ∧
      ∀ j b, j ≠ i ∨ b ≠ a → t.nextAt j b = s.nextAt j b := by
  obtain ⟨t, hset, hnode, hother, hrest⟩ : ∃ t, s.setForward a i p = .ok t ∧
      t.heap a = { s.heap a with forward := (s.heap a).forward.set i p } ∧
      (∀ b, b ≠ a → t.heap b = s.heap b) ∧
      t.next = s.next ∧ t.level = s.level ∧ t.size = s.size :=
    ⟨_, if_pos h, Function.update_self .., fun b hb => Function.update_of_ne hb _ _, rfl, rfl, rfl⟩
  refine ⟨t, hset, ⟨fun b => ?_, fun b => ?_, fun b => ?_, hrest.1, hrest.2.1, hrest.2.2⟩, ?_, ?_⟩
  · by_cases hb : b = a
    · rw [hb, hnode]
    · rw [hother b hb]
  · by_cases hb : b = a
    · rw [hb, hnode]
    · rw [hother b hb]
  · by_cases hb : b = a
    · rw [height, hb, hnode, List.length_set, height]
    · rw [height, hother b hb, height]
  · rw [nextAt, hnode, List.getElem?_set_self h]
  · intro j b hne
    by_cases hb : b = a
    · have hj : i ≠ j := (hne.resolve_right (not_not_intro hb)).symm
      rw [nextAt, hb, hnode, List.getElem?_set_ne hj, nextAt]
    · rw [nextAt, hother b hb, nextAt]

end Memory

section

variable [LinearOrder κ] {s t : SkipList κ V} {nodes l r : List Nat} {key : κ}

/-! ## Well-formed skip lists -/

/-- The skip list has these nodes, in this order. -/
structure WellFormed (s : SkipList κ V) (nodes : List Nat) : Prop where
  sorted : nodes.Pairwise fun a b => (s.heap a).key < (s.heap b).key
  head_notMem : head ∉ nodes
  lt_next : ∀ a ∈ nodes, a < s.next
  next_pos : head < s.next
  height_pos : ∀ a ∈ nodes, 0 < s.height a
  height_le : ∀ a ∈ nodes, s.height a ≤ s.level + 1
  height_head : s.height head = maxLevel
  level_lt : s.level < maxLevel
  linked : ∀ i < maxLevel, Linked (s.nextAt i) head (s.onLevel i nodes)
  size_eq : s.size = nodes.length

namespace WellFormed

theorem nodup (h : WellFormed s nodes) : nodes.Nodup := by
  refine h.sorted.imp ?_
  rintro a b hlt rfl
  exact lt_irrefl _ hlt

theorem nodup_keys (h : WellFormed s nodes) : (nodes.map fun a => (s.heap a).key).Nodup :=
  List.pairwise_map.mpr (h.sorted.imp ne_of_lt)

theorem eq_of_key (h : WellFormed s nodes) {a b : Nat} (ha : a ∈ nodes) (hb : b ∈ nodes)
    (hkey : (s.heap a).key = (s.heap b).key) : a = b :=
  List.inj_on_of_nodup_map h.nodup_keys ha hb hkey

theorem length_lt (h : WellFormed s nodes) : nodes.length < s.next + 1 := by
  have hsub : nodes ⊆ List.range s.next := fun a ha => List.mem_range.mpr (h.lt_next a ha)
  have hle := (h.nodup.subperm hsub).length_le
  rw [List.length_range] at hle
  exact Nat.lt_succ_of_le hle

theorem onLevel_zero (h : WellFormed s nodes) {l : List Nat} (hl : l ⊆ nodes) :
    s.onLevel 0 l = l :=
  List.filter_eq_self.mpr fun a ha => decide_eq_true (h.height_pos a (hl ha))

/-- The nodes before a key and those from it on. -/
theorem exists_split (h : WellFormed s nodes) (key : κ) : ∃ l r, nodes = l ++ r ∧
    (∀ a ∈ l, (s.heap a).key < key) ∧ ∀ a ∈ r, key ≤ (s.heap a).key := by
  have hsorted := h.sorted
  clear h
  induction nodes with
  | nil => exact ⟨[], [], rfl, by simp, by simp⟩
  | cons a nodes ih =>
    obtain ⟨hfirst, hrest⟩ := List.pairwise_cons.mp hsorted
    by_cases hlt : (s.heap a).key < key
    · obtain ⟨l, r, rfl, hl, hr⟩ := ih hrest
      refine ⟨a :: l, r, rfl, ?_, hr⟩
      intro b hb
      rcases List.mem_cons.mp hb with rfl | hb
      · exact hlt
      · exact hl b hb
    · refine ⟨[], a :: nodes, rfl, by simp, ?_⟩
      intro b hb
      rcases List.mem_cons.mp hb with rfl | hb
      · exact not_lt.mp hlt
      · exact (not_lt.mp hlt).trans (hfirst b hb).le

theorem linked_append (h : WellFormed s (l ++ r)) {i : Nat} (hi : i < maxLevel) :
    Linked (s.nextAt i) head (s.onLevel i l ++ s.onLevel i r) := by
  rw [← onLevel_append]
  exact h.linked i hi

/-- What follows the last node before the key. -/
theorem nextAt_pred (h : WellFormed s (l ++ r)) {i : Nat} (hi : i < maxLevel) :
    s.nextAt i (s.pred l i) = some (s.onLevel i r).head? :=
  (h.linked_append hi).next_getLastD

/-- The last node before the key, on the lowest level. -/
theorem forwardAt_pred (h : WellFormed s (l ++ r)) :
    s.forwardAt (s.pred l 0) 0 = .ok r.head? := by
  have hnext := h.nextAt_pred (show 0 < maxLevel by decide)
  rw [h.onLevel_zero (List.subset_append_right l r)] at hnext
  exact forwardAt_eq hnext

theorem pred_above (h : WellFormed s (l ++ r)) {i : Nat} (hi : s.level < i) :
    s.pred l i = head := by
  rw [pred, onLevel_eq_nil fun a ha => (h.height_le a (List.mem_append_left r ha)).trans hi]
  rfl

end WellFormed

/-! ## Search -/

/-- The inner loop stops at the last node before the key. -/
theorem walk_eq {i c fuel : Nat} (h : Linked (s.nextAt i) c (l ++ r))
    (hl : ∀ a ∈ l, (s.heap a).key < key) (hr : ∀ a ∈ r, key ≤ (s.heap a).key)
    (hfuel : l.length < fuel) : s.walk key i fuel c = .ok (l.getLastD c) := by
  induction l generalizing c fuel with
  | nil =>
    obtain ⟨fuel, rfl⟩ : ∃ n, fuel = n + 1 := ⟨fuel - 1, by omega⟩
    rw [walk, forwardAt_eq h.next_eq]
    cases r with
    | nil => rfl
    | cons a r => exact if_neg (not_lt.mpr (hr a (by simp)))
  | cons a l ih =>
    obtain ⟨fuel, rfl⟩ : ∃ n, fuel = n + 1 := ⟨fuel - 1, by omega⟩
    rw [walk, forwardAt_eq h.1, List.getLastD_cons]
    have hshort : l.length < fuel := Nat.lt_of_succ_lt_succ hfuel
    have hwalk := ih h.2 (fun b hb => hl b (List.mem_cons_of_mem a hb)) hshort
    exact (if_pos (hl a (by simp))).trans hwalk

section Split

variable (hwf : WellFormed s (l ++ r)) (hl : ∀ a ∈ l, (s.heap a).key < key)
  (hr : ∀ a ∈ r, key ≤ (s.heap a).key)
include hwf hl hr

/-- On each level the search may start anywhere before the key. -/
theorem walk_pred {i c : Nat} (hi : i < maxLevel) (hc : c = head ∨ c ∈ s.onLevel i l) :
    s.walk key i (s.next + 1) c = .ok (s.pred l i) := by
  have hlinked := hwf.linked_append hi
  have hr' : ∀ a ∈ s.onLevel i r, key ≤ (s.heap a).key :=
    fun a ha => hr a (mem_onLevel.mp ha).1
  have hl' : ∀ a ∈ s.onLevel i l, (s.heap a).key < key :=
    fun a ha => hl a (mem_onLevel.mp ha).1
  have hshort : (s.onLevel i l).length < s.next + 1 := by
    have hle : (s.onLevel i l).length ≤ l.length := List.length_filter_le _ _
    have hlt := hwf.length_lt
    rw [List.length_append] at hlt
    omega
  rcases hc with rfl | hc
  · exact walk_eq hlinked hl' hr' hshort
  · obtain ⟨before, after, hsplit⟩ := List.append_of_mem hc
    rw [hsplit, List.append_assoc] at hlinked
    rw [pred, hsplit, getLastD_append_cons]
    rw [hsplit] at hl' hshort
    refine walk_eq hlinked.drop (fun a ha => hl' a (by simp [ha])) hr' ?_
    rw [List.length_append, List.length_cons] at hshort
    omega

theorem searchLoop_eq {n : Nat} (hn : n ≤ maxLevel) :
    s.searchLoop key n (s.pred l n) = .ok (s.pred l 0) := by
  induction n with
  | zero => rfl
  | succ i ih =>
    rw [searchLoop, walk_pred hwf hl hr hn (pred_succ_mem l i)]
    exact ih (Nat.le_of_succ_le hn)

/-- The search ends before the first node that is not before the key. -/
theorem search_eq : s.search key = .ok (r.head?.bind fun a =>
    if (s.heap a).key = key then some (s.heap a).value else none) := by
  have hloop := searchLoop_eq hwf hl hr hwf.level_lt
  rw [hwf.pred_above (Nat.lt_succ_self _)] at hloop
  rw [search, hloop]
  simp only [Except.bind, hwf.forwardAt_pred, Except.map]
  cases r with
  | nil => rfl
  | cons a r => rfl

/-- The other loop keeps these nodes in `update`. -/
theorem findLoop_eq {n : Nat} (hn : n ≤ maxLevel) {update : List (Option Nat)}
    (hlen : update.length = maxLevel) :
    ∃ update', s.findLoop key n (s.pred l n) update = .ok (s.pred l 0, update') ∧
      update'.length = maxLevel ∧ (∀ i < n, update'[i]? = some (some (s.pred l i))) ∧
      ∀ i, n ≤ i → update'[i]? = update[i]? := by
  induction n generalizing update with
  | zero => exact ⟨update, rfl, hlen, fun i hi => absurd hi (Nat.not_lt_zero i), fun _ _ => rfl⟩
  | succ n ih =>
    have hset : setUpdate update n (some (s.pred l n)) = .ok (update.set n (some (s.pred l n))) :=
      if_pos (hlen ▸ hn)
    obtain ⟨update', hfind, hlen', hpred, hkeep⟩ :=
      @ih (Nat.le_of_succ_le hn) (update.set n (some (s.pred l n))) (by rw [List.length_set, hlen])
    refine ⟨update', ?_, hlen', fun i hi => ?_, fun i hi => ?_⟩
    · rw [findLoop, walk_pred hwf hl hr hn (pred_succ_mem l n)]
      simp only [Except.bind, hset]
      exact hfind
    · rcases Nat.lt_succ_iff_lt_or_eq.mp hi with hi | rfl
      · exact hpred i hi
      · rw [hkeep i le_rfl, List.getElem?_set_self (hlen ▸ hn)]
    · rw [hkeep i (Nat.le_of_succ_le hi), List.getElem?_set_ne (by omega)]

end Split

end

/-! ## Insertion -/

section

variable {s t : SkipList κ V} {l r : List Nat} {update : List (Option Nat)}

theorem setUpdate_eq {i : Nat} (h : i < update.length) (p : Option Nat) :
    setUpdate update i p = .ok (update.set i p) := if_pos h

theorem updateAt_eq {i : Nat} {p : Option Nat} (h : update[i]? = some p) :
    updateAt update i = .ok p := by
  rw [updateAt, h]

theorem updateHeads_eq {level n : Nat} (h : level + n < update.length) :
    ∃ update', updateHeads level update n = .ok update' ∧ update'.length = update.length ∧
      (∀ i, i ≤ level → update'[i]? = update[i]?) ∧
      ∀ i, level < i → i ≤ level + n → update'[i]? = some (some head) := by
  induction n with
  | zero => exact ⟨update, rfl, rfl, fun _ _ => rfl, fun i hi hle => absurd hle (by omega)⟩
  | succ n ih =>
    obtain ⟨update₁, heq, hlen, hlow, hhigh⟩ := ih (by omega)
    refine ⟨update₁.set (level + 1 + n) (some head), ?_, ?_, fun i hi => ?_, fun i hi hle => ?_⟩
    · rw [updateHeads, heq]
      exact setUpdate_eq (by omega) _
    · rw [List.length_set, hlen]
    · rw [List.getElem?_set_ne (by omega), hlow i hi]
    · by_cases hlast : level + 1 + n = i
      · rw [hlast, List.getElem?_set_self (by omega)]
      · rw [List.getElem?_set_ne hlast, hhigh i hi (by omega)]

theorem lt_height_of_nextAt {i a : Nat} {p : Option Nat} (h : s.nextAt i a = some p) :
    i < s.height a := (List.getElem?_eq_some_iff.mp h).1

/-- The new node is put between two parts of a list. -/
theorem linkAt_spec {a i : Nat} (hupdate : update[i]? = some (some (l.getLastD head)))
    (h : Linked (t.nextAt i) head (l ++ r)) (hnodup : (head :: (l ++ r)).Nodup)
    (ha : a ∉ head :: (l ++ r)) (hheight : i < t.height a) :
    ∃ t', t.linkAt a update i = .ok t' ∧ SameNodes t t' ∧
      Linked (t'.nextAt i) head (l ++ a :: r) ∧
      ∀ j b, j ≠ i → t'.nextAt j b = t.nextAt j b := by
  have hlast : l.getLastD head ∈ head :: l := List.getLastD_mem_cons
  have hmem : ∀ b, b ∈ head :: l → b ∈ head :: (l ++ r) := by
    intro b hb
    rw [← List.cons_append]
    exact List.mem_append_left r hb
  have hne : l.getLastD head ≠ a := by
    rintro rfl
    exact ha (hmem _ hlast)
  have hnext := h.next_getLastD
  obtain ⟨t₁, hset₁, hsame₁, hlink₁, hframe₁⟩ := setForward_spec hheight r.head?
  have hu : i < t₁.height (l.getLastD head) := by
    rw [hsame₁.height]
    exact lt_height_of_nextAt hnext
  obtain ⟨t₂, hset₂, hsame₂, hlink₂, hframe₂⟩ := setForward_spec hu (some a)
  have hframe : ∀ b, b ≠ a → b ≠ l.getLastD head → t₂.nextAt i b = t.nextAt i b := by
    intro b hb hb'
    rw [hframe₂ i b (Or.inr hb'), hframe₁ i b (Or.inr hb)]
  refine ⟨t₂, ?_, hsame₁.trans hsame₂, ?_, fun j b hj => ?_⟩
  · simp only [linkAt, updateAt_eq hupdate, deref, forwardAt_eq hnext, hset₁, Except.bind]
    exact hset₂
  · rw [← List.cons_append] at hnodup
    obtain ⟨hnodup₁, -, hdisjoint⟩ := List.nodup_append.mp hnodup
    refine h.splice hnodup₁ (fun b hb hb' => ?_) hlink₂ ?_
    · refine hframe b ?_ hb'
      rintro rfl
      exact ha (hmem _ hb)
    · intro c rest heq
      obtain ⟨rfl, rfl⟩ := List.cons.inj heq
      refine Linked.of_next ?_ fun c rest hrest => ?_
      · rw [hframe₂ i a (Or.inr hne.symm), hlink₁]
      · rw [hrest] at h
        refine h.drop.congr fun b hb => ?_
        rw [← hrest] at hb
        refine hframe b ?_ ?_
        · rintro rfl
          exact ha (List.mem_cons_of_mem head (List.mem_append_right l hb))
        · exact (hdisjoint _ hlast b hb).symm
  · rw [hframe₂ j b (Or.inl hj), hframe₁ j b (Or.inl hj)]

/-- The loop of `Insert` over the levels of the new node. -/
theorem link_spec {a n : Nat} (hn : n ≤ maxLevel)
    (hlinked : ∀ i < maxLevel, Linked (t.nextAt i) head (t.onLevel i l ++ t.onLevel i r))
    (hnodup : (head :: (l ++ r)).Nodup) (ha : a ∉ head :: (l ++ r)) (hheight : n ≤ t.height a)
    (hupdate : ∀ i < n, update[i]? = some (some (t.pred l i))) :
    ∃ t', t.link a update n = .ok t' ∧ SameNodes t t' ∧
      (∀ i < n, Linked (t'.nextAt i) head (t.onLevel i l ++ a :: t.onLevel i r)) ∧
      ∀ i b, n ≤ i → t'.nextAt i b = t.nextAt i b := by
  induction n with
  | zero =>
    exact ⟨t, rfl, SameNodes.refl t, fun i hi => absurd hi (Nat.not_lt_zero i), fun _ _ _ => rfl⟩
  | succ n ih =>
    obtain ⟨t₁, hlink, hsame, hdone, hframe⟩ := ih (Nat.le_of_succ_le hn)
      (Nat.le_of_succ_le hheight) fun i hi => hupdate i (Nat.lt_succ_of_lt hi)
    have hsub : (head :: (t.onLevel n l ++ t.onLevel n r)).Sublist (head :: (l ++ r)) :=
      (List.filter_sublist.append List.filter_sublist).cons_cons head
    obtain ⟨t₂, hlinkAt, hsame', hlinked', hframe'⟩ := linkAt_spec
      (hupdate n (Nat.lt_succ_self n))
      ((hlinked n hn).congr fun b _ => hframe n b le_rfl) (hnodup.sublist hsub)
      (fun hmem => ha (hsub.subset hmem)) (by rw [hsame.height]; exact hheight)
    refine ⟨t₂, ?_, hsame.trans hsame', fun i hi => ?_, fun i b hi => ?_⟩
    · rw [link, hlink]
      exact hlinkAt
    · rcases Nat.lt_succ_iff_lt_or_eq.mp hi with hi | rfl
      · exact (hdone i hi).congr fun b _ => hframe' i b (Nat.ne_of_lt hi)
      · exact hlinked'
    · rw [hframe' i b (by omega), hframe i b (by omega)]

section AddNode

variable {key : κ} {value : V} {newLevel : Nat}

theorem heap_addNode_self : (s.addNode key value newLevel).heap s.next =
    ⟨key, value, List.replicate (newLevel + 1) none⟩ := Function.update_self ..

theorem heap_addNode_of_ne {a : Nat} (h : a ≠ s.next) :
    (s.addNode key value newLevel).heap a = s.heap a := Function.update_of_ne h _ _

theorem height_addNode_self : (s.addNode key value newLevel).height s.next = newLevel + 1 := by
  rw [height, heap_addNode_self, List.length_replicate]

theorem height_addNode_of_ne {a : Nat} (h : a ≠ s.next) :
    (s.addNode key value newLevel).height a = s.height a := by
  rw [height, heap_addNode_of_ne h, height]

theorem le_level_addNode : s.level ≤ (s.addNode key value newLevel).level := by
  simp only [addNode]
  split <;> omega

theorem newLevel_le_level_addNode : newLevel ≤ (s.addNode key value newLevel).level := by
  simp only [addNode]
  split <;> omega

end AddNode

end

section

variable [LinearOrder κ] {s t : SkipList κ V} {nodes l r : List Nat} {key : κ}

theorem WellFormed.nodup_head (h : WellFormed s nodes) : (head :: nodes).Nodup :=
  List.nodup_cons.mpr ⟨h.head_notMem, h.nodup⟩

theorem WellFormed.next_notMem (h : WellFormed s nodes) : s.next ∉ head :: nodes := by
  intro hmem
  rcases List.mem_cons.mp hmem with heq | hmem
  · exact absurd h.next_pos (by omega)
  · exact absurd (h.lt_next _ hmem) (Nat.lt_irrefl _)

theorem WellFormed.ne_next (h : WellFormed s nodes) {a : Nat} (ha : a ∈ head :: nodes) :
    a ≠ s.next := by
  rintro rfl
  exact h.next_notMem ha

section AddNode

variable {value : V} {newLevel : Nat} (hwf : WellFormed s (l ++ r))
include hwf

theorem onLevel_addNode (i : Nat) {nodes : List Nat} (hsub : nodes ⊆ l ++ r) :
    (s.addNode key value newLevel).onLevel i nodes = s.onLevel i nodes := by
  refine List.filter_congr fun a ha => ?_
  rw [height_addNode_of_ne (hwf.ne_next (List.mem_cons_of_mem head (hsub ha)))]

/-- Nothing points to the new node, so the lists are what they were. -/
theorem linked_addNode {i : Nat} (hi : i < maxLevel) :
    Linked ((s.addNode key value newLevel).nextAt i) head
      ((s.addNode key value newLevel).onLevel i l ++
        (s.addNode key value newLevel).onLevel i r) := by
  rw [onLevel_addNode hwf i (List.subset_append_left l r),
    onLevel_addNode hwf i (List.subset_append_right l r), ← onLevel_append]
  refine (hwf.linked i hi).congr fun b hb => ?_
  have hmem : b ∈ head :: (l ++ r) := by
    rcases List.mem_cons.mp hb with rfl | hb
    · exact List.mem_cons_self
    · exact List.mem_cons_of_mem head (mem_onLevel.mp hb).1
  rw [nextAt, heap_addNode_of_ne (hwf.ne_next hmem), nextAt]

/-- The row of nodes with the new one, once it is linked on all its levels. -/
theorem wellFormed_insert (hl : ∀ a ∈ l, (s.heap a).key < key)
    (hr : ∀ a ∈ r, key < (s.heap a).key) (hlevel : newLevel < maxLevel)
    (hsame : SameNodes (s.addNode key value newLevel) t)
    (hlinked : ∀ i < newLevel + 1, Linked (t.nextAt i) head
      ((s.addNode key value newLevel).onLevel i l ++
        s.next :: (s.addNode key value newLevel).onLevel i r))
    (hframe : ∀ i b, newLevel + 1 ≤ i →
      t.nextAt i b = (s.addNode key value newLevel).nextAt i b) :
    WellFormed { t with size := t.size + 1 } (l ++ s.next :: r) := by
  have hne : ∀ a ∈ l ++ r, a ≠ s.next := fun a ha => hwf.ne_next (List.mem_cons_of_mem head ha)
  have hkey : ∀ a ∈ l ++ r, (t.heap a).key = (s.heap a).key := by
    intro a ha
    rw [hsame.key, heap_addNode_of_ne (hne a ha)]
  have hnew : (t.heap s.next).key = key := by rw [hsame.key, heap_addNode_self]
  have hheight : ∀ a ∈ head :: (l ++ r), t.height a = s.height a := by
    intro a ha
    rw [hsame.height, height_addNode_of_ne (hwf.ne_next ha)]
  have hnewHeight : t.height s.next = newLevel + 1 := by
    rw [hsame.height, height_addNode_self]
  have hnodes : ∀ a ∈ l ++ s.next :: r, a = s.next ∨ a ∈ l ++ r := by
    intro a ha
    simp only [List.mem_append, List.mem_cons] at ha ⊢
    tauto
  constructor
  case sorted =>
    have hsorted := hwf.sorted.imp_of_mem fun {a b} ha hb hlt => by
      rwa [← hkey a ha, ← hkey b hb] at hlt
    obtain ⟨hl', hr', hcross⟩ := List.pairwise_append.mp hsorted
    refine List.pairwise_append.mpr ⟨hl', List.pairwise_cons.mpr ⟨fun b hb => ?_, hr'⟩, ?_⟩
    · rw [hnew, hkey b (List.mem_append_right l hb)]
      exact hr b hb
    · intro a ha b hb
      rcases List.mem_cons.mp hb with rfl | hb
      · rw [hnew, hkey a (List.mem_append_left r ha)]
        exact hl a ha
      · exact hcross a ha b hb
  case head_notMem =>
    intro hmem
    rcases hnodes head hmem with heq | hmem
    · exact hwf.ne_next List.mem_cons_self heq
    · exact hwf.head_notMem hmem
  case lt_next =>
    intro a ha
    have hnext : t.next = s.next + 1 := hsame.next
    rcases hnodes a ha with rfl | ha
    · exact hnext ▸ Nat.lt_succ_self _
    · exact hnext ▸ Nat.lt_succ_of_lt (hwf.lt_next a ha)
  case next_pos =>
    have hnext : t.next = s.next + 1 := hsame.next
    exact hnext ▸ Nat.lt_succ_of_lt hwf.next_pos
  case height_pos =>
    intro a ha
    rcases hnodes a ha with rfl | ha
    · exact hnewHeight ▸ Nat.succ_pos newLevel
    · exact (hheight a (List.mem_cons_of_mem head ha)) ▸ hwf.height_pos a ha
  case height_le =>
    intro a ha
    have hlevel' : t.level = (s.addNode key value newLevel).level := hsame.level
    rcases hnodes a ha with rfl | ha
    · refine hnewHeight.le.trans (Nat.succ_le_succ ?_)
      exact hlevel' ▸ newLevel_le_level_addNode
    · refine (hheight a (List.mem_cons_of_mem head ha)).le.trans
        ((hwf.height_le a ha).trans (Nat.succ_le_succ ?_))
      exact hlevel' ▸ le_level_addNode
  case height_head => exact (hheight head List.mem_cons_self).trans hwf.height_head
  case level_lt =>
    have hlevel' : t.level = (s.addNode key value newLevel).level := hsame.level
    refine hlevel'.trans_lt ?_
    have hlt := hwf.level_lt
    simp only [addNode]
    split <;> assumption
  case linked =>
    intro i hi
    have honLevel : t.onLevel i (l ++ s.next :: r) =
        (s.addNode key value newLevel).onLevel i l ++
          (s.addNode key value newLevel).onLevel i (s.next :: r) := by
      rw [hsame.onLevel, onLevel_append]
    change Linked (t.nextAt i) head (t.onLevel i (l ++ s.next :: r))
    rw [honLevel]
    by_cases hlt : i < newLevel + 1
    · rw [onLevel_cons_of_lt (height_addNode_self ▸ hlt)]
      exact hlinked i hlt
    · rw [onLevel_cons_of_le (height_addNode_self ▸ not_lt.mp hlt)]
      exact (linked_addNode hwf hi).congr fun b _ => hframe i b (not_lt.mp hlt)
  case size_eq =>
    have hsize : t.size = s.size := hsame.size
    change t.size + 1 = _
    rw [hsize, hwf.size_eq]
    simp only [List.length_append, List.length_cons]
    push_cast
    ring

/-- A node with a new key is put in its place. -/
theorem insertNode_spec (hl : ∀ a ∈ l, (s.heap a).key < key)
    (hr : ∀ a ∈ r, key < (s.heap a).key) (value : V) (hlevel : newLevel < maxLevel)
    {update : List (Option Nat)} (hlen : update.length = maxLevel)
    (hupdate : ∀ i ≤ s.level, update[i]? = some (some (s.pred l i))) :
    ∃ t, s.insertNode key value newLevel update = .ok t ∧ WellFormed t (l ++ s.next :: r) ∧
      (t.heap s.next).key = key ∧ (t.heap s.next).value = value ∧
      ∀ a ≠ s.next, (t.heap a).key = (s.heap a).key ∧ (t.heap a).value = (s.heap a).value := by
  have hfits : s.level + (newLevel - s.level) < update.length := by
    have hlt := hwf.level_lt
    omega
  obtain ⟨update', hheads, -, hlow, hhigh⟩ := updateHeads_eq hfits
  have hupdate' : ∀ i < newLevel + 1,
      update'[i]? = some (some ((s.addNode key value newLevel).pred l i)) := by
    intro i hi
    rw [pred, onLevel_addNode hwf i (List.subset_append_left l r), ← pred]
    by_cases hle : i ≤ s.level
    · rw [hlow i hle, hupdate i hle]
    · rw [hhigh i (by omega) (by omega), hwf.pred_above (by omega)]
  have hlinked : ∀ i < maxLevel, Linked ((s.addNode key value newLevel).nextAt i) head
      ((s.addNode key value newLevel).onLevel i l ++
        (s.addNode key value newLevel).onLevel i r) := fun i hi => linked_addNode hwf hi
  obtain ⟨t, hlink, hsame, hdone, hframe⟩ := link_spec hlevel hlinked hwf.nodup_head
    hwf.next_notMem height_addNode_self.ge hupdate'
  refine ⟨{ t with size := t.size + 1 }, ?_, wellFormed_insert hwf hl hr hlevel hsame hdone hframe,
    ?_, ?_, fun a ha => ⟨?_, ?_⟩⟩
  · simp only [insertNode, hheads, Except.bind, hlink, Except.map]
  · exact (hsame.key _).trans (congrArg SkipListNode.key heap_addNode_self)
  · exact (hsame.value _).trans (congrArg SkipListNode.value heap_addNode_self)
  · exact (hsame.key a).trans (congrArg SkipListNode.key (heap_addNode_of_ne ha))
  · exact (hsame.value a).trans (congrArg SkipListNode.value (heap_addNode_of_ne ha))

end AddNode

/-! ## Deletion -/

omit [LinearOrder κ] in
/-- A list without the node that is taken out of it. -/
theorem unlinkAt_spec {a i : Nat} (h : Linked (t.nextAt i) head (l ++ a :: r))
    (hnodup : (head :: (l ++ a :: r)).Nodup) :
    ∃ t', t.setForward (l.getLastD head) i r.head? = .ok t' ∧ SameNodes t t' ∧
      Linked (t'.nextAt i) head (l ++ r) ∧ ∀ j b, j ≠ i → t'.nextAt j b = t.nextAt j b := by
  obtain ⟨t', hset, hsame, hlink, hframe⟩ :=
    setForward_spec (lt_height_of_nextAt h.next_getLastD) r.head?
  refine ⟨t', hset, hsame, ?_, fun j b hj => hframe j b (Or.inl hj)⟩
  rw [← List.cons_append] at hnodup
  obtain ⟨hnodup₁, -, hdisjoint⟩ := List.nodup_append.mp hnodup
  refine h.splice hnodup₁ (fun b _ hb => hframe i b (Or.inr hb)) hlink fun c rest heq => ?_
  rw [heq] at h
  refine h.drop.2.congr fun b hb => hframe i b (Or.inr ?_)
  rw [← heq] at hb
  exact (hdisjoint _ List.getLastD_mem_cons b (List.mem_cons_of_mem a hb)).symm

/-- The node is in no list above its height, so the loop may stop there. -/
theorem linked_of_height_le {a i : Nat} (hwf : WellFormed s (l ++ a :: r))
    (hle : s.height a ≤ i) (hdone : ∀ j < i, Linked (t.nextAt j) head (s.onLevel j (l ++ r)))
    (hframe : ∀ j b, i ≤ j → t.nextAt j b = s.nextAt j b) {j : Nat} (hj : j < maxLevel) :
    Linked (t.nextAt j) head (s.onLevel j (l ++ r)) := by
  by_cases hlt : j < i
  · exact hdone j hlt
  · have hlinked := hwf.linked j hj
    rw [onLevel_append, onLevel_cons_of_le (hle.trans (not_lt.mp hlt)), ← onLevel_append]
      at hlinked
    exact hlinked.congr fun b _ => hframe j b (not_lt.mp hlt)

/-- The loop of `Delete` over the levels. From level `i` on nothing has happened yet. -/
theorem unlink_spec {a n i : Nat} (hwf : WellFormed s (l ++ a :: r))
    {update : List (Option Nat)}
    (hupdate : ∀ i ≤ s.level, update[i]? = some (some (s.pred l i)))
    (hcount : i + n = s.level + 1) (hsame : SameNodes s t)
    (hdone : ∀ j < i, Linked (t.nextAt j) head (s.onLevel j (l ++ r)))
    (hframe : ∀ j b, i ≤ j → t.nextAt j b = s.nextAt j b) :
    ∃ t', unlink a update n i t = .ok t' ∧ SameNodes s t' ∧
      ∀ j < maxLevel, Linked (t'.nextAt j) head (s.onLevel j (l ++ r)) := by
  induction n generalizing i t with
  | zero =>
    have hle : s.height a ≤ i := (hwf.height_le a (by simp)).trans_eq hcount.symm
    exact ⟨t, rfl, hsame, fun j hj => linked_of_height_le hwf hle hdone hframe hj⟩
  | succ n ih =>
    have hi : i < maxLevel := by
      have hlt := hwf.level_lt
      omega
    have hlinked : Linked (t.nextAt i) head (s.onLevel i l ++ s.onLevel i (a :: r)) :=
      (hwf.linked_append hi).congr fun b _ => hframe i b le_rfl
    have hnext : t.forwardAt (s.pred l i) i = .ok (s.onLevel i (a :: r)).head? :=
      forwardAt_eq hlinked.next_getLastD
    by_cases hlt : i < s.height a
    · rw [onLevel_cons_of_lt hlt] at hlinked hnext
      have hsub : (head :: (s.onLevel i l ++ a :: s.onLevel i r)).Sublist
          (head :: (l ++ a :: r)) :=
        (List.filter_sublist.append (List.filter_sublist.cons_cons a)).cons_cons head
      obtain ⟨t₁, hset, hsame₁, hlinked₁, hframe₁⟩ :=
        unlinkAt_spec hlinked (hwf.nodup_head.sublist hsub)
      have hdone₁ : ∀ j < i + 1, Linked (t₁.nextAt j) head (s.onLevel j (l ++ r)) := by
        intro j hj
        rcases Nat.lt_succ_iff_lt_or_eq.mp hj with hj | rfl
        · exact (hdone j hj).congr fun b _ => hframe₁ j b (Nat.ne_of_lt hj)
        · rw [onLevel_append]
          exact hlinked₁
      have hframe' : ∀ j b, i + 1 ≤ j → t₁.nextAt j b = s.nextAt j b := by
        intro j b hj
        rw [hframe₁ j b (by omega), hframe j b (by omega)]
      obtain ⟨t', hunlink, hsame', hall⟩ := ih (by omega) (hsame.trans hsame₁) hdone₁ hframe'
      refine ⟨t', ?_, hsame', hall⟩
      rw [unlink, updateAt_eq (hupdate i (by omega))]
      simp only [Except.bind, deref, hnext, List.head?_cons, ne_eq, not_true, if_false,
        forwardAt_eq hlinked.drop.next_eq]
      rw [pred, hset]
      exact hunlink
    · rw [onLevel_cons_of_le (not_lt.mp hlt)] at hnext
      have hother : (s.onLevel i r).head? ≠ some a := by
        intro hhead
        have hmem := (mem_onLevel.mp (List.mem_of_head? hhead)).1
        have hnodup := (List.nodup_append.mp hwf.nodup).2.1
        exact (List.nodup_cons.mp hnodup).1 hmem
      refine ⟨t, ?_, hsame,
        fun j hj => linked_of_height_le hwf (not_lt.mp hlt) hdone hframe hj⟩
      rw [unlink, updateAt_eq (hupdate i (by omega))]
      simp only [Except.bind, deref, hnext, ne_eq, hother, not_false_iff, if_true]

omit [LinearOrder κ] in
/-- The level is lowered as long as no node is that high. -/
theorem lowerLevel_spec {level : Nat} (hlevel : level < maxLevel)
    (hlinked : ∀ i < maxLevel, Linked (s.nextAt i) head (s.onLevel i nodes))
    (hheight : ∀ a ∈ nodes, s.height a ≤ level + 1) :
    ∃ level', s.lowerLevel level = .ok level' ∧ level' ≤ level ∧
      ∀ a ∈ nodes, s.height a ≤ level' + 1 := by
  induction level with
  | zero => exact ⟨0, rfl, le_rfl, hheight⟩
  | succ level ih =>
    have hnext := forwardAt_eq (hlinked (level + 1) hlevel).next_eq
    by_cases hnil : s.onLevel (level + 1) nodes = []
    · have hlow : ∀ a ∈ nodes, s.height a ≤ level + 1 := by
        intro a ha
        by_contra hgt
        have hmem := mem_onLevel.mpr ⟨ha, not_le.mp hgt⟩
        rw [hnil] at hmem
        cases hmem
      obtain ⟨level', hlower, hle, hheight'⟩ := ih (Nat.lt_of_succ_lt hlevel) hlow
      refine ⟨level', ?_, Nat.le_succ_of_le hle, hheight'⟩
      rw [lowerLevel, hnext, hnil]
      exact hlower
    · refine ⟨level + 1, ?_, le_rfl, hheight⟩
      obtain ⟨a, rest, hcons⟩ := List.exists_cons_of_ne_nil hnil
      rw [lowerLevel, hnext, hcons]
      rfl

/-- A node is taken out of the row. -/
theorem deleteNode_spec {a : Nat} (hwf : WellFormed s (l ++ a :: r)) {update : List (Option Nat)}
    (hupdate : ∀ i ≤ s.level, update[i]? = some (some (s.pred l i))) :
    ∃ t, s.deleteNode a update = .ok t ∧ WellFormed t (l ++ r) ∧
      ∀ a, (t.heap a).key = (s.heap a).key ∧ (t.heap a).value = (s.heap a).value := by
  obtain ⟨t, hunlink, hsame, hlinked⟩ := unlink_spec hwf hupdate (Nat.zero_add _)
    (SameNodes.refl s) (fun j hj => absurd hj (Nat.not_lt_zero j)) fun _ _ _ => rfl
  have hsub : (l ++ r).Sublist (l ++ a :: r) :=
    (List.Sublist.refl l).append (List.sublist_cons_self a r)
  have hlinked' : ∀ i < maxLevel, Linked (t.nextAt i) head (t.onLevel i (l ++ r)) := by
    intro i hi
    rw [hsame.onLevel]
    exact hlinked i hi
  have hheight : ∀ b ∈ l ++ r, t.height b ≤ t.level + 1 := by
    intro b hb
    rw [hsame.height, hsame.level]
    exact hwf.height_le b (hsub.subset hb)
  obtain ⟨level, hlower, hle, hlevel⟩ := lowerLevel_spec (hsame.level.trans_lt hwf.level_lt)
    hlinked' hheight
  refine ⟨{ t with level := level, size := t.size - 1 }, ?_, ?_,
    fun b => ⟨hsame.key b, hsame.value b⟩⟩
  · rw [deleteNode, hunlink]
    simp only [Except.bind, hlower, Except.map]
  · constructor
    case sorted =>
      refine (hwf.sorted.sublist hsub).imp fun {b c} hlt => ?_
      change (t.heap b).key < (t.heap c).key
      rwa [hsame.key, hsame.key]
    case head_notMem => exact fun hmem => hwf.head_notMem (hsub.subset hmem)
    case lt_next =>
      intro b hb
      exact (hwf.lt_next b (hsub.subset hb)).trans_eq hsame.next.symm
    case next_pos => exact hwf.next_pos.trans_eq hsame.next.symm
    case height_pos =>
      intro b hb
      exact (hwf.height_pos b (hsub.subset hb)).trans_eq (hsame.height b).symm
    case height_le => exact hlevel
    case height_head => exact (hsame.height head).trans hwf.height_head
    case level_lt => exact (hle.trans_eq hsame.level).trans_lt hwf.level_lt
    case linked => exact hlinked'
    case size_eq =>
      have hsize : t.size = s.size := hsame.size
      change t.size - 1 = _
      rw [hsize, hwf.size_eq]
      simp only [List.length_append, List.length_cons]
      push_cast
      ring

/-! ## The map -/

/-- The skip list has the keys and values of a map. -/
def Represents (s : SkipList κ V) (f : κ → Option V) : Prop :=
  ∃ nodes, WellFormed s nodes ∧
    ∀ k v, f k = some v ↔ ∃ a ∈ nodes, (s.heap a).key = k ∧ (s.heap a).value = v

variable {f : κ → Option V}

theorem represents_new [Inhabited κ] [Inhabited V] :
    Represents (new : SkipList κ V) fun _ => none := by
  refine ⟨[], ?_, by simp⟩
  constructor
  case height_head => exact List.length_replicate
  case level_lt => exact Nat.zero_lt_succ 15
  case linked =>
    intro i hi
    exact List.getElem?_replicate_of_lt hi
  case next_pos => exact Nat.zero_lt_one
  case size_eq => rfl
  all_goals simp

/-- What stands at the place of a key, seen from the map. -/
theorem eq_of_split (hwf : WellFormed s (l ++ r)) (hl : ∀ a ∈ l, (s.heap a).key < key)
    (hr : ∀ a ∈ r, key ≤ (s.heap a).key)
    (hf : ∀ k v, f k = some v ↔ ∃ a ∈ l ++ r, (s.heap a).key = k ∧ (s.heap a).value = v) :
    f key = r.head?.bind fun a =>
      if (s.heap a).key = key then some (s.heap a).value else none := by
  cases hkey : f key with
  | some v =>
    obtain ⟨a, ha, hak, rfl⟩ := (hf key v).mp hkey
    have har : a ∈ r := by
      refine (List.mem_append.mp ha).resolve_left fun hal => ?_
      exact absurd (hl a hal) (by rw [hak]; exact lt_irrefl _)
    cases r with
    | nil => cases har
    | cons b r =>
      -- the first node that is not before the key cannot be before `a`
      rcases List.mem_cons.mp har with rfl | har
      · exact (if_pos hak).symm
      · have hsorted := (List.pairwise_append.mp hwf.sorted).2.1
        have hlt := (List.pairwise_cons.mp hsorted).1 a har
        rw [hak] at hlt
        exact absurd (hr b (by simp)) (not_le.mpr hlt)
  | none =>
    cases r with
    | nil => rfl
    | cons b r =>
      by_cases hbk : (s.heap b).key = key
      · have hsome := (hf key (s.heap b).value).mpr ⟨b, by simp, hbk, rfl⟩
        rw [hkey] at hsome
        cases hsome
      · exact (if_neg hbk).symm

theorem Represents.search_eq (h : Represents s f) (key : κ) : s.search key = .ok (f key) := by
  obtain ⟨nodes, hwf, hf⟩ := h
  obtain ⟨l, r, rfl, hl, hr⟩ := hwf.exists_split key
  rw [SkipList.search_eq hwf hl hr, eq_of_split hwf hl hr hf]

/-- Where `Insert` and `Delete` find themselves after their first loop. -/
theorem Represents.find (h : Represents s f) (key : κ) :
    ∃ l r update, WellFormed s (l ++ r) ∧ (∀ a ∈ l, (s.heap a).key < key) ∧
      (∀ a ∈ r, key ≤ (s.heap a).key) ∧
      (∀ k v, f k = some v ↔ ∃ a ∈ l ++ r, (s.heap a).key = k ∧ (s.heap a).value = v) ∧
      s.findLoop key (s.level + 1) head (List.replicate maxLevel none) =
        .ok (s.pred l 0, update) ∧
      update.length = maxLevel ∧ ∀ i ≤ s.level, update[i]? = some (some (s.pred l i)) := by
  obtain ⟨nodes, hwf, hf⟩ := h
  obtain ⟨l, r, rfl, hl, hr⟩ := hwf.exists_split key
  obtain ⟨update, hfind, hlen, hupdate, -⟩ :=
    findLoop_eq hwf hl hr hwf.level_lt (List.length_replicate (a := none))
  rw [hwf.pred_above (Nat.lt_succ_self _)] at hfind
  exact ⟨l, r, update, hwf, hl, hr, hf, hfind, hlen, fun i hi => hupdate i (Nat.lt_succ_of_le hi)⟩

omit [LinearOrder κ] in
theorem heap_setValue (a b : Nat) (value : V) : (s.setValue a value).heap b =
    { s.heap b with value := if b = a then value else (s.heap b).value } := by
  by_cases hb : b = a
  · rw [if_pos hb, hb]
    exact Function.update_self ..
  · rw [if_neg hb]
    exact Function.update_of_ne hb _ _

/-- Values do not matter for the order. -/
theorem WellFormed.setValue (hwf : WellFormed s nodes) (a : Nat) (value : V) :
    WellFormed (s.setValue a value) nodes := by
  have hkey : ∀ b, ((s.setValue a value).heap b).key = (s.heap b).key := by
    intro b
    rw [heap_setValue]
  have hheight : ∀ b, (s.setValue a value).height b = s.height b := by
    intro b
    rw [height, heap_setValue, height]
  constructor
  case sorted =>
    refine hwf.sorted.imp fun {b c} hlt => ?_
    rwa [hkey, hkey]
  case height_pos =>
    intro b hb
    exact (hwf.height_pos b hb).trans_eq (hheight b).symm
  case height_le =>
    intro b hb
    exact (hheight b).trans_le (hwf.height_le b hb)
  case height_head => exact (hheight head).trans hwf.height_head
  case linked =>
    intro i hi
    have honLevel : (s.setValue a value).onLevel i nodes = s.onLevel i nodes :=
      List.filter_congr fun b _ => by rw [hheight]
    rw [honLevel]
    refine (hwf.linked i hi).congr fun b _ => ?_
    rw [nextAt, heap_setValue, nextAt]
  case head_notMem => exact hwf.head_notMem
  case lt_next => exact hwf.lt_next
  case next_pos => exact hwf.next_pos
  case level_lt => exact hwf.level_lt
  case size_eq => exact hwf.size_eq

/-- `Insert` of a key that is there. -/
theorem Represents.setValue {a : Nat} (hwf : WellFormed s nodes) (ha : a ∈ nodes)
    (hf : ∀ k v, f k = some v ↔ ∃ a ∈ nodes, (s.heap a).key = k ∧ (s.heap a).value = v)
    (value : V) :
    Represents (s.setValue a value) (Function.update f (s.heap a).key (some value)) := by
  refine ⟨nodes, hwf.setValue a value, fun k v => ?_⟩
  by_cases hk : k = (s.heap a).key
  · rw [hk, Function.update_self]
    constructor
    · rintro ⟨⟩
      exact ⟨a, ha, by rw [heap_setValue], by rw [heap_setValue, if_pos rfl]⟩
    · rintro ⟨b, hb, hbk, rfl⟩
      rw [heap_setValue] at hbk ⊢
      rw [if_pos (hwf.eq_of_key hb ha hbk)]
  · rw [Function.update_of_ne hk, hf]
    refine exists_congr fun b => and_congr_right fun _ => ?_
    rw [heap_setValue]
    refine and_congr_right fun hbk => ?_
    have hba : b ≠ a := by
      rintro rfl
      exact hk hbk.symm
    rw [if_neg hba]

/-- `Insert` of a key that is not there. -/
theorem Represents.insertNode (hwf : WellFormed s (l ++ r))
    (hl : ∀ a ∈ l, (s.heap a).key < key) (hr : ∀ a ∈ r, key < (s.heap a).key)
    (hf : ∀ k v, f k = some v ↔ ∃ a ∈ l ++ r, (s.heap a).key = k ∧ (s.heap a).value = v)
    (value : V) {newLevel : Nat} (hlevel : newLevel < maxLevel) {update : List (Option Nat)}
    (hlen : update.length = maxLevel)
    (hupdate : ∀ i ≤ s.level, update[i]? = some (some (s.pred l i))) :
    ∃ t, s.insertNode key value newLevel update = .ok t ∧
      Represents t (Function.update f key (some value)) := by
  obtain ⟨t, hinsert, hwf', hkey, hvalue, hold⟩ :=
    insertNode_spec hwf hl hr value hlevel hlen hupdate
  refine ⟨t, hinsert, l ++ s.next :: r, hwf', fun k v => ?_⟩
  by_cases hk : k = key
  · rw [hk, Function.update_self]
    constructor
    · rintro ⟨⟩
      exact ⟨s.next, by simp, hkey, hvalue⟩
    · rintro ⟨a, ha, hak, rfl⟩
      rw [hwf'.eq_of_key ha (show s.next ∈ l ++ s.next :: r by simp) (hak.trans hkey.symm), hvalue]
  · rw [Function.update_of_ne hk, hf]
    constructor
    · rintro ⟨a, ha, hak, hav⟩
      have hne := hwf.ne_next (List.mem_cons_of_mem head ha)
      refine ⟨a, ?_, (hold a hne).1.trans hak, (hold a hne).2.trans hav⟩
      simp only [List.mem_append, List.mem_cons] at ha ⊢
      tauto
    · rintro ⟨a, ha, hak, hav⟩
      have hne : a ≠ s.next := by
        rintro rfl
        exact hk (hak.symm.trans hkey)
      refine ⟨a, ?_, (hold a hne).1.symm.trans hak, (hold a hne).2.symm.trans hav⟩
      simp only [List.mem_append, List.mem_cons] at ha ⊢
      tauto

/-- **Insertion.** The key has the new value, and the other keys what they had. -/
theorem Represents.insert (h : Represents s f) (key : κ) (value : V) {newLevel : Nat}
    (hlevel : newLevel < maxLevel) : ∃ t, s.insert key value newLevel = .ok t ∧
      Represents t (Function.update f key (some value)) := by
  obtain ⟨l, r, update, hwf, hl, hr, hf, hfind, hlen, hupdate⟩ := h.find key
  simp only [SkipList.insert, hfind, Except.bind, hwf.forwardAt_pred]
  cases r with
  | nil => exact Represents.insertNode hwf hl (by simp) hf value hlevel hlen hupdate
  | cons b r =>
    simp only [List.head?_cons]
    by_cases hbk : (s.heap b).key = key
    · rw [if_pos hbk, ← hbk]
      exact ⟨_, rfl, Represents.setValue hwf (by simp) hf value⟩
    · rw [if_neg hbk]
      refine Represents.insertNode hwf hl (fun a ha => ?_) hf value hlevel hlen hupdate
      have hlt : key < (s.heap b).key := lt_of_le_of_ne (hr b (by simp)) (Ne.symm hbk)
      rcases List.mem_cons.mp ha with rfl | ha
      · exact hlt
      · have hsorted := (List.pairwise_append.mp hwf.sorted).2.1
        exact hlt.trans ((List.pairwise_cons.mp hsorted).1 a ha)

/-- `Delete` of a key that is there. -/
theorem Represents.deleteNode {a : Nat} (hwf : WellFormed s (l ++ a :: r))
    (hf : ∀ k v, f k = some v ↔ ∃ b ∈ l ++ a :: r, (s.heap b).key = k ∧ (s.heap b).value = v)
    {update : List (Option Nat)}
    (hupdate : ∀ i ≤ s.level, update[i]? = some (some (s.pred l i))) :
    ∃ t, s.deleteNode a update = .ok t ∧
      Represents t (Function.update f (s.heap a).key none) := by
  obtain ⟨t, hdelete, hwf', hsame⟩ := deleteNode_spec hwf hupdate
  have hmem : ∀ b, b ∈ l ++ a :: r ↔ b = a ∨ b ∈ l ++ r := by
    intro b
    simp only [List.mem_append, List.mem_cons]
    tauto
  refine ⟨t, hdelete, l ++ r, hwf', fun k v => ?_⟩
  by_cases hk : k = (s.heap a).key
  · rw [hk, Function.update_self]
    refine iff_of_false (by simp) ?_
    rintro ⟨b, hb, hbk, -⟩
    rw [(hsame b).1] at hbk
    obtain rfl := hwf.eq_of_key ((hmem b).mpr (Or.inr hb)) ((hmem a).mpr (Or.inl rfl)) hbk
    exact (List.nodup_cons.mp (List.nodup_middle.mp hwf.nodup)).1 hb
  · rw [Function.update_of_ne hk, hf]
    constructor
    · rintro ⟨b, hb, hbk, hbv⟩
      have hne : b ≠ a := by
        rintro rfl
        exact hk hbk.symm
      exact ⟨b, ((hmem b).mp hb).resolve_left hne, (hsame b).1.trans hbk, (hsame b).2.trans hbv⟩
    · rintro ⟨b, hb, hbk, hbv⟩
      exact ⟨b, (hmem b).mpr (Or.inr hb), (hsame b).1.symm.trans hbk, (hsame b).2.symm.trans hbv⟩

/-- **Deletion.** The key is gone, and the result says whether it was there. -/
theorem Represents.delete (h : Represents s f) (key : κ) :
    ∃ t, s.delete key = .ok (t, (f key).isSome) ∧ Represents t (Function.update f key none) := by
  obtain ⟨l, r, update, hwf, hl, hr, hf, hfind, -, hupdate⟩ := h.find key
  have hkey := eq_of_split hwf hl hr hf
  have habsent : f key = none → ∃ t, (.ok (s, false) : Except Fault (SkipList κ V × Bool)) =
      .ok (t, (f key).isSome) ∧ Represents t (Function.update f key none) := by
    intro hnone
    refine ⟨s, by rw [hnone]; rfl, ?_⟩
    rw [← hnone, Function.update_eq_self]
    exact h
  simp only [SkipList.delete, hfind, Except.bind, hwf.forwardAt_pred]
  cases r with
  | nil => exact habsent hkey
  | cons b r =>
    simp only [List.head?_cons, Option.bind_some] at hkey ⊢
    by_cases hbk : (s.heap b).key = key
    · obtain ⟨t, hdelete, hrep⟩ := Represents.deleteNode hwf hf hupdate
      rw [hbk] at hrep
      refine ⟨t, ?_, hrep⟩
      rw [if_neg (not_not_intro hbk), hdelete, hkey, if_pos hbk]
      rfl
    · rw [if_pos hbk]
      rw [if_neg hbk] at hkey
      exact habsent hkey

omit [LinearOrder κ] in
/-- The iterator runs through the lowest level. -/
theorem items_eq [Inhabited κ] [Inhabited V] {c fuel : Nat} (h : Linked (s.nextAt 0) c nodes)
    (hfuel : nodes.length < fuel) : SkipListIterator.items s fuel ⟨some c⟩ =
      .ok (nodes.map fun a => ((s.heap a).key, (s.heap a).value)) := by
  induction nodes generalizing c fuel with
  | nil =>
    obtain ⟨fuel, rfl⟩ : ∃ n, fuel = n + 1 := ⟨fuel - 1, by omega⟩
    simp only [SkipListIterator.items, SkipListIterator.next, forwardAt_eq h.next_eq]
    rfl
  | cons a nodes ih =>
    obtain ⟨fuel, rfl⟩ : ∃ n, fuel = n + 1 := ⟨fuel - 1, by omega⟩
    have hrest := ih h.2 (Nat.lt_of_succ_lt_succ hfuel)
    simp only [SkipListIterator.items, SkipListIterator.next, forwardAt_eq h.1, Except.map,
      Except.bind, Option.isSome_some, if_true, hrest, List.map_cons]
    rfl

/-- **Iteration.** Every key comes once, in ascending order. -/
theorem Represents.items [Inhabited κ] [Inhabited V] (h : Represents s f) :
    ∃ items, SkipListIterator.items s (s.next + 1) iterator = .ok items ∧
      (items.map Prod.fst).Pairwise (· < ·) ∧ (∀ k v, (k, v) ∈ items ↔ f k = some v) ∧
      s.len = items.length := by
  obtain ⟨nodes, hwf, hf⟩ := h
  have hlinked := hwf.linked 0 (show 0 < maxLevel by decide)
  rw [hwf.onLevel_zero (List.Subset.refl nodes)] at hlinked
  refine ⟨_, items_eq hlinked hwf.length_lt, ?_, fun k v => ?_, ?_⟩
  · rw [List.map_map]
    exact List.pairwise_map.mpr hwf.sorted
  · rw [hf, List.mem_map]
    simp only [Prod.mk.injEq]
  · rw [List.length_map]
    exact hwf.size_eq

end

end SkipList

/-! ## Sequences of calls -/

/-- A call, with the level that `randomLevel` chooses for a new node. -/
inductive SkipListCall (κ V : Type*) where
  | insert (key : κ) (value : V) (level : Fin maxLevel)
  | delete (key : κ)
  | search (key : κ)

namespace SkipListCall

variable {κ V : Type*}

/-- The last `Insert` of the key has this value, and no `Delete` of the key follows. -/
def LastInserted (calls : List (SkipListCall κ V)) (key : κ) (value : V) : Prop :=
  ∃ pre level post, calls = pre ++ .insert key value level :: post ∧
    (∀ value' level', .insert key value' level' ∉ post) ∧ .delete key ∉ post

theorem lastInserted_concat {calls : List (SkipListCall κ V)} {c : SkipListCall κ V} {key : κ}
    {value : V} : LastInserted (calls ++ [c]) key value ↔
      (∃ level, c = .insert key value level) ∨
      (LastInserted calls key value ∧ (∀ value' level', c ≠ .insert key value' level') ∧
        c ≠ .delete key) := by
  constructor
  · rintro ⟨pre, level, post, heq, hinsert, hdelete⟩
    rcases List.eq_nil_or_concat post with rfl | ⟨post, c', rfl⟩
    · obtain ⟨-, hc⟩ := List.append_inj' heq rfl
      exact Or.inl ⟨level, List.cons.inj hc |>.1⟩
    · rw [List.concat_eq_append, ← List.cons_append, ← List.append_assoc] at heq
      obtain ⟨rfl, hc⟩ := List.append_inj' heq rfl
      obtain rfl := (List.cons.inj hc).1
      refine Or.inr ⟨⟨pre, level, post, rfl, fun v l hmem => ?_, fun hmem => ?_⟩, ?_, ?_⟩
      · exact hinsert v l (by simp [hmem])
      · exact hdelete (by simp [hmem])
      · rintro v l rfl
        exact hinsert v l (by simp)
      · rintro rfl
        exact hdelete (by simp)
  · rintro (⟨level, rfl⟩ | ⟨⟨pre, level, post, rfl, hinsert, hdelete⟩, hi, hd⟩)
    · exact ⟨calls, level, [], rfl, by simp, by simp⟩
    · refine ⟨pre, level, post ++ [c], by simp, fun v l hmem => ?_, fun hmem => ?_⟩
      · rcases List.mem_append.mp hmem with hmem | hmem
        · exact hinsert v l hmem
        · exact hi v l (List.mem_singleton.mp hmem).symm
      · rcases List.mem_append.mp hmem with hmem | hmem
        · exact hdelete hmem
        · exact hd (List.mem_singleton.mp hmem).symm

/-- The call as a change of a map. -/
def effect [DecidableEq κ] : SkipListCall κ V → (κ → Option V) → κ → Option V
  | .insert key value _, f => Function.update f key (some value)
  | .delete key, f => Function.update f key none
  | .search _, f => f

/-- The map after some calls. -/
theorem foldl_effect_eq_some_iff [DecidableEq κ] (calls : List (SkipListCall κ V)) (key : κ) (value : V) :
    calls.foldl (fun f c => c.effect f) (fun _ => none) key = some value ↔
      LastInserted calls key value := by
  induction calls using List.reverseRecOn with
  | nil =>
    refine iff_of_false (by simp) ?_
    rintro ⟨pre, level, post, heq, -⟩
    simp at heq
  | append_singleton calls c ih =>
    rw [List.foldl_append, List.foldl_cons, List.foldl_nil, lastInserted_concat, ← ih]
    cases c with
    | insert key' value' level =>
      by_cases hk : key = key'
      · subst hk
        simp [effect]
      · simp [effect, Function.update_of_ne hk, Ne.symm hk]
    | delete key' =>
      by_cases hk : key = key'
      · subst hk
        simp [effect]
      · simp [effect, Function.update_of_ne hk, Ne.symm hk]
    | search key' => simp [effect]

end SkipListCall

namespace SkipList

variable {κ V : Type*} [LinearOrder κ] {s : SkipList κ V} {f : κ → Option V}

/-- One call. -/
def call (s : SkipList κ V) : SkipListCall κ V → Except Fault (SkipList κ V)
  | .insert key value level => s.insert key value level
  | .delete key => (s.delete key).map Prod.fst
  | .search key => (s.search key).map fun _ => s

/-- Calls one after another. -/
def runCalls (s : SkipList κ V) : List (SkipListCall κ V) → Except Fault (SkipList κ V)
  | [] => .ok s
  | c :: calls => (s.call c).bind fun s => s.runCalls calls

theorem Represents.call (h : Represents s f) (c : SkipListCall κ V) :
    ∃ t, s.call c = .ok t ∧ Represents t (c.effect f) := by
  cases c with
  | insert key value level => exact h.insert key value level.isLt
  | delete key =>
    obtain ⟨t, hdelete, hrep⟩ := h.delete key
    exact ⟨t, by rw [SkipList.call, hdelete]; rfl, hrep⟩
  | search key => exact ⟨s, by rw [SkipList.call, h.search_eq]; rfl, h⟩

theorem Represents.runCalls (h : Represents s f) (calls : List (SkipListCall κ V)) :
    ∃ t, s.runCalls calls = .ok t ∧ Represents t (calls.foldl (fun f c => c.effect f) f) := by
  induction calls generalizing s f with
  | nil => exact ⟨s, rfl, h⟩
  | cons c calls ih =>
    obtain ⟨s₁, hcall, hrep⟩ := h.call c
    obtain ⟨t, hrun, hrep'⟩ := ih hrep
    refine ⟨t, ?_, hrep'⟩
    rw [SkipList.runCalls, hcall]
    exact hrun

open SkipListCall in
/-- **The skip list is an ordered map.** No sequence of calls panics, whatever levels are chosen, and
after it every call, the length and the iterator answer by the last insertion of each key. -/
theorem orderedMap [Inhabited κ] [Inhabited V] (calls : List (SkipListCall κ V)) :
    ∃ s : SkipList κ V, new.runCalls calls = .ok s ∧
      (∀ key, ∃ found, s.search key = .ok found ∧
        ∀ value, found = some value ↔ LastInserted calls key value) ∧
      (∀ key, ∃ t deleted, s.delete key = .ok (t, deleted) ∧
        (deleted = true ↔ ∃ value, LastInserted calls key value)) ∧
      (∀ key value (level : Fin maxLevel), ∃ t, s.insert key value level = .ok t) ∧
      s.len = {key | ∃ value, LastInserted calls key value}.ncard ∧
      ∃ items, SkipListIterator.items s (s.next + 1) iterator = .ok items ∧
        (items.map Prod.fst).Pairwise (· < ·) ∧
        ∀ key value, (key, value) ∈ items ↔ LastInserted calls key value := by
  obtain ⟨s, hrun, hrep⟩ := represents_new.runCalls calls
  have hlast := foldl_effect_eq_some_iff calls
  obtain ⟨items, hitems, hsorted, hmem, hlen⟩ := hrep.items
  refine ⟨s, hrun, fun key => ⟨_, hrep.search_eq key, hlast key⟩, fun key => ?_,
    fun key value level => ?_, ?_, items, hitems, hsorted,
    fun key value => (hmem key value).trans (hlast key value)⟩
  · obtain ⟨t, hdelete, -⟩ := hrep.delete key
    refine ⟨t, _, hdelete, ?_⟩
    rw [Option.isSome_iff_exists]
    exact exists_congr fun value => hlast key value
  · obtain ⟨t, hinsert, -⟩ := hrep.insert key value level.isLt
    exact ⟨t, hinsert⟩
  · have hset : {key | ∃ value, LastInserted calls key value} =
        ((items.map Prod.fst).toFinset : Set κ) := by
      ext key
      simp [hmem, hlast]
    rw [hset, Set.ncard_coe_finset, List.toFinset_card_of_nodup (hsorted.imp ne_of_lt),
      List.length_map, hlen]

end SkipList

/-! ## The memtable -/

namespace MemTable

open SkipList

variable {s : SkipList String MemTableEntry} {mt : MemTable}

/-- `MemTable.Put` on the skip list. -/
theorem represents_put (h : Represents s mt.get) (entry : MemTableEntry) {level : Nat}
    (hlevel : level < maxLevel) : ∃ t, s.insert entry.key entry level = .ok t ∧
      Represents t (mt.put entry).get := by
  obtain ⟨t, hinsert, hrep⟩ := h.insert entry.key entry hlevel
  refine ⟨t, hinsert, ?_⟩
  have heq : (mt.put entry).get = Function.update mt.get entry.key (some entry) := by
    funext key
    rw [get_put, Function.update_apply]
    simp only [eq_comm]
  rwa [heq]

/-- The memtable after some calls of `Put`, and the skip list after the same calls. -/
theorem represents_puts (puts : List (MemTableEntry × Fin maxLevel)) (h : Represents s mt.get) :
    ∃ t, s.runCalls (puts.map fun p => .insert p.1.key p.1 p.2) = .ok t ∧
      Represents t (puts.foldl (fun mt p => mt.put p.1) mt).get := by
  induction puts generalizing s mt with
  | nil => exact ⟨s, rfl, h⟩
  | cons p puts ih =>
    obtain ⟨s₁, hinsert, hrep⟩ := represents_put h p.1 p.2.isLt
    obtain ⟨t, hrun, hrep'⟩ := ih hrep
    refine ⟨t, ?_, hrep'⟩
    rw [List.map_cons, runCalls, call, hinsert]
    exact hrun

/-- The iterator runs through the entries of the memtable. -/
theorem items_eq_entries [Inhabited MemTableEntry] (h : Represents s mt.get) :
    ∃ items, SkipListIterator.items s (s.next + 1) iterator = .ok items ∧
      items.map Prod.snd = mt.entries := by
  obtain ⟨items, hitems, hsorted, hmem, -⟩ := h.items
  have hkey : ∀ item ∈ items, item.2.key = item.1 :=
    fun item hitem => key_of_get ((hmem item.1 item.2).mp hitem)
  have hascending : (items.map Prod.snd).Pairwise fun a b => a.key < b.key := by
    refine List.pairwise_map.mpr ((List.pairwise_map.mp hsorted).imp_of_mem ?_)
    intro a b ha hb hlt
    rwa [hkey a ha, hkey b hb]
  have hnodup : (items.map Prod.snd).Nodup := by
    refine hascending.imp ?_
    rintro a b hlt rfl
    exact lt_irrefl _ hlt
  have hperm : (items.map Prod.snd).Perm mt.entries := by
    refine (List.perm_ext_iff_of_nodup hnodup (List.Nodup.of_map _ mt.nodup_keys)).mpr fun e => ?_
    rw [mem_entries, List.mem_map]
    constructor
    · rintro ⟨item, hitem, rfl⟩
      rw [hkey item hitem]
      exact (hmem item.1 item.2).mp hitem
    · intro hget
      exact ⟨(e.key, e), (hmem e.key e).mpr hget, rfl⟩
  exact ⟨items, hitems, hperm.eq_of_pairwise
    (fun a b _ _ hab hba => absurd (hab.trans hba) (lt_irrefl _)) hascending mt.pairwise_entries⟩

/-- **The memtable on its skip list.** Whatever levels are chosen, the skip list finds what the
memtable has, and its iterator yields the entries of the memtable. -/
theorem skipList_run [Inhabited MemTableEntry] (puts : List (MemTableEntry × Fin maxLevel)) :
    ∃ t : SkipList String MemTableEntry,
      SkipList.new.runCalls (puts.map fun p => .insert p.1.key p.1 p.2) = .ok t ∧
      (∀ key, t.search key = .ok ((puts.foldl (fun mt p => mt.put p.1) new).get key)) ∧
      ∃ items, SkipListIterator.items t (t.next + 1) iterator = .ok items ∧
        items.map Prod.snd = (puts.foldl (fun mt p => mt.put p.1) new).entries := by
  have hnew : Represents (SkipList.new : SkipList String MemTableEntry) new.get := by
    rw [show new.get = fun _ => none from funext get_new]
    exact represents_new
  obtain ⟨t, hrun, hrep⟩ := represents_puts puts hnew
  exact ⟨t, hrun, hrep.search_eq, items_eq_entries hrep⟩

end MemTable

end PairDB.StorageNode
