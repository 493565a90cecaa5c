import PairDB.Coordinator.RingWalk

/-!
# Where keys are placed

Three results about the ring. The walk of `GetNodes` finds the first physical nodes clockwise
(`getNodes_walks_ring`). A node that joins or leaves changes nothing but its own place in the walks
(`addNode_disturbs_minimally`). The arcs between the points tile the hashes, and the owner of a
hash is the node at the end of its arc (`arcs_tile`).
-/

namespace PairDB.Coordinator

open Infra

namespace ConsistentHasher

variable {hash : String → UInt64} {counts : String → Nat} {ch : ConsistentHasher}

/-! ## The replicas of a key -/

/-- A change of the ring. A node always has the same number of virtual nodes. -/
inductive RingAction where
  | add (nodeID : String)
  | remove (nodeID : String)
  | clear
  deriving DecidableEq, Repr

/-- One change. -/
def apply (hash : String → UInt64) (counts : String → Nat) (ch : ConsistentHasher) :
    RingAction → ConsistentHasher
  | .add nodeID => ch.addNode hash nodeID (counts nodeID)
  | .remove nodeID => ch.removeNode nodeID
  | .clear => ch.clear

/-- The ring after some changes. -/
def built (hash : String → UInt64) (counts : String → Nat) (actions : List RingAction) :
    ConsistentHasher := actions.foldl (apply hash counts) new

/-- The nodes that are added at some time. -/
def added (actions : List RingAction) : Set String := { nodeID | RingAction.add nodeID ∈ actions }

theorem sound_built (actions : List RingAction)
    (hfree : CollisionFree hash counts (added actions)) :
    Sound hash counts (built hash counts actions) ∧
      (built hash counts actions).present ⊆ added actions := by
  have hloop : ∀ (as : List RingAction) (ch : ConsistentHasher), Sound hash counts ch →
      ch.present ⊆ added actions → (∀ a ∈ as, a ∈ actions) →
      Sound hash counts (as.foldl (apply hash counts) ch) ∧
        (as.foldl (apply hash counts) ch).present ⊆ added actions := by
    intro as
    induction as with
    | nil => exact fun ch hsound hsub _ => ⟨hsound, hsub⟩
    | cons a as ih =>
      intro ch hsound hsub hmem
      rw [List.forall_mem_cons] at hmem
      rw [List.foldl_cons]
      cases a with
      | add nodeID =>
        have hinsert : insert nodeID ch.present ⊆ added actions :=
          Set.insert_subset hmem.1 hsub
        refine ih _ (sound_addNode hsound nodeID (hfree.mono hinsert)) ?_ hmem.2
        rw [apply, present_addNode]
        exact hinsert
      | remove nodeID =>
        refine ih _ (sound_removeNode hsound nodeID (hfree.mono hsub)) ?_ hmem.2
        rw [apply, present_removeNode]
        exact Set.sdiff_subset.trans hsub
      | clear =>
        refine ih _ sound_new ?_ hmem.2
        intro n hn
        cases hn
  refine hloop actions new sound_new ?_ fun _ ha => ha
  intro n hn
  cases hn

theorem mem_present_iff (n : String) : n ∈ ch.present ↔ n ∈ ch.nodeVNodes.keys := by
  show (ch.nodeVNodes.get? n).isSome = true ↔ n ∈ ch.nodeVNodes.keys
  rw [← not_iff_not, Bool.not_eq_true, Option.isSome_eq_false_iff, Option.isNone_iff_eq_none]
  exact Map.get?_eq_none_iff _ _

/-- Every point belongs to a virtual node of a node that is present. -/
theorem Sound.virtualNode_of_mem (h : Sound hash counts ch) {p : UInt64} (hp : p ∈ ch.ring) :
    ∃ n ∈ ch.present, ∃ i < counts n, hash (vnodeID n i) = p ∧
      ch.virtualNodeAt p = ⟨vnodeID n i, p, n⟩ := by
  obtain ⟨n, hn, hpoint⟩ := (h.ring p).mp hp
  obtain ⟨i, hi, rfl⟩ := mem_points.mp hpoint
  exact ⟨n, hn, i, hi, rfl, h.virtualNodeAt hn hi⟩

/-- Every node that is present is met on the walk. -/
theorem Sound.mem_walk_iff (h : Sound hash counts ch) (hcounts : ∀ n ∈ ch.present, 1 ≤ counts n)
    (keyHash : UInt64) (n : String) :
    n ∈ (firstBy VirtualNode.nodeID ((clockwise ch.ring keyHash).map ch.virtualNodeAt)).map
        VirtualNode.nodeID ↔ n ∈ ch.present := by
  rw [mem_map_firstBy, List.map_map, List.mem_map]
  constructor
  · rintro ⟨p, hp, rfl⟩
    obtain ⟨n, hn, i, hi, -, hvnode⟩ := h.virtualNode_of_mem (mem_clockwise.mp hp)
    rw [Function.comp_apply, hvnode]
    exact hn
  · intro hn
    have hi : 0 < counts n := hcounts n hn
    refine ⟨hash (vnodeID n 0), mem_clockwise.mpr ((h.ring _).mpr ⟨n, hn, ?_⟩), ?_⟩
    · exact mem_points.mpr ⟨0, hi, rfl⟩
    · rw [Function.comp_apply, h.virtualNodeAt hn hi]

theorem Sound.length_walk (h : Sound hash counts ch) (hcounts : ∀ n ∈ ch.present, 1 ≤ counts n)
    (keyHash : UInt64) :
    (firstBy VirtualNode.nodeID ((clockwise ch.ring keyHash).map ch.virtualNodeAt)).length =
      ch.nodeCount := by
  have hperm : ((firstBy VirtualNode.nodeID
      ((clockwise ch.ring keyHash).map ch.virtualNodeAt)).map VirtualNode.nodeID).Perm
        ch.nodeVNodes.keys := by
    refine (List.perm_ext_iff_of_nodup (nodup_map_firstBy _ _) ch.nodeVNodes.keys_nodup).mpr ?_
    intro n
    rw [h.mem_walk_iff hcounts, mem_present_iff]
  have hlen := hperm.length_eq
  rwa [List.length_map] at hlen

/-- **Replica selection walks the ring.** The ring is built by any additions and removals of nodes
with at least one virtual node, whose hashes do not collide. `GetNodes` returns as many different
physical nodes as it can, namely the first ones clockwise from the first point that is not below the
hash, each with its first point. Every point leads to the node that put it there. The first node is
the one of `GetNodeForHash`. -/
theorem getNodes_walks_ring (actions : List RingAction)
    (hcounts : ∀ n ∈ added actions, 1 ≤ counts n)
    (hfree : CollisionFree hash counts (added actions)) (keyHash : UInt64) (count : Nat) :
    let ch := built hash counts actions
    (ch.getNodes keyHash count).length = min count ch.nodeCount ∧
      ((ch.getNodes keyHash count).map VirtualNode.nodeID).Nodup ∧
      ch.getNodes keyHash count = (firstBy VirtualNode.nodeID
        ((clockwise ch.ring keyHash).map ch.virtualNodeAt)).take count ∧
      ch.ring.Pairwise (· ≤ ·) ∧
      (∀ p ∈ ch.ring, ∃ n ∈ ch.present, ∃ i < counts n, hash (vnodeID n i) = p ∧
        ch.virtualNodeAt p = ⟨vnodeID n i, p, n⟩) ∧
      (1 ≤ count → ch.ring ≠ [] → (ch.getNodes keyHash count).head?.map VirtualNode.nodeID =
        some (ch.getNodeForHash keyHash)) := by
  intro ch
  obtain ⟨hsound, hsub⟩ := sound_built actions hfree
  have hget := getNodes_eq hsound.sorted keyHash count
  refine ⟨?_, ?_, hget, hsound.sorted, fun p hp => hsound.virtualNode_of_mem hp, ?_⟩
  · rw [hget, List.length_take, hsound.length_walk fun n hn => hcounts n (hsub hn)]
  · rw [hget, List.map_take]
    exact (nodup_map_firstBy _ _).sublist (List.take_sublist _ _)
  · intro hcount hne
    rw [getNodeForHash_eq hsound.sorted, hget, List.head?_take, if_neg (by omega), head?_firstBy,
      List.head?_map]
    cases hhead : (clockwise ch.ring keyHash).head? with
    | none =>
      rw [List.head?_eq_none_iff] at hhead
      have hnil := (perm_clockwise ch.ring keyHash).symm
      rw [hhead] at hnil
      exact absurd hnil.eq_nil hne
    | some p => rfl

end ConsistentHasher

namespace Sample

open ConsistentHasher

/-- Two nodes with two points each, which alternate on the ring. -/
def ringHash (id : String) : UInt64 :=
  if id = "a-vnode-0" then 10
  else if id = "b-vnode-0" then 20
  else if id = "a-vnode-1" then 30
  else 40

/-- The second addition of `a` puts its points on the ring twice. -/
def ringActions : List RingAction := [.add "a", .add "b", .add "a", .remove "b", .add "b"]

theorem collisionFree_ringHash : CollisionFree ringHash (fun _ => 2) { n | n ∈ ["a", "b"] } := by
  have hall : ∀ n ∈ ["a", "b"], ∀ m ∈ ["a", "b"], ∀ i < 2, ∀ j < 2,
      ringHash (vnodeID n i) = ringHash (vnodeID m j) → n = m ∧ i = j := by decide +kernel
  exact hall

theorem added_ringActions : added ringActions ⊆ { n | n ∈ ["a", "b"] } := by
  intro n hn
  have hmem : RingAction.add n ∈ ringActions := hn
  simp only [ringActions, List.mem_cons, RingAction.add.injEq, reduceCtorEq, List.not_mem_nil,
    or_false, false_or] at hmem
  rcases hmem with rfl | rfl | rfl | rfl <;> decide

end Sample

open Sample ConsistentHasher in
theorem getNodes_walks_ring_twoNodes :
    (((built ringHash (fun _ => 2) ringActions).getNodes 25 3).map VirtualNode.nodeID).Nodup ∧
      ((built ringHash (fun _ => 2) ringActions).getNodes 25 3).length = 2 := by
  obtain ⟨hlen, hnodup, -⟩ := @getNodes_walks_ring ringHash (fun _ => 2) ringActions
    (fun _ _ => by decide) (collisionFree_ringHash.mono added_ringActions) 25 3
  refine ⟨hnodup, hlen.trans ?_⟩
  decide +kernel

namespace ConsistentHasher

variable {hash : String → UInt64} {counts : String → Nat} {ch : ConsistentHasher}

/-! ## A node joins or leaves -/

section Joins

variable {x : String}

/-- A new node's points are new. -/
theorem Sound.not_mem_points (h : Sound hash counts ch) (hx : x ∉ ch.present)
    (hfree : CollisionFree hash counts (insert x ch.present)) {p : UInt64} (hp : p ∈ ch.ring) :
    p ∉ points hash x (counts x) := by
  intro hpoint
  obtain ⟨n, hn, hpn⟩ := (h.ring p).mp hp
  obtain ⟨i, hi, rfl⟩ := mem_points.mp hpn
  obtain ⟨j, hj, heq⟩ := mem_points.mp hpoint
  have hsame := (hfree x (Set.mem_insert _ _) n (Set.mem_insert_of_mem _ hn) j hj i hi heq).1
  exact hx (hsame ▸ hn)

/-- Without the points of the new node the ring is the old one. -/
theorem Sound.filter_addNode (h : Sound hash counts ch) (hx : x ∉ ch.present)
    (hfree : CollisionFree hash counts (insert x ch.present)) :
    (ch.addNode hash x (counts x)).ring.filter (fun p => p ∉ points hash x (counts x)) =
      ch.ring := by
  have hold : ch.ring.filter (fun p => p ∉ points hash x (counts x)) = ch.ring := by
    rw [List.filter_eq_self]
    intro p hp
    simpa using h.not_mem_points hx hfree hp
  have hnew : (points hash x (counts x)).filter (fun p => p ∉ points hash x (counts x)) = [] := by
    rw [List.filter_eq_nil_iff]
    intro p hp
    simpa using hp
  have hperm := (@perm_addNode hash ch x (counts x)).filter
    fun p => p ∉ points hash x (counts x)
  rw [List.filter_append, hold, hnew, List.append_nil] at hperm
  exact hperm.eq_of_pairwise (fun _ _ _ _ => le_antisymm)
    ((sorted_addNode ch x (counts x)).filter _) h.sorted

/-- A point belongs to the new node exactly if its virtual node does. -/
theorem Sound.nodeID_addNode (h : Sound hash counts ch) (hx : x ∉ ch.present)
    (hfree : CollisionFree hash counts (insert x ch.present)) {p : UInt64}
    (hp : p ∈ (ch.addNode hash x (counts x)).ring) :
    ((ch.addNode hash x (counts x)).virtualNodeAt p).nodeID = x ↔ p ∈ points hash x (counts x) := by
  have hsound := sound_addNode h x hfree
  obtain ⟨n, hn, i, hi, rfl, hvnode⟩ := hsound.virtualNode_of_mem hp
  rw [hvnode, mem_points]
  constructor
  · rintro rfl
    exact ⟨i, hi, rfl⟩
  · rintro ⟨j, hj, heq⟩
    rw [present_addNode] at hn
    exact (hfree n hn x (Set.mem_insert _ _) i hi j hj heq.symm).1

/-- The old points keep their virtual nodes. -/
theorem Sound.virtualNodeAt_addNode (h : Sound hash counts ch) (x : String)
    (hfree : CollisionFree hash counts (insert x ch.present)) {p : UInt64} (hp : p ∈ ch.ring) :
    (ch.addNode hash x (counts x)).virtualNodeAt p = ch.virtualNodeAt p := by
  obtain ⟨n, hn, i, hi, rfl, hvnode⟩ := h.virtualNode_of_mem hp
  have hn' : n ∈ (ch.addNode hash x (counts x)).present := by
    rw [present_addNode]
    exact Set.mem_insert_of_mem _ hn
  rw [hvnode, (sound_addNode h x hfree).virtualNodeAt hn' hi]

/-- The walk without the new node is the old walk. -/
theorem Sound.walk_addNode (h : Sound hash counts ch) (hx : x ∉ ch.present)
    (hfree : CollisionFree hash counts (insert x ch.present)) (keyHash : UInt64) :
    (firstBy VirtualNode.nodeID ((clockwise (ch.addNode hash x (counts x)).ring keyHash).map
        (ch.addNode hash x (counts x)).virtualNodeAt)).filter (fun vnode => vnode.nodeID ≠ x) =
      firstBy VirtualNode.nodeID ((clockwise ch.ring keyHash).map ch.virtualNodeAt) := by
  rw [← firstBy_filter VirtualNode.nodeID (fun nodeID => decide (nodeID ≠ x)), List.filter_map]
  congr 1
  have hcut : (clockwise (ch.addNode hash x (counts x)).ring keyHash).filter
      ((fun vnode => decide (vnode.nodeID ≠ x)) ∘ (ch.addNode hash x (counts x)).virtualNodeAt) =
        clockwise ch.ring keyHash := by
    rw [← h.filter_addNode hx hfree, clockwise_filter]
    refine List.filter_congr fun p hp => ?_
    have hmem : p ∈ (ch.addNode hash x (counts x)).ring := mem_clockwise.mp hp
    rw [Function.comp_apply, decide_eq_decide]
    exact not_congr (h.nodeID_addNode hx hfree hmem)
  rw [hcut]
  exact List.map_congr_left fun p hp => h.virtualNodeAt_addNode x hfree (mem_clockwise.mp hp)

end Joins

/-- A part of a list from which nothing is left out. -/
theorem take_filter_of_forall {α : Type} {q : α → Bool} {n : Nat} : ∀ {l : List α},
    (∀ a ∈ l.take n, q a = true) → (l.filter q).take n = l.take n := by
  induction n with
  | zero => simp
  | succ n ih =>
    intro l hl
    cases l with
    | nil => rfl
    | cons a l =>
      rw [List.take_succ_cons, List.forall_mem_cons] at hl
      rw [List.filter_cons, if_pos hl.1, List.take_succ_cons, List.take_succ_cons, ih hl.2]

/-- What is left of the first elements comes first among all that are left. -/
theorem isPrefix_filter_take {α : Type} (q : α → Bool) (n : Nat) (l : List α) :
    (l.take n).filter q <+: (l.filter q).take n := by
  have hsplit : (l.take n).filter q ++ (l.drop n).filter q = l.filter q := by
    rw [← List.filter_append, List.take_append_drop]
  have hlen : ((l.take n).filter q).length ≤ n :=
    (List.length_filter_le _ _).trans (List.length_take_le _ _)
  rw [← hsplit]
  exact ⟨((l.drop n).filter q).take (n - ((l.take n).filter q).length), by
    rw [List.take_append, List.take_of_length_le hlen]⟩

/-- **A new node disturbs the placement minimally.** The ring is sound and does not have `x`, whose
points are new. Without `x`, the replicas that `GetNodes` finds after `x` was added are the first of
those before. They are all the same if `x` is not among them. Removing `x` gives the old ring, and
all lookups are the old ones. -/
theorem addNode_disturbs_minimally (h : Sound hash counts ch) {x : String} (hx : x ∉ ch.present)
    (hfree : CollisionFree hash counts (insert x ch.present)) (keyHash : UInt64) (n : Nat) :
    let after := ch.addNode hash x (counts x)
    ((after.getNodes keyHash n).map VirtualNode.nodeID).filter (fun nodeID => nodeID ≠ x) <+:
        (ch.getNodes keyHash n).map VirtualNode.nodeID ∧
      (x ∉ (after.getNodes keyHash n).map VirtualNode.nodeID →
        after.getNodes keyHash n = ch.getNodes keyHash n) ∧
      (after.removeNode x).ring = ch.ring ∧
      (∀ p, (after.removeNode x).ringMap.get? p = ch.ringMap.get? p) ∧
      ∀ nodeID, (after.removeNode x).nodeVNodes.get? nodeID = ch.nodeVNodes.get? nodeID := by
  intro after
  have hsound := sound_addNode h x hfree
  have hwalk := h.walk_addNode hx hfree keyHash
  have hafter := getNodes_eq hsound.sorted keyHash n
  have hbefore := getNodes_eq h.sorted keyHash n
  have hget : after.nodeVNodes.get? x = some (points hash x (counts x)) := by
    show (ch.nodeVNodes.set x _).get? x = _
    rw [Map.get?_set, if_pos rfl, List.map_map]
    rfl
  have hremove : after.removeNode x =
      { ring := after.ring.filter fun p => p ∉ points hash x (counts x)
        ringMap := (points hash x (counts x)).foldl (fun m p => m.remove p) after.ringMap
        nodeVNodes := after.nodeVNodes.remove x } := by
    rw [removeNode, hget]
  refine ⟨?_, ?_, ?_, ?_, ?_⟩
  · rw [hafter, hbefore, ← hwalk, List.filter_map]
    exact (isPrefix_filter_take _ n _).map _
  · intro hnot
    rw [hafter] at hnot ⊢
    rw [hbefore, ← hwalk]
    refine (take_filter_of_forall fun vnode hvnode => ?_).symm
    rw [decide_eq_true_eq]
    rintro rfl
    exact hnot (List.mem_map_of_mem hvnode)
  · rw [hremove]
    exact h.filter_addNode hx hfree
  · intro p
    rw [hremove]
    simp only [get?_foldl_remove]
    split
    · next hp =>
      refine Eq.symm ?_
      rw [Option.eq_none_iff_forall_ne_some]
      intro id hid
      obtain ⟨m, hm, i, hi, rfl, -⟩ := (h.ringMap p id).mp hid
      have hring : hash (vnodeID m i) ∈ ch.ring :=
        (h.ring _).mpr ⟨m, hm, mem_points.mpr ⟨i, hi, rfl⟩⟩
      exact h.not_mem_points hx hfree hring hp
    · next hp =>
      refine Option.ext fun id => ?_
      rw [hsound.ringMap, h.ringMap, present_addNode]
      constructor
      · rintro ⟨m, hm, i, hi, rfl, rfl⟩
        refine ⟨m, Set.mem_of_mem_insert_of_ne hm ?_, i, hi, rfl, rfl⟩
        rintro rfl
        exact hp (mem_points.mpr ⟨i, hi, rfl⟩)
      · rintro ⟨m, hm, i, hi, rfl, rfl⟩
        exact ⟨m, Set.mem_insert_of_mem _ hm, i, hi, rfl, rfl⟩
  · intro nodeID
    rw [hremove]
    simp only [Map.get?_remove]
    split
    · next heq =>
      subst heq
      have hnone : ch.nodeVNodes.get? x = none := by
        rw [Map.get?_eq_none_iff, ← mem_present_iff]
        exact hx
      exact hnone.symm
    · next hne =>
      show (ch.nodeVNodes.set x _).get? nodeID = _
      rw [Map.get?_set, if_neg hne]

end ConsistentHasher

open Sample ConsistentHasher in
theorem addNode_disturbs_minimally_second :
    let ring := built ringHash (fun _ => 2) [.add "a"]
    (((ring.addNode ringHash "b" 2).getNodes 25 1).map VirtualNode.nodeID).filter
        (fun nodeID => nodeID ≠ "b") <+: (ring.getNodes 25 1).map VirtualNode.nodeID ∧
      ((ring.addNode ringHash "b" 2).removeNode "b").ring = ring.ring := by
  intro ring
  have hadded : added [RingAction.add "a"] ⊆ { n | n ∈ ["a", "b"] } := by
    intro n hn
    have hmem : RingAction.add n ∈ [RingAction.add "a"] := hn
    rw [List.mem_singleton, RingAction.add.injEq] at hmem
    simp [hmem]
  obtain ⟨hsound, hsub⟩ := sound_built [RingAction.add "a"] (collisionFree_ringHash.mono hadded)
  have hfree : CollisionFree ringHash (fun _ => 2) (insert "b" ring.present) :=
    collisionFree_ringHash.mono (Set.insert_subset (by simp) (hsub.trans hadded))
  have hnot : "b" ∉ ring.present := by
    intro hmem
    have hadd := hsub hmem
    simp [added] at hadd
  obtain ⟨hpre, -, hring, -⟩ := addNode_disturbs_minimally hsound hnot hfree 25 1
  exact ⟨hpre, hring⟩

namespace ConsistentHasher

variable {ch : ConsistentHasher}

/-! ## The arcs -/

/-- `x` is on the arc that ends in `p` and starts after `previous`. It wraps around if `previous`
is not before `p`. -/
def OnArc (previous p x : UInt64) : Prop :=
  if previous < p then previous < x ∧ x ≤ p else previous < x ∨ x ≤ p

instance (previous p x : UInt64) : Decidable (OnArc previous p x) :=
  inferInstanceAs (Decidable (if previous < p then _ else _))

/-- The points ascend with their indices. -/
theorem getD_lt_iff (hsorted : ch.ring.Pairwise (· < ·)) {i j : Nat} (hi : i < ch.ring.length)
    (hj : j < ch.ring.length) : ch.ring.getD i 0 < ch.ring.getD j 0 ↔ i < j := by
  rw [List.getD_eq_getElem _ _ hi, List.getD_eq_getElem _ _ hj]
  have hmono := List.pairwise_iff_getElem.mp hsorted
  constructor
  · intro hlt
    by_contra hge
    rcases Nat.lt_or_eq_of_le (not_lt.mp hge) with hji | rfl
    · exact lt_asymm hlt (hmono j i hj hi hji)
    · exact lt_irrefl _ hlt
  · exact hmono i j hi hj

/-- The point before the `j`-th one. -/
theorem getPreviousHash_getD (hsorted : ch.ring.Pairwise (· < ·)) {j : Nat}
    (hj : j < ch.ring.length) : ch.getPreviousHash (ch.ring.getD j 0) =
      ch.ring.getD (if j = 0 then ch.ring.length - 1 else j - 1) 0 := by
  have hidx : ch.ring.idxOf? (ch.ring.getD j 0) = some j := by
    rw [List.idxOf?_eq_some_iff]
    refine ⟨hj, (List.getD_eq_getElem _ _ hj).symm, ?_⟩
    intro i hi heq
    have hlt := (getD_lt_iff hsorted (hi.trans hj) hj).mpr hi
    rw [List.getD_eq_getElem _ _ (hi.trans hj), heq] at hlt
    exact lt_irrefl _ hlt
  rw [getPreviousHash, hidx]

/-- The arc that ends in the `j`-th point; the first one wraps around. -/
theorem onArc_getD_iff (hsorted : ch.ring.Pairwise (· < ·)) {j : Nat} (hj : j < ch.ring.length)
    (x : UInt64) : OnArc (ch.getPreviousHash (ch.ring.getD j 0)) (ch.ring.getD j 0) x ↔
      if j = 0 then ch.ring.getD (ch.ring.length - 1) 0 < x ∨ x ≤ ch.ring.getD 0 0
      else ch.ring.getD (j - 1) 0 < x ∧ x ≤ ch.ring.getD j 0 := by
  rw [getPreviousHash_getD hsorted hj, OnArc]
  by_cases hzero : j = 0
  · subst hzero
    have hnot : ¬ ch.ring.getD (ch.ring.length - 1) 0 < ch.ring.getD 0 0 := by
      rw [getD_lt_iff hsorted (by omega) hj]
      omega
    rw [if_pos rfl, if_neg hnot, if_pos rfl]
  · have hlt : ch.ring.getD (j - 1) 0 < ch.ring.getD j 0 := by
      rw [getD_lt_iff hsorted (by omega) hj]
      omega
    rw [if_neg hzero, if_pos hlt, if_neg hzero]

/-- `x` is on one arc only. -/
theorem onArc_unique (hsorted : ch.ring.Pairwise (· < ·)) {i j : Nat} (hi : i < ch.ring.length)
    (hj : j < ch.ring.length) {x : UInt64}
    (hxi : OnArc (ch.getPreviousHash (ch.ring.getD i 0)) (ch.ring.getD i 0) x)
    (hxj : OnArc (ch.getPreviousHash (ch.ring.getD j 0)) (ch.ring.getD j 0) x) : i = j := by
  -- of two different arcs the earlier one ends before the later one starts
  have hlater : ∀ {i j : Nat}, i < ch.ring.length → j < ch.ring.length → i < j →
      OnArc (ch.getPreviousHash (ch.ring.getD i 0)) (ch.ring.getD i 0) x →
      ¬ OnArc (ch.getPreviousHash (ch.ring.getD j 0)) (ch.ring.getD j 0) x := by
    intro i j hi hj hij hxi hxj
    rw [onArc_getD_iff hsorted hj, if_neg (by omega)] at hxj
    have hle : ch.ring.getD i 0 ≤ ch.ring.getD (j - 1) 0 := by
      rw [← not_lt, getD_lt_iff hsorted (by omega) hi]
      omega
    have hlast : ch.ring.getD j 0 ≤ ch.ring.getD (ch.ring.length - 1) 0 := by
      rw [← not_lt, getD_lt_iff hsorted (by omega) hj]
      omega
    rw [onArc_getD_iff hsorted hi] at hxi
    split at hxi
    · next hzero =>
      subst hzero
      rcases hxi with hwrap | hbelow
      · exact absurd (hxj.2.trans hlast) (not_le.mpr hwrap)
      · exact absurd (hbelow.trans hle) (not_le.mpr hxj.1)
    · exact absurd (hxi.2.trans hle) (not_le.mpr hxj.1)
  rcases Nat.lt_trichotomy i j with hlt | heq | hlt
  · exact absurd hxj (hlater hi hj hlt hxi)
  · exact heq
  · exact absurd hxi (hlater hj hi hlt hxj)

/-- `x` is on the arc that ends in the first point of the walk from `x`. -/
theorem onArc_start (hsorted : ch.ring.Pairwise (· < ·)) (hne : ch.ring ≠ []) (x : UInt64) :
    start ch.ring x 0 < ch.ring.length ∧
      OnArc (ch.getPreviousHash (ch.ring.getD (start ch.ring x 0) 0))
        (ch.ring.getD (start ch.ring x 0) 0) x := by
  have hpos : 0 < ch.ring.length := List.length_pos_iff.mpr hne
  have hswitch := switches_filter_lt (hsorted.imp le_of_lt) x 0
  have hsearch := search_eq hswitch
  obtain ⟨hle, hbelow, habove⟩ := hswitch
  have hlt_of : ∀ k, k < (ch.ring.filter fun p => p < x).length → ch.ring.getD k 0 < x := by
    intro k hk
    simpa using hbelow k hk
  have hle_of : ∀ k, (ch.ring.filter fun p => p < x).length ≤ k → k < ch.ring.length →
      x ≤ ch.ring.getD k 0 := by
    intro k hk hlen
    simpa using habove k hk hlen
  rw [start, hsearch]
  split
  · next hge =>
    refine ⟨hpos, ?_⟩
    rw [onArc_getD_iff hsorted hpos, if_pos rfl]
    exact Or.inl (hlt_of _ (by omega))
  · next hlt =>
    have hlen : (ch.ring.filter fun p => p < x).length < ch.ring.length := by omega
    refine ⟨hlen, ?_⟩
    rw [onArc_getD_iff hsorted hlen]
    split
    · next hzero =>
      have hfirst := hle_of 0 (by omega) hpos
      exact Or.inr hfirst
    · exact ⟨hlt_of _ (by omega), hle_of _ le_rfl hlen⟩

/-- A point is on its own arc. -/
theorem onArc_self (previous p : UInt64) : OnArc previous p p := by
  unfold OnArc
  split
  · next hlt => exact ⟨hlt, le_rfl⟩
  · exact Or.inr le_rfl

/-- The first point clockwise is the one at the end of the arc. -/
theorem onArc_iff_head? (hsorted : ch.ring.Pairwise (· < ·)) {p : UInt64} (hp : p ∈ ch.ring)
    (x : UInt64) :
    OnArc (ch.getPreviousHash p) p x ↔ (clockwise ch.ring x).head? = some p := by
  have hne : ch.ring ≠ [] := List.ne_nil_of_mem hp
  obtain ⟨hlt, harc⟩ := onArc_start hsorted hne x
  rw [head?_clockwise (hsorted.imp le_of_lt) hne, Option.some.injEq]
  constructor
  · intro hx
    obtain ⟨j, hj, rfl⟩ := List.getElem_of_mem hp
    rw [← List.getD_eq_getElem _ 0 hj] at hx ⊢
    rw [onArc_unique hsorted hj hlt hx harc]
  · rintro rfl
    exact harc

/-- **The arcs tile the hashes and name their owner.** On a ring that is not empty and has no point
twice, every hash is on exactly one arc, and `GetNodeForHash` is the physical node at its end. -/
theorem arcs_tile (hsorted : ch.ring.Pairwise (· < ·)) (hne : ch.ring ≠ []) (x : UInt64) :
    ∃ p, (p ∈ ch.ring ∧ OnArc (ch.getPreviousHash p) p x) ∧
      (∀ q, q ∈ ch.ring ∧ OnArc (ch.getPreviousHash q) q x → q = p) ∧
      ch.getNodeForHash x = (ch.virtualNodeAt p).nodeID := by
  obtain ⟨hlt, harc⟩ := onArc_start hsorted hne x
  refine ⟨ch.ring.getD (start ch.ring x 0) 0, ⟨?_, harc⟩, ?_, ?_⟩
  · rw [List.getD_eq_getElem _ _ hlt]
    exact List.getElem_mem hlt
  · rintro q ⟨hq, hqarc⟩
    obtain ⟨j, hj, rfl⟩ := List.getElem_of_mem hq
    rw [← List.getD_eq_getElem _ 0 hj] at hqarc ⊢
    rw [onArc_unique hsorted hj hlt hqarc harc]
  · rw [getNodeForHash, if_neg (by simpa using hne)]
    rfl

end ConsistentHasher

open Sample ConsistentHasher in
theorem arcs_tile_fourPoints :
    ∃ p, (p ∈ (built ringHash (fun _ => 2) [.add "a", .add "b"]).ring ∧
        OnArc ((built ringHash (fun _ => 2) [.add "a", .add "b"]).getPreviousHash p) p 45) ∧
      (built ringHash (fun _ => 2) [.add "a", .add "b"]).getNodeForHash 45 =
        ((built ringHash (fun _ => 2) [.add "a", .add "b"]).virtualNodeAt p).nodeID := by
  have hring : (built ringHash (fun _ => 2) [.add "a", .add "b"]).ring = [10, 20, 30, 40] := by
    decide +kernel
  obtain ⟨p, hp, -, hnode⟩ := @arcs_tile (built ringHash (fun _ => 2) [.add "a", .add "b"])
    (by rw [hring]; decide) (by rw [hring]; decide) 45
  exact ⟨p, hp, hnode⟩

end PairDB.Coordinator
