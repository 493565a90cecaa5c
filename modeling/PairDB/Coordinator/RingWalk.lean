import PairDB.Coordinator.ConsistentHash
import PairDB.Infra.Ring

/-!
# What the ring functions compute

`GetNodes` is a walk around the ring that takes the first point of every physical node
(`getNodes_eq`), and `GetNodeForHash` is where it starts (`getNodeForHash_eq`). Both only need a
sorted ring.

`Sound` says that the three structures of the hasher agree: the ring and `ringMap` hold the points
of the nodes in `nodeVNodes`. Every operation keeps it as long as the hashes of the virtual nodes do
not collide. It allows that a point is on the ring twice, which happens when a node is added twice.
-/

namespace PairDB.Coordinator

open Infra

namespace ConsistentHasher

/-! ## The names of virtual nodes -/

theorem toList_vnodeID (nodeID : String) (i : Nat) :
    (vnodeID nodeID i).toList = nodeID.toList ++ (vnodeSuffix ++ Nat.toDigits 10 i) := by
  rw [vnodeID, String.toList_append, String.toList_append, List.append_assoc]
  exact congrArg (fun digits => nodeID.toList ++ (vnodeSuffix ++ digits)) (Nat.toList_repr)

/-- A suffix cannot start later: it would end in a digit. -/
theorem not_isPrefixOf_drop (name : List Char) (i : Nat) {j : Nat} (hj : 0 < j) :
    vnodeSuffix.isPrefixOf ((name ++ (vnodeSuffix ++ Nat.toDigits 10 i)).drop (name.length + j)) =
      false := by
  rw [Bool.eq_false_iff]
  intro hpre
  obtain ⟨tail, htail⟩ := List.isPrefixOf_iff_prefix.mp hpre
  rw [List.drop_append, List.drop_eq_nil_of_le (by omega), List.nil_append,
    Nat.add_sub_cancel_left] at htail
  have hdash : (vnodeSuffix ++ tail)[6]? = some '-' := rfl
  rw [htail, List.getElem?_drop] at hdash
  have hright : (vnodeSuffix ++ Nat.toDigits 10 i)[j + 6]? = (Nat.toDigits 10 i)[j - 1]? := by
    have hlen : vnodeSuffix.length = 7 := rfl
    rw [List.getElem?_append_right (by omega), hlen]
    congr 1
  rw [hright] at hdash
  have hdigit := Nat.isDigit_of_mem_toDigits (by decide) (by decide) (List.mem_of_getElem? hdash)
  revert hdigit
  decide

theorem extractNodeIDBelow_eq (name : List Char) (i : Nat) : ∀ j : Nat,
    extractNodeIDBelow (name ++ (vnodeSuffix ++ Nat.toDigits 10 i)) (name.length + j + 1) = name
  | 0 => by
    rw [Nat.add_zero, extractNodeIDBelow, List.drop_left, if_pos, List.take_left]
    exact List.isPrefixOf_iff_prefix.mpr (List.prefix_append _ _)
  | j + 1 => by
    rw [extractNodeIDBelow, if_neg, ← Nat.add_assoc, extractNodeIDBelow_eq name i j]
    rw [not_isPrefixOf_drop name i (Nat.succ_pos j)]
    exact Bool.false_ne_true

/-- The physical node is read back from the name of its virtual node, whatever its name is. -/
theorem extractNodeID_vnodeID (nodeID : String) (i : Nat) :
    extractNodeID (vnodeID nodeID i) = nodeID := by
  have hlen : (vnodeID nodeID i).toList.length + 1 - vnodeSuffix.length =
      nodeID.toList.length + (Nat.toDigits 10 i).length + 1 := by
    rw [toList_vnodeID, List.length_append, List.length_append]
    omega
  show String.ofList (extractNodeIDBelow (vnodeID nodeID i).toList
    ((vnodeID nodeID i).toList.length + 1 - vnodeSuffix.length)) = nodeID
  rw [hlen, toList_vnodeID, extractNodeIDBelow_eq, String.ofList_toList]

/-- **The names of virtual nodes.** The physical node is read back from every name, and no two
virtual nodes have one name. -/
theorem virtual_node_names (nodeID : String) (i : Nat) :
    extractNodeID (vnodeID nodeID i) = nodeID ∧
      ∀ nodeID' i', vnodeID nodeID i = vnodeID nodeID' i' ↔ nodeID = nodeID' ∧ i = i' := by
  refine ⟨extractNodeID_vnodeID nodeID i, fun nodeID' i' => ⟨fun h => ?_, ?_⟩⟩
  · have hnode : nodeID = nodeID' := by
      rw [← extractNodeID_vnodeID nodeID i, h, extractNodeID_vnodeID]
    subst hnode
    refine ⟨rfl, ?_⟩
    have hlist := congrArg String.toList h
    rw [toList_vnodeID, toList_vnodeID, List.append_cancel_left_eq,
      List.append_cancel_left_eq] at hlist
    have hvalue := congrArg (fun digits => Nat.ofDigitChars 10 digits 0) hlist
    simpa only [Nat.ofDigitChars_ten_toDigits] using hvalue
  · rintro ⟨rfl, rfl⟩
    rfl

/-! ## The walk -/

variable {ch : ConsistentHasher}

/-- The points that the rounds from `i` on visit. -/
def visited (ch : ConsistentHasher) (idx i rounds : Nat) : List VirtualNode :=
  (List.range' i rounds).map fun k => ch.virtualNodeAt (ch.ring.getD ((idx + k) % ch.ring.length) 0)

theorem walk_eq (idx count : Nat) : ∀ (rounds i : Nat) (nodes : List VirtualNode)
    (seen : List String), ch.walk idx count rounds i nodes seen =
      nodes ++ (firstBy VirtualNode.nodeID
        ((ch.visited idx i rounds).filter fun vnode => vnode.nodeID ∉ seen)).take
          (count - nodes.length)
  | 0, _, nodes, _ => by simp [walk, visited, firstBy]
  | rounds + 1, i, nodes, seen => by
    have hvisited : ch.visited idx i (rounds + 1) =
        ch.virtualNodeAt (ch.ring.getD ((idx + i) % ch.ring.length) 0) ::
          ch.visited idx (i + 1) rounds := by
      rw [visited, List.range'_succ, List.map_cons]
      rfl
    rw [walk]
    dsimp only
    split
    · next hlt =>
      split
      · next hseen =>
        rw [walk_eq idx count rounds, hvisited, List.filter_cons, if_neg (by simpa using hseen)]
      · next hseen =>
        obtain ⟨left, hleft⟩ : ∃ left, count - nodes.length = left + 1 :=
          ⟨count - nodes.length - 1, by omega⟩
        -- the nodes seen from now on are left out of the rest
        have hrest : ((ch.visited idx (i + 1) rounds).filter fun vnode => vnode.nodeID ∉
              (ch.virtualNodeAt (ch.ring.getD ((idx + i) % ch.ring.length) 0)).nodeID :: seen) =
            ((ch.visited idx (i + 1) rounds).filter fun vnode => vnode.nodeID ∉ seen).filter
              fun vnode => decide (vnode.nodeID ≠
                (ch.virtualNodeAt (ch.ring.getD ((idx + i) % ch.ring.length) 0)).nodeID) := by
          rw [List.filter_filter]
          refine List.filter_congr fun vnode _ => ?_
          simp [not_or]
        rw [walk_eq idx count rounds, hvisited, List.filter_cons, if_pos (by simpa using hseen),
          firstBy, hleft, List.take_succ_cons, hrest,
          firstBy_filter VirtualNode.nodeID (fun nodeID => decide (nodeID ≠
            (ch.virtualNodeAt (ch.ring.getD ((idx + i) % ch.ring.length) 0)).nodeID)),
          List.append_assoc, List.singleton_append, List.length_append, List.length_singleton,
          show count - (nodes.length + 1) = left by omega]
    · next hge =>
      rw [show count - nodes.length = 0 by omega, List.take_zero, List.append_nil]

/-- A whole round visits the rotated ring. -/
theorem visited_eq_rotate (idx : Nat) :
    ch.visited idx 0 ch.ring.length = (ch.ring.rotate idx).map ch.virtualNodeAt := by
  refine List.ext_getElem (by simp [visited]) ?_
  intro k hk hk'
  have hlt : k < ch.ring.length := by simpa [visited] using hk
  have hmod : (idx + k) % ch.ring.length < ch.ring.length := Nat.mod_lt _ (by omega)
  simp only [visited, List.getElem_map, List.getElem_range', List.getElem_rotate, Nat.one_mul,
    Nat.zero_add, List.getD_eq_getElem _ _ hmod]
  congr 2
  rw [Nat.add_comm]

/-- **`GetNodes` takes the first point of every physical node, clockwise.** -/
theorem getNodes_eq (hsorted : ch.ring.Pairwise (· ≤ ·)) (keyHash : UInt64) (count : Nat) :
    ch.getNodes keyHash count = (firstBy VirtualNode.nodeID
      ((clockwise ch.ring keyHash).map ch.virtualNodeAt)).take count := by
  unfold getNodes
  split
  · next hempty =>
    rw [List.length_eq_zero_iff.mp hempty]
    simp [clockwise, firstBy]
  · have hstart : ch.walk (start ch.ring keyHash 0) count ch.ring.length 0 [] [] =
        (firstBy VirtualNode.nodeID
          ((clockwise ch.ring keyHash).map ch.virtualNodeAt)).take count := by
      rw [walk_eq, visited_eq_rotate, rotate_start hsorted]
      simp
    exact hstart

/-- The walk starts where the binary search says. -/
theorem head?_clockwise (hsorted : ch.ring.Pairwise (· ≤ ·)) (hne : ch.ring ≠ [])
    (keyHash : UInt64) :
    (clockwise ch.ring keyHash).head? = some (ch.ring.getD (start ch.ring keyHash 0) 0) := by
  have hpos : 0 < ch.ring.length := List.length_pos_iff.mpr hne
  have hlt : start ch.ring keyHash 0 < ch.ring.length := by
    unfold start
    dsimp only
    split <;> omega
  rw [← rotate_start hsorted keyHash 0, List.head?_rotate hlt, List.getD_eq_getElem _ _ hlt,
    List.getElem?_eq_getElem hlt]

/-- **`GetNodeForHash` is the node of the first point.** -/
theorem getNodeForHash_eq (hsorted : ch.ring.Pairwise (· ≤ ·)) (keyHash : UInt64) :
    ch.getNodeForHash keyHash =
      (((clockwise ch.ring keyHash).head?.map ch.virtualNodeAt).map VirtualNode.nodeID).getD "" := by
  unfold getNodeForHash
  split
  · next hempty =>
    rw [List.length_eq_zero_iff.mp hempty]
    rfl
  · next hne =>
    rw [head?_clockwise hsorted fun hnil => hne (List.length_eq_zero_iff.mpr hnil)]
    rfl

/-- The physical nodes of the points, clockwise from the hash. -/
def owners (ch : ConsistentHasher) (keyHash : UInt64) : List String :=
  (clockwise ch.ring keyHash).map fun p => (ch.virtualNodeAt p).nodeID

theorem map_nodeID_getNodes (hsorted : ch.ring.Pairwise (· ≤ ·)) (keyHash : UInt64) (count : Nat) :
    (ch.getNodes keyHash count).map VirtualNode.nodeID =
      (firstBy id (ch.owners keyHash)).take count := by
  rw [getNodes_eq hsorted, List.map_take, map_firstBy, List.map_map]
  rfl

theorem getNodeForHash_eq_head? (hsorted : ch.ring.Pairwise (· ≤ ·)) (keyHash : UInt64) :
    ch.getNodeForHash keyHash = (ch.owners keyHash).head?.getD "" := by
  rw [getNodeForHash_eq hsorted, owners, List.head?_map, Option.map_map]
  rfl

/-! ## The three structures agree -/

/-- The points of a node with `count` virtual nodes. -/
def points (hash : String → UInt64) (nodeID : String) (count : Nat) : List UInt64 :=
  (List.range count).map fun i => hash (vnodeID nodeID i)

theorem mem_points {hash : String → UInt64} {nodeID : String} {count : Nat} {p : UInt64} :
    p ∈ points hash nodeID count ↔ ∃ i, i < count ∧ hash (vnodeID nodeID i) = p := by
  simp [points]

/-- No two virtual nodes of these nodes have the same hash. -/
def CollisionFree (hash : String → UInt64) (counts : String → Nat) (nodes : Set String) : Prop :=
  ∀ n ∈ nodes, ∀ m ∈ nodes, ∀ i < counts n, ∀ j < counts m,
    hash (vnodeID n i) = hash (vnodeID m j) → n = m ∧ i = j

/-- The nodes on the ring. -/
def present (ch : ConsistentHasher) : Set String := { nodeID | ch.contains nodeID = true }

/-- The ring is sorted, and all three structures hold the points of the nodes that are present. -/
structure Sound (hash : String → UInt64) (counts : String → Nat) (ch : ConsistentHasher) :
    Prop where
  sorted : ch.ring.Pairwise (· ≤ ·)
  nodeVNodes : ∀ n hs, ch.nodeVNodes.get? n = some hs → hs = points hash n (counts n)
  ring : ∀ p, p ∈ ch.ring ↔ ∃ n ∈ ch.present, p ∈ points hash n (counts n)
  ringMap : ∀ p id, ch.ringMap.get? p = some id ↔
    ∃ n ∈ ch.present, ∃ i < counts n, hash (vnodeID n i) = p ∧ vnodeID n i = id

section

variable {hash : String → UInt64} {counts : String → Nat}

/-- Fewer virtual nodes collide even less. -/
theorem CollisionFree.of_le {nodes : Set String} {bound : String → Nat}
    (h : CollisionFree hash bound nodes) (hle : ∀ n ∈ nodes, counts n ≤ bound n) :
    CollisionFree hash counts nodes := by
  intro n hn m hm i hi j hj
  exact h n hn m hm i (hi.trans_le (hle n hn)) j (hj.trans_le (hle m hm))

theorem CollisionFree.nodup_points {nodes : Set String} (h : CollisionFree hash counts nodes)
    {n : String} (hn : n ∈ nodes) : (points hash n (counts n)).Nodup := by
  refine List.Nodup.map_on ?_ List.nodup_range
  intro i hi j hj heq
  exact (h n hn n hn i (List.mem_range.mp hi) j (List.mem_range.mp hj) heq).2

theorem CollisionFree.mono {nodes nodes' : Set String} (h : CollisionFree hash counts nodes)
    (hsub : nodes' ⊆ nodes) : CollisionFree hash counts nodes' :=
  fun n hn m hm => h n (hsub hn) m (hsub hm)

/-- Only the counts of the nodes that are present matter. -/
theorem Sound.congr {counts' : String → Nat} (h : Sound hash counts ch)
    (hsame : ∀ n ∈ ch.present, counts' n = counts n) : Sound hash counts' ch := by
  refine ⟨h.sorted, ?_, ?_, ?_⟩
  · intro n hs hn
    have hmem : n ∈ ch.present := by
      show (ch.nodeVNodes.get? n).isSome = true
      rw [hn]
      rfl
    rw [hsame n hmem]
    exact h.nodeVNodes n hs hn
  · intro p
    rw [h.ring]
    refine exists_congr fun n => and_congr_right fun hn => ?_
    rw [hsame n hn]
  · intro p id
    rw [h.ringMap]
    refine exists_congr fun n => and_congr_right fun hn => ?_
    rw [hsame n hn]

theorem sound_new : Sound hash counts new := by
  refine ⟨List.Pairwise.nil, ?_, ?_, ?_⟩
  · intro n hs h
    cases h
  · intro p
    simp [new, present, contains, Map.get?_empty]
  · intro p id
    simp [new, present, contains, Map.get?_empty]

theorem present_addNode (ch : ConsistentHasher) (nodeID : String) (count : Nat) :
    (ch.addNode hash nodeID count).present = insert nodeID ch.present := by
  ext n
  show (ch.addNode hash nodeID count).contains n = true ↔ n = nodeID ∨ ch.contains n = true
  rw [contains_addNode, Bool.or_eq_true, decide_eq_true_eq]
  exact or_congr_left eq_comm

theorem present_removeNode (ch : ConsistentHasher) (nodeID : String) :
    (ch.removeNode nodeID).present = ch.present \ {nodeID} := by
  ext n
  show (ch.removeNode nodeID).contains n = true ↔ ch.contains n = true ∧ ¬ n = nodeID
  rw [contains_removeNode, Bool.and_eq_true, Bool.not_eq_true', decide_eq_false_iff_not, and_comm]
  exact and_congr_right fun _ => not_congr eq_comm

theorem perm_addNode (ch : ConsistentHasher) (nodeID : String) (count : Nat) :
    (ch.addNode hash nodeID count).ring.Perm (ch.ring ++ points hash nodeID count) := by
  have hpoints : ((List.range count).map fun i => (hash (vnodeID nodeID i), vnodeID nodeID i)).map
      Prod.fst = points hash nodeID count := by
    rw [List.map_map]
    rfl
  simp only [addNode, hpoints]
  exact List.perm_insertionSort _ _

theorem sorted_addNode (ch : ConsistentHasher) (nodeID : String) (count : Nat) :
    (ch.addNode hash nodeID count).ring.Pairwise (· ≤ ·) := List.pairwise_insertionSort _ _

/-- Entries that are set one after another, where a key always comes with the same value. -/
theorem get?_foldl_set {α β : Type} [DecidableEq α] (l : List (α × β))
    (hl : ∀ p ∈ l, ∀ q ∈ l, p.1 = q.1 → p.2 = q.2) (m : Map α β) (a : α) (b : β) :
    (l.foldl (fun m p => m.set p.1 p.2) m).get? a = some b ↔
      (a, b) ∈ l ∨ a ∉ l.map Prod.fst ∧ m.get? a = some b := by
  induction l generalizing m with
  | nil => simp
  | cons p l ih =>
    rw [List.foldl_cons, ih (fun q hq r hr => hl q (by simp [hq]) r (by simp [hr])), Map.get?_set]
    by_cases hp : p.1 = a
    · rw [if_pos hp]
      have hsame : ∀ b', (a, b') ∈ l → b' = p.2 := fun b' hb' =>
        hl (a, b') (by simp [hb']) p (by simp) hp.symm
      by_cases hmem : a ∈ l.map Prod.fst
      · obtain ⟨⟨a', b'⟩, hb', heq⟩ := List.mem_map.mp hmem
        dsimp only at heq
        subst heq
        have hb := hsame b' hb'
        constructor
        · rintro (h | ⟨h, -⟩)
          · exact Or.inl (List.mem_cons_of_mem _ h)
          · exact absurd hmem h
        · rintro (h | ⟨h, -⟩)
          · rcases List.mem_cons.mp h with h | h
            · have hsnd : b = b' := (congrArg Prod.snd h).trans hb.symm
              rw [hsnd]
              exact Or.inl hb'
            · exact Or.inl h
          · exact absurd (List.mem_cons_of_mem _ hmem) h
      · constructor
        · rintro (h | ⟨-, h⟩)
          · exact absurd (List.mem_map.mpr ⟨_, h, rfl⟩) hmem
          · left
            rw [← hp, ← Option.some.inj h]
            exact List.mem_cons_self
        · rintro (h | ⟨h, -⟩)
          · rcases List.mem_cons.mp h with h | h
            · exact Or.inr ⟨hmem, by rw [← h]⟩
            · exact absurd (List.mem_map.mpr ⟨_, h, rfl⟩) hmem
          · exact absurd (by simp [hp]) h
    · rw [if_neg hp]
      have hne : (a, b) ≠ p := by
        rintro rfl
        exact hp rfl
      simp [hne, Ne.symm hp]

theorem get?_foldl_remove {α β : Type} [DecidableEq α] (l : List α) (m : Map α β) (a : α) :
    (l.foldl (fun m a => m.remove a) m).get? a = if a ∈ l then none else m.get? a := by
  induction l generalizing m with
  | nil => rfl
  | cons c l ih =>
    rw [List.foldl_cons, ih, Map.get?_remove]
    by_cases hmem : a ∈ l
    · simp [hmem]
    · by_cases hc : c = a
      · simp [hc]
      · simp [hmem, hc, Ne.symm hc]

theorem sound_addNode (h : Sound hash counts ch) (nodeID : String)
    (hfree : CollisionFree hash counts (insert nodeID ch.present)) :
    Sound hash counts (ch.addNode hash nodeID (counts nodeID)) := by
  refine ⟨sorted_addNode ch nodeID _, ?_, ?_, ?_⟩
  · intro n hs hn
    simp only [addNode, Map.get?_set] at hn
    split at hn
    · next heq =>
      subst heq
      rw [← Option.some.inj hn, List.map_map]
      rfl
    · exact h.nodeVNodes n hs hn
  · intro p
    rw [(perm_addNode ch nodeID _).mem_iff, List.mem_append, h.ring, present_addNode]
    simp only [Set.mem_insert_iff, or_and_right, exists_or, exists_eq_left]
    exact or_comm
  · intro p id
    rw [present_addNode]
    have hset := get?_foldl_set ((List.range (counts nodeID)).map fun i =>
      (hash (vnodeID nodeID i), vnodeID nodeID i)) ?_ ch.ringMap p id
    · refine Iff.trans hset ?_
      rw [h.ringMap]
      simp only [List.mem_map, List.mem_range, Prod.mk.injEq, List.map_map, Function.comp_def,
        not_exists, not_and]
      constructor
      · rintro (⟨i, hi, hp, hid⟩ | ⟨-, n, hn, i, hi, hp, hid⟩)
        · exact ⟨nodeID, Set.mem_insert _ _, i, hi, hp, hid⟩
        · exact ⟨n, Set.mem_insert_of_mem _ hn, i, hi, hp, hid⟩
      · rintro ⟨n, hn, i, hi, hp, hid⟩
        by_cases hnode : n = nodeID
        · subst hnode
          exact Or.inl ⟨i, hi, hp, hid⟩
        · refine Or.inr ⟨?_, n, Set.mem_of_mem_insert_of_ne hn hnode, i, hi, hp, hid⟩
          intro j hj hj'
          exact hnode (hfree n hn nodeID (Set.mem_insert _ _) i hi j hj (hp.trans hj'.symm)).1
    · intro q hq r hr heq
      obtain ⟨i, hi, rfl⟩ := List.mem_map.mp hq
      obtain ⟨j, hj, rfl⟩ := List.mem_map.mp hr
      have hnode : nodeID ∈ insert nodeID ch.present := Set.mem_insert _ _
      have hij := (hfree nodeID hnode nodeID hnode i (List.mem_range.mp hi) j
        (List.mem_range.mp hj) heq).2
      rw [hij]

theorem sound_removeNode (h : Sound hash counts ch) (nodeID : String)
    (hfree : CollisionFree hash counts ch.present) :
    Sound hash counts (ch.removeNode nodeID) := by
  cases hget : ch.nodeVNodes.get? nodeID with
  | none =>
    rw [show ch.removeNode nodeID = ch by rw [removeNode, hget]]
    exact h
  | some hs =>
    have hpresent := present_removeNode ch nodeID
    have hnode : nodeID ∈ ch.present := by
      show (ch.nodeVNodes.get? nodeID).isSome = true
      rw [hget]
      rfl
    have hremove : ch.removeNode nodeID =
        { ring := ch.ring.filter fun hash => hash ∉ hs
          ringMap := hs.foldl (fun m hash => m.remove hash) ch.ringMap
          nodeVNodes := ch.nodeVNodes.remove nodeID } := by
      rw [removeNode, hget]
    -- a point of another node is not a point of the removed one
    have hother : ∀ n ∈ ch.present, ∀ i < counts n, hash (vnodeID n i) ∈ hs ↔ n = nodeID := by
      intro n hn i hi
      rw [h.nodeVNodes nodeID hs hget, mem_points]
      constructor
      · rintro ⟨j, hj, heq⟩
        exact (hfree n hn nodeID hnode i hi j hj heq.symm).1
      · rintro rfl
        exact ⟨i, hi, rfl⟩
    refine ⟨?_, ?_, ?_, ?_⟩
    · rw [hremove]
      exact h.sorted.filter _
    · intro n hs' hn
      rw [hremove] at hn
      simp only [Map.get?_remove] at hn
      split at hn
      · cases hn
      · exact h.nodeVNodes n hs' hn
    · intro p
      rw [hpresent, hremove]
      simp only [List.mem_filter, decide_eq_true_eq, h.ring, Set.mem_sdiff, Set.mem_singleton_iff]
      constructor
      · rintro ⟨⟨n, hn, hp⟩, hnot⟩
        refine ⟨n, ⟨hn, ?_⟩, hp⟩
        rintro rfl
        rw [h.nodeVNodes n hs hget] at hnot
        exact hnot hp
      · rintro ⟨n, ⟨hn, hne⟩, hp⟩
        obtain ⟨i, hi, rfl⟩ := mem_points.mp hp
        exact ⟨⟨n, hn, hp⟩, fun hmem => hne ((hother n hn i hi).mp hmem)⟩
    · intro p id
      rw [hpresent, hremove]
      simp only [get?_foldl_remove, Set.mem_sdiff, Set.mem_singleton_iff]
      constructor
      · intro hp
        split at hp
        · cases hp
        · next hnot =>
          obtain ⟨n, hn, i, hi, rfl, rfl⟩ := (h.ringMap p id).mp hp
          exact ⟨n, ⟨hn, fun heq => hnot ((hother n hn i hi).mpr heq)⟩, i, hi, rfl, rfl⟩
      · rintro ⟨n, ⟨hn, hne⟩, i, hi, rfl, rfl⟩
        rw [if_neg fun hmem => hne ((hother n hn i hi).mp hmem)]
        exact (h.ringMap _ _).mpr ⟨n, hn, i, hi, rfl, rfl⟩

/-- The point of a virtual node leads back to it. -/
theorem Sound.virtualNodeAt (h : Sound hash counts ch) {n : String} (hn : n ∈ ch.present) {i : Nat}
    (hi : i < counts n) : ch.virtualNodeAt (hash (vnodeID n i)) =
      ⟨vnodeID n i, hash (vnodeID n i), n⟩ := by
  have hget := (h.ringMap (hash (vnodeID n i)) (vnodeID n i)).mpr ⟨n, hn, i, hi, rfl, rfl⟩
  simp only [ConsistentHasher.virtualNodeAt, hget, Option.getD_some, extractNodeID_vnodeID]

end

end ConsistentHasher

end PairDB.Coordinator
