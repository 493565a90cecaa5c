import PairDB.Infra.Search

/-!
# A walk around a ring of points

The points of a ring are a sorted list. A walk starts at the first point that is not below a given
one and goes around once (`clockwise`). An implementation finds the start with a binary search and
counts the index modulo the length (`rotate_start`).

`firstBy` keeps the first element of every key. Both operations commute with leaving elements out
(`clockwise_filter`, `firstBy_filter`), so a walk over a ring with more points is easily compared
with the walk without them.
-/

namespace Infra

/-! ## Binary search -/

/-- `f` is false before `r` and true from `r` on. -/
def Switches (f : Nat → Bool) (n r : Nat) : Prop :=
  r ≤ n ∧ (∀ k, k < r → f k = false) ∧ ∀ k, r ≤ k → k < n → f k = true

/-- The loop keeps the place where `f` becomes true between `i` and `j`. -/
theorem searchLoop_eq {f : Nat → Bool} {n r : Nat} (h : Switches f n r) :
    ∀ (rounds i j : Nat), j ≤ n → i ≤ r → r ≤ j → j - i ≤ rounds → searchLoop f rounds i j = r
  | 0, i, j, _, hi, hj, hrounds => by
    rw [searchLoop]
    omega
  | rounds + 1, i, j, hn, hi, hj, hrounds => by
    rw [searchLoop]
    split
    · next hlt =>
      dsimp only
      cases hf : f ((i + j) / 2) with
      | true =>
        have hle : r ≤ (i + j) / 2 := by
          by_contra hgt
          rw [h.2.1 _ (by omega)] at hf
          cases hf
        exact searchLoop_eq h rounds i _ (by omega) hi hle (by omega)
      | false =>
        have hlt : (i + j) / 2 < r := by
          by_contra hge
          rw [h.2.2 _ (by omega) (by omega)] at hf
          cases hf
        exact searchLoop_eq h rounds _ j hn (by omega) hj (by omega)
    · omega

theorem search_eq {f : Nat → Bool} {n r : Nat} (h : Switches f n r) : search n f = r :=
  searchLoop_eq h n 0 n (Nat.le_refl n) (Nat.zero_le r) h.1 (by omega)

/-! ## The walk -/

section Walk

variable {α : Type*} [LinearOrder α] {ring : List α}

/-- The points from the first one that is not below `h`, around the ring. -/
def clockwise (ring : List α) (h : α) : List α :=
  ring.filter (fun p => h ≤ p) ++ ring.filter fun p => p < h

theorem perm_clockwise (ring : List α) (h : α) : (clockwise ring h).Perm ring := by
  have hnot : (fun p => decide (p < h)) = fun p => !decide (h ≤ p) := by
    funext p
    rw [← decide_not, decide_eq_decide]
    exact not_le.symm
  rw [clockwise, hnot]
  exact List.filter_append_perm _ _

theorem mem_clockwise {h p : α} : p ∈ clockwise ring h ↔ p ∈ ring := (perm_clockwise ring h).mem_iff

theorem clockwise_filter (ring : List α) (h : α) (q : α → Bool) :
    clockwise (ring.filter q) h = (clockwise ring h).filter q := by
  simp only [clockwise, List.filter_append, List.filter_filter, Bool.and_comm]

/-- A sorted ring is cut in two at `h`. -/
theorem filter_lt_append (hsorted : ring.Pairwise (· ≤ ·)) (h : α) :
    ring.filter (fun p => p < h) ++ ring.filter (fun p => h ≤ p) = ring := by
  induction ring with
  | nil => rfl
  | cons p ring ih =>
    rw [List.pairwise_cons] at hsorted
    by_cases hp : p < h
    · have hnot : ¬ h ≤ p := not_le.mpr hp
      simp only [List.filter_cons, hp, hnot, decide_true, decide_false, if_true, if_false,
        List.cons_append, ih hsorted.2, Bool.false_eq_true]
    · have hle : h ≤ p := not_lt.mp hp
      have hall : ∀ q ∈ p :: ring, h ≤ q := by
        intro q hq
        rcases List.mem_cons.mp hq with rfl | hq
        · exact hle
        · exact hle.trans (hsorted.1 q hq)
      have hnone : (p :: ring).filter (fun q => q < h) = [] := by
        rw [List.filter_eq_nil_iff]
        intro q hq
        simpa using hall q hq
      have hevery : (p :: ring).filter (fun q => h ≤ q) = p :: ring := by
        rw [List.filter_eq_self]
        intro q hq
        simpa using hall q hq
      rw [hnone, hevery, List.nil_append]

/-- How many points are below `h`. -/
theorem switches_filter_lt (hsorted : ring.Pairwise (· ≤ ·)) (h d : α) :
    Switches (fun i => decide (h ≤ ring.getD i d)) ring.length
      (ring.filter fun p => p < h).length := by
  have hcut := filter_lt_append hsorted h
  refine ⟨List.length_filter_le _ _, ?_, ?_⟩
  · intro k hk
    have hget : ring.getD k d = (ring.filter fun p => p < h).getD k d := by
      nth_rewrite 1 [← hcut]
      exact List.getD_append _ _ _ _ hk
    have hmem : (ring.filter fun p => p < h).getD k d ∈ ring.filter fun p => p < h := by
      rw [List.getD_eq_getElem _ _ hk]
      exact List.getElem_mem hk
    show decide (h ≤ ring.getD k d) = false
    rw [hget]
    simpa using (List.mem_filter.mp hmem).2
  · intro k hk hlen
    have hget : ring.getD k d =
        (ring.filter fun p => h ≤ p).getD (k - (ring.filter fun p => p < h).length) d := by
      nth_rewrite 1 [← hcut]
      exact List.getD_append_right _ _ _ _ hk
    have hlt : k - (ring.filter fun p => p < h).length < (ring.filter fun p => h ≤ p).length := by
      have hsum := congrArg List.length hcut
      rw [List.length_append] at hsum
      omega
    have hmem : (ring.filter fun p => h ≤ p).getD
        (k - (ring.filter fun p => p < h).length) d ∈ ring.filter fun p => h ≤ p := by
      rw [List.getD_eq_getElem _ _ hlt]
      exact List.getElem_mem hlt
    show decide (h ≤ ring.getD k d) = true
    rw [hget]
    simpa using (List.mem_filter.mp hmem).2

/-- Where the walk starts: after the last point the first one follows. -/
def start (ring : List α) (h d : α) : Nat :=
  let idx := search ring.length fun i => decide (h ≤ ring.getD i d)
  if idx ≥ ring.length then 0 else idx

theorem rotate_start (hsorted : ring.Pairwise (· ≤ ·)) (h d : α) :
    ring.rotate (start ring h d) = clockwise ring h := by
  have hsearch := search_eq (switches_filter_lt hsorted h d)
  have hcut := filter_lt_append hsorted h
  have hle : (ring.filter fun p => p < h).length ≤ ring.length := List.length_filter_le _ _
  have hdrop : ring.drop (ring.filter fun p => p < h).length = ring.filter fun p => h ≤ p := by
    have hleft := @List.drop_left _ (ring.filter fun p => p < h) (ring.filter fun p => h ≤ p)
    rwa [hcut] at hleft
  have htake : ring.take (ring.filter fun p => p < h).length = ring.filter fun p => p < h := by
    have hleft := @List.take_left _ (ring.filter fun p => p < h) (ring.filter fun p => h ≤ p)
    rwa [hcut] at hleft
  have hrotate : ring.rotate (ring.filter fun p => p < h).length = clockwise ring h := by
    rw [List.rotate_eq_drop_append_take hle, hdrop, htake]
    rfl
  rw [start, hsearch]
  split
  · next hge =>
    rw [← hrotate, show (ring.filter fun p => p < h).length = ring.length by omega,
      List.rotate_length, List.rotate_zero]
  · exact hrotate

/-- A walk that starts at the first point of a walk is the same walk. -/
theorem clockwise_of_head? (hsorted : ring.Pairwise (· ≤ ·)) {h p : α}
    (hp : (clockwise ring h).head? = some p) : clockwise ring p = clockwise ring h := by
  have hmem : p ∈ ring := mem_clockwise.mp (List.mem_of_head? hp)
  -- no point lies between `h` and `p`
  have hsame : (∀ q ∈ ring, p ≤ q ↔ h ≤ q) ∨ (∀ q ∈ ring, q < h ∧ p ≤ q) := by
    cases hup : ring.filter fun q => decide (h ≤ q) with
    | nil =>
      right
      rw [clockwise, hup, List.nil_append] at hp
      have hall : ∀ q ∈ ring, q < h := by
        intro q hq
        simpa using List.filter_eq_nil_iff.mp hup q hq
      have hring : ring.filter (fun q => decide (q < h)) = ring :=
        List.filter_eq_self.mpr fun q hq => decide_eq_true (hall q hq)
      rw [hring] at hp
      obtain ⟨rest, rfl⟩ := List.head?_eq_some_iff.mp hp
      intro q hq
      refine ⟨hall q hq, ?_⟩
      rcases List.mem_cons.mp hq with rfl | hq
      · exact le_rfl
      · exact (List.pairwise_cons.mp hsorted).1 q hq
    | cons a up =>
      left
      rw [clockwise, hup, List.cons_append, List.head?_cons, Option.some.injEq] at hp
      subst hp
      have hup' := hsorted.filter fun q => decide (h ≤ q)
      rw [hup, List.pairwise_cons] at hup'
      have ha : h ≤ a := by
        have hin : a ∈ ring.filter fun q => decide (h ≤ q) := by simp [hup]
        simpa using (List.mem_filter.mp hin).2
      intro q hq
      refine ⟨ha.trans, fun hle => ?_⟩
      have hin : q ∈ a :: up := by
        rw [← hup]
        exact List.mem_filter.mpr ⟨hq, decide_eq_true hle⟩
      rcases List.mem_cons.mp hin with rfl | hin
      · exact le_rfl
      · exact hup'.1 q hin
  unfold clockwise
  rcases hsame with hsame | hall
  · congr 1
    · exact List.filter_congr fun q hq => decide_eq_decide.mpr (hsame q hq)
    · refine List.filter_congr fun q hq => decide_eq_decide.mpr ?_
      rw [← not_le, ← not_le, hsame q hq]
  · have h1 : ring.filter (fun q => decide (p ≤ q)) = ring :=
      List.filter_eq_self.mpr fun q hq => decide_eq_true (hall q hq).2
    have h2 : ring.filter (fun q => decide (q < p)) = [] :=
      List.filter_eq_nil_iff.mpr fun q hq => by simpa using (hall q hq).2
    have h3 : ring.filter (fun q => decide (h ≤ q)) = [] :=
      List.filter_eq_nil_iff.mpr fun q hq => by simpa using (hall q hq).1
    have h4 : ring.filter (fun q => decide (q < h)) = ring :=
      List.filter_eq_self.mpr fun q hq => decide_eq_true (hall q hq).1
    rw [h1, h2, h3, h4, List.append_nil, List.nil_append]

end Walk

/-! ## The first element of every key -/

section FirstBy

variable {α β : Type*} [DecidableEq β] {key : α → β}

/-- The elements whose key did not come before. -/
def firstBy (key : α → β) : List α → List α
  | [] => []
  | a :: l => a :: (firstBy key l).filter fun b => key b ≠ key a

theorem firstBy_filter (key : α → β) (q : β → Bool) (l : List α) :
    firstBy key (l.filter fun a => q (key a)) = (firstBy key l).filter fun a => q (key a) := by
  induction l with
  | nil => rfl
  | cons a l ih =>
    rw [List.filter_cons]
    split
    · next hq =>
      rw [firstBy, ih, firstBy, List.filter_cons, if_pos hq, List.filter_filter, List.filter_filter]
      simp only [Bool.and_comm]
    · next hq =>
      rw [ih, firstBy, List.filter_cons, if_neg hq, List.filter_filter]
      -- the elements with the key of `a` are left out in any case
      refine List.filter_congr fun b _ => ?_
      by_cases hb : key b = key a
      · rw [hb]
        simpa using hq
      · simp [hb]

theorem nodup_map_firstBy (key : α → β) (l : List α) : ((firstBy key l).map key).Nodup := by
  induction l with
  | nil => exact List.nodup_nil
  | cons a l ih =>
    rw [firstBy, List.map_cons, List.nodup_cons]
    constructor
    · intro hmem
      obtain ⟨b, hb, heq⟩ := List.mem_map.mp hmem
      have hne := (List.mem_filter.mp hb).2
      simp [heq] at hne
    · exact ih.sublist ((List.filter_sublist).map key)

theorem mem_map_firstBy (l : List α) (b : β) : b ∈ (firstBy key l).map key ↔ b ∈ l.map key := by
  induction l with
  | nil => rfl
  | cons a l ih =>
    rw [firstBy, List.map_cons, List.map_cons, List.mem_cons, List.mem_cons, ← ih]
    by_cases hb : b = key a
    · simp [hb]
    · simp only [hb, false_or]
      constructor
      · intro hmem
        exact ((List.filter_sublist).map key).subset hmem
      · intro hmem
        obtain ⟨c, hc, rfl⟩ := List.mem_map.mp hmem
        exact List.mem_map.mpr ⟨c, List.mem_filter.mpr ⟨hc, by simpa using hb⟩, rfl⟩

theorem head?_firstBy (key : α → β) (l : List α) : (firstBy key l).head? = l.head? := by
  cases l <;> rfl

/-- Only the keys matter for the keys that are kept. -/
theorem map_firstBy (key : α → β) (l : List α) : (firstBy key l).map key = firstBy id (l.map key) := by
  induction l with
  | nil => rfl
  | cons a l ih =>
    rw [firstBy, List.map_cons, List.map_cons, firstBy, ← ih, List.filter_map]
    rfl

theorem firstBy_append (key : α → β) (l l' : List α) :
    firstBy key (l ++ l') =
      firstBy key l ++ (firstBy key l').filter fun b => key b ∉ l.map key := by
  induction l with
  | nil => simp [firstBy]
  | cons a l ih =>
    rw [List.cons_append, firstBy, firstBy, ih, List.filter_append, List.filter_filter,
      List.cons_append]
    congr 2
    refine List.filter_congr fun b _ => ?_
    simp [not_or]

/-- There is one element for every key. -/
theorem length_firstBy (key : α → β) (l : List α) :
    (firstBy key l).length = (l.map key).dedup.length := by
  have hperm : ((firstBy key l).map key).Perm (l.map key).dedup := by
    refine (List.perm_ext_iff_of_nodup (nodup_map_firstBy key l) (List.nodup_dedup _)).mpr ?_
    intro b
    rw [mem_map_firstBy, List.mem_dedup]
  rw [← hperm.length_eq, List.length_map]

/-- A key is among the first ones if fewer other keys come before it. -/
theorem mem_take_firstBy_iff (key : α → β) (l : List α) (n : Nat) (b : β) :
    b ∈ ((firstBy key l).take n).map key ↔
      b ∈ l.map key ∧ ((l.map key).takeWhile fun c => c ≠ b).dedup.length < n := by
  by_cases hb : b ∈ l.map key
  · rw [and_iff_right hb]
    obtain ⟨keys, keys', hkeys, hnot⟩ := List.eq_append_cons_of_mem hb
    obtain ⟨pre, rest, rfl, rfl, hrest⟩ := List.map_eq_append_iff.mp hkeys
    obtain ⟨a, post, rfl, rfl, rfl⟩ := List.map_eq_cons_iff.mp hrest
    have hbefore : ((pre ++ a :: post).map key).takeWhile (fun c => c ≠ key a) = pre.map key := by
      rw [List.map_append, List.takeWhile_append_of_pos, List.map_cons, List.takeWhile_cons]
      · simp
      · intro c hc
        simpa using fun heq : c = key a => hnot (heq ▸ hc)
    have hwalk : firstBy key (pre ++ a :: post) = firstBy key pre ++ a ::
        ((firstBy key post).filter fun b => key b ≠ key a).filter
          fun b => key b ∉ pre.map key := by
      rw [firstBy_append, firstBy, List.filter_cons, if_pos (by simpa using hnot)]
    rw [hbefore, hwalk, ← length_firstBy, List.take_append, List.map_append, List.mem_append]
    have hfirst : key a ∉ ((firstBy key pre).take n).map key := by
      intro hmem
      have hall := ((List.take_sublist n _).map key).subset hmem
      exact hnot ((mem_map_firstBy _ _).mp hall)
    rw [or_iff_right hfirst]
    constructor
    · intro hmem
      by_contra hge
      rw [show n - (firstBy key pre).length = 0 by omega] at hmem
      cases hmem
    · intro hlt
      obtain ⟨k, hk⟩ : ∃ k, n - (firstBy key pre).length = k + 1 :=
        ⟨n - (firstBy key pre).length - 1, by omega⟩
      rw [hk, List.take_succ_cons, List.map_cons]
      exact List.mem_cons_self
  · refine iff_of_false (fun hmem => hb ?_) fun h => hb h.1
    have hall := ((List.take_sublist n _).map key).subset hmem
    exact (mem_map_firstBy _ _).mp hall

end FirstBy

/-- The order of machine words. -/
instance instLinearOrderUInt64 : LinearOrder UInt64 where
  le_refl := UInt64.le_refl
  le_trans _ _ _ := UInt64.le_trans
  lt_iff_le_not_ge a b := by
    rw [UInt64.lt_iff_toNat_lt, UInt64.le_iff_toNat_le, UInt64.le_iff_toNat_le]
    omega
  le_antisymm _ _ := UInt64.le_antisymm
  le_total := UInt64.le_total
  toDecidableLE := inferInstance
  toDecidableEq := inferInstance
  toDecidableLT := inferInstance
  min_def _ _ := rfl
  max_def _ _ := rfl

end Infra
