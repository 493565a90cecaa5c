import PairDB.Coordinator.NodeHandler

/-!
# Merging ranges

`MergeRanges` sorts the ranges by their start and sweeps over them. A range that begins within the
last merged one, or at its end, is joined to it. That is right for a range whose end is not before
its start. A range that wraps around has its end before its start, so it looks as if it ended within
the last one, and is dropped (`Swallowed`). `mergeRanges_covers_iff` says that nothing else goes
wrong.

The two ranges need not overlap: of the ranges that are calculated for a node, one that ends at the
greatest point of the ring and the one from there to the least point are neighbours.
-/

namespace PairDB.Coordinator

open Infra
open PairDB.StorageNode (StreamKeyRange keyInRanges)

/-- The hash is in the range, for a storage node. -/
def KeyRange.Contains (r : KeyRange) (h : UInt64) : Prop :=
  StreamKeyRange.contains ⟨r.startHash, r.endHash⟩ h = true

theorem KeyRange.contains_iff (r : KeyRange) (h : UInt64) :
    r.Contains h ↔ (r.startHash ≤ h ∧ h < r.endHash) ∨
      (r.endHash < r.startHash ∧ (r.startHash ≤ h ∨ h < r.endHash)) := by
  simp only [KeyRange.Contains, StreamKeyRange.contains, Bool.or_eq_true, Bool.and_eq_true,
    decide_eq_true_eq, ge_iff_le, gt_iff_lt]

namespace KeyRangeService

theorem keyInRanges_streamRanges (h : UInt64) (ranges : List KeyRange) :
    keyInRanges h (streamRanges ranges) = true ↔ ∃ r ∈ ranges, r.Contains h := by
  simp only [keyInRanges, streamRanges, List.any_map, List.any_eq_true, Function.comp_apply,
    KeyRange.Contains]

/-! ## The sort -/

theorem sortByStart_perm (ranges : List KeyRange) : (sortByStart ranges).Perm ranges :=
  exchangeSort_perm _ ranges

theorem sortByStart_pairwise (ranges : List KeyRange) :
    (sortByStart ranges).Pairwise fun r q => r.startHash ≤ q.startHash := by
  have hsorted := @exchangeSort_pairwise KeyRange (fun r q => decide (r.startHash < q.startHash))
    (fun a b hlt => by
      simp only [decide_eq_true_eq, decide_eq_false_iff_not, UInt64.not_lt] at hlt ⊢
      exact UInt64.le_of_lt hlt)
    (fun a b c hab hbc => by
      simp only [decide_eq_false_iff_not, UInt64.not_lt] at hab hbc ⊢
      exact UInt64.le_trans hab hbc) ranges
  exact hsorted.imp fun h => by simpa using h

/-! ## The sweep -/

/-- The range `r`, which the sort puts behind the ranges `pre`, is dropped: it wraps around, and it
begins within one of them that does not, or at its end. -/
def Swallowed (pre : List KeyRange) (r : KeyRange) : Prop :=
  r.endHash < r.startHash ∧ ∃ q ∈ pre, q.startHash ≤ q.endHash ∧ r.startHash ≤ q.endHash

/-- Some range of the list that is not dropped contains the hash. -/
def KeptCovers (sorted : List KeyRange) (h : UInt64) : Prop :=
  ∃ pre r post, sorted = pre ++ r :: post ∧ ¬ Swallowed pre r ∧ r.Contains h

theorem keptCovers_concat (seen : List KeyRange) (r : KeyRange) (h : UInt64) :
    KeptCovers (seen ++ [r]) h ↔ KeptCovers seen h ∨ (¬ Swallowed seen r ∧ r.Contains h) := by
  constructor
  · rintro ⟨pre, q, post, hsplit, hkept, hq⟩
    rcases List.eq_nil_or_concat post with rfl | ⟨post, q', rfl⟩
    · obtain ⟨rfl, hr⟩ := List.append_inj' hsplit rfl
      obtain rfl : r = q := List.head_eq_of_cons_eq hr
      exact Or.inr ⟨hkept, hq⟩
    · rw [List.concat_eq_append, ← List.cons_append, ← List.append_assoc] at hsplit
      obtain ⟨rfl, -⟩ := List.append_inj' hsplit rfl
      exact Or.inl ⟨pre, q, post, rfl, hkept, hq⟩
  · rintro (⟨pre, q, post, rfl, hkept, hq⟩ | ⟨hkept, hr⟩)
    · exact ⟨pre, q, post ++ [r], by simp, hkept, hq⟩
    · exact ⟨seen, r, [], rfl, hkept, hr⟩

/-- What holds after the sweep over the ranges `seen`. -/
structure Swept (seen : List KeyRange) (merged : List KeyRange × KeyRange) : Prop where
  covers : ∀ h, (∃ r ∈ merged.1 ++ [merged.2], r.Contains h) ↔ KeptCovers seen h
  start : ∃ q ∈ seen, q.startHash = merged.2.startHash
  /-- The end of the last range comes from a range that does not wrap around. -/
  ends : merged.2.startHash ≤ merged.2.endHash →
    ∃ q ∈ seen, q.startHash ≤ q.endHash ∧ q.endHash = merged.2.endHash
  /-- No range that does not wrap around reaches beyond the end of the last one. -/
  reach : ∀ q ∈ seen, q.startHash ≤ q.endHash →
    q.endHash ≤ merged.2.endHash ∨ q.endHash < merged.2.startHash

section

variable {seen : List KeyRange} {merged : List KeyRange × KeyRange} {current : KeyRange}

theorem Swept.start_le (hs : Swept seen merged)
    (hsorted : ∀ q ∈ seen, q.startHash ≤ current.startHash) :
    merged.2.startHash ≤ current.startHash := by
  obtain ⟨q, hq, hstart⟩ := hs.start
  rw [← hstart]
  exact hsorted q hq

/-- The sweep drops the ranges that are said to be swallowed. -/
theorem Swept.swallowed_iff (hs : Swept seen merged)
    (hsorted : ∀ q ∈ seen, q.startHash ≤ current.startHash) :
    Swallowed seen current ↔
      current.endHash < current.startHash ∧ current.startHash ≤ merged.2.endHash := by
  have hlast := hs.start_le hsorted
  refine and_congr_right fun _ => ⟨?_, fun hle => ?_⟩
  · rintro ⟨q, hq, hplain, hle⟩
    rcases hs.reach q hq hplain with hreach | hbefore
    · exact UInt64.le_trans hle hreach
    · exact absurd (UInt64.le_trans hlast hle) (UInt64.not_le.mpr hbefore)
  · obtain ⟨q, hq, hplain, hend⟩ := hs.ends (UInt64.le_trans hlast hle)
    exact ⟨q, hq, hplain, by rwa [hend]⟩

/-- A range that begins in another one and reaches beyond it extends it. -/
theorem contains_extended {last : KeyRange} (h : UInt64)
    (hlast : last.startHash ≤ current.startHash) (hjoined : current.startHash ≤ last.endHash)
    (hbeyond : last.endHash < current.endHash) :
    KeyRange.Contains { last with endHash := current.endHash } h ↔
      last.Contains h ∨ current.Contains h := by
  simp only [KeyRange.contains_iff, UInt64.le_iff_toNat_le, UInt64.lt_iff_toNat_lt] at *
  omega

/-- A range that begins in another one and does not reach beyond it adds nothing. -/
theorem contains_of_inner {last : KeyRange} {h : UInt64}
    (hlast : last.startHash ≤ current.startHash) (hplain : current.startHash ≤ current.endHash)
    (hinner : current.endHash ≤ last.endHash) (hc : current.Contains h) : last.Contains h := by
  simp only [KeyRange.contains_iff, UInt64.le_iff_toNat_le, UInt64.lt_iff_toNat_lt] at *
  omega

theorem exists_contains_concat (done : List KeyRange) (last : KeyRange) (h : UInt64) :
    (∃ r ∈ done ++ [last], r.Contains h) ↔ (∃ r ∈ done, r.Contains h) ∨ last.Contains h := by
  simp [or_and_right, exists_or]

/-- The sweep over one more range. -/
theorem swept_round (hs : Swept seen merged)
    (hsorted : ∀ q ∈ seen, q.startHash ≤ current.startHash) :
    Swept (seen ++ [current]) (sweepRound merged current) := by
  obtain ⟨done, last⟩ := merged
  have hlast : last.startHash ≤ current.startHash := hs.start_le hsorted
  have hswallowed := hs.swallowed_iff hsorted
  have hcovers := hs.covers
  simp only [exists_contains_concat] at hcovers hswallowed
  unfold sweepRound
  by_cases hjoined : current.startHash ≤ last.endHash
  · rw [if_pos hjoined]
    by_cases hbeyond : current.endHash > last.endHash
    · -- the last range is extended; `current` does not wrap around
      rw [if_pos hbeyond]
      have hplain : current.startHash ≤ current.endHash :=
        UInt64.le_trans hjoined (UInt64.le_of_lt hbeyond)
      have hkept : ¬ Swallowed seen current := fun hsw =>
        absurd hplain (UInt64.not_le.mpr hsw.1)
      constructor
      · intro h
        rw [exists_contains_concat, keptCovers_concat, ← hcovers,
          contains_extended h hlast hjoined hbeyond, or_assoc, and_iff_right hkept]
      · obtain ⟨q, hq, hstart⟩ := hs.start
        exact ⟨q, by simp [hq], hstart⟩
      · exact fun _ => ⟨current, by simp, hplain, rfl⟩
      · intro q hq hq'
        rcases List.mem_append.mp hq with hq | hq
        · rcases hs.reach q hq hq' with hreach | hbefore
          · exact Or.inl (UInt64.le_trans hreach (UInt64.le_of_lt hbeyond))
          · exact Or.inr hbefore
        · rw [List.mem_singleton.mp hq]
          exact Or.inl (UInt64.le_refl _)
    · -- the last range stays; `current` wraps around, or it lies within the last one
      rw [if_neg hbeyond]
      have hinner : current.endHash ≤ last.endHash := UInt64.not_lt.mp hbeyond
      constructor
      · intro h
        rw [exists_contains_concat, keptCovers_concat, ← hcovers]
        refine ⟨Or.inl, ?_⟩
        rintro (hold | ⟨hkept, hc⟩)
        · exact hold
        · by_cases hplain : current.startHash ≤ current.endHash
          · exact Or.inr (contains_of_inner hlast hplain hinner hc)
          · exact absurd (hswallowed.mpr ⟨UInt64.not_le.mp hplain, hjoined⟩) hkept
      · obtain ⟨q, hq, hstart⟩ := hs.start
        exact ⟨q, by simp [hq], hstart⟩
      · intro hplain
        obtain ⟨q, hq, hends⟩ := hs.ends hplain
        exact ⟨q, by simp [hq], hends⟩
      · intro q hq hq'
        rcases List.mem_append.mp hq with hq | hq
        · exact hs.reach q hq hq'
        · rw [List.mem_singleton.mp hq]
          exact Or.inl hinner
  · -- `current` becomes the last range
    rw [if_neg hjoined]
    have hkept : ¬ Swallowed seen current := fun hsw => hjoined (hswallowed.mp hsw).2
    have hafter : last.endHash < current.startHash := UInt64.not_le.mp hjoined
    constructor
    · intro h
      rw [exists_contains_concat, exists_contains_concat, keptCovers_concat, ← hcovers,
        and_iff_right hkept]
    · exact ⟨current, by simp, rfl⟩
    · exact fun hplain => ⟨current, by simp, hplain, rfl⟩
    · intro q hq hq'
      rcases List.mem_append.mp hq with hq | hq
      · refine Or.inr ?_
        rcases hs.reach q hq hq' with hreach | hbefore
        · exact UInt64.lt_of_le_of_lt hreach hafter
        · exact UInt64.lt_of_lt_of_le hbefore hlast
      · rw [List.mem_singleton.mp hq]
        exact Or.inl (UInt64.le_refl _)

end

theorem swept_single (first : KeyRange) : Swept [first] ([], first) where
  covers h := by
    rw [← List.nil_append [first], keptCovers_concat]
    simp [Swallowed, KeptCovers]
  start := ⟨first, by simp, rfl⟩
  ends hplain := ⟨first, by simp, hplain, rfl⟩
  reach q hq _ := by
    rw [List.mem_singleton.mp hq]
    exact Or.inl (UInt64.le_refl _)

theorem swept_foldl {rest seen : List KeyRange} {merged : List KeyRange × KeyRange}
    (hs : Swept seen merged)
    (hsorted : (seen ++ rest).Pairwise fun r q => r.startHash ≤ q.startHash) :
    Swept (seen ++ rest) (rest.foldl sweepRound merged) := by
  induction rest generalizing seen merged with
  | nil => simpa using hs
  | cons current rest ih =>
    have hbefore := (List.pairwise_append.mp hsorted).2.2
    have hround := swept_round hs fun q hq => hbefore q hq current (by simp)
    rw [List.append_cons] at hsorted ⊢
    exact ih hround hsorted

/-- What the merged ranges cover. -/
theorem mergeRanges_covers (ranges : List KeyRange) (h : UInt64) :
    keyInRanges h (streamRanges (mergeRanges ranges)) = true ↔
      KeptCovers (sortByStart ranges) h := by
  rw [keyInRanges_streamRanges]
  have hsorted := sortByStart_pairwise ranges
  unfold mergeRanges
  cases hsort : sortByStart ranges with
  | nil => simp [KeptCovers]
  | cons first rest =>
    rw [hsort] at hsorted
    exact (swept_foldl (swept_single first) hsorted).covers h

/-- **When a merge keeps the hashes.** Every hash of a range that is dropped lies in a range that
is not. -/
theorem mergeRanges_covers_iff (ranges : List KeyRange) :
    (∀ h, keyInRanges h (streamRanges (mergeRanges ranges)) =
        keyInRanges h (streamRanges ranges)) ↔
      ∀ pre r post, sortByStart ranges = pre ++ r :: post → Swallowed pre r →
        ∀ h, r.Contains h → KeptCovers (sortByStart ranges) h := by
  have hinput : ∀ h, keyInRanges h (streamRanges ranges) = true ↔
      ∃ r ∈ sortByStart ranges, r.Contains h := fun h => by
    rw [keyInRanges_streamRanges]
    exact exists_congr fun r => and_congr_left' (sortByStart_perm ranges).mem_iff.symm
  have hsame : ∀ h, keyInRanges h (streamRanges (mergeRanges ranges)) =
        keyInRanges h (streamRanges ranges) ↔
      (KeptCovers (sortByStart ranges) h ↔ ∃ r ∈ sortByStart ranges, r.Contains h) := fun h => by
    rw [Bool.eq_iff_iff, hinput, mergeRanges_covers]
  rw [forall_congr' hsame]
  constructor
  · intro hsame pre r post hsplit _ h hr
    exact (hsame h).mpr ⟨r, by simp [hsplit], hr⟩
  · intro hcovered h
    constructor
    · rintro ⟨pre, r, post, hsplit, -, hr⟩
      exact ⟨r, by simp [hsplit], hr⟩
    · rintro ⟨r, hmem, hr⟩
      obtain ⟨pre, post, hsplit⟩ := List.append_of_mem hmem
      by_cases hsw : Swallowed pre r
      · exact hcovered pre r post hsplit hsw h hr
      · exact ⟨pre, r, post, hsplit, hsw, hr⟩

/-- Ranges that do not wrap around are merged without a loss. -/
theorem mergeRanges_covers_of_plain {ranges : List KeyRange}
    (hplain : ∀ r ∈ ranges, r.startHash ≤ r.endHash) (h : UInt64) :
    keyInRanges h (streamRanges (mergeRanges ranges)) = true ↔
      keyInRanges h (streamRanges ranges) = true := by
  rw [mergeRanges_covers, keyInRanges_streamRanges]
  constructor
  · rintro ⟨pre, r, post, hsplit, -, hr⟩
    exact ⟨r, (sortByStart_perm ranges).mem_iff.mp (by simp [hsplit]), hr⟩
  · rintro ⟨r, hmem, hr⟩
    obtain ⟨pre, post, hsplit⟩ := List.append_of_mem ((sortByStart_perm ranges).mem_iff.mpr hmem)
    exact ⟨pre, r, post, hsplit, fun hsw => absurd (hplain r hmem) (UInt64.not_le.mpr hsw.1), hr⟩

/-- Two neighbours, the second of which wraps around. -/
theorem mergeRanges_drops_wraparound :
    mergeRanges [⟨10, 20⟩, ⟨20, 5⟩] = [⟨10, 20⟩] ∧
      keyInRanges 30 (streamRanges [⟨10, 20⟩, ⟨20, 5⟩]) = true ∧
      keyInRanges 30 (streamRanges (mergeRanges [⟨10, 20⟩, ⟨20, 5⟩])) = false := by
  decide

end KeyRangeService

end PairDB.Coordinator
