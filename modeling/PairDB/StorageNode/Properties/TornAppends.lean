import PairDB.Infra.JsonScan
import PairDB.Infra.Run
import PairDB.StorageNode.CommitLogReplay
import PairDB.StorageNode.Properties.SegmentOrder

/-!
# Torn appends

A failing write can leave a part of a line at the end of the segment. The handle stays open, and the
next `Append` goes on where the part ends: both are one line then, and recovery skips it.

The results are about a segment and the `Append` calls on it, any of which can fail. `Layout` splits
the file into its lines and what follows the last line break. An entry that was acknowledged is
restored exactly if its line began at the start of a line (`acknowledged_restored_iff`). One
direction is about the layout only. In the other one the line of a torn part and an entry is never a
JSON text (`readLine_append`), and no other line can stand for the lost entry, since the sequence
numbers differ.
-/

namespace PairDB.StorageNode

open Infra CommitLogService
open Infra.Json (Scan)
open Infra.Json.Scan (scan before complete ObjectText)

/-! ## The text of an entry -/

/-- What the scanner makes of bytes. -/
def scanBytes (bs : Bytes) : Scan := scan before (bs.map UInt8.toNat)

theorem CommitLogEntry.marshal_eq (e : CommitLogEntry) :
    ∃ body, e.marshal = 0x7B :: 0x22 :: 0x53 :: (body ++ [0x7D]) :=
  ⟨_, Json.Scan.bytes_eq (c := 'S') rfl rfl⟩

theorem CommitLogEntry.objectText_marshal (e : CommitLogEntry) :
    ObjectText (e.marshal.map UInt8.toNat) :=
  Json.Scan.objectText_bytes (c := 'S') rfl rfl fun _ => rfl

/-- A line that begins with a brace and can be read is complete. -/
theorem complete_of_readLine {bs : Bytes} {e : CommitLogEntry} (h : readLine (0x7B :: bs) = some e) :
    scanBytes (0x7B :: bs) = complete := by
  obtain ⟨e', he', -⟩ := Option.bind_eq_some_iff.mp h
  obtain ⟨v, hv, -⟩ := Option.bind_eq_some_iff.mp he'
  exact Json.Scan.scan_of_ofBytes hv

/-- A part of an entry begins as the entry does. -/
theorem head_of_part {e : CommitLogEntry} {part : Bytes} (hpart : part <+: e.marshal)
    (hne : part ≠ []) : ∃ bs, part = 0x7B :: bs := by
  obtain ⟨rest, hrest⟩ := hpart
  obtain ⟨body, hbody⟩ := e.marshal_eq
  cases part with
  | nil => exact absurd rfl hne
  | cons b bs =>
    rw [hbody] at hrest
    exact ⟨bs, by rw [(List.cons.inj hrest).1]⟩

/-- **A line that goes on with another entry, or a part of one, cannot be read.** -/
theorem readLine_append {e : CommitLogEntry} {part : Bytes} (hpart : part <+: e.marshal)
    (hne : part ≠ []) (bs : Bytes) : readLine (0x7B :: bs ++ part) = none := by
  rw [Option.eq_none_iff_forall_ne_some]
  intro e' he'
  have hcomplete : scanBytes (0x7B :: bs ++ part) = complete := complete_of_readLine he'
  rw [scanBytes, List.map_append, Json.Scan.scan_append] at hcomplete
  have hbegun : scan before ((0x7B :: bs).map UInt8.toNat) ≠ before :=
    Json.Scan.scan_ne_before (s := .inside 0) (by simp) _
  exact e.objectText_marshal.scan_ne_complete (hpart.map UInt8.toNat) (by simpa using hne) hbegun
    hcomplete

/-- Only the whole text of an entry can be read. -/
theorem eq_of_readLine_part {e e' : CommitLogEntry} {part : Bytes} (he : Stamped e)
    (hpart : part <+: e.marshal) (h : readLine part = some e') : e' = e := by
  obtain ⟨e'', he'', -⟩ := Option.bind_eq_some_iff.mp h
  obtain ⟨v, hv, -⟩ := Option.bind_eq_some_iff.mp he''
  rw [e.objectText_marshal.eq_of_ofBytes hpart hv, readLine_marshal he] at h
  exact (Option.some.inj h).symm

/-! ## The lines of a segment -/

/-- The lines of a file and what follows the last line break: the beginning of an entry. -/
structure Layout (file : Bytes) (lines : List Bytes) (tail : Bytes) : Prop where
  eq : file = lines.flatMap (· ++ [10]) ++ tail
  printable : ∀ l ∈ lines ++ [tail], ∀ b ∈ l, 0x20 ≤ b.toNat
  begun : tail = [] ∨ ∃ bs, tail = 0x7B :: bs

namespace Layout

variable {file : Bytes} {lines : List Bytes} {tail : Bytes} {e : CommitLogEntry}

theorem write_line (h : Layout file lines tail) (e : CommitLogEntry) :
    Layout (file ++ line e) (lines ++ [tail ++ e.marshal]) [] := by
  refine ⟨?_, ?_, Or.inl rfl⟩
  · rw [h.eq, line]
    simp
  · intro l hl b hb
    simp only [List.append_assoc, List.mem_append, List.mem_singleton] at hl
    rcases hl with hl | rfl | rfl
    · exact h.printable l (List.mem_append_left _ hl) b hb
    · rcases List.mem_append.mp hb with hb | hb
      · exact h.printable tail (by simp) b hb
      · exact CommitLogEntry.le_of_mem_marshal hb
    · cases hb

theorem write_part (h : Layout file lines tail) {part : Bytes} (hpart : part <+: e.marshal) :
    Layout (file ++ part) lines (tail ++ part) := by
  refine ⟨?_, ?_, ?_⟩
  · rw [h.eq, List.append_assoc]
  · intro l hl b hb
    rcases List.mem_append.mp hl with hl | hl
    · exact h.printable l (List.mem_append_left _ hl) b hb
    · rw [List.mem_singleton.mp hl] at hb
      rcases List.mem_append.mp hb with hb | hb
      · exact h.printable tail (by simp) b hb
      · exact CommitLogEntry.le_of_mem_marshal (hpart.subset hb)
  · rcases h.begun with rfl | ⟨bs, rfl⟩
    · by_cases hne : part = []
      · exact Or.inl hne
      · exact Or.inr (head_of_part hpart hne)
    · exact Or.inr ⟨bs ++ part, rfl⟩

/-- After a part of an entry the last line can be read if it could be read before, or if the part
is the whole entry and began the line. -/
theorem of_readLine (h : Layout file lines tail) (he : Stamped e) {part : Bytes}
    (hpart : part <+: e.marshal) {e' : CommitLogEntry} (hread : readLine (tail ++ part) = some e') :
    part = [] ∨ tail = [] ∧ e' = e := by
  by_cases hne : part = []
  · exact Or.inl hne
  · refine Or.inr ?_
    rcases h.begun with rfl | ⟨bs, rfl⟩
    · exact ⟨rfl, eq_of_readLine_part he hpart hread⟩
    · rw [readLine_append hpart hne] at hread
      cases hread

/-- The next entry begins a line exactly if nothing follows the last line break. -/
theorem atLineStart_iff (h : Layout file lines tail) :
    file = [] ∨ file.getLast? = some 10 ↔ tail = [] := by
  constructor
  · intro hstart
    by_contra hne
    have hfile := h.eq
    obtain ⟨bs, b, rfl⟩ := List.eq_nil_or_concat tail |>.resolve_left hne
    rw [List.concat_eq_append, ← List.append_assoc] at hfile
    rcases hstart with hnil | hlast
    · simp [hfile] at hnil
    · rw [hfile, List.getLast?_concat, Option.some.injEq] at hlast
      have hb := h.printable (bs.concat b) (by simp) b (by simp)
      rw [hlast] at hb
      revert hb
      decide
  · rintro rfl
    rw [h.eq, List.append_nil]
    rcases List.eq_nil_or_concat lines with rfl | ⟨ls, l, rfl⟩
    · exact Or.inl rfl
    · refine Or.inr ?_
      rw [List.concat_eq_append, List.flatMap_append, List.flatMap_singleton, ← List.append_assoc,
        List.getLast?_concat]

theorem splitLines_eq (h : Layout file lines tail) :
    splitLines file = lines ++ if tail = [] then [] else [tail] := by
  have hnl : ∀ l ∈ lines ++ [tail], (10 : UInt8) ∉ l := fun l hl hmem => by
    have hle := h.printable l hl 10 hmem
    revert hle
    decide
  have htail : ∀ l : Bytes, (10 : UInt8) ∉ l → splitLines l = if l = [] then [] else [l] := by
    intro l hl
    induction l with
    | nil => rfl
    | cons b l ih =>
      rw [List.mem_cons, not_or] at hl
      show (if b = 10 then _ else _) = _
      rw [if_neg (Ne.symm hl.1), show l.foldr _ [] = splitLines l from rfl, ih hl.2]
      by_cases hnil : l = [] <;> simp [hnil]
  rw [h.eq]
  clear h
  induction lines with
  | nil => simpa using htail tail (hnl tail (by simp))
  | cons l lines ih =>
    rw [List.flatMap_cons, List.append_assoc, List.append_assoc, List.singleton_append,
      splitLines_append (hnl l (by simp)), ih fun l' hl' => hnl l' (by simp_all)]
    rfl

/-- The entries that are restored from the file. -/
theorem mem_restored_iff (h : Layout file lines tail)
    (hfits : ∀ l ∈ splitLines file, l.length < maxTokenSize) (e : CommitLogEntry) :
    e ∈ restored file ↔ ∃ l ∈ lines ++ [tail], readLine l = some e := by
  have hall : (splitLines file).takeWhile (fun l => l.length < maxTokenSize) = splitLines file :=
    List.takeWhile_eq_self_iff.mpr fun l hl => by simpa using hfits l hl
  have hcr : ∀ l ∈ lines ++ [tail], dropCR l = l := fun l hl => by
    refine if_neg fun hlast => ?_
    have hle := h.printable l hl 13 (List.mem_of_getLast? hlast)
    revert hle
    decide
  simp only [restored, scanned, hall, List.mem_filterMap, List.mem_map]
  rw [h.splitLines_eq]
  constructor
  · rintro ⟨l, ⟨l', hl', rfl⟩, hread⟩
    have hmem : l' ∈ lines ++ [tail] := by
      split at hl' <;> simp_all
    exact ⟨l', hmem, by rwa [hcr l' hmem] at hread⟩
  · rintro ⟨l, hl, hread⟩
    refine ⟨l, ⟨l, ?_, hcr l hl⟩, hread⟩
    split
    · next hnil =>
      have hne : l ≠ tail := by
        rintro rfl
        have hnone : readLine [] = none := rfl
        rw [hnil, hnone] at hread
        cases hread
      simp_all
    · exact hl

end Layout

/-! ## The calls -/

/-- A segment while `Append` is called on it. `acknowledged` are the entries whose `Append` returned
no error, and `glued` those of them whose line did not begin at the start of a line. -/
structure SegmentHistory where
  log : CommitLogService
  acknowledged : List CommitLogEntry
  glued : List CommitLogEntry

namespace SegmentHistory

/-- The contents of the segment. -/
def file (h : SegmentHistory) : Bytes := h.log.contents h.log.currentFile

/-- The file ends with a line break, or there is nothing in it. -/
def AtLineStart (h : SegmentHistory) : Prop := h.file = [] ∨ h.file.getLast? = some 10

instance (h : SegmentHistory) : Decidable h.AtLineStart := inferInstanceAs (Decidable (_ ∨ _))

/-- No call yet. -/
def start (s : CommitLogService) : SegmentHistory := ⟨s, [], []⟩

def step (h : SegmentHistory) (call : CommitLogEntry × AppendIO) : Option SegmentHistory :=
  match h.log.append call.1 call.2 with
  | (log, .ok entry) => some
    { log, acknowledged := h.acknowledged ++ [entry],
      glued := if h.AtLineStart then h.glued else h.glued ++ [entry] }
  | (log, .error _) => some { h with log }

/-- The handle is open, the line can be written and, if the log is synced, the file too. -/
def Succeeds (h : SegmentHistory) (io : AppendIO) : Bool :=
  !h.log.closed && match io with
    | .complete => true
    | .writeFails _ _ => false
    | .syncFails _ => !h.log.config.syncWrites

/-- A call that succeeds begins a line. -/
def StartsLine (h : SegmentHistory) (call : CommitLogEntry × AppendIO) : Prop :=
  h.Succeeds call.2 = true → h.AtLineStart

instance (h : SegmentHistory) (call : CommitLogEntry × AppendIO) : Decidable (h.StartsLine call) :=
  inferInstanceAs (Decidable (_ → _))

/-- What a call adds to the file: the whole line, and the call may succeed, or a part of it. -/
theorem step_cases {h h' : SegmentHistory} {call : CommitLogEntry × AppendIO}
    (hstep : h.step call = some h') :
    h'.log.sequenceNumber = h.log.sequenceNumber + 1 ∧
      ((h'.file = h.file ++ line (h.log.stamp call.1) ∧
        ((h.Succeeds call.2 = true ∧
            h'.acknowledged = h.acknowledged ++ [h.log.stamp call.1] ∧
            h'.glued = if h.AtLineStart then h.glued else h.glued ++ [h.log.stamp call.1]) ∨
          (h.Succeeds call.2 = false ∧ h'.acknowledged = h.acknowledged ∧ h'.glued = h.glued))) ∨
      ∃ part, part <+: (h.log.stamp call.1).marshal ∧ h'.file = h.file ++ part ∧
        h.Succeeds call.2 = false ∧ h'.acknowledged = h.acknowledged ∧ h'.glued = h.glued) := by
  obtain ⟨entry, io⟩ := call
  have hwrite : ∀ bs, (({ h.log with sequenceNumber := h.log.sequenceNumber + 1 } :
      CommitLogService).writeCurrent bs).contents h.log.currentFile = h.file ++ bs := by
    intro bs
    simp only [CommitLogService.contents, CommitLogService.writeCurrent, Map.get?_set, if_true]
    rfl
  cases hclosed : h.log.closed with
  | true =>
    simp only [step, append, hclosed, if_true, Option.some.injEq] at hstep
    subst hstep
    refine ⟨rfl, Or.inr ⟨[], List.nil_prefix, (List.append_nil _).symm, ?_, rfl, rfl⟩⟩
    simp [Succeeds, hclosed]
  | false =>
    cases io with
    | complete =>
      simp only [step, append, hclosed, Bool.false_eq_true, if_false, Option.some.injEq] at hstep
      subst hstep
      refine ⟨rfl, Or.inl ⟨hwrite _, Or.inl ⟨?_, rfl, rfl⟩⟩⟩
      simp [Succeeds, hclosed]
    | writeFails message written =>
      simp only [step, append, hclosed, Bool.false_eq_true, if_false, Option.some.injEq] at hstep
      subst hstep
      have hsucceeds : h.Succeeds (.writeFails message written) = false := by
        simp [Succeeds]
      by_cases hwhole : (h.log.stamp entry).marshal.length < written
      · have htake : (line (h.log.stamp entry)).take written = line (h.log.stamp entry) :=
          List.take_of_length_le (by simp [line]; omega)
        refine ⟨rfl, Or.inl ⟨?_, Or.inr ⟨hsucceeds, rfl, rfl⟩⟩⟩
        exact (hwrite _).trans (by rw [htake])
      · have htake : (line (h.log.stamp entry)).take written =
            (h.log.stamp entry).marshal.take written :=
          List.take_append_of_le_length (by omega)
        refine ⟨rfl, Or.inr ⟨_, List.take_prefix written _, ?_, hsucceeds, rfl, rfl⟩⟩
        rw [← htake]
        exact hwrite _
    | syncFails message =>
      cases hsync : h.log.config.syncWrites with
      | true =>
        simp only [step, append, hclosed, hsync, Bool.false_eq_true, if_false, if_true,
          Option.some.injEq] at hstep
        subst hstep
        refine ⟨rfl, Or.inl ⟨hwrite _, Or.inr ⟨?_, rfl, rfl⟩⟩⟩
        simp [Succeeds, hsync]
      | false =>
        simp only [step, append, hclosed, hsync, Bool.false_eq_true, if_false,
          Option.some.injEq] at hstep
        subst hstep
        refine ⟨rfl, Or.inl ⟨hwrite _, Or.inl ⟨?_, rfl, rfl⟩⟩⟩
        simp [Succeeds, hclosed, hsync]

/-- No call is glued to a torn one exactly if all that succeed begin a line. -/
theorem glued_eq_nil_iff {h h' : SegmentHistory} {calls : List (CommitLogEntry × AppendIO)}
    (hrun : run step h calls = some h') :
    h'.glued = [] ↔ h.glued = [] ∧ AllSteps step StartsLine h calls := by
  induction calls generalizing h with
  | nil =>
    cases hrun
    simp [AllSteps]
  | cons call calls ih =>
    obtain ⟨h₁, hstep, hrun⟩ := run_cons.mp hrun
    rw [ih hrun, AllSteps, hstep]
    have hglued : h₁.glued = [] ↔ h.glued = [] ∧ h.StartsLine call := by
      rcases (step_cases hstep).2 with ⟨-, ⟨hs, -, hg⟩ | ⟨hs, -, hg⟩⟩ | ⟨part, -, -, hs, -, hg⟩
      · rw [hg]
        split
        · next hstart => simp [StartsLine, hstart]
        · next hstart => simp [StartsLine, hs, hstart]
      · simp [hg, StartsLine, hs]
      · simp [hg, StartsLine, hs]
    rw [hglued, and_assoc]

theorem glued_subset {h h' : SegmentHistory} {calls : List (CommitLogEntry × AppendIO)}
    (hrun : run step h calls = some h') (hsub : h.glued ⊆ h.acknowledged) :
    h'.glued ⊆ h'.acknowledged := by
  refine run_invariant (P := fun _ _ => True) (I := fun h => h.glued ⊆ h.acknowledged)
    (fun h call h' hsub _ hstep => ?_) hsub (allSteps_trivial _ _) hrun
  rcases (step_cases hstep).2 with ⟨-, ⟨-, hack, hg⟩ | ⟨-, hack, hg⟩⟩ | ⟨part, -, -, -, hack, hg⟩
  · rw [hack, hg]
    split
    · exact List.subset_append_of_subset_left _ hsub
    · exact List.append_subset.mpr ⟨List.subset_append_of_subset_left _ hsub,
        List.subset_append_right _ _⟩
  · rwa [hack, hg]
  · rwa [hack, hg]

/-- The entry has the number of one of the first `count` calls. -/
def Numbered (first : UInt64) (count : Nat) (e : CommitLogEntry) : Prop :=
  ∃ j, 1 ≤ j ∧ j ≤ count ∧ e.sequenceNumber = first + UInt64.ofNat j

theorem Numbered.mono {first : UInt64} {count : Nat} {e : CommitLogEntry}
    (h : Numbered first count e) : Numbered first (count + 1) e := by
  obtain ⟨j, hj, hle, heq⟩ := h
  exact ⟨j, hj, by omega, heq⟩

/-- The next call has another number. -/
theorem Numbered.ne {first : UInt64} {count : Nat} {e e' : CommitLogEntry}
    (h : Numbered first count e) (he' : e'.sequenceNumber = first + UInt64.ofNat (count + 1))
    (hcount : count + 1 < 2 ^ 64) : e ≠ e' := by
  rintro rfl
  obtain ⟨j, -, hle, heq⟩ := h
  have hofNat := add_left_cancel (heq.symm.trans he')
  have hnat := congrArg UInt64.toNat hofNat
  rw [UInt64.toNat_ofNat', UInt64.toNat_ofNat', Nat.mod_eq_of_lt (by omega),
    Nat.mod_eq_of_lt hcount] at hnat
  omega

/-- The lines that can be read are those of calls that began a line. -/
structure Told (first : UInt64) (count : Nat) (lines : List Bytes) (glued : List CommitLogEntry) :
    Prop where
  readable : ∀ l ∈ lines, ∀ e, readLine l = some e → Numbered first count e ∧ e ∉ glued
  numbered : ∀ e ∈ glued, Numbered first count e

section

variable {first : UInt64} {count : Nat} {lines : List Bytes} {glued : List CommitLogEntry}
  {e : CommitLogEntry}

/-- A line with the entry of the next call. -/
theorem Told.next_line (h : Told first count lines glued)
    (he : e.sequenceNumber = first + UInt64.ofNat (count + 1)) (hcount : count + 1 < 2 ^ 64)
    {lines' : List Bytes}
    (hlines : ∀ l ∈ lines', ∀ e', readLine l = some e' → l ∈ lines ∨ e' = e) :
    Told first (count + 1) lines' glued := by
  refine ⟨fun l hl e' he' => ?_, fun e' he' => (h.numbered e' he').mono⟩
  rcases hlines l hl e' he' with hold | rfl
  · obtain ⟨hnum, hglued⟩ := h.readable l hold e' he'
    exact ⟨hnum.mono, hglued⟩
  · exact ⟨⟨count + 1, by omega, le_rfl, he⟩, fun hmem => (h.numbered e' hmem).ne he hcount rfl⟩

/-- The next call is glued to a torn one. -/
theorem Told.next_glued (h : Told first count lines glued)
    (he : e.sequenceNumber = first + UInt64.ofNat (count + 1)) (hcount : count + 1 < 2 ^ 64)
    {lines' : List Bytes} (hlines : ∀ l ∈ lines', ∀ e', readLine l = some e' → l ∈ lines) :
    Told first (count + 1) lines' (glued ++ [e]) := by
  refine ⟨fun l hl e' he' => ?_, fun e' he' => ?_⟩
  · obtain ⟨hnum, hglued⟩ := h.readable l (hlines l hl e' he') e' he'
    refine ⟨hnum.mono, fun hmem => ?_⟩
    rcases List.mem_append.mp hmem with hmem | hmem
    · exact hglued hmem
    · exact hnum.ne he hcount (List.mem_singleton.mp hmem)
  · rcases List.mem_append.mp he' with hmem | hmem
    · exact (h.numbered e' hmem).mono
    · rw [List.mem_singleton.mp hmem]
      exact ⟨count + 1, by omega, le_rfl, he⟩

end

/-- What holds after `count` calls. -/
def Invariant (first : UInt64) (count : Nat) (h : SegmentHistory) : Prop :=
  h.log.sequenceNumber = first + UInt64.ofNat count ∧
    ∃ lines tail, Layout h.file lines tail ∧
      (∀ e ∈ h.acknowledged, e ∈ h.glued ∨ ∃ l ∈ lines, readLine l = some e) ∧
      (count < 2 ^ 64 → Told first count (lines ++ [tail]) h.glued)

theorem invariant_start {s : CommitLogService} (hempty : s.contents s.currentFile = []) :
    Invariant s.sequenceNumber 0 (start s) := by
  refine ⟨(add_zero _).symm, [], [], ⟨hempty, by simp, Or.inl rfl⟩, by simp [start], fun _ => ?_⟩
  refine ⟨fun l hl e he => ?_, by simp [start]⟩
  obtain rfl : l = [] := by simpa using hl
  have hnone : readLine [] = none := rfl
  rw [hnone] at he
  cases he

theorem invariant_step {first : UInt64} {count : Nat} {h h' : SegmentHistory}
    {call : CommitLogEntry × AppendIO} (hinv : h.Invariant first count)
    (hstep : h.step call = some h') : h'.Invariant first (count + 1) := by
  obtain ⟨hseq, lines, tail, hlayout, hkept, htold⟩ := hinv
  obtain ⟨hseq', hcases⟩ := step_cases hstep
  have hnext : h.log.sequenceNumber + 1 = first + UInt64.ofNat (count + 1) := by
    rw [hseq, UInt64.ofNat_add, add_assoc]
    rfl
  have hstamp : (h.log.stamp call.1).sequenceNumber = first + UInt64.ofNat (count + 1) := hnext
  have hstamped : Stamped (h.log.stamp call.1) := stamped_stamp h.log call.1
  have hne : (h.log.stamp call.1).marshal ≠ [] := by
    obtain ⟨body, hbody⟩ := (h.log.stamp call.1).marshal_eq
    simp [hbody]
  refine ⟨hseq'.trans hnext, ?_⟩
  rcases hcases with ⟨hfile, hcase⟩ | ⟨part, hpart, hfile, -, hack, hglued⟩
  · refine ⟨lines ++ [tail ++ (h.log.stamp call.1).marshal], [],
      hfile ▸ hlayout.write_line (h.log.stamp call.1), ?_, fun hcount => ?_⟩
    · intro e he
      rcases hcase with ⟨-, hack, hglued⟩ | ⟨-, hack, hglued⟩
      · rw [hack, List.mem_append, List.mem_singleton] at he
        rw [hglued]
        rcases he with he | rfl
        · rcases hkept e he with hmem | ⟨l, hl, hread⟩
          · exact Or.inl (by split <;> simp [hmem])
          · exact Or.inr ⟨l, List.mem_append_left _ hl, hread⟩
        · split
          · next hstart =>
            rw [hlayout.atLineStart_iff.mp hstart]
            exact Or.inr ⟨_, List.mem_append_right _ (List.mem_singleton_self _),
              readLine_marshal hstamped⟩
          · exact Or.inl (by simp)
      · rw [hack] at he
        rw [hglued]
        exact (hkept e he).imp_right fun ⟨l, hl, hread⟩ => ⟨l, List.mem_append_left _ hl, hread⟩
    · -- a line that can be read was there before, or it is the new one and began at a line start
      have hlines : ∀ l ∈ lines ++ [tail ++ (h.log.stamp call.1).marshal] ++ [[]], ∀ e',
          readLine l = some e' →
            l ∈ lines ++ [tail] ∨ tail = [] ∧ e' = h.log.stamp call.1 := by
        intro l hl e' hread
        simp only [List.append_assoc, List.mem_append, List.mem_singleton] at hl
        rcases hl with hl | rfl | rfl
        · exact Or.inl (List.mem_append_left _ hl)
        · exact Or.inr ((hlayout.of_readLine hstamped (List.prefix_refl _) hread).resolve_left hne)
        · exact absurd (hread.symm.trans (show readLine [] = none from rfl)) (by simp)
      have hsame : h'.glued = h.glued → Told first (count + 1)
          (lines ++ [tail ++ (h.log.stamp call.1).marshal] ++ [[]]) h'.glued := by
        intro hglued
        rw [hglued]
        exact (htold (by omega)).next_line hstamp hcount fun l hl e' hread =>
          (hlines l hl e' hread).imp_right And.right
      rcases hcase with ⟨-, -, hglued⟩ | ⟨-, -, hglued⟩
      · split at hglued
        · exact hsame hglued
        · next hstart =>
          rw [hglued]
          exact (htold (by omega)).next_glued hstamp hcount fun l hl e' hread =>
            (hlines l hl e' hread).resolve_right fun htail =>
              hstart (hlayout.atLineStart_iff.mpr htail.1)
      · exact hsame hglued
  · refine ⟨lines, tail ++ part, hfile ▸ hlayout.write_part hpart, ?_, fun hcount => ?_⟩
    · rw [hack, hglued]
      exact hkept
    · rw [hglued]
      refine (htold (by omega)).next_line hstamp hcount fun l hl e' hread => ?_
      rcases List.mem_append.mp hl with hl | hl
      · exact Or.inl (List.mem_append_left _ hl)
      · rw [List.mem_singleton.mp hl] at hread
        rcases hlayout.of_readLine hstamped hpart hread with hnil | ⟨-, heq⟩
        · rw [List.mem_singleton.mp hl, hnil, List.append_nil]
          exact Or.inl (by simp)
        · exact Or.inr heq

theorem invariant_run {s : CommitLogService} (hempty : s.contents s.currentFile = [])
    {calls : List (CommitLogEntry × AppendIO)} {h : SegmentHistory}
    (hrun : run step (start s) calls = some h) :
    h.Invariant s.sequenceNumber calls.length := by
  have hinv := run_invariant_history (P := fun _ _ => True)
    (I := fun pre h => h.Invariant s.sequenceNumber pre.length)
    (fun pre h call h' hinv _ hstep => by
      rw [List.length_append, List.length_singleton]
      exact invariant_step hinv hstep)
    calls [] (start s) h (invariant_start hempty) (allSteps_trivial _ _) hrun
  simpa using hinv

end SegmentHistory

open SegmentHistory in
/-- **A torn append damages the entry that follows it.** `Append` is called on an empty segment, and
any write can fail and leave a part of its line. `recoverFromFile` replays the entries that it
restores. They are all the acknowledged ones if every call that succeeds begins a line, and only
then: an entry behind a torn part is lost. The second direction needs that the sequence numbers do
not come twice. -/
theorem acknowledged_restored_iff {s : CommitLogService} (hempty : s.contents s.currentFile = [])
    {calls : List (CommitLogEntry × AppendIO)} {h : SegmentHistory}
    (hrun : run step (start s) calls = some h)
    (hfits : ∀ l ∈ splitLines h.file, l.length < maxTokenSize) :
    (∀ memTable, (recoverFromFile memTable h.file).memTable =
      ((restored h.file).map replayEntry).foldl MemTableService.put memTable) ∧
    (AllSteps step StartsLine (start s) calls → ∀ e ∈ h.acknowledged, e ∈ restored h.file) ∧
    (calls.length < 2 ^ 64 → (∀ e ∈ h.acknowledged, e ∈ restored h.file) →
      AllSteps step StartsLine (start s) calls) := by
  obtain ⟨-, lines, tail, hlayout, hkept, htold⟩ := invariant_run hempty hrun
  have hglued := glued_eq_nil_iff hrun
  refine ⟨fun memTable => memTable_recoverFromFile_eq memTable h.file, fun hsteps e he => ?_,
    fun hcount hall => ?_⟩
  · rcases hkept e he with hmem | ⟨l, hl, hread⟩
    · rw [hglued.mpr ⟨rfl, hsteps⟩] at hmem
      cases hmem
    · exact (hlayout.mem_restored_iff hfits e).mpr ⟨l, List.mem_append_left _ hl, hread⟩
  · refine (hglued.mp ?_).2
    rw [List.eq_nil_iff_forall_not_mem]
    intro e he
    have hack := glued_subset hrun (List.nil_subset _) he
    obtain ⟨l, hl, hread⟩ := (hlayout.mem_restored_iff hfits e).mp (hall e hack)
    exact ((htold hcount).readable l hl e hread).2 he

namespace Sample

/-- A log with one empty segment. -/
def emptySegment : CommitLogService := .new ⟨0, true⟩ ∅ 5 5

/-- The write between the two others fails before it has written anything. -/
def untorn : List (CommitLogEntry × AppendIO) :=
  [(entryOf [1], .complete), (entryOf [2], .writeFails "no space left on device" 0),
    (entryOf [3], .complete)]

/-- The first write fails after five bytes. -/
def torn : List (CommitLogEntry × AppendIO) :=
  [(entryOf [1], .writeFails "no space left on device" 5), (entryOf [2], .complete)]

end Sample

set_option maxRecDepth 10000 in
open Sample SegmentHistory in
theorem acknowledged_restored_untorn :
    ∃ h, run step (start emptySegment) untorn = some h ∧
      h.acknowledged.map CommitLogEntry.value = [some [1], some [3]] ∧
      ∀ e ∈ h.acknowledged, e ∈ restored h.file := by
  have hrun : (run step (start emptySegment) untorn).map (fun h : SegmentHistory =>
      decide (h.acknowledged.map CommitLogEntry.value = [some [1], some [3]] ∧
        ∀ l ∈ splitLines h.file, l.length < maxTokenSize)) = some true := by
    decide +kernel
  have hsteps : AllSteps step StartsLine (start emptySegment) untorn := by decide +kernel
  obtain ⟨h, hh, hdec⟩ := Option.map_eq_some_iff.mp hrun
  obtain ⟨hvalues, hfits⟩ := of_decide_eq_true hdec
  have hempty : emptySegment.contents emptySegment.currentFile = [] := by decide +kernel
  exact ⟨h, hh, hvalues, (acknowledged_restored_iff hempty hh hfits).2.1 hsteps⟩

set_option maxRecDepth 10000 in
open Sample SegmentHistory in
/-- The second call succeeds, and nothing is restored. -/
theorem torn_append_loses_next_entry :
    ∃ h, run step (start emptySegment) torn = some h ∧
      (∀ l ∈ splitLines h.file, l.length < maxTokenSize) ∧
      h.acknowledged.map CommitLogEntry.value = [some [2]] ∧ (restored h.file).length = 0 := by
  have hrun : (run step (start emptySegment) torn).map (fun h : SegmentHistory =>
      decide ((∀ l ∈ splitLines h.file, l.length < maxTokenSize) ∧
        h.acknowledged.map CommitLogEntry.value = [some [2]] ∧ (restored h.file).length = 0)) =
      some true := by
    decide +kernel
  obtain ⟨h, hh, hdec⟩ := Option.map_eq_some_iff.mp hrun
  exact ⟨h, hh, of_decide_eq_true hdec⟩

end PairDB.StorageNode
