import PairDB.Infra.Run
import PairDB.StorageNode.CommitLogReplay

/-!
# The order of the segments

A segment is named with the time at which the one before it was opened, and after a restart with
the time of the start. A name can come twice, within one second, and then the file is opened again.

The process starts in an empty directory, appends, rotates and is restarted. If the clock does not
go back and its readings keep their number of digits, the files in the order of their names are the
lines in the order in which they were appended (`files_in_append_order`): the current file always has
the last name, and the time at which the next one will be named is not earlier.

A rotation closes the current file before it opens the next one. If that fails, the log has no open
file any more, and as the checker asks the closed file for its size, it never rotates again
(`failed_rotation_iff`).
-/

namespace PairDB.StorageNode

open Infra CommitLogService

/-- The log, the last reading of the clock, and the entries that were appended. -/
structure LogHistory where
  log : CommitLogService
  clock : Int
  appended : List CommitLogEntry

/-- What happens to the log. A start reads the clock twice. -/
inductive LogAction where
  | restart (config : CommitLogConfig) (now later : Int)
  | append (entry : CommitLogEntry) (io : AppendIO)
  | checkRotation (now : Int) (opens : Bool)

namespace LogHistory

/-- The process starts in an empty directory. -/
def start (config : CommitLogConfig) (now later : Int) : LogHistory :=
  ⟨CommitLogService.new config ∅ now later, later, []⟩

def step (h : LogHistory) : LogAction → Option LogHistory
  | .restart config now later =>
    some { h with log := CommitLogService.new config h.log.files now later, clock := later }
  | .append entry io =>
    -- an entry whose line cannot be synced is in the file all the same
    some { h with
      log := (h.log.append entry io).1
      appended := h.appended ++ if h.log.closed then [] else [h.log.stamp entry] }
  | .checkRotation now opens =>
    some { h with log := h.log.checkRotation now opens, clock := now }

/-- The clock does not go back and keeps its number of digits, and the lines are written whole. -/
def Regular (h : LogHistory) : LogAction → Prop
  | .restart _ now later => Follows h.clock now ∧ Follows now later
  | .append _ io => ∀ message written, io ≠ .writeFails message written
  | .checkRotation now _ => Follows h.clock now

/-- The files hold the entries in their order, the current file is the last one, and the next name
is not earlier. -/
def Ordered (h : LogHistory) : Prop :=
  ∃ older g, Holds h.log (older ++ [g]) ∧ h.log.currentFile = segmentPath g.segmentID ∧
    Follows g.segmentID h.log.segmentID ∧ Follows h.log.segmentID h.clock ∧
    (older ++ [g]).flatMap Segment.entries = h.appended

theorem ordered_start {config : CommitLogConfig} {now later : Int} (h : Follows now later) :
    (start config now later).Ordered :=
  ⟨[], ⟨now, []⟩, holds_new config now later, rfl, h, ⟨h.1.trans h.2.1, le_rfl, rfl⟩, rfl⟩

/-- An `Append` whose line is written whole. -/
theorem append_of_whole {s : CommitLogService} (entry : CommitLogEntry) {io : AppendIO}
    (hio : ∀ message written, io ≠ .writeFails message written) (hopen : s.closed = false) :
    (s.append entry io).1 =
      { s with sequenceNumber := s.sequenceNumber + 1 }.writeCurrent (line (s.stamp entry)) := by
  cases io with
  | complete => simp [append, hopen]
  | writeFails message written => exact absurd rfl (hio message written)
  | syncFails message =>
    simp only [append, hopen, Bool.false_eq_true, if_false]
    split <;> rfl

theorem ordered_step (h : LogHistory) (action : LogAction) (h' : LogHistory) (ho : h.Ordered)
    (hregular : h.Regular action) (hstep : h.step action = some h') : h'.Ordered := by
  obtain ⟨older, g, hholds, hfile, hnext, hclock, hentries⟩ := ho
  cases action with
  | restart config now later =>
    cases hstep
    obtain ⟨hnow, hlater⟩ := hregular
    have hfollows := (hnext.trans hclock).trans hnow
    have hbefore : Holds ⟨config, h.log.files, "", true, now, 0⟩ (older ++ [g]) :=
      holds_of_files_eq hholds (List.Perm.refl _) fun _ => rfl
    obtain ⟨older', g', hholds', rfl, hsame⟩ := @holds_openSegment _
      (CommitLogService.new config h.log.files now later) _ _ hbefore _ hfollows rfl
    exact ⟨older', g', hholds', rfl, hlater, ⟨hlater.1.trans hlater.2.1, le_rfl, rfl⟩,
      hsame.trans hentries⟩
  | append entry io =>
    cases hstep
    cases hclosed : h.log.closed with
    | true =>
      have hlog : (h.log.append entry io).1 =
          { h.log with sequenceNumber := h.log.sequenceNumber + 1 } := by
        simp [append, hclosed]
      refine ⟨older, g, ?_, ?_, ?_, ?_, ?_⟩
      · rw [hlog]
        exact holds_of_files_eq hholds (List.Perm.refl _) fun _ => rfl
      · rw [hlog]
        exact hfile
      · rw [hlog]
        exact hnext
      · rw [hlog]
        exact hclock
      · simpa [hclosed] using hentries
    | false =>
      have hlog := append_of_whole entry hregular hclosed
      refine ⟨older, { g with entries := g.entries ++ [h.log.stamp entry] }, ?_, ?_, ?_, ?_, ?_⟩
      · refine holds_write hholds (stamped_stamp h.log entry) ?_
        rw [hlog, ← hfile]
        rfl
      · rw [hlog]
        exact hfile
      · rw [hlog]
        exact hnext
      · rw [hlog]
        exact hclock
      · rw [← hentries]
        simp
  | checkRotation now opens =>
    cases hstep
    have hlast : Follows now now := ⟨hregular.1.trans hregular.2.1, le_rfl, rfl⟩
    rcases checkRotation_spec h.log now opens with ⟨hfiles, hcurrent, hid⟩ | ⟨hfiles, hcurrent, hid⟩
    · refine ⟨older, g, ?_, hcurrent.trans hfile, ?_, ?_, hentries⟩
      · exact holds_of_files_eq hholds (by rw [hfiles]) fun path => by
          simp only [CommitLogService.contents, hfiles]
      · rw [hid]
        exact hnext
      · rw [hid]
        exact hclock.trans hregular
    · obtain ⟨older', g', hholds', hg', hsame⟩ := holds_openSegment hholds hnext hfiles
      refine ⟨older', g', hholds', ?_, ?_, ?_, hsame.trans hentries⟩
      · rw [hcurrent, hg']
      · rw [hg', hid]
        exact hclock.trans hregular
      · rw [hid]
        exact hlast

/-- **The files are in the order of the appends.** The process starts, appends, rotates and is
restarted any number of times, with a clock that does not go back and whose readings have equally
many digits. Then the files in the order of `Recover` are the lines of the entries in the order in
which they were appended, and reading them gives these entries. -/
theorem files_in_append_order {config : CommitLogConfig} {now later : Int} {actions : List LogAction}
    {h : LogHistory} (hstart : Follows now later)
    (hregular : AllSteps step Regular (start config now later) actions)
    (hrun : run step (start config now later) actions = some h) :
    h.log.segmentNames.flatMap h.log.contents = h.appended.flatMap line ∧
      h.log.logged = h.appended := by
  obtain ⟨older, g, hholds, -, -, -, hentries⟩ :=
    run_invariant ordered_step (ordered_start hstart) hregular hrun
  refine ⟨?_, hholds.logged.trans hentries⟩
  rw [hholds.segmentNames, List.flatMap_map, ← hentries, List.flatMap_assoc]
  exact List.flatMap_congr fun g hg => hholds.contents g hg

theorem regular_complete (h : LogHistory) (e : CommitLogEntry) :
    h.Regular (.append e .complete) := by
  rintro _ _ ⟨⟩

theorem regular_syncFails (h : LogHistory) (e : CommitLogEntry) (message : String) :
    h.Regular (.append e (.syncFails message)) := by
  rintro _ _ ⟨⟩

theorem not_regular_writeFails (h : LogHistory) (e : CommitLogEntry) (message : String)
    (written : Nat) : ¬ h.Regular (.append e (.writeFails message written)) :=
  fun h => h message written rfl

instance (h : LogHistory) : (action : LogAction) → Decidable (h.Regular action)
  | .restart _ _ _ => inferInstanceAs (Decidable (_ ∧ _))
  | .append e .complete => .isTrue (h.regular_complete e)
  | .append e (.syncFails message) => .isTrue (h.regular_syncFails e message)
  | .append e (.writeFails message written) => .isFalse (h.not_regular_writeFails e message written)
  | .checkRotation _ _ => inferInstanceAs (Decidable (Follows _ _))

end LogHistory

/-! ## A rotation that fails -/

namespace CommitLogService

/-- `Append` succeeds. -/
def Appends (s : CommitLogService) : Prop :=
  ∀ entry, (s.append entry .complete).2 = .ok (s.stamp entry)

/-- A check that can open the next segment rotates a full one. -/
def CanRotate (s : CommitLogService) : Prop :=
  (s.contents s.currentFile).length ≥ s.config.segmentSize → ∀ now,
    (s.checkRotation now true).currentFile = segmentPath s.segmentID ∧
      (s.checkRotation now true).Appends

theorem appends_iff (s : CommitLogService) : s.Appends ↔ s.closed = false := by
  constructor
  · intro h
    by_contra hclosed
    rw [Bool.not_eq_false] at hclosed
    have hfails := h ⟨0, "", "", none, ⟨[]⟩, 0, .write, 0⟩
    simp [append, hclosed] at hfails
  · intro hopen entry
    simp [append, hopen]

theorem canRotate_of_appends {s : CommitLogService} (h : s.Appends) : s.CanRotate := by
  intro hfull now
  rw [appends_iff] at h
  have hrotated : s.checkRotation now true = (s.openNewSegment now true).1 := by
    rw [checkRotation, if_neg (by simp [h]), if_pos hfull]
  rw [hrotated]
  exact ⟨rfl, (appends_iff _).mpr rfl⟩

/-- **When a failed rotation leaves the log in use.** `Append` still succeeds, in the old segment,
and a later check can rotate, exactly if the segment was not full, so that nothing was tried. -/
theorem failed_rotation_iff {s : CommitLogService} (h : s.Appends) (now : Int) :
    ((s.checkRotation now false).Appends ∧
        (s.checkRotation now false).currentFile = s.currentFile ∧
        (s.checkRotation now false).CanRotate) ↔
      (s.contents s.currentFile).length < s.config.segmentSize := by
  have hopen := (appends_iff s).mp h
  by_cases hfull : (s.contents s.currentFile).length ≥ s.config.segmentSize
  · have hfailed : s.checkRotation now false = { s with closed := true } := by
      rw [checkRotation, if_neg (by simp [hopen]), if_pos hfull]
      rfl
    refine ⟨fun hafter => ?_, fun hlt => absurd hlt (not_lt.mpr hfull)⟩
    have hclosed := (appends_iff _).mp hafter.1
    rw [hfailed] at hclosed
    cases hclosed
  · have hsame : s.checkRotation now false = s := by
      rw [checkRotation, if_neg (by simp [hopen]), if_neg hfull]
    rw [hsame]
    exact ⟨fun _ => not_le.mp hfull, fun _ => ⟨h, rfl, canRotate_of_appends h⟩⟩

end CommitLogService

namespace Sample

/-- An entry that is to be logged. -/
def entryOf (value : Bytes) : CommitLogEntry := ⟨0, "t", "k", some value, ⟨[]⟩, 0, .write, 0⟩

/-- The first rotation opens the same file again, the second one a new file, and so does the
restart. -/
def threeFiles : List LogAction :=
  [.append (entryOf [1]) .complete, .checkRotation 6 true, .append (entryOf [2]) .complete,
    .checkRotation 7 true, .append (entryOf [3]) .complete, .restart ⟨0, true⟩ 7 7,
    .append (entryOf [4]) .complete]

/-- A log whose segments are full at once. -/
def fullAtOnce : CommitLogService := .new ⟨0, true⟩ ∅ 5 5

end Sample

theorem failed_rotation_iff_newLog :
    (CommitLogService.new ⟨100, true⟩ ∅ 5 5).Appends ∧
      ((CommitLogService.new ⟨100, true⟩ ∅ 5 5).checkRotation 6 false).CanRotate := by
  have happends : (CommitLogService.new ⟨100, true⟩ ∅ 5 5).Appends := (appends_iff _).mpr rfl
  exact ⟨happends, ((failed_rotation_iff happends 6).mpr (by decide)).2.2⟩

open Sample in
/-- The check fails once, and no `Append` succeeds any more, even after a check that could open the
next segment. -/
theorem failed_rotation_closes_log :
    fullAtOnce.Appends ∧ ¬ (fullAtOnce.checkRotation 6 false).Appends ∧
      ¬ ((fullAtOnce.checkRotation 6 false).checkRotation 7 true).Appends := by
  simp only [appends_iff]
  decide

open Sample in
theorem files_in_append_order_threeFiles :
    ∃ h, run LogHistory.step (.start ⟨0, true⟩ 5 5) threeFiles = some h ∧
      h.log.logged = h.appended ∧
      h.appended.map CommitLogEntry.value = [some [1], some [2], some [3], some [4]] := by
  have hrun : (run LogHistory.step (.start ⟨0, true⟩ 5 5) threeFiles).map (fun h =>
      h.appended.map CommitLogEntry.value) = some [some [1], some [2], some [3], some [4]] := by
    decide +kernel
  have hregular : AllSteps LogHistory.step LogHistory.Regular (.start ⟨0, true⟩ 5 5)
      threeFiles := by
    decide +kernel
  obtain ⟨h, hh, hvalues⟩ := Option.map_eq_some_iff.mp hrun
  exact ⟨h, hh, (LogHistory.files_in_append_order (by decide) hregular hh).2, hvalues⟩

end PairDB.StorageNode
