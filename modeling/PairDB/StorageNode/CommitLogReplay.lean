import PairDB.Infra.Decimal
import PairDB.StorageNode.CommitLog

/-!
# What `Recover` makes of a log

A log is a list of segments, the oldest first, each with the entries that were appended to it.
`Holds` connects it to the files: each file has the lines of its segment, and the names of the files
ascend with the segments.

From every segment `Recover` reads the entries before the first line that is too long for the
scanner (`readable`). `recover_spec` says that these entries, and no others, go into the memtable in
the order of the log.
-/

namespace PairDB.StorageNode

open Infra

/-- The last entry under a key. -/
def lastOf (key : String) (es : List MemTableEntry) : Option MemTableEntry :=
  (es.filter fun e => e.key = key).getLast?

theorem lastOf_concat (key : String) (es : List MemTableEntry) (e : MemTableEntry) :
    lastOf key (es ++ [e]) = if e.key = key then some e else lastOf key es := by
  by_cases h : e.key = key <;> simp [lastOf, List.filter_append, h]

/-- Entries that are put into a memtable one after another: the last one under a key is found. -/
theorem MemTableService.get_foldl_put (s : MemTableService) (es : List MemTableEntry)
    (key : String) : (es.foldl put s).get key = (lastOf key es).or (s.get key) := by
  induction es using List.reverseRecOn with
  | nil => rfl
  | append_singleton es e ih =>
    rw [List.foldl_append, List.foldl_cons, List.foldl_nil, get_put, lastOf_concat, ih]
    split <;> rfl

namespace CommitLogService

/-- A segment and the entries in it. -/
structure Segment where
  segmentID : Int
  entries : List CommitLogEntry

/-- The checksum of the entry is right. -/
def Stamped (e : CommitLogEntry) : Prop := e.checksum = crc32 { e with checksum := 0 }.marshal

theorem stamped_stamp (s : CommitLogService) (entry : CommitLogEntry) : Stamped (s.stamp entry) :=
  rfl

/-- The line of the entry fits into the scanner's buffer. -/
def Fits (e : CommitLogEntry) : Prop := e.marshal.length < maxTokenSize

instance (e : CommitLogEntry) : Decidable (Fits e) := inferInstanceAs (Decidable (_ < _))

/-- The entries of a segment that the scanner returns. -/
def readable (es : List CommitLogEntry) : List CommitLogEntry := es.takeWhile fun e => Fits e

/-! ## One segment -/

/-- A line is cut at its newline. -/
theorem splitLines_append {l : Bytes} (hl : (10 : UInt8) ∉ l) (bs : Bytes) :
    splitLines (l ++ 10 :: bs) = l :: splitLines bs := by
  induction l with
  | nil => rfl
  | cons b l ih =>
    rw [List.mem_cons, not_or] at hl
    have hb : b ≠ 10 := Ne.symm hl.1
    have ih := ih hl.2
    unfold splitLines at ih ⊢
    rw [List.cons_append, List.foldr_cons, if_neg hb, ih]

theorem splitLines_lines (es : List CommitLogEntry) :
    splitLines (es.flatMap line) = es.map CommitLogEntry.marshal := by
  induction es with
  | nil => rfl
  | cons e es ih =>
    have hnl : (10 : UInt8) ∉ e.marshal := fun h => by
      have := CommitLogEntry.le_of_mem_marshal h
      revert this
      decide
    rw [List.flatMap_cons, line, List.append_assoc, List.singleton_append, splitLines_append hnl,
      ih, List.map_cons]

theorem dropCR_marshal (e : CommitLogEntry) : dropCR e.marshal = e.marshal := by
  refine if_neg fun h => ?_
  have := CommitLogEntry.le_of_mem_marshal (List.mem_of_getLast? h)
  revert this
  decide

theorem scanned_lines (es : List CommitLogEntry) :
    scanned (es.flatMap line) = (readable es).map CommitLogEntry.marshal := by
  rw [scanned, splitLines_lines, List.takeWhile_map, List.map_map]
  exact List.map_congr_left fun e _ => dropCR_marshal e

theorem readLine_marshal {e : CommitLogEntry} (h : Stamped e) : readLine e.marshal = some e := by
  rw [readLine, CommitLogEntry.unmarshal_marshal, Option.bind_some, if_neg]
  rintro ⟨-, hne⟩
  exact hne h.symm

/-- The entries that `recoverFromFile` puts into the memtable. -/
def restored (file : Bytes) : List CommitLogEntry := (scanned file).filterMap readLine

/-- The memtable after `recoverFromFile`: a line that cannot be read is skipped. -/
theorem memTable_recoverFromFile_eq (memTable : MemTableService) (file : Bytes) :
    (recoverFromFile memTable file).memTable =
      ((restored file).map replayEntry).foldl MemTableService.put memTable := by
  have hloop : ∀ (ls : List Bytes) (r : Recovery), (ls.foldl recoverLine r).memTable =
      ((ls.filterMap readLine).map replayEntry).foldl MemTableService.put r.memTable := by
    intro ls
    induction ls with
    | nil => intro r; rfl
    | cons l ls ih =>
      intro r
      rw [List.foldl_cons, ih, List.filterMap_cons, recoverLine]
      split
      · next hnil =>
        have hnone : readLine [] = none := rfl
        rw [List.length_eq_zero_iff.mp hnil, hnone]
      · cases readLine l <;> rfl
  exact hloop _ _

theorem restored_lines {es : List CommitLogEntry} (h : ∀ e ∈ es, Stamped e) :
    restored (es.flatMap line) = readable es := by
  have hread : ∀ e ∈ readable es, (readLine ∘ CommitLogEntry.marshal) e = some e := fun e he =>
    readLine_marshal (h e ((List.takeWhile_sublist _).subset he))
  rw [restored, scanned_lines, List.filterMap_map, List.filterMap_congr hread, List.filterMap_some]

/-- The scanner's lines of a segment are replayed one after another. -/
theorem memTable_recoverFromFile {es : List CommitLogEntry} (h : ∀ e ∈ es, Stamped e)
    (memTable : MemTableService) :
    (recoverFromFile memTable (es.flatMap line)).memTable =
      ((readable es).map replayEntry).foldl MemTableService.put memTable := by
  rw [memTable_recoverFromFile_eq, restored_lines h]

/-! ## The whole log -/

/-- The files of the log are these segments. -/
structure Holds (s : CommitLogService) (log : List Segment) : Prop where
  names : s.files.keys.Perm (log.map fun g => segmentPath g.segmentID)
  contents : ∀ g ∈ log, s.contents (segmentPath g.segmentID) = g.entries.flatMap line
  stamped : ∀ g ∈ log, ∀ e ∈ g.entries, Stamped e
  ordered : log.Pairwise fun g g' => segmentPath g.segmentID < segmentPath g'.segmentID

variable {s : CommitLogService} {log : List Segment}

/-- `Recover` reads the segments from the oldest to the newest. -/
theorem Holds.segmentNames (h : Holds s log) :
    s.segmentNames = log.map fun g => segmentPath g.segmentID := by
  have hle : (log.map fun g => segmentPath g.segmentID).Pairwise (· ≤ ·) :=
    List.pairwise_map.mpr (h.ordered.imp le_of_lt)
  refine List.Perm.eq_of_pairwise (fun a b _ _ => le_antisymm) ?_ hle
    ((List.mergeSort_perm _ _).trans h.names)
  have hsorted := @List.pairwise_mergeSort _ (fun a b : String => decide (a ≤ b))
    (fun a b c hab hbc => by simpa using le_trans (by simpa using hab) (by simpa using hbc))
    (fun a b => by simpa using le_total a b) s.files.keys
  exact hsorted.imp fun hab => by simpa using hab

/-- The memtable after a recovery: the readable entries of all segments, in order. -/
theorem recover_spec (h : Holds s log) (memTable : MemTableService) :
    (s.recover memTable).2 =
      ((log.flatMap fun g => readable g.entries).map replayEntry).foldl MemTableService.put
        memTable := by
  have hsegment : ∀ (r : Recovery), ∀ g ∈ log,
      (s.recoverSegment r (segmentPath g.segmentID)).memTable =
        ((readable g.entries).map replayEntry).foldl MemTableService.put r.memTable := by
    intro r g hg
    rw [← memTable_recoverFromFile (h.stamped g hg), ← h.contents g hg, recoverSegment]
    -- a scanner that fails has replayed what it read before
    split <;> rfl
  have hloop : ∀ (l : List Segment) (r : Recovery), (∀ g ∈ l, g ∈ log) →
      ((l.map fun g => segmentPath g.segmentID).foldl s.recoverSegment r).memTable =
        ((l.flatMap fun g => readable g.entries).map replayEntry).foldl MemTableService.put
          r.memTable := by
    intro l
    induction l with
    | nil => intro r _; rfl
    | cons g l ih =>
      intro r hl
      rw [List.forall_mem_cons] at hl
      rw [List.map_cons, List.foldl_cons, ih _ hl.2, hsegment r g hl.1, List.flatMap_cons,
        List.map_append, List.foldl_append]
  rw [recover, h.segmentNames]
  exact hloop log _ fun g hg => hg

/-- The entries of the log in the order of the files, whatever the scanner makes of them. -/
def logged (s : CommitLogService) : List CommitLogEntry :=
  s.segmentNames.flatMap fun path => (splitLines (s.contents path)).filterMap readLine

theorem Holds.logged (h : Holds s log) : s.logged = log.flatMap Segment.entries := by
  rw [CommitLogService.logged, h.segmentNames, List.flatMap_map]
  refine List.flatMap_congr fun g hg => ?_
  rw [h.contents g hg, splitLines_lines, List.filterMap_map]
  have hread : ∀ e ∈ g.entries, (readLine ∘ CommitLogEntry.marshal) e = some e := fun e he =>
    readLine_marshal (h.stamped g hg e he)
  rw [List.filterMap_congr hread, List.filterMap_some]

/-! ## How the files change -/

section

variable {s s' : CommitLogService} {older : List Segment} {g : Segment}

theorem keys_set_of_mem {files : Map String Bytes} {path : String} (bs : Bytes)
    (h : path ∈ files.keys) : (files.set path bs).keys.Perm files.keys := by
  rw [Map.set, AList.keys_insert]
  exact (List.perm_cons_erase h).symm

/-- The names of earlier segments are other names. -/
theorem segmentPath_ne_of_holds (h : Holds s (older ++ [g])) {g' : Segment} (hg' : g' ∈ older) :
    segmentPath g'.segmentID ≠ segmentPath g.segmentID := by
  have hlt := (List.pairwise_append.mp h.ordered).2.2 g' hg' g (List.mem_singleton_self g)
  exact ne_of_lt hlt

/-- Appending a line to the file of the last segment. -/
theorem holds_write (h : Holds s (older ++ [g])) {e : CommitLogEntry} (he : Stamped e)
    (hfiles : s'.files = s.files.set (segmentPath g.segmentID)
      (s.contents (segmentPath g.segmentID) ++ line e)) :
    Holds s' (older ++ [{ g with entries := g.entries ++ [e] }]) := by
  have hmem : segmentPath g.segmentID ∈ s.files.keys := h.names.mem_iff.mpr (by simp)
  have hcontents : ∀ path, s'.contents path =
      if segmentPath g.segmentID = path then s.contents path ++ line e else s.contents path := by
    intro path
    simp only [CommitLogService.contents, hfiles, Map.get?_set]
    split
    · next heq => rw [heq]; rfl
    · rfl
  constructor
  · rw [hfiles]
    exact (keys_set_of_mem _ hmem).trans (by simpa using h.names)
  · intro g' hg'
    rw [hcontents]
    rcases List.mem_append.mp hg' with hold | hnew
    · rw [if_neg (segmentPath_ne_of_holds h hold).symm]
      exact h.contents g' (List.mem_append_left _ hold)
    · rw [List.mem_singleton.mp hnew]
      have hlast := h.contents g (by simp)
      simp only [if_true, hlast, List.flatMap_append, List.flatMap_singleton]
  · intro g' hg' e' he'
    rcases List.mem_append.mp hg' with hold | hnew
    · exact h.stamped g' (List.mem_append_left _ hold) e' he'
    · rw [List.mem_singleton.mp hnew] at he'
      rcases List.mem_append.mp he' with hbefore | hlast
      · exact h.stamped g (by simp) e' hbefore
      · rw [List.mem_singleton.mp hlast]
        exact he
  · have hold := List.pairwise_append.mp h.ordered
    refine List.pairwise_append.mpr ⟨hold.1, List.pairwise_singleton _ _, ?_⟩
    intro g' hg' g'' hg''
    rw [List.mem_singleton.mp hg'']
    exact hold.2.2 g' hg' g (List.mem_singleton_self g)

theorem holds_of_files_eq {log : List Segment} (h : Holds s log)
    (hkeys : s'.files.keys.Perm s.files.keys)
    (hcontents : ∀ path, s'.contents path = s.contents path) : Holds s' log :=
  ⟨hkeys.trans h.names, fun g hg => (hcontents _).trans (h.contents g hg), h.stamped, h.ordered⟩

/-- Opening a file with a later name. -/
theorem holds_open {log : List Segment} (h : Holds s log) {segmentID : Int}
    (hlater : ∀ g ∈ log, segmentPath g.segmentID < segmentPath segmentID)
    (hfiles : s'.files =
      s.files.set (segmentPath segmentID) (s.contents (segmentPath segmentID))) :
    Holds s' (log ++ [⟨segmentID, []⟩]) := by
  have hnew : segmentPath segmentID ∉ s.files.keys := by
    intro hmem
    obtain ⟨g, hg, heq⟩ := List.mem_map.mp (h.names.mem_iff.mp hmem)
    exact absurd heq (ne_of_lt (hlater g hg))
  have hcontents : ∀ path, s'.contents path = s.contents path := by
    intro path
    simp only [CommitLogService.contents, hfiles, Map.get?_set]
    split
    · next heq => rw [heq]; rfl
    · rfl
  constructor
  · rw [hfiles, Map.set, AList.keys_insert, List.erase_of_not_mem hnew, List.map_append]
    exact (List.Perm.cons _ h.names).trans (List.perm_append_singleton _ _).symm
  · intro g hg
    rw [hcontents]
    rcases List.mem_append.mp hg with hold | hlast
    · exact h.contents g hold
    · rw [List.mem_singleton.mp hlast, CommitLogService.contents,
        (Map.get?_eq_none_iff _ _).mpr hnew]
      rfl
  · intro g hg
    rcases List.mem_append.mp hg with hold | hlast
    · exact h.stamped g hold
    · rw [List.mem_singleton.mp hlast]
      intro e he
      cases he
  · refine List.pairwise_append.mpr ⟨h.ordered, List.pairwise_singleton _ _, ?_⟩
    intro g hg g' hg'
    rw [List.mem_singleton.mp hg']
    exact hlater g hg

/-- A log that starts in an empty directory has one segment. -/
theorem holds_new (config : CommitLogConfig) (now later : Int) :
    Holds (CommitLogService.new config ∅ now later) [⟨now, []⟩] := by
  have hempty : Holds ⟨config, ∅, "", true, now, 0⟩ [] :=
    ⟨List.Perm.refl _, by simp, by simp, List.Pairwise.nil⟩
  exact holds_open hempty (by simp) rfl

/-- An `Append` without error adds its entry to the last segment. -/
theorem holds_append (h : Holds s (older ++ [g])) (hfile : s.currentFile = segmentPath g.segmentID)
    {entry entry' : CommitLogEntry} {io : AppendIO} (happend : s.append entry io = (s', .ok entry')) :
    Holds s' (older ++ [{ g with entries := g.entries ++ [entry'] }]) ∧
      s'.currentFile = segmentPath g.segmentID ∧ s'.segmentID = s.segmentID := by
  obtain ⟨hentry, hs'⟩ := append_spec happend
  have hstamped : Stamped entry' := hentry ▸ stamped_stamp s entry
  refine ⟨holds_write h hstamped ?_, ?_, ?_⟩
  · rw [hs', ← hfile]
    rfl
  · rw [hs', ← hfile]
    rfl
  · rw [hs']
    rfl

end

/-! ## The order of the segments -/

/-- The two segment numbers have equally many digits, and the second is not smaller. -/
def Follows (a b : Int) : Prop :=
  0 ≤ a ∧ a ≤ b ∧ (toString a).length = (toString b).length

instance (a b : Int) : Decidable (Follows a b) := inferInstanceAs (Decidable (_ ∧ _))

theorem Follows.trans {a b c : Int} (hab : Follows a b) (hbc : Follows b c) : Follows a c :=
  ⟨hab.1, hab.2.1.trans hbc.2.1, hab.2.2.trans hbc.2.2⟩

/-- The name of the later segment comes later in the order of strings. -/
theorem segmentPath_lt {a b : Int} (h : Follows a b) (hne : a ≠ b) :
    segmentPath a < segmentPath b := by
  obtain ⟨m, rfl⟩ := Int.eq_ofNat_of_zero_le h.1
  obtain ⟨n, rfl⟩ := Int.eq_ofNat_of_zero_le (h.1.trans h.2.1)
  have hlen : (toString m).length = (toString n).length := h.2.2
  have hmn : m < n := by
    have := h.2.1
    omega
  have htext := String.lt_iff_toList_lt.mp (toString_lt_toString hlen hmn)
  have hcut : (toString m).toList.length = (toString n).toList.length := by
    rw [String.length_toList, String.length_toList, hlen]
  show "commitlog-" ++ toString m ++ ".log" < "commitlog-" ++ toString n ++ ".log"
  rw [String.lt_iff_toList_lt]
  simp only [String.toList_append, List.append_assoc]
  exact List.append_left_lt (append_right_lt _ hcut htext)

/-- Opening a file that was there already changes nothing. -/
theorem holds_reopen {s s' : CommitLogService} {log : List Segment} (h : Holds s log) {path : String}
    (hmem : path ∈ s.files.keys) (hfiles : s'.files = s.files.set path (s.contents path)) :
    Holds s' log := by
  refine holds_of_files_eq h ?_ fun path' => ?_
  · rw [hfiles]
    exact keys_set_of_mem _ hmem
  · simp only [CommitLogService.contents, hfiles, Map.get?_set]
    split
    · next heq => rw [heq]; rfl
    · rfl

/-- Opening the file of a time that is not earlier: the last segment goes on, or a new one begins.
The entries stay in their order. -/
theorem holds_openSegment {s s' : CommitLogService} {older : List Segment} {g : Segment}
    (h : Holds s (older ++ [g])) {segmentID : Int} (hnext : Follows g.segmentID segmentID)
    (hfiles : s'.files =
      s.files.set (segmentPath segmentID) (s.contents (segmentPath segmentID))) :
    ∃ older' g', Holds s' (older' ++ [g']) ∧ g'.segmentID = segmentID ∧
      (older' ++ [g']).flatMap Segment.entries = (older ++ [g]).flatMap Segment.entries := by
  by_cases hsame : g.segmentID = segmentID
  · subst hsame
    exact ⟨older, g, holds_reopen h (h.names.mem_iff.mpr (by simp)) hfiles, rfl, rfl⟩
  · have hlt := segmentPath_lt hnext hsame
    refine ⟨older ++ [g], ⟨segmentID, []⟩, holds_open h (fun g' hg' => ?_) hfiles, rfl, by simp⟩
    rcases List.mem_append.mp hg' with hold | hlast
    · exact ((List.pairwise_append.mp h.ordered).2.2 g' hold g (by simp)).trans hlt
    · rw [List.mem_singleton.mp hlast]
      exact hlt

end CommitLogService

end PairDB.StorageNode
