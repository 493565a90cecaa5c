import PairDB.StorageNode.MemTable

/-!
# `service.CommitLogService`

The log is a sequence of segments, each a file of lines. A line is the JSON text of an entry, with a
CRC-32 of the same text with checksum 0.

Two limits meet in this file. `Append` writes a line of any length. `recoverFromFile` reads with a
`bufio.Scanner` of 10 MiB: at the first line that does not fit, it gives up the rest of the file.
-/

namespace PairDB.StorageNode

open Infra

/-- `CommitLogConfig`. -/
structure CommitLogConfig where
  segmentSize : Int
  syncWrites : Bool
  deriving DecidableEq, Repr

/-- `CommitLogService`. `files` is the directory of the log; `closed` says that the handle of the
current file is closed. -/
structure CommitLogService where
  config : CommitLogConfig
  files : Map String Bytes
  currentFile : String
  closed : Bool
  segmentID : Int
  sequenceNumber : UInt64

/-- How the file operations of an `Append` go. A failing write leaves a part of the line. -/
inductive AppendIO where
  | complete
  | writeFails (message : String) (written : Nat)
  | syncFails (message : String)
  deriving DecidableEq, Repr

namespace CommitLogService

/-- The name of a segment. -/
def segmentPath (segmentID : Int) : String := "commitlog-" ++ toString segmentID ++ ".log"

/-- The contents of a file. -/
def contents (s : CommitLogService) (path : String) : Bytes := (s.files.get? path).getD []

/-- Write at the end of the current file. -/
def writeCurrent (s : CommitLogService) (bs : Bytes) : CommitLogService :=
  { s with files := s.files.set s.currentFile (s.contents s.currentFile ++ bs) }

/-- `openNewSegment` at `now`. The name comes from the time of the previous call. The old handle is
closed first. -/
def openNewSegment (s : CommitLogService) (now : Int) (opens : Bool) :
    CommitLogService × Except String Unit :=
  let path := segmentPath s.segmentID
  if opens then
    ({ s with files := s.files.set path (s.contents path), currentFile := path, closed := false,
              segmentID := now }, .ok ())
  else ({ s with closed := true }, .error "failed to open commit log file")

/-- `NewCommitLogService` at `now` in a directory with `files`. The second reading of the clock is
the one of `openNewSegment`. -/
def new (config : CommitLogConfig) (files : Map String Bytes) (now later : Int) :
    CommitLogService :=
  (openNewSegment ⟨config, files, "", true, now, 0⟩ later true).1

/-- The entry as `Append` writes it. -/
def stamp (s : CommitLogService) (entry : CommitLogEntry) : CommitLogEntry :=
  let entry := { entry with sequenceNumber := s.sequenceNumber + 1, checksum := 0 }
  { entry with checksum := crc32 entry.marshal }

/-- The line of an entry. -/
def line (entry : CommitLogEntry) : Bytes := entry.marshal ++ [10]

/-- `Append`. The sequence number is used up even if the write fails. -/
def append (s : CommitLogService) (entry : CommitLogEntry) (io : AppendIO) :
    CommitLogService × Except String CommitLogEntry :=
  let entry := s.stamp entry
  let s := { s with sequenceNumber := s.sequenceNumber + 1 }
  if s.closed then (s, .error "failed to write to commit log: file already closed")
  else
    match io with
    | .complete => (s.writeCurrent (line entry), .ok entry)
    | .writeFails message written =>
      (s.writeCurrent ((line entry).take written),
        .error ("failed to write to commit log: " ++ message))
    | .syncFails message =>
      if s.config.syncWrites then
        (s.writeCurrent (line entry), .error ("failed to sync commit log: " ++ message))
      else (s.writeCurrent (line entry), .ok entry)

/-- `checkRotation`. A failure is only logged. -/
def checkRotation (s : CommitLogService) (now : Int) (opens : Bool) : CommitLogService :=
  if s.closed then s
  else if (s.contents s.currentFile).length ≥ s.config.segmentSize then
    (s.openNewSegment now opens).1
  else s

/-- An `Append` without error has written the whole line of the entry that it returns. -/
theorem append_spec {s s' : CommitLogService} {entry entry' : CommitLogEntry} {io : AppendIO}
    (h : s.append entry io = (s', .ok entry')) : entry' = s.stamp entry ∧
      s' = { s with sequenceNumber := s.sequenceNumber + 1 }.writeCurrent (line entry') := by
  unfold append at h
  dsimp only at h
  split at h
  · cases h
  · split at h
    · cases h
      exact ⟨rfl, rfl⟩
    · cases h
    · split at h
      · cases h
      · cases h
        exact ⟨rfl, rfl⟩

/-- What the rotation checker does: nothing to the files, or it opens the next segment. -/
theorem checkRotation_spec (s : CommitLogService) (now : Int) (opens : Bool) :
    ((s.checkRotation now opens).files = s.files ∧
      (s.checkRotation now opens).currentFile = s.currentFile ∧
      (s.checkRotation now opens).segmentID = s.segmentID) ∨
    ((s.checkRotation now opens).files =
        s.files.set (segmentPath s.segmentID) (s.contents (segmentPath s.segmentID)) ∧
      (s.checkRotation now opens).currentFile = segmentPath s.segmentID ∧
      (s.checkRotation now opens).segmentID = now) := by
  unfold checkRotation
  split
  · exact Or.inl ⟨rfl, rfl, rfl⟩
  · split
    · cases opens with
      | false => exact Or.inl ⟨rfl, rfl, rfl⟩
      | true => exact Or.inr ⟨rfl, rfl, rfl⟩
    · exact Or.inl ⟨rfl, rfl, rfl⟩

/-! ## Recovery -/

/-- The size of the scanner's buffer: a line of this length does not fit. -/
def maxTokenSize : Nat := 10 * 1024 * 1024

/-- The lines of a file. What follows the last newline is a line if it is not empty. -/
def splitLines (bs : Bytes) : List Bytes :=
  bs.foldr (fun b lines =>
    if b = 10 then [] :: lines
    else
      match lines with
      | [] => [[b]]
      | l :: ls => (b :: l) :: ls) []

/-- `bufio.ScanLines` drops a carriage return at the end of a line. -/
def dropCR (l : Bytes) : Bytes := if l.getLast? = some 13 then l.dropLast else l

/-- The lines that the scanner returns. -/
def scanned (bs : Bytes) : List Bytes :=
  ((splitLines bs).takeWhile fun l => l.length < maxTokenSize).map dropCR

/-- `scanner.Err()`: some line does not fit into the buffer. -/
def scanFails (bs : Bytes) : Bool := (splitLines bs).any fun l => maxTokenSize ≤ l.length

/-- The entry of a line, unless it is damaged. A checksum of 0 means that there is none. -/
def readLine (l : Bytes) : Option CommitLogEntry :=
  (CommitLogEntry.unmarshal l).bind fun entry =>
    if entry.checksum ≠ 0 ∧ crc32 { entry with checksum := 0 }.marshal ≠ entry.checksum then none
    else some entry

/-- The entry that goes into the memtable. -/
def replayEntry (entry : CommitLogEntry) : MemTableEntry where
  key := buildKey entry.tenantID entry.key
  value := entry.value
  vectorClock := entry.vectorClock
  timestamp := entry.timestamp
  isTombstone := entry.operationType = .delete

/-- The variables of `recoverFromFile`. -/
structure Recovery where
  memTable : MemTableService
  count : Nat
  skipped : Nat
  maxSeqNum : UInt64

/-- One round of the loop of `recoverFromFile`. -/
def recoverLine (r : Recovery) (l : Bytes) : Recovery :=
  if l.length = 0 then r
  else
    match readLine l with
    | none => { r with skipped := r.skipped + 1 }
    | some entry =>
      { memTable := r.memTable.put (replayEntry entry)
        count := r.count + 1
        skipped := r.skipped
        maxSeqNum := if entry.sequenceNumber > r.maxSeqNum then entry.sequenceNumber
          else r.maxSeqNum }

/-- `recoverFromFile`. -/
def recoverFromFile (memTable : MemTableService) (file : Bytes) : Recovery :=
  (scanned file).foldl recoverLine ⟨memTable, 0, 0, 0⟩

/-- The names of the segments in the order in which `Recover` reads them. -/
def segmentNames (s : CommitLogService) : List String := s.files.keys.mergeSort (· ≤ ·)

/-- One round of the loop of `Recover`. The numbers of a file with an error do not count. -/
def recoverSegment (s : CommitLogService) (r : Recovery) (path : String) : Recovery :=
  let file := recoverFromFile r.memTable (s.contents path)
  if scanFails (s.contents path) then { r with memTable := file.memTable }
  else
    { memTable := file.memTable
      count := r.count + file.count
      skipped := r.skipped + file.skipped
      maxSeqNum := if file.maxSeqNum > r.maxSeqNum then file.maxSeqNum else r.maxSeqNum }

/-- `Recover`. -/
def recover (s : CommitLogService) (memTable : MemTableService) :
    CommitLogService × MemTableService :=
  let r := s.segmentNames.foldl s.recoverSegment ⟨memTable, 0, 0, 0⟩
  ({ s with sequenceNumber := r.maxSeqNum }, r.memTable)

end CommitLogService

end PairDB.StorageNode
