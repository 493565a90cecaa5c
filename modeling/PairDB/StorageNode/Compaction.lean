import PairDB.Infra.Heap
import PairDB.StorageNode.SSTableService

/-!
# `service.CompactionService`

A job merges the tables of a level into one table of the next level. The merger takes the keys of
each reader in the order in which Go walks the index, reads the entry of one key of each reader
ahead, and keeps these in a heap that is ordered by the key *without* the tenant.

The loop of `mergeSSTables` compares an entry with the one before it only, by the key without the
tenant. A reader whose `Get` fails is not asked again, so the rest of its keys is not merged.

`merge` is generic in the writer: with a list it gives the sequence of entries that the loop hands
over.
-/

namespace PairDB.StorageNode

open Infra

/-! ## Causality -/

/-- `compareVectorClocks`: 1 and -1 for newer and older, and 0 otherwise. The flags only go up, so
the order in which the maps are walked does not matter. -/
def compareVectorClocks (vc1 vc2 : VectorClock) : Int :=
  let map1 := vc1.toMap
  let map2 := vc2.toMap
  let vc1Greater := map1.toPairs.any fun p => p.2 > (map2.get? p.1).getD 0
  let vc2Greater := (map1.toPairs.any fun p => p.2 < (map2.get? p.1).getD 0) ||
    map2.toPairs.any fun p => (map1.get? p.1).isNone && p.2 > 0
  if vc1Greater && !vc2Greater then 1 else if vc2Greater && !vc1Greater then -1 else 0

/-- The first clock counts as newer. -/
def Newer (vc1 vc2 : VectorClock) : Prop := compareVectorClocks vc1 vc2 > 0

instance (vc1 vc2 : VectorClock) : Decidable (Newer vc1 vc2) := inferInstanceAs (Decidable (_ > _))

theorem vc1Greater_iff {a b : VectorClock} :
    (a.toMap.toPairs.any fun p => p.2 > (b.toMap.get? p.1).getD 0) = true ↔
      ∃ n ∈ a.toMap.keys, b.timestamp n < a.timestamp n := by
  refine (a.any_toPairs_iff fun n t => t > (b.toMap.get? n).getD 0).trans ?_
  simp only [decide_eq_true_eq]
  rfl

theorem vc2Greater_iff {a b : VectorClock} :
    ((a.toMap.toPairs.any fun p => p.2 < (b.toMap.get? p.1).getD 0) ||
      b.toMap.toPairs.any fun p => (a.toMap.get? p.1).isNone && p.2 > 0) = true ↔
      ∃ n, a.timestamp n < b.timestamp n := by
  have hboth := a.any_toPairs_iff fun n t => t < (b.toMap.get? n).getD 0
  have honly := b.any_toPairs_iff fun n t => (a.toMap.get? n).isNone && t > 0
  rw [Bool.or_eq_true, hboth, honly]
  simp only [decide_eq_true_eq, Bool.and_eq_true, Option.isNone_iff_eq_none, Map.get?_eq_none_iff]
  exact VectorClock.exists_lt_iff.symm

/-- What `compareVectorClocks` decides by: whether one of the nodes of the first clock is ahead, and
whether any node of the second one is. -/
theorem compareVectorClocks_eq (a b : VectorClock) {greater less : Prop}
    (hgreater : greater ↔ ∃ n ∈ a.toMap.keys, b.timestamp n < a.timestamp n)
    (hless : less ↔ ∃ n, a.timestamp n < b.timestamp n) :
    (compareVectorClocks a b = 1 ↔ greater ∧ ¬ less) ∧
      (compareVectorClocks a b = -1 ↔ less ∧ ¬ greater) ∧
      (compareVectorClocks a b = 0 ↔ (greater ↔ less)) := by
  rw [← vc1Greater_iff] at hgreater
  rw [← vc2Greater_iff] at hless
  unfold compareVectorClocks
  dsimp only
  rw [hgreater, hless]
  cases (a.toMap.toPairs.any fun p => p.2 > (b.toMap.get? p.1).getD 0) <;>
    cases ((a.toMap.toPairs.any fun p => p.2 < (b.toMap.get? p.1).getD 0) ||
      b.toMap.toPairs.any fun p => (a.toMap.get? p.1).isNone && p.2 > 0) <;> decide

theorem newer_iff {a b : VectorClock} : Newer a b ↔
    (∀ n, b.timestamp n ≤ a.timestamp n) ∧ ∃ n ∈ a.toMap.keys, b.timestamp n < a.timestamp n := by
  obtain ⟨hone, hminus, hzero⟩ := compareVectorClocks_eq a b Iff.rfl Iff.rfl
  have hnewer : Newer a b ↔ compareVectorClocks a b = 1 := by
    unfold Newer compareVectorClocks
    dsimp only
    split
    · simp
    · split <;> simp
  rw [hnewer, hone, and_comm]
  simp only [not_exists, not_lt]

theorem not_newer_self (a : VectorClock) : ¬ Newer a a := by
  rw [newer_iff]
  rintro ⟨-, n, -, hlt⟩
  exact lt_irrefl _ hlt

theorem Newer.trans {a b c : VectorClock} (hab : Newer a b) (hbc : Newer b c) : Newer a c := by
  rw [newer_iff] at *
  obtain ⟨hle, n, hn, hlt⟩ := hab
  exact ⟨fun m => (hbc.1 m).trans (hle m), n, hn, (hbc.1 n).trans_lt hlt⟩

/-- The composite key of an entry. -/
def KeyValueEntry.compositeKey (e : KeyValueEntry) : String := buildKey e.tenantID e.key

/-! ## The merger -/

/-- A reader of the merger, and those of its keys that are still to be read. -/
structure Cursor where
  get : Bytes → Except Fault (Option KeyValueEntry)
  keys : List Bytes

/-- `mergeEntry`. -/
structure MergeEntry where
  entry : KeyValueEntry
  readerIdx : Nat

instance : Inhabited MergeEntry := ⟨⟨⟨"", "", none, ⟨[]⟩, 0, false⟩, 0⟩⟩

/-- `kWayMerger`. The heap is ordered by the key of the entry. -/
structure KWayMerger where
  heap : Heap fun m : MergeEntry => m.entry.key
  cursors : List Cursor

namespace KWayMerger

/-- `advance`. After an error, nothing of this reader is in the heap. -/
def advance (m : KWayMerger) (readerIdx : Nat) : Except Fault KWayMerger :=
  match m.cursors[readerIdx]? with
  | none => .error (.panic "index out of range")
  | some cursor =>
    match cursor.keys with
    | [] => .ok m
    | key :: keys =>
      let m := { m with cursors := m.cursors.set readerIdx { cursor with keys } }
      match cursor.get key with
      | .error (.panic reason) => .error (.panic reason)
      | .error (.err _) | .ok none => .ok m
      | .ok (some entry) => .ok { m with heap := m.heap.push ⟨entry, readerIdx⟩ }

/-- Advance one reader after another. -/
def advanceAll : List Nat → KWayMerger → Except Fault KWayMerger
  | [], m => .ok m
  | i :: is, m => (m.advance i).bind (advanceAll is)

/-- `newKWayMerger`. -/
def new (cursors : List Cursor) : Except Fault KWayMerger :=
  advanceAll (List.range cursors.length) ⟨Heap.empty, cursors⟩

/-- `next`; it is `none` if `hasNext` is false. -/
def next (m : KWayMerger) : Except Fault (Option (KeyValueEntry × KWayMerger)) :=
  match m.heap.pop with
  | none => .ok none
  | some (minEntry, heap) =>
    ({ m with heap }.advance minEntry.readerIdx).map fun m => some (minEntry.entry, m)

end KWayMerger

/-! ## The loop of `mergeSSTables` -/

/-- The variables of the loop. -/
structure MergeLoop (ω : Type) where
  lastKey : String
  bestEntry : Option KeyValueEntry
  writer : ω

/-- The entry that `writeEntryIfNotTombstone` hands to the writer. -/
def mergedEntry (entry : KeyValueEntry) : MemTableEntry where
  key := buildKey entry.tenantID entry.key
  value := entry.value
  vectorClock := entry.vectorClock
  timestamp := entry.timestamp
  isTombstone := false

section

variable {ω : Type} (write : ω → MemTableEntry → Except Fault ω)

/-- `writeEntryIfNotTombstone`. -/
def writeEntryIfNotTombstone (writer : ω) (entry : KeyValueEntry) : Except Fault ω :=
  if entry.isTombstone then .ok writer else write writer (mergedEntry entry)

namespace MergeLoop

/-- Write the entry that was kept. -/
def writeBest (s : MergeLoop ω) : Except Fault (MergeLoop ω) :=
  match s.bestEntry with
  | none => .ok s
  | some best => (writeEntryIfNotTombstone write s.writer best).map fun writer => { s with writer }

/-- One round of the loop. As long as there is no entry, `lastKey` is the empty string. -/
def round (s : MergeLoop ω) (entry : KeyValueEntry) : Except Fault (MergeLoop ω) :=
  if entry.key = s.lastKey then
    match s.bestEntry with
    | none => .ok s
    | some best =>
      if compareVectorClocks entry.vectorClock best.vectorClock > 0 then
        .ok { s with bestEntry := some entry }
      else .ok s
  else (s.writeBest write).map fun s => { s with lastKey := entry.key, bestEntry := some entry }

end MergeLoop

/-- The loop. Every round takes a key of some reader, so the number of keys is enough fuel. -/
def mergeLoop : Nat → KWayMerger → MergeLoop ω → Except Fault (MergeLoop ω)
  | 0, _, s => .ok s
  | fuel + 1, m, s =>
    m.next.bind fun
      | none => .ok s
      | some (entry, m) => (s.round write entry).bind (mergeLoop fuel m)

/-- The merge of the readers into a writer. -/
def merge (cursors : List Cursor) (writer : ω) : Except Fault ω :=
  (KWayMerger.new cursors).bind fun m =>
  (mergeLoop write (cursors.map fun c => c.keys.length).sum m ⟨"", none, writer⟩).bind fun s =>
  (s.writeBest write).map MergeLoop.writer

end

/-- The sequence of entries that the loop hands to its writer. -/
def mergedEntries (cursors : List Cursor) : Except Fault (List MemTableEntry) :=
  merge (fun es e => .ok (es ++ [e])) cursors []

/-! ## Jobs -/

/-- `model.CompactionJob`. -/
structure CompactionJob where
  level : Nat
  inputTables : List SSTableMetadata
  outputLevel : Nat
  deriving DecidableEq, Repr

/-- `CompactionConfig`: what the scheduler reads of it. -/
structure CompactionConfig where
  l0Trigger : Int
  l0Size : Int
  l1Size : Int
  l2Size : Int
  levelMultiplier : Int

/-- `getLevelThreshold`. -/
def CompactionConfig.getLevelThreshold (cfg : CompactionConfig) : Nat → Int
  | 0 => cfg.l0Size
  | 1 => cfg.l1Size
  | 2 => cfg.l2Size
  | level =>
    let multiplier := (List.range (level - 2)).foldl
      (fun multiplier _ => int64 (multiplier * cfg.levelMultiplier)) 1
    int64 (cfg.l2Size * multiplier)

namespace SSTableService

/-- `shouldCompactLevel`. -/
def shouldCompactLevel (s : SSTableService) (cfg : CompactionConfig) (level : Nat) : Bool :=
  let totalSize := (s.getTablesForLevel level).foldl (fun total table => int64 (total + table.size)) 0
  totalSize > cfg.getLevelThreshold level

/-- The job for all tables of a level. -/
def levelJob (s : SSTableService) (level : Nat) : CompactionJob :=
  ⟨level, s.getTablesForLevel level, level + 1⟩

/-- `triggerLevelCompaction`: the job that is offered to the queue. -/
def triggerLevelCompaction (s : SSTableService) (level : Nat) : List CompactionJob :=
  if s.getTablesForLevel level = [] then [] else [s.levelJob level]

/-- `checkCompactionNeeded`: the jobs that are offered to the queue. -/
def checkCompactionNeeded (s : SSTableService) (cfg : CompactionConfig) : List CompactionJob :=
  (if cfg.l0Trigger ≤ (s.getTablesForLevel 0).length then [s.levelJob 0] else []) ++
    [1, 2, 3].flatMap fun level =>
      if s.shouldCompactLevel cfg level then s.triggerLevelCompaction level else []

end SSTableService

/-- `SSTableReader.Get` of a key of the index. -/
def SSTableReader.getBytes (r : SSTableReader) (key : Bytes) :
    Except Fault (Option KeyValueEntry) :=
  match r.index.get? key with
  | none => .ok none
  | some entry =>
    (readRecord r.dataFile ((ofUtf8 key).getD "") entry).map fun e => some (toKeyValueEntry e)

theorem SSTableReader.getBytes_utf8 (r : SSTableReader) (key : String) :
    r.getBytes (utf8 key) = r.get key := by
  rw [getBytes, get, ofUtf8_utf8]
  rfl

/-- A reader as the merger sees it. -/
def SSTableReader.cursor (r : SSTableReader) (order : RangeOrder Bytes) : Cursor :=
  ⟨r.getBytes, r.getAllKeys order⟩

/-- What a job reads from its surroundings: the clock when the file and when the table are named, how
the writes go, and the orders in which the indexes are walked. -/
structure CompactionEnv where
  nanos : Int
  createdNanos : Int
  io : TableIO
  orders : Nat → RangeOrder Bytes

namespace SSTableService

/-- Open the input tables. -/
def openReaders (s : SSTableService) : List SSTableMetadata → Except Fault (List SSTableReader)
  | [] => .ok []
  | table :: tables =>
    match SSTableReader.new (s.files table.filePath) with
    | .error (.panic reason) => .error (.panic reason)
    | .error (.err cause) =>
      .error (.err ("failed to open input SSTable " ++ table.sstableID ++ ": " ++ cause))
    | .ok reader => (s.openReaders tables).map fun readers => reader :: readers

/-- The readers of a job as the merger sees them. -/
def cursors (s : SSTableService) (job : CompactionJob) (env : CompactionEnv) :
    Except Fault (List Cursor) :=
  (s.openReaders job.inputTables).map fun readers =>
    readers.mapIdx fun i reader => reader.cursor (env.orders i)

/-- The name of the output of a job. -/
def compactedID (level : Nat) (nanos : Int) : String :=
  "sstable_l" ++ toString level ++ "_" ++ toString nanos

/-- The path of the output of a job. -/
def compactedPath (s : SSTableService) (level : Nat) (nanos : Int) : String :=
  s.dataDir ++ "/" ++ compactedID level nanos ++ ".sst"

/-- The metadata of the output. There is no key range. -/
def compactedMetadata (s : SSTableService) (job : CompactionJob) (env : CompactionEnv)
    (w : SSTableWriter) : SSTableMetadata where
  sstableID := compactedID job.outputLevel env.createdNanos
  level := job.outputLevel
  size := w.size
  keyRange := ⟨"", ""⟩
  filePath := s.compactedPath job.outputLevel env.nanos

/-- `os.Remove` of the files of some tables. -/
def deleteFiles (s : SSTableService) (tables : List SSTableMetadata) : SSTableService :=
  { s with
    files := fun path => if path ∈ tables.map SSTableMetadata.filePath then ⟨none, none, none⟩
      else s.files path }

/-- The output is on the disk and registered, the inputs are neither. -/
def withCompacted (s : SSTableService) (job : CompactionJob) (env : CompactionEnv)
    (w : SSTableWriter) : SSTableService :=
  let path := s.compactedPath job.outputLevel env.nanos
  let written := { s with files := Function.update s.files path w.finalize }
  ((written.addTable job.outputLevel (s.compactedMetadata job env w)).removeTables job.level
    (job.inputTables.map SSTableMetadata.sstableID)).deleteFiles job.inputTables

/-- The files of the output of a job. -/
theorem files_output {s : SSTableService} {job : CompactionJob} {env : CompactionEnv}
    (h : s.compactedPath job.outputLevel env.nanos ∉
      job.inputTables.map SSTableMetadata.filePath) (w : SSTableWriter) :
    (s.withCompacted job env w).files (s.compactedPath job.outputLevel env.nanos) =
      w.finalize := by
  show (if _ ∈ job.inputTables.map SSTableMetadata.filePath then _ else _) = _
  rw [if_neg h]
  exact Function.update_self ..

/-- `mergeSSTables`; `bloom` is what `NewBloomFilter` computes for the output. -/
def mergeSSTables (s : SSTableService) (bloom : BloomParams) (job : CompactionJob)
    (env : CompactionEnv) : SSTableService × Except Fault Unit :=
  if job.inputTables = [] then (s, .error (.err "no input tables to compact"))
  else
    match s.cursors job env with
    | .error e => (s, .error e)
    | .ok cursors =>
      match (SSTableWriter.new bloom).bind (merge SSTableWriter.write cursors) with
      | .error e => (s, .error e)
      | .ok w =>
        match env.io with
        | .fails message left =>
          let path := s.compactedPath job.outputLevel env.nanos
          ({ s with files := Function.update s.files path left }, .error (.err message))
        | .complete => (s.withCompacted job env w, .ok ())

end SSTableService

end PairDB.StorageNode
