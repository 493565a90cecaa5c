import PairDB.StorageNode.Compaction

/-!
# `ScanKeysInRange`

The scans of the memtables and of the SSTables for the keys whose hash is in a range. A bulk transfer
sends what they return.

The scan of the memtables appends what the current memtable has and then what the one that is being
flushed has. The scan of the SSTables keeps one result for a composite key: `results` has the entries
and `seenKeys` their timestamps, and a newer version takes the place of an older one. `hashFunc` is
a parameter, as in the source.
-/

namespace PairDB.StorageNode

open Infra

/-- The test `inRange`, which the source writes out in each scan. -/
def inRange (startHash endHash keyHash : UInt64) : Bool :=
  if endHash > startHash then
    -- Normal range: [startHash, endHash)
    keyHash ≥ startHash && keyHash < endHash
  else
    -- Wrap-around range: [startHash, MAX] or [0, endHash)
    keyHash ≥ startHash || keyHash < endHash

namespace MemTable

/-- The loop of `MemTableService.ScanKeysInRange` over one memtable. -/
def scan (mt : MemTable) (startHash endHash : UInt64) (hashFunc : String → UInt64) :
    List MemTableEntry :=
  mt.entries.filter fun entry => inRange startHash endHash (hashFunc entry.key)

end MemTable

/-- `MemTableService.ScanKeysInRange`. -/
def MemTableService.scanKeysInRange (s : MemTableService) (startHash endHash : UInt64)
    (hashFunc : String → UInt64) : List MemTableEntry :=
  s.memTable.scan startHash endHash hashFunc ++
    match s.immutableMT with
    | some immutable => immutable.scan startHash endHash hashFunc
    | none => []

/-- The variables of `SSTableService.ScanKeysInRange`. -/
structure RangeScan where
  results : List KeyValueEntry
  seenKeys : Map String Int

namespace RangeScan

/-- `results` and `seenKeys` before the loops. -/
def empty : RangeScan := ⟨[], ∅⟩

/-- A newer version takes the place of the result under its key. -/
def replace (scan : RangeScan) (entry : KeyValueEntry) : RangeScan :=
  match scan.results.findIdx? fun e => e.compositeKey = entry.compositeKey with
  | none => scan
  | some i =>
    ⟨scan.results.set i entry, scan.seenKeys.set entry.compositeKey entry.timestamp⟩

/-- What the scan does with an entry that was read. -/
def add (scan : RangeScan) (entry : KeyValueEntry) : RangeScan :=
  match scan.seenKeys.get? entry.compositeKey with
  | some existingTS => if entry.timestamp > existingTS then scan.replace entry else scan
  | none => ⟨scan.results ++ [entry], scan.seenKeys.set entry.compositeKey entry.timestamp⟩

/-- The loop over the keys of one reader. A key that cannot be read is passed over, but a panic ends
the scan. -/
def scanKeys (startHash endHash : UInt64) (hashFunc : Bytes → UInt64) (reader : SSTableReader) :
    List Bytes → RangeScan → Except Fault RangeScan
  | [], scan => .ok scan
  | key :: keys, scan =>
    if inRange startHash endHash (hashFunc key) then
      match reader.getBytes key with
      | .error (.panic reason) => .error (.panic reason)
      | .ok (some entry) => scanKeys startHash endHash hashFunc reader keys (scan.add entry)
      | _ => scanKeys startHash endHash hashFunc reader keys scan
    else scanKeys startHash endHash hashFunc reader keys scan

/-- The loop over the tables, from number `i` on. A table that cannot be opened is passed over.
`orders` has the order in which the index of each table is walked. -/
def scanTables (files : String → TableFiles) (orders : Nat → RangeOrder Bytes)
    (startHash endHash : UInt64) (hashFunc : Bytes → UInt64) :
    Nat → List SSTableMetadata → RangeScan → Except Fault RangeScan
  | _, [], scan => .ok scan
  | i, table :: tables, scan =>
    match SSTableReader.new (files table.filePath) with
    | .error (.panic reason) => .error (.panic reason)
    | .error (.err _) => scanTables files orders startHash endHash hashFunc (i + 1) tables scan
    | .ok reader =>
      (scanKeys startHash endHash hashFunc reader (reader.getAllKeys (orders i)) scan).bind fun scan =>
        scanTables files orders startHash endHash hashFunc (i + 1) tables scan

end RangeScan

/-- `SSTableService.ScanKeysInRange`, over the levels from L0 to L4. -/
def SSTableService.scanKeysInRange (s : SSTableService) (orders : Nat → RangeOrder Bytes)
    (startHash endHash : UInt64) (hashFunc : Bytes → UInt64) : Except Fault (List KeyValueEntry) :=
  (RangeScan.scanTables s.files orders startHash endHash hashFunc 0 s.tables RangeScan.empty).map
    RangeScan.results

end PairDB.StorageNode
