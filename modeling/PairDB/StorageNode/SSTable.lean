import PairDB.StorageNode.BloomFilter
import PairDB.StorageNode.Entry

/-!
# `sstable.SSTableWriter` and `sstable.SSTableReader`

A table is three files. The data file is a sequence of records (size, CRC-32, JSON text), the index
file says where the record of a key starts, and the third file is the Bloom filter.

An index entry whose checksum is 0 stands for a file of an older version, where a record has no
checksum field. The writer does write the field always, so a record whose CRC-32 happens to be 0 is
misread.
-/

namespace PairDB.StorageNode

open Infra

/-- `IndexEntry`. The keys of an index are bytes: a damaged file can hold any. -/
structure IndexEntry where
  key : Bytes
  offset : Int
  size : Int
  checksum : UInt32
  deriving DecidableEq, Repr

/-- The files of a table; a file can be missing. -/
structure TableFiles where
  data : Option Bytes
  index : Option Bytes
  bloom : Option Bytes
  deriving DecidableEq, Repr

/-! ## The writer -/

/-- `SSTableWriter`. -/
structure SSTableWriter where
  dataFile : Bytes
  offset : Int
  index : List IndexEntry
  bloomFilter : BloomFilter

namespace SSTableWriter

/-- `NewSSTableWriter`. -/
def new (params : BloomParams) : Except Fault SSTableWriter :=
  (BloomFilter.new params).map fun bloomFilter =>
    { dataFile := [], offset := 0, index := [], bloomFilter }

/-- A record of the data file. -/
def record (entry : MemTableEntry) : Bytes :=
  intToLE 4 (int32 entry.marshal.length) ++
    (toLE 4 (crc32 entry.marshal).toNat ++ entry.marshal)

/-- The index entry of a record at `offset`. -/
def indexEntry (offset : Int) (entry : MemTableEntry) : IndexEntry where
  key := utf8 entry.key
  offset := offset
  size := int32 entry.marshal.length
  checksum := crc32 entry.marshal

/-- `SSTableWriter.Write`. -/
def write (w : SSTableWriter) (entry : MemTableEntry) : Except Fault SSTableWriter :=
  (w.bloomFilter.add entry.key).map fun bloomFilter =>
    { dataFile := w.dataFile ++ record entry
      offset := int64 (w.offset + (4 + 4 + entry.marshal.length))
      index := w.index ++ [indexEntry w.offset entry]
      bloomFilter }

/-- `writeIndexEntry`. -/
def writeIndexEntry (entry : IndexEntry) : Bytes :=
  intToLE 4 (int32 entry.key.length) ++
    (entry.key ++ (intToLE 8 entry.offset ++ (intToLE 4 entry.size ++ toLE 4 entry.checksum.toNat)))

/-- `Finalize`: the contents of the three files. -/
def finalize (w : SSTableWriter) : TableFiles where
  data := some w.dataFile
  index := some (w.index.flatMap writeIndexEntry)
  bloom := some w.bloomFilter.writeTo

/-- `Size`. -/
def size (w : SSTableWriter) : Int := w.offset

/-- Write one entry after another. -/
def writeAll (w : SSTableWriter) : List MemTableEntry → Except Fault SSTableWriter
  | [] => .ok w
  | entry :: entries => (w.write entry).bind fun w' => w'.writeAll entries

end SSTableWriter

/-! ## The reader -/

/-- `SSTableReader`. -/
structure SSTableReader where
  dataFile : Bytes
  index : Map Bytes IndexEntry

namespace SSTableReader

/-- `fmt.Errorf("...: %w", err)` around a read error. -/
def wrapRead {α : Type} (what : String) : Except ReadError α → Except Fault α
  | .ok a => .ok a
  | .error e => .error (.err (what ++ readErrorText e))

/-- `make([]byte, n)`. -/
def makeSlice (n : Int) : Except Fault Nat :=
  if n < 0 ∨ n > maxAlloc then .error (.panic "makeslice: len out of range") else .ok n.toNat

/-- The checksum at the end of an index entry; older files end before it. -/
def readIndexChecksum (bs : Bytes) : Except Fault (UInt32 × Bytes) :=
  match readUint 4 bs with
  | .ok (checksum, rest) => .ok (UInt32.ofNat checksum, rest)
  | .error .eof => .ok (0, [])
  | .error .unexpectedEOF => .error (.err "failed to load index: unexpected EOF")

/-- What follows the key length of an index entry. -/
def readIndexEntry (keyLen : Int) (bs : Bytes) : Except Fault (IndexEntry × Bytes) :=
  (makeSlice keyLen).bind fun n =>
  (wrapRead "failed to load index: " (readFull n bs)).bind fun (key, bs) =>
  (wrapRead "failed to load index: " (readInt 8 bs)).bind fun (offset, bs) =>
  (wrapRead "failed to load index: " (readInt 4 bs)).bind fun (size, bs) =>
  (readIndexChecksum bs).bind fun (checksum, bs) =>
    .ok ({ key, offset, size, checksum }, bs)

/-- `loadIndex`. Every round takes at least the four bytes of the key length, so the length of the
file is enough fuel. -/
def loadIndex : Nat → Bytes → Map Bytes IndexEntry → Except Fault (Map Bytes IndexEntry)
  | 0, _, index => .ok index
  | fuel + 1, bs, index =>
    match readInt 4 bs with
    | .error .eof => .ok index
    | .error .unexpectedEOF => .error (.err "failed to load index: unexpected EOF")
    | .ok (keyLen, bs) =>
      (readIndexEntry keyLen bs).bind fun (entry, bs) => loadIndex fuel bs (index.set entry.key entry)

/-- `NewSSTableReader`. -/
def new (files : TableFiles) : Except Fault SSTableReader :=
  match files.data with
  | none => .error (.err "failed to open data file: no such file")
  | some dataFile =>
    match files.index with
    | none => .error (.err "failed to open index file: no such file")
    | some indexFile =>
      (loadIndex (indexFile.length + 1) indexFile ∅).map fun index => { dataFile, index }

/-- The checksum field of a record, which is only there if the index has a checksum. -/
def readChecksum (entry : IndexEntry) (bs : Bytes) : Except Fault (UInt32 × Bytes) :=
  if entry.checksum ≠ 0 then
    (wrapRead "failed to read checksum: " (readUint 4 bs)).map fun (c, bs) => (UInt32.ofNat c, bs)
  else .ok (0, bs)

/-- The conversion at the end of `SSTableReader.Get`. -/
def toKeyValueEntry (entry : MemTableEntry) : KeyValueEntry where
  tenantID := (splitCompositeKey entry.key).1
  key := (splitCompositeKey entry.key).2
  value := entry.value
  vectorClock := entry.vectorClock
  timestamp := entry.timestamp
  isTombstone := entry.isTombstone

/-- The record of `key` that an index entry points at. -/
def readRecord (dataFile : Bytes) (key : String) (entry : IndexEntry) :
    Except Fault MemTableEntry :=
  if entry.offset < 0 then .error (.err "failed to seek to offset: invalid argument")
  else
    (wrapRead "failed to read entry size: " (readInt 4 (dataFile.drop entry.offset.toNat))).bind
      fun (entrySize, bs) =>
    (readChecksum entry bs).bind fun (checksum, bs) =>
    (makeSlice entrySize).bind fun n =>
    (wrapRead "failed to read entry data: " (readFull n bs)).bind fun (data, _) =>
    if entry.checksum ≠ 0 ∧ crc32 data ≠ checksum then
      .error (.err ("checksum validation failed for key " ++ key ++ ": expected " ++
        toString checksum.toNat ++ ", got " ++ toString (crc32 data).toNat))
    else
      match MemTableEntry.unmarshal data with
      | none => .error (.err "failed to unmarshal entry")
      | some memEntry => .ok memEntry

/-- `SSTableReader.Get`. -/
def get (r : SSTableReader) (key : String) : Except Fault (Option KeyValueEntry) :=
  match r.index.get? (utf8 key) with
  | none => .ok none
  | some entry =>
    (readRecord r.dataFile key entry).map fun memEntry => some (toKeyValueEntry memEntry)

/-- `GetAllKeys`: in the order in which Go walks the map. -/
def getAllKeys (r : SSTableReader) (order : RangeOrder Bytes) : List Bytes :=
  order.visit r.index.keys

end SSTableReader

end PairDB.StorageNode
