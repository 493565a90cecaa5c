import PairDB.Infra.JsonDecode
import PairDB.Infra.Crc32
import PairDB.Model.VectorClock

/-!
# Entries of the storage node

The records of `internal/model` that go into the memtable, the commit log and the SSTables, with
the JSON text that `encoding/json` gives them.

A byte slice of Go is `Option Bytes`: nil and empty are told apart, as the JSON text does.
-/

namespace PairDB.StorageNode

open Infra

/-! ## The records -/

/-- `model.MemTableEntry`. The key is the composite key `tenant:key`. -/
structure MemTableEntry where
  key : String
  value : Option Bytes
  vectorClock : VectorClock
  timestamp : Int
  isTombstone : Bool
  deriving DecidableEq, Repr

/-- `model.KeyValueEntry`. -/
structure KeyValueEntry where
  tenantID : String
  key : String
  value : Option Bytes
  vectorClock : VectorClock
  timestamp : Int
  isTombstone : Bool
  deriving DecidableEq, Repr

/-- `model.OperationType`. -/
inductive OperationType where
  | write
  | repair
  | delete
  deriving DecidableEq, Repr

/-- `model.CommitLogEntry`. -/
structure CommitLogEntry where
  sequenceNumber : UInt64
  tenantID : String
  key : String
  value : Option Bytes
  vectorClock : VectorClock
  timestamp : Int
  operationType : OperationType
  checksum : UInt32
  deriving DecidableEq, Repr

/-- `len(value)`; nil has length 0. -/
def valueLen (value : Option Bytes) : Nat := (value.getD []).length

/-! ## Composite keys -/

/-- `buildKey`. -/
def buildKey (tenantID key : String) : String := tenantID ++ ":" ++ key

/-- `splitCompositeKey`: at the first colon, and without a tenant if there is none. -/
def splitCompositeKey (compositeKey : String) : String × String :=
  let cs := compositeKey.toList
  let tenant := cs.takeWhile (· ≠ ':')
  match cs.dropWhile (· ≠ ':') with
  | [] => ("", compositeKey)
  | _ :: key => (String.ofList tenant, String.ofList key)

/-- A composite key is split into its parts again if the tenant has no colon. -/
theorem splitCompositeKey_buildKey {tenantID : String} (h : ':' ∉ tenantID.toList) (key : String) :
    splitCompositeKey (buildKey tenantID key) = (tenantID, key) := by
  have hlist : (buildKey tenantID key).toList = tenantID.toList ++ ':' :: key.toList := by
    simp [buildKey, String.toList_append]
  have hne : ∀ c ∈ tenantID.toList, decide (c ≠ ':') = true := by
    intro c hc
    rw [decide_eq_true_eq]
    rintro rfl
    exact h hc
  have htake : (tenantID.toList ++ ':' :: key.toList).takeWhile (· ≠ ':') = tenantID.toList := by
    rw [List.takeWhile_append_of_pos hne]
    simp
  have hdrop : (tenantID.toList ++ ':' :: key.toList).dropWhile (· ≠ ':') = ':' :: key.toList := by
    rw [List.dropWhile_append_of_pos hne]
    simp
  simp only [splitCompositeKey, hlist, htake, hdrop, String.ofList_toList]

/-- The tenant of a composite key has no colon. -/
theorem not_mem_colon_split (compositeKey : String) :
    ':' ∉ (splitCompositeKey compositeKey).1.toList := by
  unfold splitCompositeKey
  dsimp only
  split
  · simp
  · rw [String.toList_ofList]
    intro hmem
    have := List.mem_takeWhile_imp hmem
    simp at this

/-- A composite key is built from its parts again if it has a colon. -/
theorem buildKey_splitCompositeKey {compositeKey : String} (h : ':' ∈ compositeKey.toList) :
    buildKey (splitCompositeKey compositeKey).1 (splitCompositeKey compositeKey).2 =
      compositeKey := by
  have happend := List.takeWhile_append_dropWhile (p := (· ≠ ':')) (l := compositeKey.toList)
  rw [splitCompositeKey]
  split
  · next hdrop =>
    -- a colon is left over
    rw [List.dropWhile_eq_nil_iff] at hdrop
    have hcolon := hdrop ':' h
    simp at hcolon
  · next c key hdrop =>
    have hc : c = ':' := by
      have hnot := List.head?_dropWhile_not (· ≠ ':') compositeKey.toList
      rw [hdrop] at hnot
      simpa using hnot
    rw [hdrop, hc] at happend
    rw [← String.toList_inj]
    simpa [buildKey] using happend

/-- A composite key has one tenant without a colon. -/
theorem buildKey_inj {t₁ t₂ k₁ k₂ : String} (h₁ : ':' ∉ t₁.toList) (h₂ : ':' ∉ t₂.toList)
    (h : buildKey t₁ k₁ = buildKey t₂ k₂) : t₁ = t₂ ∧ k₁ = k₂ := by
  have hsplit := congrArg splitCompositeKey h
  rw [splitCompositeKey_buildKey h₁, splitCompositeKey_buildKey h₂, Prod.mk.injEq] at hsplit
  exact hsplit

/-! ## JSON -/

namespace VectorClockJson

open Json

/-- The fields of a clock entry. -/
def entryFields (e : VectorClockEntry) : List (String × Json) :=
  [("CoordinatorNodeID", .str e.coordinatorNodeID), ("LogicalTimestamp", .num e.logicalTimestamp)]

def entryOfFields (fields : List (String × Json)) : Option VectorClockEntry :=
  (decodeString (field "CoordinatorNodeID" fields)).bind fun coordinatorNodeID =>
    (decodeInt (field "LogicalTimestamp" fields)).bind fun logicalTimestamp =>
      some ⟨coordinatorNodeID, logicalTimestamp⟩

def fields (vc : VectorClock) : List (String × Json) :=
  [("Entries", .arr (vc.entries.map fun e => .obj (entryFields e)))]

def ofFields (fs : List (String × Json)) : Option VectorClock :=
  (decodeList entryOfFields (field "Entries" fs)).map VectorClock.mk

theorem entryOfFields_entryFields (e : VectorClockEntry) :
    entryOfFields (entryFields e) = some e := by
  simp +decide [entryOfFields, entryFields, field]

theorem ofFields_fields (vc : VectorClock) : ofFields (fields vc) = some vc := by
  simp +decide [ofFields, fields, field, decodeList_arr entryOfFields_entryFields]

end VectorClockJson

namespace MemTableEntry

open Json

/-- The fields in the order in which Go writes them. -/
def fields (e : MemTableEntry) : List (String × Json) :=
  [("Key", .str e.key), ("Value", encodeBytes e.value),
    ("VectorClock", .obj (VectorClockJson.fields e.vectorClock)),
    ("Timestamp", .num e.timestamp), ("IsTombstone", .bool e.isTombstone)]

def ofFields (fs : List (String × Json)) : Option MemTableEntry :=
  (decodeString (field "Key" fs)).bind fun key =>
  (decodeBytes (field "Value" fs)).bind fun value =>
  (decodeStruct VectorClockJson.ofFields (field "VectorClock" fs)).bind fun vectorClock =>
  (decodeInt (field "Timestamp" fs)).bind fun timestamp =>
  (decodeBool (field "IsTombstone" fs)).bind fun isTombstone =>
    some { key, value, vectorClock, timestamp, isTombstone }

/-- `json.Marshal`. -/
def marshal (e : MemTableEntry) : Bytes := (Json.obj e.fields).bytes

/-- `json.Unmarshal`. -/
def unmarshal (bs : Bytes) : Option MemTableEntry :=
  (Json.ofBytes bs).bind fun v => decodeStruct ofFields (some v)

theorem ofFields_fields (e : MemTableEntry) : ofFields e.fields = some e := by
  simp +decide [ofFields, fields, field, VectorClockJson.ofFields_fields]

@[simp] theorem unmarshal_marshal (e : MemTableEntry) : unmarshal e.marshal = some e := by
  rw [unmarshal, marshal, Json.ofBytes_bytes, Option.bind_some, decodeStruct_obj, ofFields_fields]

end MemTableEntry

namespace OperationType

/-- The text of an operation type. -/
def text : OperationType → String
  | .write => "write"
  | .repair => "repair"
  | .delete => "delete"

def ofText (s : String) : Option OperationType :=
  if s = "write" then some .write
  else if s = "repair" then some .repair
  else if s = "delete" then some .delete
  else none

@[simp] theorem ofText_text (op : OperationType) : ofText op.text = some op := by
  cases op <;> decide

end OperationType

namespace CommitLogEntry

open Json

/-- The fields in the order in which Go writes them. -/
def fields (e : CommitLogEntry) : List (String × Json) :=
  [("SequenceNumber", .num e.sequenceNumber.toNat), ("TenantID", .str e.tenantID),
    ("Key", .str e.key), ("Value", encodeBytes e.value),
    ("VectorClock", .obj (VectorClockJson.fields e.vectorClock)),
    ("Timestamp", .num e.timestamp), ("OperationType", .str e.operationType.text),
    ("Checksum", .num e.checksum.toNat)]

/-- A number that has to fit into `w` bits. -/
def decodeUint (w : Nat) (v : Option Json) : Option Nat :=
  (decodeInt v).bind fun i => if 0 ≤ i ∧ i < 2 ^ w then some i.toNat else none

def ofFields (fs : List (String × Json)) : Option CommitLogEntry :=
  (decodeUint 64 (field "SequenceNumber" fs)).bind fun sequenceNumber =>
  (decodeString (field "TenantID" fs)).bind fun tenantID =>
  (decodeString (field "Key" fs)).bind fun key =>
  (decodeBytes (field "Value" fs)).bind fun value =>
  (decodeStruct VectorClockJson.ofFields (field "VectorClock" fs)).bind fun vectorClock =>
  (decodeInt (field "Timestamp" fs)).bind fun timestamp =>
  ((decodeString (field "OperationType" fs)).bind OperationType.ofText).bind fun operationType =>
  (decodeUint 32 (field "Checksum" fs)).bind fun checksum =>
    some { sequenceNumber := UInt64.ofNat sequenceNumber, tenantID, key, value, vectorClock,
           timestamp, operationType, checksum := UInt32.ofNat checksum }

/-- `json.Marshal`. -/
def marshal (e : CommitLogEntry) : Bytes := (Json.obj e.fields).bytes

/-- `json.Unmarshal`. -/
def unmarshal (bs : Bytes) : Option CommitLogEntry :=
  (Json.ofBytes bs).bind fun v => decodeStruct ofFields (some v)

theorem decodeUint_num {w n : Nat} (h : n < 2 ^ w) : decodeUint w (some (.num n)) = some n := by
  have hlt : (n : Int) < 2 ^ w := by exact_mod_cast h
  simp [decodeUint, hlt]

theorem ofFields_fields (e : CommitLogEntry) : ofFields e.fields = some e := by
  have hseq := decodeUint_num (UInt64.toNat_lt e.sequenceNumber)
  have hsum := decodeUint_num (UInt32.toNat_lt e.checksum)
  simp +decide [ofFields, fields, field, VectorClockJson.ofFields_fields, hseq, hsum]

@[simp] theorem unmarshal_marshal (e : CommitLogEntry) : unmarshal e.marshal = some e := by
  rw [unmarshal, marshal, Json.ofBytes_bytes, Option.bind_some, decodeStruct_obj, ofFields_fields]

/-- The text of an entry is one line. -/
theorem le_of_mem_marshal {e : CommitLogEntry} {b : UInt8} (h : b ∈ e.marshal) :
    0x20 ≤ b.toNat := Json.le_of_mem_bytes h

/-- The text of an entry is longer than its value in Base64. -/
theorem length_encode_lt_marshal {e : CommitLogEntry} {value : Bytes} (h : e.value = some value) :
    (Base64.encode value).length < e.marshal.length := by
  have hvalue := length_le_renderString (String.ofList (Base64.encode value))
  rw [String.toList_ofList] at hvalue
  have hbytes := length_render_le_bytes (Json.obj e.fields)
  have hrender : (renderString (String.ofList (Base64.encode value))).length <
      (render (Json.obj e.fields)).length := by
    simp only [fields, render, renderFields, encodeBytes, h, List.length_cons, List.length_append]
    omega
  exact (hvalue.trans_lt hrender).trans_le hbytes

end CommitLogEntry

end PairDB.StorageNode
