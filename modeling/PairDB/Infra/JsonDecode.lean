import PairDB.Infra.JsonRoundtrip
import PairDB.Infra.Base64

/-!
# Structures as JSON objects

A structure is written as an object with one field for each of its fields. The reader looks fields
up by name without regard to case, the last one wins, unknown ones are skipped, and a field that is
missing or `null` keeps its zero value.

Every decoder below gives back what its encoder was given.
-/

namespace Infra.Json

/-! ## Field lookup -/

/-- Field names are compared without regard to (ASCII) case. -/
def sameName (a b : String) : Bool := a.toList.map Char.toLower = b.toList.map Char.toLower

/-- The last field with the given name. -/
def field (name : String) : List (String × Json) → Option Json
  | [] => none
  | (k, v) :: fields => (field name fields).or (if sameName k name then some v else none)

/-! ## Encoders and decoders -/

section

variable {α : Type}

def decodeString : Option Json → Option String
  | none | some .null => some ""
  | some (.str s) => some s
  | some _ => none

def decodeInt : Option Json → Option Int
  | none | some .null => some 0
  | some (.num i) => some i
  | some _ => none

def decodeBool : Option Json → Option Bool
  | none | some .null => some false
  | some (.bool b) => some b
  | some _ => none

/-- A byte slice is written in Base64, and as `null` if it is nil. -/
def encodeBytes : Option Bytes → Json
  | none => .null
  | some bs => .str (String.ofList (Base64.encode bs))

def decodeBytes : Option Json → Option (Option Bytes)
  | none | some .null => some none
  | some (.str s) => (Base64.decode s.toList).map some
  | some _ => none

/-- A structure inside another one. -/
def decodeStruct (ofFields : List (String × Json) → Option α) : Option Json → Option α
  | none | some .null => ofFields []
  | some (.obj fields) => ofFields fields
  | some _ => none

/-- A slice of structures. -/
def decodeList (ofFields : List (String × Json) → Option α) : Option Json → Option (List α)
  | none | some .null => some []
  | some (.arr elems) => elems.mapM fun x => decodeStruct ofFields (some x)
  | some _ => none

@[simp] theorem decodeString_str (s : String) : decodeString (some (.str s)) = some s := rfl

@[simp] theorem decodeInt_num (i : Int) : decodeInt (some (.num i)) = some i := rfl

@[simp] theorem decodeBool_bool (b : Bool) : decodeBool (some (.bool b)) = some b := rfl

@[simp] theorem decodeBytes_encodeBytes (bs : Option Bytes) :
    decodeBytes (some (encodeBytes bs)) = some bs := by
  cases bs with
  | none => rfl
  | some bs => simp [encodeBytes, decodeBytes, Base64.decode_encode]

@[simp] theorem decodeStruct_obj (ofFields : List (String × Json) → Option α)
    (fields : List (String × Json)) :
    decodeStruct ofFields (some (.obj fields)) = ofFields fields := rfl

theorem decodeList_arr {ofFields : List (String × Json) → Option α}
    {toFields : α → List (String × Json)} (h : ∀ a, ofFields (toFields a) = some a) (l : List α) :
    decodeList ofFields (some (.arr (l.map fun a => .obj (toFields a)))) = some l := by
  unfold decodeList
  induction l with
  | nil => rfl
  | cons a l ih =>
    simp only [List.map_cons, List.mapM_cons, decodeStruct_obj, h] at ih ⊢
    rw [ih]
    rfl

end

/-! ## Whole texts -/

/-- The bytes of the text of a value. -/
def bytes (v : Json) : Bytes := utf8 (String.ofList (render v))

/-- The value that a byte string is the text of. -/
def ofBytes (bs : Bytes) : Option Json := (ofUtf8 bs).bind fun s => parse s.toList

@[simp] theorem ofBytes_bytes (v : Json) : ofBytes (bytes v) = some v := by
  rw [ofBytes, bytes, ofUtf8_utf8, Option.bind_some, String.toList_ofList, parse_render]

/-- No byte of the text is a control byte, so the text is one line. -/
theorem le_of_mem_bytes {v : Json} {b : UInt8} (h : b ∈ bytes v) : 0x20 ≤ b.toNat :=
  le_of_mem_utf8_ofList (printable v) h

/-- A text takes at least one byte for each of its characters. -/
theorem length_render_le_bytes (v : Json) : (render v).length ≤ (bytes v).length := by
  rw [bytes, utf8_ofList, List.length_flatMap]
  have hpos : ∀ c ∈ render v, 1 ≤ (String.utf8EncodeChar c).length := fun c _ => by
    rw [String.length_utf8EncodeChar]
    exact c.utf8Size_pos
  have hsum := List.length_le_sum_of_one_le ((render v).map fun c =>
    (String.utf8EncodeChar c).length) (by simpa using hpos)
  rwa [List.length_map] at hsum

/-- Escaping does not make a string shorter. -/
theorem length_le_renderString (s : String) : s.toList.length ≤ (renderString s).length := by
  have hpos : ∀ c ∈ s.toList, 1 ≤ (escape c).length := fun c _ => length_escape_pos c
  have hsum := List.length_le_sum_of_one_le (s.toList.map fun c => (escape c).length)
    (by simpa using hpos)
  rw [List.length_map] at hsum
  rw [renderString, List.length_cons, List.length_append, List.length_flatMap]
  omega

end Infra.Json
