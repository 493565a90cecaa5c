import PairDB.StorageNode.Entry

/-!
# `errors.StorageError` and `validation.Validator`

The checks that `Write` and `Delete` of the storage service make before they touch anything. Sizes
are sizes in bytes.
-/

namespace PairDB.StorageNode

open Infra

/-! ## Errors -/

/-- `errors.ErrorCode`, as far as the storage service returns it. -/
inductive ErrorCode where
  | invalidArgument
  | keyNotFound
  | keyTooLarge
  | valueTooLarge
  | invalidTenantID
  | invalidKey
  | diskFull
  | diskThrottled
  | commitLogFailed
  | sstableFailed
  deriving DecidableEq, Repr

/-- `errors.StorageError`. -/
structure StorageError where
  code : ErrorCode
  message : String
  cause : Option String
  deriving DecidableEq, Repr

namespace StorageError

def invalidArgument (message : String) : StorageError := ⟨.invalidArgument, message, none⟩

def keyNotFound (tenantID key : String) : StorageError :=
  ⟨.keyNotFound, "key not found: " ++ tenantID ++ ":" ++ key, none⟩

def keyTooLarge (size maxSize : Nat) : StorageError :=
  ⟨.keyTooLarge, "key size " ++ toString size ++ " exceeds maximum " ++ toString maxSize, none⟩

def valueTooLarge (size maxSize : Nat) : StorageError :=
  ⟨.valueTooLarge, "value size " ++ toString size ++ " exceeds maximum " ++ toString maxSize, none⟩

def invalidTenantID (tenantID reason : String) : StorageError :=
  ⟨.invalidTenantID, "invalid tenant ID '" ++ tenantID ++ "': " ++ reason, none⟩

def invalidKey (key reason : String) : StorageError :=
  ⟨.invalidKey, "invalid key '" ++ key ++ "': " ++ reason, none⟩

def commitLogFailed (message cause : String) : StorageError :=
  ⟨.commitLogFailed, message, some cause⟩

def sstableFailed (message cause : String) : StorageError := ⟨.sstableFailed, message, some cause⟩

end StorageError

/-! ## Limits -/

namespace Validator

def maxKeySize : Nat := 1024
def maxValueSize : Nat := 10 * 1024 * 1024
def maxTenantIDSize : Nat := 256
def maxVectorClockEntries : Nat := 1000
def maxCoordinatorNodeIDSize : Nat := 128

/-- `unicode.IsControl`. -/
def isControl (c : Char) : Bool := c.toNat < 0x20 || (0x7F ≤ c.toNat && c.toNat < 0xA0)

/-- Whether a string holds the NUL character. -/
def containsNull (s : String) : Bool := s.toList.contains (Char.ofNat 0)

/-! ## The checks -/

/-- `ValidateTenantID`. -/
def validateTenantID (tenantID : String) : Except StorageError Unit :=
  if tenantID = "" then
    .error (.invalidTenantID tenantID "tenant ID cannot be empty")
  else if tenantID.utf8ByteSize > maxTenantIDSize then
    .error (.invalidTenantID tenantID
      ("tenant ID exceeds maximum size of " ++ toString maxTenantIDSize ++ " bytes"))
  else if tenantID.toList.contains ':' then
    .error (.invalidTenantID tenantID "tenant ID cannot contain ':' character")
  else if tenantID.toList.any isControl then
    .error (.invalidTenantID tenantID "tenant ID cannot contain control characters")
  else if containsNull tenantID then
    .error (.invalidTenantID tenantID "tenant ID cannot contain null bytes")
  else .ok ()

/-- `ValidateKey`. Tabs and line breaks are allowed. -/
def validateKey (key : String) : Except StorageError Unit :=
  if key = "" then .error (.invalidKey key "key cannot be empty")
  else if key.utf8ByteSize > maxKeySize then .error (.keyTooLarge key.utf8ByteSize maxKeySize)
  else if key.toList.any fun c => isControl c && c != '\t' && c != '\n' then
    .error (.invalidKey key "key cannot contain control characters")
  else if containsNull key then .error (.invalidKey key "key cannot contain null bytes")
  else .ok ()

/-- `ValidateValue`. -/
def validateValue : Option Bytes → Except StorageError Unit
  | none => .ok ()
  | some value =>
    if value.length > maxValueSize then .error (.valueTooLarge value.length maxValueSize)
    else .ok ()

/-- The checks of one clock entry; `i` is its position. -/
def validateClockEntry (i : Nat) (entry : VectorClockEntry) : Except StorageError Unit :=
  let at_ := "vector clock entry " ++ toString i
  if entry.coordinatorNodeID = "" then
    .error (.invalidArgument (at_ ++ " has empty coordinator node ID"))
  else if entry.coordinatorNodeID.utf8ByteSize > maxCoordinatorNodeIDSize then
    .error (.invalidArgument (at_ ++ " coordinator node ID exceeds maximum size of "
      ++ toString maxCoordinatorNodeIDSize))
  else if containsNull entry.coordinatorNodeID then
    .error (.invalidArgument (at_ ++ " coordinator node ID contains null bytes"))
  else if entry.logicalTimestamp < 0 then
    .error (.invalidArgument (at_ ++ " has negative logical timestamp: "
      ++ toString entry.logicalTimestamp))
  else .ok ()

/-- The loop over the clock entries from position `i` on. -/
def validateClockEntries : (i : Nat) → List VectorClockEntry → Except StorageError Unit
  | _, [] => .ok ()
  | i, entry :: entries => (validateClockEntry i entry).bind fun _ =>
      validateClockEntries (i + 1) entries

/-- `ValidateVectorClock`. -/
def validateVectorClock (vc : VectorClock) : Except StorageError Unit :=
  if vc.entries.length > maxVectorClockEntries then
    .error (.invalidArgument ("vector clock has too many entries: " ++ toString vc.entries.length
      ++ " > " ++ toString maxVectorClockEntries))
  else validateClockEntries 0 vc.entries

/-- `ValidateWrite`. -/
def validateWrite (tenantID key : String) (value : Option Bytes) (vectorClock : VectorClock) :
    Except StorageError Unit :=
  (validateTenantID tenantID).bind fun _ =>
  (validateKey key).bind fun _ =>
  (validateValue value).bind fun _ =>
  validateVectorClock vectorClock

/-! ## What a valid tenant is -/

theorem bind_eq_ok {ε α β : Type} {x : Except ε α} {f : α → Except ε β} {b : β}
    (h : x.bind f = .ok b) : ∃ a, x = .ok a ∧ f a = .ok b := by
  cases hx : x with
  | error e => rw [hx] at h; cases h
  | ok a => rw [hx] at h; exact ⟨a, rfl, h⟩

/-- A valid tenant has no colon, so composite keys of valid tenants are unambiguous. -/
theorem not_mem_colon_of_validateTenantID {tenantID : String}
    (h : validateTenantID tenantID = .ok ()) : ':' ∉ tenantID.toList := by
  unfold validateTenantID at h
  split at h
  · cases h
  · split at h
    · cases h
    · split at h
      · cases h
      · next hcolon => simpa using hcolon

theorem ne_empty_of_validateTenantID {tenantID : String}
    (h : validateTenantID tenantID = .ok ()) : tenantID ≠ "" := by
  unfold validateTenantID at h
  split at h
  · cases h
  · next hne => exact hne

theorem ne_empty_of_validateKey {key : String} (h : validateKey key = .ok ()) : key ≠ "" := by
  unfold validateKey at h
  split at h
  · cases h
  · next hne => exact hne

end Validator

end PairDB.StorageNode
