import PairDB.StorageNode.Node

/-!
# `handler.StorageHandler`

The calls `Write`, `Read` and `Repair` as they come over the network. The three check different
things before they hand the request over; `Repair` only asks for a tenant and a key. There is no
remote call for `Delete`.
-/

namespace PairDB.StorageNode

open Infra

/-- `pb.ErrorCode`, as far as these calls return it. -/
inductive PbErrorCode where
  | unknown
  | invalidRequest
  | keyNotFound
  | internalError
  deriving DecidableEq, Repr

/-- `pb.WriteResponse`. -/
structure PbWriteResponse where
  success : Bool
  updatedVectorClock : Option VectorClock
  errorMessage : String
  errorCode : PbErrorCode
  deriving DecidableEq, Repr

/-- `pb.ReadResponse`. -/
structure PbReadResponse where
  success : Bool
  value : Option Bytes
  vectorClock : Option VectorClock
  errorMessage : String
  errorCode : PbErrorCode
  deriving DecidableEq, Repr

/-- `pb.RepairResponse`. -/
structure PbRepairResponse where
  success : Bool
  errorMessage : String
  errorCode : PbErrorCode
  deriving DecidableEq, Repr

namespace StorageHandler

/-- The text of `status.Error(codes.InvalidArgument, ...)`. -/
def invalidArgument (description : String) : String :=
  "rpc error: code = InvalidArgument desc = " ++ description

/-- `validateReadRequest`. -/
def validateReadRequest (tenantID key : String) : Except String Unit :=
  if tenantID = "" then .error (invalidArgument "tenant_id is required")
  else if key = "" then .error (invalidArgument "key is required")
  else .ok ()

/-- `validateWriteRequest`. -/
def validateWriteRequest (tenantID key : String) (value : Option Bytes) : Except String Unit :=
  if tenantID = "" then .error (invalidArgument "tenant_id is required")
  else if key = "" then .error (invalidArgument "key is required")
  else if value = none then .error (invalidArgument "value is required")
  else .ok ()

/-- `StorageHandler.Write`. Every error of the service becomes the same answer. -/
def write (s : StorageService) (env : CallEnv) (tenantID key : String) (value : Option Bytes)
    (vectorClock : VectorClock) : StorageService × Except Failure PbWriteResponse :=
  match validateWriteRequest tenantID key value with
  | .error message => (s, .ok ⟨false, none, message, .invalidRequest⟩)
  | .ok () =>
    match s.write env tenantID key value vectorClock with
    | (s, .error (.err _)) => (s, .ok ⟨false, none, "write failed", .internalError⟩)
    | (s, .error failure) => (s, .error failure)
    | (s, .ok response) => (s, .ok ⟨response.success, some response.vectorClock, "", .unknown⟩)

/-- `StorageHandler.Read`. Every error of the service becomes "key not found". -/
def read (s : StorageService) (env : CallEnv) (tenantID key : String) :
    StorageService × Except Failure PbReadResponse :=
  match validateReadRequest tenantID key with
  | .error message => (s, .ok ⟨false, none, none, message, .invalidRequest⟩)
  | .ok () =>
    match s.read env tenantID key with
    | (s, .error (.err _)) => (s, .ok ⟨false, none, none, "key not found", .keyNotFound⟩)
    | (s, .error failure) => (s, .error failure)
    | (s, .ok response) =>
      (s, .ok ⟨response.success, response.value, some response.vectorClock, "", .unknown⟩)

/-- `StorageHandler.Repair`. -/
def repair (s : StorageService) (env : CallEnv) (tenantID key : String) (value : Option Bytes)
    (vectorClock : VectorClock) : StorageService × Except Failure PbRepairResponse :=
  if tenantID = "" ∨ key = "" then (s, .ok ⟨false, "invalid request", .invalidRequest⟩)
  else
    match s.repair env tenantID key value vectorClock with
    | (s, .error (.err _)) => (s, .ok ⟨false, "repair failed", .internalError⟩)
    | (s, .error failure) => (s, .error failure)
    | (s, .ok ()) => (s, .ok ⟨true, "", .unknown⟩)

/-- The service after a request that the node accepts. `Delete` is a call to the service itself. -/
def serve (s : StorageService) (env : CallEnv) : Request → Option StorageService
  | .write tenantID key value vectorClock =>
    match write s env tenantID key value vectorClock with
    | (s', .ok response) => if response.success then some s' else none
    | _ => none
  | .delete tenantID key vectorClock => s.perform env (.delete tenantID key vectorClock)
  | .repair tenantID key value vectorClock =>
    match repair s env tenantID key value vectorClock with
    | (s', .ok response) => if response.success then some s' else none
    | _ => none
  | .read tenantID key =>
    match read s env tenantID key with
    | (s', .ok response) => if response.errorCode = .invalidRequest then none else some s'
    | _ => none

end StorageHandler

/-- A step of a node that takes its requests from the handler. -/
def Node.rpcStep (n : Node) (event : Event) : Option Node := n.stepWith StorageHandler.serve event

/-! ## Accepted requests -/

namespace StorageHandler

variable {s s' : StorageService} {env : CallEnv} {tenantID key : String}

theorem validateReadRequest_eq_ok (h : validateReadRequest tenantID key = .ok ()) :
    tenantID ≠ "" ∧ key ≠ "" := by
  unfold validateReadRequest at h
  split at h
  · cases h
  · next ht =>
    split at h
    · cases h
    · next hk => exact ⟨ht, hk⟩

theorem validateWriteRequest_eq_ok {value : Option Bytes}
    (h : validateWriteRequest tenantID key value = .ok ()) : tenantID ≠ "" ∧ key ≠ "" := by
  unfold validateWriteRequest at h
  split at h
  · cases h
  · next ht =>
    split at h
    · cases h
    · next hk => exact ⟨ht, hk⟩

/-- A request that the node accepts names a tenant and a key, and its call to the service
succeeds. -/
theorem serve_spec {request : Request} (h : serve s env request = some s') :
    (request.tenantID ≠ "" ∧ request.key ≠ "") ∧ s.perform env request = some s' := by
  cases request with
  | write tenantID key value vectorClock =>
    cases hvalid : validateWriteRequest tenantID key value with
    | error message => simp [serve, write, hvalid] at h
    | ok u =>
      refine ⟨validateWriteRequest_eq_ok hvalid, ?_⟩
      rcases hservice : s.write env tenantID key value vectorClock with ⟨s₁, failure | response⟩
      · cases failure <;> simp [serve, write, hvalid, hservice] at h
      · simp only [serve, write, hvalid, hservice, Option.ite_none_right_eq_some] at h
        rw [StorageService.perform, hservice]
        exact h.2
  | delete tenantID key vectorClock =>
    refine ⟨?_, h⟩
    rw [serve, StorageService.perform] at h
    split at h
    · next hdelete =>
      obtain ⟨⟨htenant, hkey⟩, -⟩ := StorageService.delete_spec hdelete
      exact ⟨Validator.ne_empty_of_validateTenantID htenant,
        Validator.ne_empty_of_validateKey hkey⟩
    · cases h
  | repair tenantID key value vectorClock =>
    by_cases hempty : tenantID = "" ∨ key = ""
    · simp [serve, repair, hempty] at h
    · refine ⟨not_or.mp hempty, ?_⟩
      rcases hservice : s.repair env tenantID key value vectorClock with ⟨s₁, failure | u⟩
      · cases failure <;> simp [serve, repair, hempty, hservice] at h
      · simp only [serve, repair, if_neg hempty, hservice, if_true] at h
        rw [StorageService.perform, hservice]
        exact h
  | read tenantID key =>
    cases hvalid : validateReadRequest tenantID key with
    | error message => simp [serve, read, hvalid] at h
    | ok u =>
      refine ⟨validateReadRequest_eq_ok hvalid, ?_⟩
      rcases hservice : s.read env tenantID key with ⟨s₁, failure | response⟩
      · cases failure with
        | err e =>
          simp only [serve, read, hvalid, hservice] at h
          rw [StorageService.perform, hservice]
          simp only [StorageService.code_of_read hservice, if_true]
          exact h
        | panic reason => simp [serve, read, hvalid, hservice] at h
        | blocked => simp [serve, read, hvalid, hservice] at h
      · simp only [serve, read, hvalid, hservice] at h
        rw [StorageService.perform, hservice]
        exact h

end StorageHandler

end PairDB.StorageNode
