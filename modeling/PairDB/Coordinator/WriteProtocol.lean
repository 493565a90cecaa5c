import PairDB.Infra.Run
import PairDB.Coordinator.VectorClockService
import PairDB.Coordinator.StorageClient

/-!
# Writes to one key: coordinators, replicas and the messages between them

`WriteKeyValue` first asks the replicas for the existing value (`readExistingValue`), takes its
vector clock from the first answer that is Found, and then sends the write to every replica
(`writeToReplicasWithHints`).

The state is that of the whole cluster for one key: the `VectorClockService` of every coordinator,
the version every replica holds, and every write with the messages it has in flight. An action is
one message or one local step, so a run is any interleaving. A replica that does not answer, or an
answer that is lost, is an action that is never taken.
-/

namespace PairDB.Coordinator

open Infra

/-- What has become of a write. -/
inductive WriteStatus where
  | inProgress
  | acknowledged
  | failed
  deriving DecidableEq, Repr

/-- One call of `WriteKeyValue`. -/
structure WriteOp (n : Nat) where
  coordinator : String
  value : List UInt8
  consistency : String
  /-- The writes that were acknowledged when this one began. No step of the code reads this. -/
  ackedBefore : List Nat
  /-- Answers to the pre-read that are on their way. -/
  readAnswers : List (Fin n × Option Version)
  firstResponse : Option Version
  vectorClock : Option VectorClock
  /-- Replicas that have stored the write and whose answer is on its way. -/
  storeAnswers : List (Fin n)
  /-- Replicas whose success has arrived. -/
  succeeded : List (Fin n)
  status : WriteStatus
  deriving DecidableEq

/-- The cluster, as far as one key is concerned. -/
structure Cluster (n : Nat) where
  tenantID : String
  vcService : String → VectorClockService
  replicas : Fin n → Option Version
  writes : Nat → Option (WriteOp n)
  acknowledged : List Nat

/-- One message or local step. The number names the write. -/
inductive Action (n : Nat) where
  /-- `WriteKeyValue` is called on a coordinator. -/
  | beginWrite (i : Nat) (coordinator : String) (value : List UInt8) (consistency : String)
  /-- A replica answers the pre-read. -/
  | serveRead (i : Nat) (r : Fin n)
  /-- The answer of a replica to the pre-read arrives. -/
  | receiveRead (i : Nat) (r : Fin n)
  /-- `readExistingValue` returns and the clock is taken. -/
  | issueClock (i : Nat) (ord : RangeOrder (String × Int))
  /-- A replica stores the write: the first delivery, a late one, or the replay of a hint. -/
  | store (i : Nat) (r : Fin n)
  /-- The success of a replica arrives. -/
  | receiveStored (i : Nat) (r : Fin n)
  /-- `writeToReplicasWithHints` returns. -/
  | finish (i : Nat)
  /-- A coordinator process is restarted. -/
  | restart (coordinator : String)

/-- The clock of a write: `IncrementFrom` the existing value, `Increment` if there is none. -/
def nextClock (ord : RangeOrder (String × Int)) (tenantID : String) (vcService : VectorClockService)
    (firstResponse : Option Version) : VectorClock × VectorClockService :=
  match firstResponse with
  | none => vcService.increment tenantID
  | some v => vcService.incrementFrom ord v.vectorClock

namespace Cluster

variable {n : Nat}

/-- All coordinators have just started and no replica holds the key. -/
def init (n : Nat) (tenantID : String) : Cluster n where
  tenantID := tenantID
  vcService := VectorClockService.new
  replicas := fun _ => none
  writes := fun _ => none
  acknowledged := []

def setWrite (s : Cluster n) (i : Nat) (w : WriteOp n) : Cluster n :=
  { s with writes := Function.update s.writes i (some w) }

/-- The process dies with its calls: they can no longer be acknowledged. -/
def crashWrite (c : String) (w : WriteOp n) : WriteOp n :=
  if w.coordinator = c ∧ w.status = .inProgress then { w with status := .failed } else w

/-- One action, if it is possible. -/
def step (s : Cluster n) : Action n → Option (Cluster n)
  | .beginWrite i coordinator value consistency =>
    match s.writes i with
    | some _ => none
    | none => some (s.setWrite i
        { coordinator, value, consistency, ackedBefore := s.acknowledged, readAnswers := [],
          firstResponse := none, vectorClock := none, storeAnswers := [], succeeded := [],
          status := .inProgress })
  | .serveRead i r =>
    (s.writes i).bind fun w =>
      if w.vectorClock = none ∧ ∀ answer ∈ w.readAnswers, answer.1 ≠ r then
        some (s.setWrite i { w with readAnswers := (r, s.replicas r) :: w.readAnswers })
      else none
  | .receiveRead i r =>
    (s.writes i).bind fun w =>
      (w.readAnswers.find? fun answer => answer.1 = r).bind fun answer =>
        if w.vectorClock = none ∧ w.status = .inProgress then
          some (s.setWrite i
            { w with firstResponse := w.firstResponse.or (Version.found answer.2) })
        else none
  | .issueClock i ord =>
    (s.writes i).bind fun w =>
      if w.vectorClock = none ∧ w.status = .inProgress then
        let next := nextClock ord s.tenantID (s.vcService w.coordinator) w.firstResponse
        some { s.setWrite i { w with vectorClock := some next.1 } with
          vcService := Function.update s.vcService w.coordinator next.2 }
      else none
  | .store i r =>
    (s.writes i).bind fun w =>
      w.vectorClock.bind fun vectorClock =>
        some { s.setWrite i { w with storeAnswers := r :: w.storeAnswers } with
          replicas := Function.update s.replicas r (some ⟨w.value, vectorClock⟩) }
  | .receiveStored i r =>
    (s.writes i).bind fun w =>
      if w.status = .inProgress ∧ r ∈ w.storeAnswers ∧ r ∉ w.succeeded then
        some (s.setWrite i { w with succeeded := r :: w.succeeded })
      else none
  | .finish i =>
    (s.writes i).bind fun w =>
      if w.status = .inProgress ∧ w.vectorClock ≠ none then
        if ConsistencyService.isQuorumReached w.succeeded.length n w.consistency then
          some { s.setWrite i { w with status := .acknowledged } with
            acknowledged := i :: s.acknowledged }
        else some (s.setWrite i { w with status := .failed })
      else none
  | .restart c =>
    some { s with
      vcService := Function.update s.vcService c (VectorClockService.new c)
      writes := fun i => (s.writes i).map (crashWrite c) }

end Cluster

end PairDB.Coordinator
