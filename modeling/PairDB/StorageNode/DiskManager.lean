import Mathlib

/-!
# `diskmanager.DiskManager`

`Write` asks the disk manager first, which gives up its read lock to ask `Statfs` again if its
figures are old, so that the checks of other calls can come before its decision. A percentage is a
floating-point number of which only `≥` matters; it is of any type here, and `percent` divides.
-/

namespace PairDB.StorageNode

/-- What `Statfs` returns. -/
structure Statfs where
  blocks : UInt64
  bavail : UInt64
  bsize : UInt64

/-- `DiskManager`. No `lastCheck` is the zero time. -/
structure DiskManager (F : Type) where
  checkInterval : Int
  throttleThreshold : F
  circuitBreakerThreshold : F
  lastCheck : Option Int
  cachedUsagePercent : F
  cachedAvailableBytes : UInt64
  isThrottled : Bool
  isCircuitBroken : Bool

/-- `ErrorCode` of the disk manager. -/
inductive DiskErrorCode where
  | diskFull
  | diskThrottled
  | insufficientSpace

/-- `DiskSpaceError`. Its message is made of the code and the figures. -/
structure DiskSpaceError (F : Type) where
  code : DiskErrorCode
  usagePercent : F
  availableBytes : UInt64
  isThrottled : Bool
  isCircuitBroken : Bool

namespace DiskManager

variable {F : Type} [LE F] [DecidableLE F] (percent : UInt64 → UInt64 → F)

/-- The available bytes and the usage. -/
def figures (stat : Statfs) : UInt64 × F :=
  let totalBytes := stat.blocks * stat.bsize
  let availableBytes := stat.bavail * stat.bsize
  (availableBytes, percent (totalBytes - availableBytes) totalBytes)

/-- `checkDiskSpace`, at a time and with the answer of `Statfs`. -/
def checkDiskSpace (dm : DiskManager F) : Int × Option Statfs → DiskManager F
  | (_, none) => dm
  | (now, some stat) =>
    let (availableBytes, usagePercent) := figures percent stat
    let isCircuitBroken := usagePercent ≥ dm.circuitBreakerThreshold
    { dm with
      cachedUsagePercent := usagePercent
      cachedAvailableBytes := availableBytes
      lastCheck := some now
      isCircuitBroken
      isThrottled := usagePercent ≥ dm.throttleThreshold && !isCircuitBroken }

/-- `NewDiskManager`, before its first check. -/
def new (zero : F) (checkInterval : Int) (throttleThreshold circuitBreakerThreshold : F) :
    DiskManager F :=
  ⟨checkInterval, throttleThreshold, circuitBreakerThreshold, none, zero, 0, false, false⟩

/-- The decision of `CheckBeforeWrite`. -/
def decideWrite (dm : DiskManager F) (estimatedBytes : UInt64) : Option (DiskSpaceError F) :=
  if dm.isCircuitBroken then
    some ⟨.diskFull, dm.cachedUsagePercent, dm.cachedAvailableBytes, false, true⟩
  else if dm.isThrottled && estimatedBytes > dm.cachedAvailableBytes / 10 then
    some ⟨.diskThrottled, dm.cachedUsagePercent, dm.cachedAvailableBytes, true, false⟩
  else if estimatedBytes > dm.cachedAvailableBytes then
    some ⟨.insufficientSpace, dm.cachedUsagePercent, dm.cachedAvailableBytes, false, false⟩
  else none

/-- The figures are not too old. -/
def fresh (dm : DiskManager F) (now : Int) : Bool :=
  dm.lastCheck.any fun lastCheck => now - lastCheck ≤ dm.checkInterval

/-- `CheckBeforeWrite`. `checks` are the checks before its decision, its own among them. -/
def checkBeforeWrite (dm : DiskManager F) (now : Int) (checks : List (Int × Option Statfs))
    (estimatedBytes : UInt64) : DiskManager F × Option (DiskSpaceError F) :=
  let dm := if dm.fresh now then dm else checks.foldl (checkDiskSpace percent) dm
  (dm, dm.decideWrite estimatedBytes)

/-- Of all checks only the last one that succeeded is left. -/
theorem foldl_checkDiskSpace (dm : DiskManager F) (checks : List (Int × Option Statfs)) :
    ∃ now, checks.foldl (checkDiskSpace percent) dm =
      checkDiskSpace percent dm (now, (checks.filterMap Prod.snd).getLast?) := by
  induction checks using List.reverseRecOn with
  | nil => exact ⟨0, rfl⟩
  | append_singleton checks check ih =>
    obtain ⟨now, hnow⟩ := ih
    obtain ⟨later, _ | stat⟩ := check
    · exact ⟨now, by simpa [checkDiskSpace] using hnow⟩
    · refine ⟨later, ?_⟩
      rw [List.foldl_append, hnow, List.filterMap_append, List.getLast?_append]
      cases (checks.filterMap Prod.snd).getLast? <;> rfl

/-- **Which writes pass.** After any checks of any calls, a write is judged by the last `Statfs` that
succeeded: below the breaker's threshold it can have all available bytes, or a tenth of them from the
throttle's threshold on. Before one has succeeded, only a write of no bytes passes. -/
theorem checkBeforeWrite_admits_iff (zero : F) (checkInterval : Int) (throttle breaker : F)
    (earlier checks : List (Int × Option Statfs)) (now : Int) (estimatedBytes : UInt64) :
    let dm := earlier.foldl (checkDiskSpace percent) (new zero checkInterval throttle breaker)
    let seen := if dm.fresh now then earlier else earlier ++ checks
    (dm.checkBeforeWrite percent now checks estimatedBytes).2 = none ↔
      ((seen.filterMap Prod.snd).getLast?.map (figures percent)).elim (estimatedBytes = 0)
        fun (available, usage) => ¬ usage ≥ breaker ∧ estimatedBytes ≤ available ∧
          (usage ≥ throttle → estimatedBytes ≤ available / 10) := by
  intro dm seen
  have hseen : (if dm.fresh now then dm else checks.foldl (checkDiskSpace percent) dm) =
      seen.foldl (checkDiskSpace percent) (new zero checkInterval throttle breaker) := by
    simp only [seen]
    split <;> simp [dm]
  obtain ⟨t, ht⟩ := foldl_checkDiskSpace percent (new zero checkInterval throttle breaker) seen
  rw [checkBeforeWrite, hseen, ht]
  cases (seen.filterMap Prod.snd).getLast? with
  | none => simp [checkDiskSpace, new, decideWrite]
  | some stat =>
    simp only [checkDiskSpace, new, decideWrite, Option.map_some, Option.elim_some]
    grind

end DiskManager

end PairDB.StorageNode
