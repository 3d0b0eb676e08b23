import Mathlib

/- The quotas of github/rate_limiter.py and the ledger file that the processes of one
   identity share. Epochs and durations are exact rationals in place of floats. -/
namespace DevopsCli.GitHub

abbrev Resource := String

inductive LimiterError where
  | valueError (text : String)
  | rateLimitError (text : String)
  | refreshFailed (text : String)
  deriving DecidableEq, Repr

/-- Counts are naturals, so that no state holds a negative one. A merge only compares the epochs, so
    it is told for any of them. -/
structure QuotaStateOf (T : Type) where
  remaining : Option Nat := none
  limit : Option Nat := none
  resetEpoch : Option T := none
  lastUpdated : Option T := none
  used : Option Nat := none
  lastRequestEpoch : Option T := none
  deriving DecidableEq

abbrev QuotaState := QuotaStateOf ℚ

structure RawQuota where
  remaining : Option Int := none
  limit : Option Int := none
  resetEpoch : Option ℚ := none
  lastUpdated : Option ℚ := none
  used : Option Int := none
  lastRequestEpoch : Option ℚ := none
  deriving DecidableEq

namespace QuotaState

def isValid (q : QuotaState) (now : ℚ) (maxAge : Option ℚ) : Bool :=
  let stale := match maxAge, q.lastUpdated with
    | some age, some updated => decide (age < now - updated)
    | _, _ => false
  !stale && q.remaining.isSome && q.resetEpoch.any fun reset => decide (now < reset)

def recordUtilization (q : QuotaState) (cost : Int) (now : ℚ) :
    Except LimiterError QuotaState :=
  if cost < 0 then .error (.valueError "utilization cost must be non-negative")
  else .ok { q with
    remaining := q.remaining.map fun remaining => remaining - cost.toNat
    used := q.used.map fun used => used + cost.toNat
    lastUpdated := some now
    lastRequestEpoch := some now }

def toDict (q : QuotaState) : RawQuota where
  remaining := q.remaining.map Int.ofNat
  limit := q.limit.map Int.ofNat
  resetEpoch := q.resetEpoch
  lastUpdated := q.lastUpdated
  used := q.used.map Int.ofNat
  lastRequestEpoch := q.lastRequestEpoch

def fromDict (raw : RawQuota) : Except LimiterError QuotaState :=
  let counts := [raw.limit, raw.remaining, raw.used]
  let epochs := [raw.resetEpoch, raw.lastUpdated, raw.lastRequestEpoch]
  if counts.any (fun count => count.any fun n => decide (n < 0)) ||
      epochs.any (fun epoch => epoch.any fun e => decide (e < 0)) then
    .error (.valueError "Malformed quota state dictionary")
  else .ok {
    remaining := raw.remaining.map Int.toNat
    limit := raw.limit.map Int.toNat
    resetEpoch := raw.resetEpoch
    lastUpdated := raw.lastUpdated
    used := raw.used.map Int.toNat
    lastRequestEpoch := raw.lastRequestEpoch }

end QuotaState

class Compares (T : Type) where
  equal : T → T → Bool
  later : T → T → Bool

instance {T : Type} [LinearOrder T] : Compares T where
  equal a b := decide (a = b)
  later a b := decide (b < a)

/-- A float that the check of a quota lets through. -/
inductive Epoch where
  | nan
  | time (t : WithTop ℚ)
  deriving DecidableEq

instance : Compares Epoch where
  equal
    | .time a, .time b => decide (a = b)
    | _, _ => false
  later
    | .time a, .time b => decide (b < a)
    | _, _ => false

section Merge
variable {T : Type} [Compares T]
open Compares

/-- The maximum of the values that are known: the first one that no other exceeds. -/
def latest : Option T → Option T → Option T
  | some a, some b => some (if later b a then b else a)
  | some a, none => some a
  | none, b => b

def mergeSameEpochQuota (disk mem : QuotaStateOf T) : QuotaStateOf T where
  remaining := match disk.remaining, mem.remaining with
    | some a, some b => some (min a b)
    | some a, none => some a
    | none, b => b
  used := latest disk.used mem.used
  -- A limit of zero is falsy, so the source takes the other one.
  limit := if disk.limit = some 0 then mem.limit else disk.limit.or mem.limit
  resetEpoch := disk.resetEpoch
  lastUpdated := latest disk.lastUpdated mem.lastUpdated
  lastRequestEpoch := latest disk.lastRequestEpoch mem.lastRequestEpoch

def mergeSingleQuota (disk mem : QuotaStateOf T) : QuotaStateOf T :=
  match disk.resetEpoch, mem.resetEpoch with
  | none, _ => mem
  | _, none => disk
  | some onDisk, some inMemory =>
    if equal onDisk inMemory then mergeSameEpochQuota disk mem
    else if later onDisk inMemory then disk else mem

end Merge

structure GlobalMeta where
  totalRequests : Int
  lastRequestEpoch : ℚ
  totalThrottles : Int
  totalWaitSeconds : ℚ
  deriving DecidableEq

/-- What the ledger file holds when it is a JSON object. No meta stands for an entry that is
    absent or malformed; a quota entry that is no dictionary of numbers is left out. -/
structure Ledger where
  global : Option GlobalMeta
  quotas : Resource → Option RawQuota

def loadDiskQuota (read : Option Ledger) (now : ℚ) : Resource → Option QuotaState :=
  fun name => do
    let ledger ← read
    let raw ← if name = "_global" then none else ledger.quotas name
    let state ← (QuotaState.fromDict raw).toOption
    if state.isValid now none then some state else none

structure Totals where
  requests : Nat
  lastRequestEpoch : ℚ
  throttles : Nat
  waitSeconds : ℚ
  deriving DecidableEq

def loadDiskGlobalMeta (read : Option Ledger) : Totals :=
  match read.bind Ledger.global with
  | some g => ⟨g.totalRequests.toNat, max 0 g.lastRequestEpoch, g.totalThrottles.toNat,
      max 0 g.totalWaitSeconds⟩
  | none => ⟨0, 0, 0, 0⟩

def saveDiskQuota (quotas : Resource → Option QuotaState) (totals : Totals) : Ledger where
  global := some ⟨totals.requests, max 0 totals.lastRequestEpoch, totals.throttles,
    max 0 totals.waitSeconds⟩
  quotas := fun name => if name = "_global" then none else (quotas name).map QuotaState.toDict

def calculateRequestDelay (timeUntilReset : ℚ) (remaining : Nat) :
    Except LimiterError ℚ :=
  if timeUntilReset < 0 then .error (.valueError "time_until_reset must be non-negative")
  else if remaining = 0 then .ok timeUntilReset
  else if timeUntilReset = 0 then .ok 0
  else .ok (timeUntilReset / remaining)

theorem fromDict_toDict (q : QuotaState)
    (epochs : ∀ e ∈ [q.resetEpoch, q.lastUpdated, q.lastRequestEpoch], ∀ t ∈ e, 0 ≤ t) :
    QuotaState.fromDict q.toDict = .ok q := by
  have count (c : Option Nat) : (c.map Int.ofNat).any (fun n => decide (n < 0)) = false := by
    cases c <;> simp
  have back (c : Option Nat) : (c.map Int.ofNat).map Int.toNat = c := by
    cases c <;> simp
  have epoch (e : Option ℚ) (known : ∀ t ∈ e, 0 ≤ t) : e.any (fun t => decide (t < 0)) = false := by
    cases e with
    | none => rfl
    | some t => simpa using known t rfl
  simp only [QuotaState.fromDict, QuotaState.toDict, List.any_cons, List.any_nil, count, back,
    epoch q.resetEpoch (epochs _ (by simp)), epoch q.lastUpdated (epochs _ (by simp)),
    epoch q.lastRequestEpoch (epochs _ (by simp)), Bool.or_self, Bool.false_eq_true, ↓reduceIte]

theorem load_save_totals (quotas : Resource → Option QuotaState) (totals : Totals) :
    loadDiskGlobalMeta (some (saveDiskQuota quotas totals)) =
      { totals with
        lastRequestEpoch := max 0 totals.lastRequestEpoch
        waitSeconds := max 0 totals.waitSeconds } := by
  simp [loadDiskGlobalMeta, saveDiskQuota]

end DevopsCli.GitHub
