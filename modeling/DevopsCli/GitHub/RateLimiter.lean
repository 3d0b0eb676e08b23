import DevopsCli.Lib.Act
import DevopsCli.GitHub.Quota

/- GitHubRateLimiter of github/rate_limiter.py: what it does under its lock. The outside
   answers by tick: each reading of the clock, each read and each write of the ledger file and
   each answer of gh api rate_limit takes one. Metrics, logs and the response cache are left
   out, and so is the request gate, which acquire waits on before it takes the lock. -/
namespace DevopsCli.GitHub
open Act

structure RateLimiter where
  persists : Bool
  minInterval : ℚ
  mutationMinInterval : ℚ
  quotaMaxAge : ℚ
  nextAllowedTime : Resource → Option ℚ := fun _ => none
  lastMutationEpoch : ℚ := 0
  totalRequests : Nat := 0
  requestsPaced : Resource → Nat := fun _ => 0
  lastRequestEpoch : ℚ := 0
  totalThrottles : Nat := 0
  totalWaitSeconds : ℚ := 0
  heldUntil : ℚ := 0
  quotas : Resource → Option QuotaState := fun _ => none

structure Report where
  remaining : Int
  resetEpoch : Option ℚ
  limit : Option Int
  used : Option Int
  deriving DecidableEq

inductive ReportLine where
  | skipped
  | malformed
  | numbers (report : Report)
  deriving DecidableEq

inductive Refresh where
  | failed (text : String)
  | answered (resources : List (Resource × ReportLine))

structure Outside where
  clock : Nat → ℚ
  readable : Nat → Bool
  writable : Nat → Bool
  refresh : Nat → Refresh

structure Desk where
  limiter : RateLimiter
  file : Option Ledger
  tick : Nat

abbrev Paced (α : Type) := Act Desk LimiterError α

def Desk.setLimiter (f : RateLimiter → RateLimiter) (d : Desk) : Desk :=
  { d with limiter := f d.limiter }

def Desk.ticked (d : Desk) : Desk := { d with tick := d.tick + 1 }

def margin : ℚ := 1

def clockSkewBound : ℚ := 5

section
variable (o : Outside)

def time : Paced ℚ := do
  let d ← world
  change Desk.ticked
  return o.clock d.tick

def RateLimiter.totals (l : RateLimiter) : Totals :=
  ⟨l.totalRequests, l.lastRequestEpoch, l.totalThrottles, l.totalWaitSeconds⟩

def RateLimiter.merged (l : RateLimiter) (onDisk : Resource → Option QuotaState)
    (totals : Totals) : RateLimiter :=
  { l with
    totalRequests := max l.totalRequests totals.requests
    lastRequestEpoch := max l.lastRequestEpoch totals.lastRequestEpoch
    totalThrottles := max l.totalThrottles totals.throttles
    totalWaitSeconds := max l.totalWaitSeconds totals.waitSeconds
    quotas := fun name => match onDisk name, l.quotas name with
      | some disk, some mem => some (mergeSingleQuota disk mem)
      | some disk, none => some disk
      | none, mem => mem }

def syncFromDiskLocked : Paced Unit := do
  let d ← world
  if d.limiter.persists then
    let now ← time o
    let read := if o.readable d.tick then d.file else none
    change (Desk.setLimiter fun l => l.merged (loadDiskQuota read now) (loadDiskGlobalMeta read))

/-- A file that cannot be written is one warning, and stays as it was. -/
def persistToDiskLocked : Paced Unit := do
  let d ← world
  if d.limiter.persists then
    change Desk.ticked
    if o.writable d.tick then
      change fun d => { d with file := some (saveDiskQuota d.limiter.quotas d.limiter.totals) }

def validateQuotaUpdateArgs (report : Report) : Except LimiterError Unit :=
  if report.remaining < 0 then .error (.valueError "remaining requests must be non-negative")
  else if report.limit.any fun n => decide (n < 0) then
    .error (.valueError "rate limit must be non-negative")
  else if report.used.any fun n => decide (n < 0) then
    .error (.valueError "used requests must be non-negative")
  else if report.resetEpoch.any fun e => decide (e < 0) then
    .error (.valueError "reset_epoch must be non-negative")
  else .ok ()

/-- The quota after a report: what the report does not know stays. -/
def applyQuotaUpdate (held : Option QuotaState) (report : Report) (now : ℚ) : QuotaState :=
  match held with
  | none => ⟨some report.remaining.toNat, report.limit.map Int.toNat, report.resetEpoch, some now,
      report.used.map Int.toNat, none⟩
  | some q => { q with
      remaining := some report.remaining.toNat
      resetEpoch := report.resetEpoch.or q.resetEpoch
      limit := (report.limit.map Int.toNat).or q.limit
      used := (report.used.map Int.toNat).or q.used
      lastUpdated := some now }

def RateLimiter.setQuota (name : Resource) (q : QuotaState) (l : RateLimiter) : RateLimiter :=
  { l with quotas := Function.update l.quotas name (some q) }

def applyQuotaUpdateLocked (name : Resource) (report : Report) (now : ℚ) : Paced Unit := do
  syncFromDiskLocked o
  change (Desk.setLimiter fun l => l.setQuota name (applyQuotaUpdate (l.quotas name) report now))
  persistToDiskLocked o

def updateQuota (name : Resource) (report : Report) : Paced Unit := do
  match validateQuotaUpdateArgs report with
  | .error e => raise e
  | .ok () =>
    let now ← time o
    applyQuotaUpdateLocked o name report now

def extractRateLimitEndpointResponse : List (Resource × ReportLine) → Paced (List (Resource × ℚ))
  | [] => return []
  | (name, line) :: rest => do
    match line with
    | .skipped => extractRateLimitEndpointResponse rest
    | .malformed => raise (.rateLimitError "Malformed rate limit metric")
    | .numbers report =>
      updateQuota o name report
      let resets ← extractRateLimitEndpointResponse rest
      return (report.resetEpoch.map fun reset => (name, reset)).toList ++ resets

def refreshFromGithub : Paced (List (Resource × ℚ)) := do
  let d ← world
  change Desk.ticked
  match o.refresh d.tick with
  | .failed text => raise (.refreshFailed text)
  | .answered resources => extractRateLimitEndpointResponse o resources

def refreshedQuotaState (name : Resource) : Paced QuotaState := do
  let started ← time o
  let resets ← refreshFromGithub o
  match resets.lookup name with
  | none => raise (.rateLimitError "GitHub's rate_limit answer has no such quota")
  | some reset =>
    if clockSkewBound < started - reset then
      raise (.rateLimitError "The local clock and GitHub's disagree")
    else
      let d ← world
      match d.limiter.quotas name with
      | some q => pure q
      | none => raise (.valueError "no such quota")

def resolveQuotaState (name : Resource) : Paced QuotaState := do
  syncFromDiskLocked o
  let d ← world
  let now ← time o
  match d.limiter.quotas name with
  | some q =>
    if q.isValid now (some d.limiter.quotaMaxAge) then pure q else refreshedQuotaState o name
  | none => refreshedQuotaState o name

def passedResetDelay (l : RateLimiter) (reset now : ℚ) : ℚ :=
  max (max l.minInterval (reset + margin - now)) 0

def calculateDelay (name : Resource) : Paced ℚ := do
  let q ← resolveQuotaState o name
  let now ← time o
  match q.resetEpoch, q.remaining with
  | none, _ => raise (.rateLimitError "reset_epoch is unknown")
  | _, none => raise (.rateLimitError "remaining requests is unknown")
  | some reset, some remaining =>
    let d ← world
    let timeLeft := reset - now
    if timeLeft ≤ 0 then pure (passedResetDelay d.limiter reset now)
    else
      match calculateRequestDelay timeLeft remaining with
      | .error e => raise e
      | .ok delay => pure (max d.limiter.minInterval delay)

def calculateTargetDelay (target : Resource) (isMutation : Bool) : Paced ℚ := do
  let delay ← calculateDelay o target
  let d ← world
  return if isMutation then max delay d.limiter.mutationMinInterval else delay

/-- The time of a request: after the last one of its resource and its delay, after every hold,
    and for a write after the last write of any resource. -/
structure Schedule where
  paced : ℚ
  scheduled : ℚ
  sleep : ℚ

def RateLimiter.schedule (l : RateLimiter) (target : Resource) (isMutation : Bool)
    (now delay : ℚ) : Schedule :=
  let held := (l.nextAllowedTime target).getD 0
  let passed := (l.quotas target).any fun q => q.resetEpoch.any fun reset => decide (reset ≤ now)
  let previous := if held < now || passed then now else held
  let paced := max (max now previous + delay) l.heldUntil
  let scheduled :=
    if isMutation then max paced (l.lastMutationEpoch + l.mutationMinInterval) else paced
  ⟨paced, scheduled, max 0 (scheduled - now)⟩

def RateLimiter.scheduleTaken (l : RateLimiter) (target : Resource) (isMutation : Bool) (now : ℚ)
    (at_ : Schedule) : RateLimiter :=
  { l with
    nextAllowedTime := Function.update l.nextAllowedTime target (some at_.paced)
    lastRequestEpoch := now + at_.sleep
    lastMutationEpoch := if isMutation then at_.scheduled else l.lastMutationEpoch }

def chargeQuota (name : Resource) (valid : QuotaState → Bool) (cost : Int) : Paced Bool := do
  let d ← world
  match d.limiter.quotas name with
  | none => pure false
  | some q =>
    if valid q then
      let charged ← time o
      match q.recordUtilization cost charged with
      | .error e => raise e
      | .ok q =>
        change (Desk.setLimiter (RateLimiter.setQuota name q))
        pure true
    else pure false

def countRequests (n : Nat) : Paced Unit :=
  change (Desk.setLimiter fun l => { l with totalRequests := l.totalRequests + n })

def acquireLocked (target : Resource) (isMutation : Bool) (cost : Int) : Paced ℚ := do
  syncFromDiskLocked o
  let now ← time o
  let delay ← calculateTargetDelay o target isMutation
  let d ← world
  let at_ := d.limiter.schedule target isMutation now delay
  change (Desk.setLimiter fun l => l.scheduleTaken target isMutation now at_)
  let _ ← chargeQuota o target (fun q => q.isValid now (some d.limiter.quotaMaxAge)) cost
  countRequests 1
  persistToDiskLocked o
  return at_.sleep

def acquire (target : Resource) (isMutation : Bool) (cost : Int) : Paced ℚ := do
  change (Desk.setLimiter fun l =>
    { l with requestsPaced := Function.update l.requestsPaced target (l.requestsPaced target + 1) })
  acquireLocked o target isMutation cost

def recordUtilizationLocked (name : Resource) (cost : Int) : Paced Unit := do
  let now ← time o
  let charged ← chargeQuota o name (fun q => q.isValid now none) cost
  countRequests (if charged then cost.toNat else 0)

def recordUtilization (name : Resource) (cost : Int) : Paced Unit := do
  syncFromDiskLocked o
  recordUtilizationLocked o name cost
  persistToDiskLocked o

/-- Writes the ledger without its lock and without a read of it. -/
def recordThrottle (waitSeconds : ℚ) : Paced Unit := do
  let wait := max 0 waitSeconds
  change (Desk.setLimiter fun l =>
    { l with
      totalThrottles := l.totalThrottles + 1
      totalWaitSeconds := l.totalWaitSeconds + wait })
  persistToDiskLocked o

def holdRequests (waitSeconds : ℚ) : Paced Unit := do
  let now ← time o
  change (Desk.setLimiter fun l => { l with heldUntil := max l.heldUntil (now + waitSeconds) })

inductive Section where
  | updateQuota (name : Resource) (report : Report)
  | recordUtilization (name : Resource) (cost : Int)
  | recordThrottle (waitSeconds : ℚ)

def Section.body : Section → Paced Unit
  | .updateQuota name report => GitHub.updateQuota o name report
  | .recordUtilization name cost => GitHub.recordUtilization o name cost
  | .recordThrottle wait => GitHub.recordThrottle o wait

structure Steady (inv : Desk → Prop) : Prop where
  ticked : ∀ d, inv d → inv d.ticked
  setQuota : ∀ d name q, inv d → inv (d.setLimiter (RateLimiter.setQuota name q))
  synced : Keeps inv (syncFromDiskLocked o)
  persisted : Keeps inv (persistToDiskLocked o)

section Steady
variable {o} {inv : Desk → Prop} (steady : Steady o inv)
include steady

theorem keeps_time : Keeps inv (time o) :=
  keeps_bind keeps_world fun _ => keeps_bind (keeps_change steady.ticked) fun _ => keeps_pure _

theorem keeps_updateQuota (name : Resource) (report : Report) :
    Keeps inv (updateQuota o name report) := by
  unfold updateQuota
  split
  · exact keeps_raise _
  · refine keeps_bind (keeps_time steady) fun now => ?_
    refine keeps_bind steady.synced fun _ => keeps_bind ?_ fun _ => steady.persisted
    exact keeps_change fun d => steady.setQuota d name _

theorem keeps_extract (resources : List (Resource × ReportLine)) :
    Keeps inv (extractRateLimitEndpointResponse o resources) := by
  induction resources with
  | nil => exact keeps_pure _
  | cons resource rest ih =>
    obtain ⟨name, line⟩ := resource
    cases line with
    | skipped => exact ih
    | malformed => exact keeps_raise _
    | numbers report =>
      exact keeps_bind (keeps_updateQuota steady name report) fun _ =>
        keeps_bind ih fun _ => keeps_pure _

theorem keeps_refresh : Keeps inv (refreshFromGithub o) := by
  refine keeps_bind keeps_world fun d => keeps_bind (keeps_change steady.ticked) fun _ => ?_
  split
  · exact keeps_raise _
  · exact keeps_extract steady _

theorem keeps_refreshed (name : Resource) : Keeps inv (refreshedQuotaState o name) := by
  refine keeps_bind (keeps_time steady) fun started => ?_
  refine keeps_bind (keeps_refresh steady) fun resets => ?_
  split
  · exact keeps_raise _
  · refine keeps_ite (keeps_raise _) (keeps_bind keeps_world fun d => ?_)
    split
    · exact keeps_pure _
    · exact keeps_raise _

theorem keeps_resolve (name : Resource) : Keeps inv (resolveQuotaState o name) := by
  refine keeps_bind steady.synced fun _ => keeps_bind keeps_world fun d => ?_
  refine keeps_bind (keeps_time steady) fun now => ?_
  split
  · exact keeps_ite (keeps_pure _) (keeps_refreshed steady name)
  · exact keeps_refreshed steady name

theorem keeps_calculateDelay (name : Resource) : Keeps inv (calculateDelay o name) := by
  refine keeps_bind (keeps_resolve steady name) fun q => ?_
  refine keeps_bind (keeps_time steady) fun now => ?_
  split
  · exact keeps_raise _
  · exact keeps_raise _
  · refine keeps_bind keeps_world fun d => keeps_ite (keeps_pure _) ?_
    split
    · exact keeps_raise _
    · exact keeps_pure _

theorem keeps_calculateTargetDelay (target : Resource) (isMutation : Bool) :
    Keeps inv (calculateTargetDelay o target isMutation) :=
  keeps_bind (keeps_calculateDelay steady target) fun _ =>
    keeps_bind keeps_world fun _ => keeps_pure _

theorem keeps_chargeQuota (name : Resource) (valid : QuotaState → Bool) (cost : Int) :
    Keeps inv (chargeQuota o name valid cost) := by
  refine keeps_bind keeps_world fun d => ?_
  split
  · exact keeps_pure _
  · refine keeps_ite (keeps_bind (keeps_time steady) fun charged => ?_) (keeps_pure _)
    split
    · exact keeps_raise _
    · exact keeps_bind (keeps_change fun d => steady.setQuota d name _) fun _ => keeps_pure _

section
variable (counted : ∀ d n, inv d → inv (d.setLimiter fun l =>
  { l with totalRequests := l.totalRequests + n }))
include counted

theorem keeps_recordUtilizationLocked (name : Resource) (cost : Int) :
    Keeps inv (recordUtilizationLocked o name cost) :=
  keeps_bind (keeps_time steady) fun _ =>
    keeps_bind (keeps_chargeQuota steady name _ cost) fun _ => keeps_change fun d => counted d _

theorem keeps_recordUtilization (name : Resource) (cost : Int) :
    Keeps inv (recordUtilization o name cost) :=
  keeps_bind steady.synced fun _ =>
    keeps_bind (keeps_recordUtilizationLocked steady counted name cost) fun _ => steady.persisted

end
end Steady
end
end DevopsCli.GitHub
