import DevopsCli.Lib.Run
import DevopsCli.GitHub.RateLimiter

/- Processes over one ledger file. A section under the lock of the ledger is one step, and so
   is the write of record_throttle, which is made without it. -/
namespace DevopsCli.GitHub
open Act Run

structure Shared (Process : Type) where
  file : Option Ledger
  limiters : Process → Option RateLimiter
  tick : Nat

inductive LedgerCall (Process : Type) where
  | init (process : Process) (minInterval mutationMinInterval quotaMaxAge : ℚ)
  | acquire (process : Process) (target : Resource) (isMutation : Bool) (cost : Int)
  | other (process : Process) (work : Section)

def LedgerCall.throttles {Process : Type} : LedgerCall Process → Nat
  | .other _ (.recordThrottle _) => 1
  | _ => 0

def throttleCalls {Process : Type} (calls : List (LedgerCall Process)) : Nat :=
  (calls.map LedgerCall.throttles).sum

def RateLimiter.init (minInterval mutationMinInterval quotaMaxAge : ℚ) : RateLimiter where
  persists := true
  minInterval := minInterval
  mutationMinInterval := mutationMinInterval
  quotaMaxAge := quotaMaxAge

namespace Shared
variable {Process : Type}

def ledger (s : Shared Process) : Totals := loadDiskGlobalMeta s.file

def start (file : Option Ledger) : Shared Process := ⟨file, fun _ => none, 0⟩

variable [DecidableEq Process] (o : Outside)

def turn {α : Type} (s : Shared Process) (process : Process) (l : RateLimiter) (act : Paced α) :
    Shared Process :=
  let d := (run act ⟨l, s.file, s.tick⟩).2
  ⟨d.file, Function.update s.limiters process (some d.limiter), d.tick⟩

def step (s : Shared Process) : LedgerCall Process → Option (Shared Process)
  | .init process minInterval mutationMinInterval quotaMaxAge =>
    let l := RateLimiter.init minInterval mutationMinInterval quotaMaxAge
    some (s.turn process l (syncFromDiskLocked o))
  | .acquire process target isMutation cost =>
    (s.limiters process).map fun l => s.turn process l (GitHub.acquire o target isMutation cost)
  | .other process work => (s.limiters process).map fun l => s.turn process l (work.body o)

end Shared

def RateLimiter.NotBehind (l : RateLimiter) (onDisk : Totals) : Prop :=
  onDisk.requests ≤ l.totalRequests ∧ onDisk.throttles ≤ l.totalThrottles

/-- A throttle is recorded by a process that is not behind the ledger, and is written. Another
    section reads the ledger, unless it is not behind. -/
def AtLedger {Process : Type} (o : Outside) (s : Shared Process) : LedgerCall Process → Prop
  | .init .. => True
  | .acquire process .. | .other process (.recordUtilization ..) =>
    ∀ l ∈ s.limiters process, o.readable s.tick = true ∨ l.NotBehind s.ledger
  -- update_quota reads the clock before the ledger.
  | .other process (.updateQuota ..) =>
    ∀ l ∈ s.limiters process, o.readable (s.tick + 1) = true ∨ l.NotBehind s.ledger
  | .other process (.recordThrottle _) =>
    ∀ l ∈ s.limiters process, o.writable s.tick = true ∧ l.NotBehind s.ledger

/-- A process that counts all throttles of the ledger and all of its requests. -/
structure InStep (requests throttles : Nat) (d : Desk) : Prop where
  persists : d.limiter.persists = true
  counted : d.limiter.totalThrottles = throttles
  onDisk : (loadDiskGlobalMeta d.file).throttles = throttles
  grown : requests ≤ (loadDiskGlobalMeta d.file).requests
  ahead : (loadDiskGlobalMeta d.file).requests ≤ d.limiter.totalRequests

section Sections
variable {o : Outside} {requests throttles : Nat} {l : RateLimiter} {file : Option Ledger} {n : Nat}

theorem run_sync (persists : l.persists = true) :
    run (syncFromDiskLocked o) ⟨l, file, n⟩ =
      let read := if o.readable n then file else none
      (.ok (), ⟨l.merged (loadDiskQuota read (o.clock n)) (loadDiskGlobalMeta read), file, n + 1⟩) := by
  simp [syncFromDiskLocked, time, run_bind, persists, Desk.ticked, Desk.setLimiter]

theorem run_persist (persists : l.persists = true) :
    run (persistToDiskLocked o) ⟨l, file, n⟩ =
      (.ok (), ⟨l, if o.writable n then some (saveDiskQuota l.quotas l.totals) else file, n + 1⟩) := by
  cases written : o.writable n <;>
    simp [persistToDiskLocked, run_bind, persists, written, Desk.ticked]

theorem sync_inStep (persists : l.persists = true)
    (behind : l.totalThrottles ≤ (loadDiskGlobalMeta file).throttles)
    (reads : o.readable n = true ∨ l.NotBehind (loadDiskGlobalMeta file)) :
    InStep (loadDiskGlobalMeta file).requests (loadDiskGlobalMeta file).throttles
      (run (syncFromDiskLocked o) ⟨l, file, n⟩).2 := by
  rw [run_sync persists]
  refine ⟨persists, ?_, rfl, le_rfl, ?_⟩
  · rcases reads with reads | ⟨_, counted⟩
    · simpa [RateLimiter.merged, reads] using behind
    · cases reads : o.readable n
      · simpa [RateLimiter.merged, reads, loadDiskGlobalMeta] using le_antisymm behind counted
      · simpa [RateLimiter.merged, reads] using behind
  · rcases reads with reads | ⟨ahead, _⟩
    · simp [RateLimiter.merged, reads]
    · simp [RateLimiter.merged, ahead]

theorem steady_inStep (o : Outside) (requests throttles : Nat) :
    Steady o (InStep requests throttles) where
  ticked _ at_ := ⟨at_.persists, at_.counted, at_.onDisk, at_.grown, at_.ahead⟩
  setQuota _ _ _ at_ := ⟨at_.persists, at_.counted, at_.onDisk, at_.grown, at_.ahead⟩
  synced := by
    intro d at_
    have same := sync_inStep (o := o) (n := d.tick) at_.persists (at_.counted.trans at_.onDisk.symm).le
      (.inr ⟨at_.ahead, (at_.onDisk.trans at_.counted.symm).le⟩)
    exact ⟨same.persists, same.counted.trans at_.onDisk, same.onDisk.trans at_.onDisk,
      at_.grown.trans same.grown, same.ahead⟩
  persisted := by
    intro d at_
    change InStep requests throttles (run (persistToDiskLocked o) ⟨d.limiter, d.file, d.tick⟩).2
    rw [run_persist at_.persists]
    cases o.writable d.tick
    · exact ⟨at_.persists, at_.counted, at_.onDisk, at_.grown, at_.ahead⟩
    · refine ⟨at_.persists, at_.counted, ?_, ?_, ?_⟩ <;> simp only [↓reduceIte, load_save_totals]
      · exact at_.counted
      · exact at_.grown.trans at_.ahead
      · exact le_rfl

theorem inStep_counts (d : Desk) (counted : Nat) (at_ : InStep requests throttles d) :
    InStep requests throttles (d.setLimiter fun l =>
      { l with totalRequests := l.totalRequests + counted }) :=
  ⟨at_.persists, at_.counted, at_.onDisk, at_.grown, at_.ahead.trans (Nat.le_add_right _ _)⟩

theorem inStep_of_bind {α : Type} {rest : Unit → Paced α} (persists : l.persists = true)
    (behind : l.totalThrottles ≤ (loadDiskGlobalMeta file).throttles)
    (reads : o.readable n = true ∨ l.NotBehind (loadDiskGlobalMeta file))
    (keeps : ∀ requests throttles, Keeps (InStep requests throttles) (rest ())) :
    InStep (loadDiskGlobalMeta file).requests (loadDiskGlobalMeta file).throttles
      (run (syncFromDiskLocked o >>= rest) ⟨l, file, n⟩).2 := by
  have first := sync_inStep persists behind reads
  rw [run_bind]
  rw [run_sync persists] at first ⊢
  exact keeps _ _ _ first

theorem acquireLocked_inStep (target : Resource) (isMutation : Bool) (cost : Int)
    (persists : l.persists = true)
    (behind : l.totalThrottles ≤ (loadDiskGlobalMeta file).throttles)
    (reads : o.readable n = true ∨ l.NotBehind (loadDiskGlobalMeta file)) :
    InStep (loadDiskGlobalMeta file).requests (loadDiskGlobalMeta file).throttles
      (run (acquireLocked o target isMutation cost) ⟨l, file, n⟩).2 := by
  refine inStep_of_bind persists behind reads fun requests throttles => ?_
  have steady := steady_inStep o requests throttles
  refine keeps_bind (keeps_time steady) fun now => ?_
  refine keeps_bind (keeps_calculateTargetDelay steady target isMutation) fun delay => ?_
  refine keeps_bind keeps_world fun d => keeps_bind (keeps_change fun d at_ => ?_) fun _ => ?_
  · exact ⟨at_.persists, at_.counted, at_.onDisk, at_.grown, at_.ahead⟩
  refine keeps_bind (keeps_chargeQuota steady target _ cost) fun _ => ?_
  refine keeps_bind (keeps_change fun d => inStep_counts d 1) fun _ => ?_
  exact keeps_bind steady.persisted fun _ => keeps_pure _

theorem recordUtilization_inStep (name : Resource) (cost : Int) (persists : l.persists = true)
    (behind : l.totalThrottles ≤ (loadDiskGlobalMeta file).throttles)
    (reads : o.readable n = true ∨ l.NotBehind (loadDiskGlobalMeta file)) :
    InStep (loadDiskGlobalMeta file).requests (loadDiskGlobalMeta file).throttles
      (run (recordUtilization o name cost) ⟨l, file, n⟩).2 :=
  inStep_of_bind persists behind reads fun requests throttles =>
    keeps_bind (keeps_recordUtilizationLocked (steady_inStep o requests throttles) inStep_counts
      name cost) fun _ => (steady_inStep o requests throttles).persisted

theorem updateQuota_inStep (name : Resource) (report : Report) (persists : l.persists = true)
    (behind : l.totalThrottles ≤ (loadDiskGlobalMeta file).throttles)
    (reads : o.readable (n + 1) = true ∨ l.NotBehind (loadDiskGlobalMeta file)) :
    let d := (run (updateQuota o name report) ⟨l, file, n⟩).2
    d = ⟨l, file, n⟩ ∨
      InStep (loadDiskGlobalMeta file).requests (loadDiskGlobalMeta file).throttles d := by
  simp only [updateQuota]
  split
  · exact .inl rfl
  · refine .inr ?_
    rw [run_bind]
    simp only [time, run_bind, run_world, run_change, run_pure, Desk.ticked]
    refine inStep_of_bind persists behind reads fun requests throttles => ?_
    have steady := steady_inStep o requests throttles
    exact keeps_bind (keeps_change fun d => steady.setQuota d name _) fun _ => steady.persisted

theorem run_recordThrottle (wait : ℚ) (persists : l.persists = true)
    (writes : o.writable n = true) :
    let l' := { l with
      totalThrottles := l.totalThrottles + 1
      totalWaitSeconds := l.totalWaitSeconds + max 0 wait }
    (run (recordThrottle o wait) ⟨l, file, n⟩).2 =
      ⟨l', some (saveDiskQuota l'.quotas l'.totals), n + 1⟩ := by
  simp only [recordThrottle, run_bind, run_change, Desk.setLimiter]
  rw [run_persist (by exact persists)]
  simp [writes]

end Sections

/-- No process counts more throttles than the ledger. -/
def Counted {Process : Type} (s : Shared Process) : Prop :=
  ∀ process l, s.limiters process = some l →
    l.persists = true ∧ l.totalThrottles ≤ s.ledger.throttles

theorem start_counted {Process : Type} (file : Option Ledger) :
    Counted (Shared.start file : Shared Process) := nofun

section Runs
variable {Process : Type} [DecidableEq Process] {o : Outside} {s t : Shared Process}

theorem turn_counted {α : Type} {process : Process} {l : RateLimiter} {act : Paced α}
    (counted : Counted s)
    (persists : (run act ⟨l, s.file, s.tick⟩).2.limiter.persists = true)
    (own : (run act ⟨l, s.file, s.tick⟩).2.limiter.totalThrottles ≤
      (s.turn process l act).ledger.throttles)
    (others : s.ledger.throttles ≤ (s.turn process l act).ledger.throttles) :
    Counted (s.turn process l act) := by
  intro other held found
  by_cases same : other = process
  · simp only [Shared.turn, same, Function.update_self, Option.some.injEq] at found
    exact found ▸ ⟨persists, own⟩
  · simp only [Shared.turn, Function.update_of_ne same] at found
    exact ⟨(counted other held found).1, (counted other held found).2.trans others⟩

theorem turn_unchanged {α : Type} {process : Process} {l : RateLimiter} {act : Paced α}
    (counted : Counted s) (held : s.limiters process = some l)
    (same : (run act ⟨l, s.file, s.tick⟩).2 = ⟨l, s.file, s.tick⟩) :
    Counted (s.turn process l act) ∧ s.ledger.requests ≤ (s.turn process l act).ledger.requests ∧
      (s.turn process l act).ledger.throttles = s.ledger.throttles := by
  have onDisk : (s.turn process l act).ledger = s.ledger := by
    simp only [Shared.turn, Shared.ledger, same]
  obtain ⟨persists, behind⟩ := counted process l held
  refine ⟨turn_counted counted ?_ ?_ ?_, ?_, ?_⟩ <;> simp only [same, onDisk, le_refl]
  · exact persists
  · exact behind

theorem turn_inStep {α : Type} {process : Process} {l : RateLimiter} {act : Paced α}
    (counted : Counted s)
    (ends : InStep s.ledger.requests s.ledger.throttles (run act ⟨l, s.file, s.tick⟩).2) :
    Counted (s.turn process l act) ∧ s.ledger.requests ≤ (s.turn process l act).ledger.requests ∧
      (s.turn process l act).ledger.throttles = s.ledger.throttles :=
  ⟨turn_counted counted ends.persists (ends.counted.trans ends.onDisk.symm).le ends.onDisk.ge,
    ends.grown, ends.onDisk⟩

theorem init_counts {l : RateLimiter} (process : Process) (counted : Counted s)
    (persists : l.persists = true) (fresh : l.totalThrottles = 0) :
    Counted (s.turn process l (syncFromDiskLocked o)) ∧
      (s.turn process l (syncFromDiskLocked o)).ledger = s.ledger := by
  have same : (s.turn process l (syncFromDiskLocked o)).ledger = s.ledger := by
    simp only [Shared.turn, Shared.ledger, run_sync persists]
  refine ⟨turn_counted counted ?_ ?_ (by rw [same]), same⟩
  · rw [run_sync persists]
    exact persists
  · rw [same, run_sync persists]
    cases read : o.readable s.tick
    · simp [RateLimiter.merged, fresh, loadDiskGlobalMeta]
    · simp [RateLimiter.merged, fresh, Shared.ledger]

theorem recordThrottle_onDisk {l : RateLimiter} (process : Process) (wait : ℚ)
    (persists : l.persists = true) (writes : o.writable s.tick = true) :
    (s.turn process l (recordThrottle o wait)).ledger.requests = l.totalRequests ∧
      (s.turn process l (recordThrottle o wait)).ledger.throttles = l.totalThrottles + 1 := by
  simp only [Shared.turn, Shared.ledger, run_recordThrottle wait persists writes, load_save_totals]
  exact ⟨rfl, rfl⟩

theorem recordThrottle_counted {l : RateLimiter} {process : Process} (wait : ℚ)
    (counted : Counted s) (persists : l.persists = true) (writes : o.writable s.tick = true)
    (level : s.ledger.throttles ≤ l.totalThrottles) :
    Counted (s.turn process l (recordThrottle o wait)) := by
  obtain ⟨_, throttles⟩ := recordThrottle_onDisk process wait persists writes
  refine turn_counted counted ?_ ?_ ?_
  · rw [run_recordThrottle wait persists writes]
    exact persists
  · rw [run_recordThrottle wait persists writes, throttles]
  · omega

/-- A throttle that is written counts on disk just when its process is not behind the ledger. -/
theorem throttle_counts_iff {l : RateLimiter} {process : Process} (wait : ℚ)
    (persists : l.persists = true) (writes : o.writable s.tick = true)
    (behind : l.totalThrottles ≤ s.ledger.throttles) :
    let t := s.turn process l (recordThrottle o wait)
    s.ledger.requests ≤ t.ledger.requests ∧ t.ledger.throttles = s.ledger.throttles + 1 ↔
      l.NotBehind s.ledger := by
  obtain ⟨requests, throttles⟩ := recordThrottle_onDisk process wait persists writes
  simp only [RateLimiter.NotBehind]
  omega

theorem step_counts {call : LedgerCall Process} (counted : Counted s)
    (atLedger : AtLedger o s call) (taken : s.step o call = some t) :
    Counted t ∧ s.ledger.requests ≤ t.ledger.requests ∧
      t.ledger.throttles = s.ledger.throttles + call.throttles := by
  cases call with
  | init process minInterval mutationMinInterval quotaMaxAge =>
    obtain rfl := Option.some.inj taken
    obtain ⟨still, same⟩ := init_counts (o := o) process counted
      (l := RateLimiter.init minInterval mutationMinInterval quotaMaxAge) rfl rfl
    exact ⟨still, by rw [same], by rw [same]; rfl⟩
  | acquire process target isMutation cost =>
    simp only [Shared.step, Option.map_eq_some_iff] at taken
    obtain ⟨l, held, rfl⟩ := taken
    obtain ⟨persists, behind⟩ := counted process l held
    exact turn_inStep counted
      (acquireLocked_inStep target isMutation cost persists behind (atLedger l held))
  | other process work =>
    simp only [Shared.step, Option.map_eq_some_iff] at taken
    obtain ⟨l, held, rfl⟩ := taken
    obtain ⟨persists, behind⟩ := counted process l held
    cases work with
    | updateQuota name report =>
      rcases updateQuota_inStep name report persists behind (atLedger l held) with same | ends
      · exact turn_unchanged counted held same
      · exact turn_inStep counted ends
    | recordUtilization name cost =>
      exact turn_inStep counted
        (recordUtilization_inStep name cost persists behind (atLedger l held))
    | recordThrottle wait =>
      obtain ⟨writes, notBehind⟩ := atLedger l held
      exact ⟨recordThrottle_counted wait counted persists writes notBehind.2,
        (throttle_counts_iff wait persists writes behind).mpr notBehind⟩

theorem run_counts {calls : List (LedgerCall Process)} (counted : Counted s)
    (atLedger : Meets (Shared.step o) (AtLedger o) s calls)
    (ran : exec (Shared.step o) s calls = some t) :
    Counted t ∧ s.ledger.requests ≤ t.ledger.requests ∧
      t.ledger.throttles = s.ledger.throttles + throttleCalls calls := by
  induction calls generalizing s with
  | nil =>
    simp only [exec_nil, Option.some.injEq] at ran
    exact ran ▸ ⟨counted, le_rfl, rfl⟩
  | cons call calls ih =>
    obtain ⟨u, taken, rest⟩ := exec_cons.mp ran
    obtain ⟨counted, grown, throttles⟩ := step_counts counted atLedger.1 taken
    obtain ⟨counted, grown', throttles'⟩ := ih counted (atLedger.2 u taken) rest
    refine ⟨counted, grown.trans grown', ?_⟩
    simp only [throttleCalls, List.map_cons, List.sum_cons] at throttles' ⊢
    omega

/-- Where every throttle is recorded by a process that is not behind the ledger, the totals on
    disk never decrease and count every record_throttle. -/
theorem ledger_loses_no_update (o : Outside) (file : Option Ledger)
    (before after : List (LedgerCall Process)) (s t : Shared Process)
    (atLedger : Meets (Shared.step o) (AtLedger o) (Shared.start file) (before ++ after))
    (ran : exec (Shared.step o) (Shared.start file) before = some s)
    (goes : exec (Shared.step o) s after = some t) :
    s.ledger.requests ≤ t.ledger.requests ∧ s.ledger.throttles ≤ t.ledger.throttles ∧
      t.ledger.throttles =
        (loadDiskGlobalMeta file).throttles + throttleCalls (before ++ after) := by
  obtain ⟨first, second⟩ := (meets_append ran).mp atLedger
  obtain ⟨counted, _, throttles⟩ := run_counts (start_counted file) first ran
  obtain ⟨_, grown, throttles'⟩ := run_counts counted second goes
  refine ⟨grown, by omega, ?_⟩
  rw [throttles', throttles]
  simp only [throttleCalls, List.map_append, List.sum_append, Nat.add_assoc]
  rfl

end Runs

def steadyDisk : Outside where
  clock _ := 0
  readable _ := true
  writable _ := true
  refresh _ := .failed "offline"

instance (l : RateLimiter) (onDisk : Totals) : Decidable (l.NotBehind onDisk) :=
  inferInstanceAs (Decidable (_ ∧ _))

instance {Process : Type} (o : Outside) (s : Shared Process) :
    (call : LedgerCall Process) → Decidable (AtLedger o s call)
  | .init .. => .isTrue trivial
  | .acquire process .. | .other process (.recordUtilization ..) =>
    inferInstanceAs (Decidable (∀ l ∈ s.limiters process,
      o.readable s.tick = true ∨ l.NotBehind s.ledger))
  | .other process (.updateQuota ..) =>
    inferInstanceAs (Decidable (∀ l ∈ s.limiters process,
      o.readable (s.tick + 1) = true ∨ l.NotBehind s.ledger))
  | .other process (.recordThrottle _) =>
    inferInstanceAs (Decidable (∀ l ∈ s.limiters process,
      o.writable s.tick = true ∧ l.NotBehind s.ledger))

/-- Two processes record a throttle each; the second reads the ledger between the two. -/
theorem ledger_loses_no_update_reached : ∃ s : Shared Bool, s.ledger.throttles = 2 := by
  let calls : List (LedgerCall Bool) :=
    [.init false 0 1 3600, .init true 0 1 3600, .other false (.recordThrottle 5),
      .other true (.recordUtilization "core" 0), .other true (.recordThrottle 5)]
  have atLedger : Meets (Shared.step steadyDisk) (AtLedger steadyDisk) (Shared.start none) calls := by
    decide +kernel
  have reached : (exec (Shared.step steadyDisk) (Shared.start none) calls).isSome = true := by
    decide +kernel
  obtain ⟨s, ran⟩ := Option.isSome_iff_exists.mp reached
  exact ⟨s, (ledger_loses_no_update steadyDisk none [] calls (Shared.start none) s atLedger rfl
    ran).2.2⟩

/-- Two processes read an empty ledger, and each records one throttle. -/
theorem ledger_loses_throttle :
    ¬ ∀ (o : Outside) (calls : List (LedgerCall Bool)) (s : Shared Bool),
      exec (Shared.step o) (Shared.start none) calls = some s →
      s.ledger.throttles = throttleCalls calls := by
  intro counts
  let calls : List (LedgerCall Bool) :=
    [.init false 0 1 3600, .init true 0 1 3600, .other false (.recordThrottle 5),
      .other true (.recordThrottle 5)]
  have reached : (exec (Shared.step steadyDisk) (Shared.start none) calls).any
      (fun s => decide (s.ledger.throttles = 1)) = true := by decide +kernel
  obtain ⟨s, ran, once⟩ := (Option.any_eq_true _ _).mp reached
  have twice := counts steadyDisk calls s ran
  rw [of_decide_eq_true once] at twice
  exact absurd twice (by decide)

end DevopsCli.GitHub
