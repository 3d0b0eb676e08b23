import DevopsCli.GitHub.Pacing

/- The slots of writes, which all resources share, and those of reads, which follow the resource
   alone. -/
namespace DevopsCli.GitHub
open Act

section Rest
variable (o : Outside)

def delayOfQuota (q : QuotaState) : Paced ℚ := do
  let now ← time o
  match q.resetEpoch, q.remaining with
  | none, _ => raise (.rateLimitError "reset_epoch is unknown")
  | _, none => raise (.rateLimitError "remaining requests is unknown")
  | some reset, some remaining =>
    let d ← world
    let timeLeft := reset - now
    if timeLeft ≤ 0 then pure (passedResetDelay d.limiter reset now)
    else
      match calculateRequestDelay timeLeft remaining with
      | .error e => raise e
      | .ok delay => pure (max d.limiter.minInterval delay)

def acquireSlot (target : Resource) (isMutation : Bool) (cost : Int) (now : ℚ) (q : QuotaState) :
    Paced ℚ := do
  let delay ← delayOfQuota o q
  let d ← world
  let delay := if isMutation then max delay d.limiter.mutationMinInterval else delay
  let d ← world
  let at_ := d.limiter.schedule target isMutation now delay
  change (Desk.setLimiter fun l => l.scheduleTaken target isMutation now at_)
  let _ ← chargeQuota o target (fun q => q.isValid now (some d.limiter.quotaMaxAge)) cost
  countRequests 1
  persistToDiskLocked o
  return at_.sleep

theorem acquire_eq (target : Resource) (isMutation : Bool) (cost : Int) :
    acquire o target isMutation cost =
      acquireQuota o target >>= fun found => acquireSlot o target isMutation cost found.1 found.2 := by
  have delayed (name : Resource) :
      calculateDelay o name = resolveQuotaState o name >>= delayOfQuota o := rfl
  simp only [acquire, acquireLocked, acquireQuota, acquireSlot, calculateTargetDelay, delayed,
    bind_assoc, pure_bind]

end Rest

def RateLimiter.delayFor (l : RateLimiter) (q : QuotaState) (isMutation : Bool) (now : ℚ) :
    Option ℚ :=
  match q.resetEpoch, q.remaining with
  | some reset, some remaining => some (l.delayOf reset remaining isMutation now)
  | _, _ => none

def RateLimiter.refuses (l : RateLimiter) (q : QuotaState) (cost : Int) (now : ℚ) : Bool :=
  q.isValid now (some l.quotaMaxAge) && decide (cost < 0)

/-- How a call ends that found its quota: it takes its slot, also when its charge is refused, and
    it takes none where the quota gives no delay. -/
structure Slotted (o : Outside) (l : RateLimiter) (n : Nat) (target : Resource) (isMutation : Bool)
    (cost : Int) (now later : ℚ) (q : QuotaState) (result : Except LimiterError ℚ) (d : Desk) :
    Prop where
  unknown : l.delayFor q isMutation later = none → Scheduled l n d ∧ result.toOption = none
  taken : ∀ delay, l.delayFor q isMutation later = some delay →
    Scheduled (l.scheduleTaken target isMutation now
      ((l.setQuota target q).schedule target isMutation now delay)) n d ∧
    result.toOption.isSome = !l.refuses q cost now

section Sections
variable {o : Outside} {d : Desk} {l : RateLimiter} {n : Nat} {target : Resource}
  {isMutation : Bool} {cost : Int}

theorem keeps_delayOfQuota {inv : Desk → Prop} (ticked : ∀ d, inv d → inv d.ticked)
    (q : QuotaState) : Keeps inv (delayOfQuota o q) := by
  have reading : Keeps inv (time o) :=
    keeps_bind keeps_world fun _ => keeps_bind (keeps_change ticked) fun _ => keeps_pure _
  refine keeps_bind reading fun now => ?_
  split
  · exact keeps_raise _
  · exact keeps_raise _
  · refine keeps_bind keeps_world fun d => keeps_ite (keeps_pure _) ?_
    split
    · exact keeps_raise _
    · exact keeps_pure _

theorem keeps_acquireQuota {inv : Desk → Prop} (steady : Steady o inv) (target : Resource)
    (paced : ∀ (d : Desk) (paced : RateLimiter → Resource → Nat), inv d →
      inv (d.setLimiter fun l => { l with requestsPaced := paced l })) :
    Keeps inv (acquireQuota o target) :=
  keeps_bind (keeps_change fun d at_ => paced d _ at_) fun _ => keeps_bind steady.synced fun _ =>
    keeps_bind (keeps_time steady) fun _ => keeps_bind (keeps_resolve steady target) fun _ =>
      keeps_pure _

theorem run_delayOfQuota (q : QuotaState) (isMutation : Bool) (d : Desk) :
    (∃ e, run (delayOfQuota o q) d = (.error e, d.ticked) ∧
      d.limiter.delayFor q isMutation (o.clock d.tick) = none) ∨
    ∃ delay, run (delayOfQuota o q) d = (.ok delay, d.ticked) ∧
      d.limiter.delayFor q isMutation (o.clock d.tick) =
        some (if isMutation then max delay d.limiter.mutationMinInterval else delay) := by
  rw [delayOfQuota, run_bind, run_time]
  dsimp only
  rcases resets : q.resetEpoch with _ | reset
  · exact Or.inl ⟨_, rfl, by simp [RateLimiter.delayFor, resets]⟩
  rcases remains : q.remaining with _ | remaining
  · exact Or.inl ⟨_, rfl, by simp [RateLimiter.delayFor, remains]⟩
  right
  dsimp only
  rw [run_bind, run_world]
  dsimp only
  by_cases passed : reset - o.clock d.tick ≤ 0
  · refine ⟨_, by rw [if_pos passed, run_pure], ?_⟩
    simp only [RateLimiter.delayFor, resets, remains, RateLimiter.delayOf, passed, ↓reduceIte]
    rfl
  · refine ⟨_, by rw [if_neg passed, requestDelay_ok (lt_of_not_ge passed), run_pure], ?_⟩
    simp only [RateLimiter.delayFor, resets, remains, RateLimiter.delayOf, passed, ↓reduceIte]
    rfl

theorem charge_refuses {q : QuotaState} {valid : QuotaState → Bool}
    (held : d.limiter.quotas target = some q) :
    (run (chargeQuota o target valid cost) d).1.toOption.isSome =
      !(valid q && decide (cost < 0)) := by
  rw [chargeQuota, run_bind, run_world]
  dsimp only
  rw [held]
  dsimp only
  cases valid q with
  | false => rfl
  | true =>
    rw [if_pos rfl, run_bind, run_time]
    dsimp only
    rw [QuotaState.recordUtilization]
    by_cases negative : cost < 0
    · rw [if_pos negative, run_raise, decide_eq_true negative]
      rfl
    · rw [if_neg negative, run_bind, run_change, decide_eq_false negative]
      rfl

theorem persist_returns (d : Desk) : (run (persistToDiskLocked o) d).1 = .ok () := by
  rw [persistToDiskLocked, run_bind, run_world]
  dsimp only
  split
  · rw [run_bind, run_change]
    dsimp only
    split
    · rfl
    · rfl
  · rfl

theorem Scheduled.delayFor (at_ : Scheduled l n d) (q : QuotaState) (now : ℚ) :
    d.limiter.delayFor q isMutation now = l.delayFor q isMutation now := by
  rcases resets : q.resetEpoch with _ | reset
  · simp [RateLimiter.delayFor, resets]
  rcases remains : q.remaining with _ | remaining
  · simp [RateLimiter.delayFor, remains]
  simp only [RateLimiter.delayFor, resets, remains]
  rw [delayOf_congr at_.minInterval at_.mutationMinInterval]

theorem Scheduled.schedule (at_ : Scheduled l n d) {q : QuotaState} (isMutation : Bool)
    (held : d.limiter.quotas target = some q) (now delay : ℚ) :
    d.limiter.schedule target isMutation now delay =
      (l.setQuota target q).schedule target isMutation now delay := by
  have next : d.limiter.nextAllowedTime target = (l.setQuota target q).nextAllowedTime target :=
    congrFun at_.next target
  refine schedule_congr next ?_ at_.held ?_ now delay
  · exact held.trans (setQuota_self l target q).symm
  · exact fun _ => ⟨at_.write, at_.mutationMinInterval⟩

theorem charged_ends {valid : QuotaState → Bool} {q : QuotaState} {sleep : ℚ}
    (at_ : Scheduled l n d) (held : d.limiter.quotas target = some q) :
    let ended := run (do
      let _ ← chargeQuota o target valid cost
      countRequests 1
      persistToDiskLocked o
      return sleep) d
    Scheduled l n ended.2 ∧ ended.1.toOption.isSome = !(valid q && decide (cost < 0)) := by
  have steady := steady_scheduled o l n
  have kept : Keeps (Scheduled l n) (do
      let _ ← chargeQuota o target valid cost
      countRequests 1
      persistToDiskLocked o
      return sleep) :=
    keeps_bind (keeps_chargeQuota steady target _ cost) fun _ =>
      keeps_bind (keeps_change fun _ at_ => { at_ with }) fun _ =>
        keeps_bind steady.persisted fun _ => keeps_pure _
  refine ⟨kept d at_, ?_⟩
  rw [← charge_refuses (o := o) held, run_bind]
  generalize run (chargeQuota o target valid cost) d = charged
  obtain ⟨e | charged, v⟩ := charged
  · rfl
  · dsimp only
    rw [run_bind, countRequests, run_change]
    dsimp only
    rw [run_bind]
    have persisted := persist_returns (o := o)
      (v.setLimiter fun l => { l with totalRequests := l.totalRequests + 1 })
    generalize run (persistToDiskLocked o) _ = ended at persisted
    obtain ⟨result, w⟩ := ended
    obtain rfl := persisted
    rfl

theorem acquireSlot_slotted {now : ℚ} {q : QuotaState} (at_ : Scheduled l n d)
    (held : d.limiter.quotas target = some q) :
    Slotted o l n target isMutation cost now (o.clock d.tick) q
      (run (acquireSlot o target isMutation cost now q) d).1
      (run (acquireSlot o target isMutation cost now q) d).2 := by
  rw [acquireSlot, run_bind]
  rcases run_delayOfQuota (o := o) q isMutation d with
    ⟨e, delayed, unknown⟩ | ⟨delay, delayed, known⟩
  · rw [delayed]
    rw [at_.delayFor] at unknown
    refine ⟨fun _ => ⟨at_.ticked, rfl⟩, fun delay known => ?_⟩
    exact absurd (unknown.symm.trans known) (Option.some_ne_none delay).symm
  · rw [delayed]
    rw [at_.delayFor] at known
    refine ⟨fun unknown => ?_, fun delay' same => ?_⟩
    · exact absurd (unknown.symm.trans known) (Option.some_ne_none _).symm
    · obtain rfl := Option.some.inj (known.symm.trans same)
      dsimp only
      rw [run_bind, run_world]
      dsimp only
      rw [run_bind, run_world]
      dsimp only
      rw [run_bind, run_change]
      dsimp only
      have slot := at_.ticked.schedule (q := q) isMutation held now
        (if isMutation then max delay d.ticked.limiter.mutationMinInterval else delay)
      have taken := at_.ticked.taken target isMutation now
        ((l.setQuota target q).schedule target isMutation now
          (if isMutation then max delay d.limiter.mutationMinInterval else delay))
      have age : d.ticked.limiter.quotaMaxAge = l.quotaMaxAge := at_.quotaMaxAge
      rw [RateLimiter.refuses, ← age, slot]
      exact charged_ends taken held

theorem acquire_slotted (d : Desk) (isMutation : Bool) (cost : Int) {found : ℚ × QuotaState} {v : Desk}
    (ended : run (acquireQuota o target) d = (.ok found, v)) :
    Slotted o d.limiter d.tick target isMutation cost found.1 (o.clock v.tick) found.2
      (run (acquire o target isMutation cost) d).1 (run (acquire o target isMutation cost) d).2 := by
  have quota := keeps_acquireQuota (steady_scheduled o d.limiter d.tick) target
    (fun d f at_ => { at_ with }) d (Scheduled.refl d)
  rw [ended] at quota
  rw [acquire_eq, run_bind, ended]
  refine acquireSlot_slotted quota ?_
  obtain ⟨_, v₁, -, ended⟩ := run_bind_ok.mp ended
  obtain ⟨_, v₂, -, ended⟩ := run_bind_ok.mp ended
  obtain ⟨now, v₃, -, ended⟩ := run_bind_ok.mp ended
  obtain ⟨q, v₄, resolved, ended⟩ := run_bind_ok.mp ended
  obtain ⟨same, rfl⟩ := Prod.mk.inj ended
  obtain rfl := Except.ok.inj same
  exact resolve_holds resolved

theorem acquire_unfound (d : Desk) (isMutation : Bool) (cost : Int) {e : LimiterError} {v : Desk}
    (ended : run (acquireQuota o target) d = (.error e, v)) :
    Scheduled d.limiter d.tick (run (acquire o target isMutation cost) d).2 ∧
      (run (acquire o target isMutation cost) d).1.toOption = none := by
  have quota := keeps_acquireQuota (steady_scheduled o d.limiter d.tick) target
    (fun d f at_ => { at_ with }) d (Scheduled.refl d)
  rw [ended] at quota
  rw [acquire_eq, run_bind, ended]
  exact ⟨quota, rfl⟩

end Sections

structure Granted where
  target : Resource
  isMutation : Bool
  scheduled : ℚ
  deriving DecidableEq

inductive Turn where
  | acquire (target : Resource) (isMutation : Bool) (cost : Int)
  | hold (wait : ℚ)
  | work (section_ : Section)
  | ledger (file : Option Ledger)

def scheduledTime (target : Resource) (isMutation : Bool) (d : Desk) : ℚ :=
  if isMutation then d.limiter.lastMutationEpoch else (d.limiter.nextAllowedTime target).getD 0

def Turn.play (o : Outside) (s : Desk × List Granted) : Turn → Desk × List Granted
  | .acquire target isMutation cost =>
    match run (GitHub.acquire o target isMutation cost) s.1 with
    | (.ok _, d) => (d, s.2 ++ [⟨target, isMutation, scheduledTime target isMutation d⟩])
    | (.error _, d) => (d, s.2)
  | .hold wait => ((run (holdRequests o wait) s.1).2, s.2)
  | .work section_ => ((run (section_.body o) s.1).2, s.2)
  | .ledger file => ({ s.1 with file := file }, s.2)

def playAll (o : Outside) (s : Desk × List Granted) (turns : List Turn) : Desk × List Granted :=
  turns.foldl (Turn.play o) s

/-- What the schedule of one resource rests on: no write slot. -/
structure Lane where
  next : Option ℚ
  heldUntil : ℚ
  minInterval : ℚ
  mutationMinInterval : ℚ
  quotaMaxAge : ℚ
  deriving DecidableEq

def RateLimiter.lane (l : RateLimiter) (target : Resource) : Lane :=
  ⟨l.nextAllowedTime target, l.heldUntil, l.minInterval, l.mutationMinInterval, l.quotaMaxAge⟩

def Lane.limiter (lane : Lane) : RateLimiter where
  persists := false
  minInterval := lane.minInterval
  mutationMinInterval := lane.mutationMinInterval
  quotaMaxAge := lane.quotaMaxAge
  nextAllowedTime _ := lane.next
  heldUntil := lane.heldUntil

/-- What a resource sees of a run: the holds, and its own calls with their readings of the clock
    and the quota that each found. -/
inductive Sight where
  | hold (until_ : ℚ)
  | call (isMutation : Bool) (cost : Int) (now later : ℚ) (q : QuotaState)
  deriving DecidableEq

def Lane.step (target : Resource) (lane : Lane) : Sight → Lane × List ℚ
  | .hold until_ => ({ lane with heldUntil := max lane.heldUntil until_ }, [])
  | .call isMutation cost now later q =>
    match lane.limiter.delayFor q isMutation later with
    | none => (lane, [])
    | some delay =>
      let paced := ((lane.limiter.setQuota target q).schedule target isMutation now delay).paced
      ({ lane with next := some paced },
        if isMutation || lane.limiter.refuses q cost now then [] else [paced])

def Lane.reads (target : Resource) : Lane → List Sight → List ℚ
  | _, [] => []
  | lane, sight :: rest => (lane.step target sight).2 ++ (lane.step target sight).1.reads target rest

def Turn.sights (o : Outside) (target : Resource) (d : Desk) : Turn → List Sight
  | .acquire resource isMutation cost =>
    if resource = target then
      match run (acquireQuota o target) d with
      | (.ok (now, q), v) => [.call isMutation cost now (o.clock v.tick) q]
      | (.error _, _) => []
    else []
  | .hold wait => [.hold (o.clock d.tick + wait)]
  | .work _ => []
  | .ledger _ => []

def sights (o : Outside) (target : Resource) : Desk → List Turn → List Sight
  | _, [] => []
  | d, turn :: rest => turn.sights o target d ++ sights o target (turn.play o (d, [])).1 rest

def readsOf (target : Resource) (granted : List Granted) : List ℚ :=
  (granted.filter fun g => g.target = target ∧ g.isMutation = false).map Granted.scheduled

/-- The writes granted so far are an interval apart, and none is after the last write. -/
structure WritesApart (interval : ℚ) (s : Desk × List Granted) : Prop where
  same_interval : s.1.limiter.mutationMinInterval = interval
  apart : s.2.Pairwise fun a b =>
    a.isMutation = true → b.isMutation = true → a.scheduled + interval ≤ b.scheduled
  last : ∀ a ∈ s.2, a.isMutation = true → a.scheduled ≤ s.1.limiter.lastMutationEpoch

section Apart
variable {o : Outside} {interval : ℚ} {s : Desk × List Granted} {d : Desk}

theorem slot_interval (l : RateLimiter) (target : Resource) (now delay : ℚ) :
    l.lastMutationEpoch + l.mutationMinInterval ≤ (l.schedule target true now delay).scheduled :=
  le_max_right _ _

theorem WritesApart.later (apart : WritesApart interval s)
    (same : d.limiter.mutationMinInterval = s.1.limiter.mutationMinInterval)
    (later : s.1.limiter.lastMutationEpoch ≤ d.limiter.lastMutationEpoch) :
    WritesApart interval (d, s.2) :=
  ⟨same.trans apart.same_interval, apart.apart, fun a member write =>
    (apart.last a member write).trans later⟩

theorem WritesApart.read (apart : WritesApart interval s) (g : Granted)
    (reads : g.isMutation = false) : WritesApart interval (s.1, s.2 ++ [g]) := by
  refine ⟨apart.same_interval, ?_, fun a member write => ?_⟩
  · refine List.pairwise_append.mpr ⟨apart.apart, List.pairwise_singleton _ _, ?_⟩
    rintro a - b single - write
    rw [List.mem_singleton.mp single, reads] at write
    exact absurd write Bool.false_ne_true
  · rcases List.mem_append.mp member with earlier | single
    · exact apart.last a earlier write
    · rw [List.mem_singleton.mp single, reads] at write
      exact absurd write Bool.false_ne_true

theorem WritesApart.write (apart : WritesApart interval s) (positive : 0 ≤ interval)
    (target : Resource) (same : d.limiter.mutationMinInterval = s.1.limiter.mutationMinInterval)
    (after : s.1.limiter.lastMutationEpoch + s.1.limiter.mutationMinInterval ≤
      d.limiter.lastMutationEpoch) :
    WritesApart interval (d, s.2 ++ [⟨target, true, d.limiter.lastMutationEpoch⟩]) := by
  rw [apart.same_interval] at after
  refine ⟨same.trans apart.same_interval, ?_, fun a member write => ?_⟩
  · refine List.pairwise_append.mpr ⟨apart.apart, List.pairwise_singleton _ _, ?_⟩
    rintro a earlier b single write -
    rw [List.mem_singleton.mp single]
    have := apart.last a earlier write
    dsimp only
    linarith
  · rcases List.mem_append.mp member with earlier | single
    · have := apart.last a earlier write
      dsimp only
      linarith
    · rw [List.mem_singleton.mp single]

theorem section_scheduled (work : Section) (l : RateLimiter) (n : Nat) :
    Keeps (Scheduled l n) (work.body o) := by
  have steady := steady_scheduled o l n
  cases work with
  | updateQuota name report => exact keeps_updateQuota steady name report
  | recordUtilization name cost =>
    exact keeps_recordUtilization steady (fun _ _ at_ => { at_ with }) name cost
  | recordThrottle wait =>
    exact keeps_bind (keeps_change fun _ at_ => { at_ with }) fun _ => steady.persisted

theorem play_acquire (target : Resource) (isMutation : Bool) (cost : Int) :
    (Turn.acquire target isMutation cost).play o s =
      let ended := run (acquire o target isMutation cost) s.1
      (ended.2, s.2 ++ if ended.1.toOption.isSome then
        [⟨target, isMutation, scheduledTime target isMutation ended.2⟩] else []) := by
  rw [Turn.play]
  generalize run (acquire o target isMutation cost) s.1 = ended
  obtain ⟨_ | sleep, d⟩ := ended
  · simp [Except.toOption]
  · rfl

theorem Slotted.apart {n : Nat} {target : Resource} {isMutation : Bool} {cost : Int}
    {now later : ℚ} {q : QuotaState} {result : Except LimiterError ℚ}
    (slotted : Slotted o s.1.limiter n target isMutation cost now later q result d)
    (apart : WritesApart interval s) (positive : 0 ≤ interval) :
    WritesApart interval (d, s.2 ++ if result.toOption.isSome then
      [⟨target, isMutation, scheduledTime target isMutation d⟩] else []) := by
  rcases known : s.1.limiter.delayFor q isMutation later with _ | delay
  · obtain ⟨kept, raised⟩ := slotted.unknown known
    rw [raised, Option.isSome_none, if_neg Bool.false_ne_true, List.append_nil]
    exact apart.later kept.mutationMinInterval kept.write.ge
  · obtain ⟨kept, -⟩ := slotted.taken delay known
    have same : d.limiter.mutationMinInterval = s.1.limiter.mutationMinInterval :=
      kept.mutationMinInterval
    cases isMutation with
    | false =>
      have stayed := apart.later same kept.write.ge
      split
      · exact stayed.read _ rfl
      · rwa [List.append_nil]
    | true =>
      have after : s.1.limiter.lastMutationEpoch + s.1.limiter.mutationMinInterval ≤
          d.limiter.lastMutationEpoch :=
        (slot_interval (s.1.limiter.setQuota target q) target now delay).trans kept.write.ge
      split
      · exact apart.write positive target same after
      · rw [List.append_nil]
        have := apart.same_interval
        exact apart.later same (by linarith)

theorem play_apart (positive : 0 ≤ interval) (apart : WritesApart interval s) (turn : Turn) :
    WritesApart interval (turn.play o s) := by
  cases turn with
  | acquire target isMutation cost =>
    rw [play_acquire]
    rcases ended : run (acquireQuota o target) s.1 with ⟨e | found, v⟩
    · obtain ⟨kept, raised⟩ := acquire_unfound s.1 isMutation cost ended
      dsimp only
      rw [raised, Option.isSome_none, if_neg Bool.false_ne_true, List.append_nil]
      exact apart.later kept.mutationMinInterval kept.write.ge
    · exact (acquire_slotted s.1 isMutation cost ended).apart apart positive
  | hold wait => exact apart.later rfl le_rfl
  | work section_ =>
    have kept := section_scheduled (o := o) section_ s.1.limiter s.1.tick s.1 (Scheduled.refl s.1)
    exact apart.later kept.mutationMinInterval kept.write.ge
  | ledger file => exact apart.later rfl le_rfl

theorem play_all_apart (positive : 0 ≤ interval) (apart : WritesApart interval s)
    (turns : List Turn) : WritesApart interval (playAll o s turns) := by
  induction turns generalizing s with
  | nil => exact apart
  | cons turn rest ih => exact ih (play_apart positive apart turn)

end Apart

def Lane.after (target : Resource) (lane : Lane) (seen : List Sight) : Lane :=
  seen.foldl (fun lane sight => (lane.step target sight).1) lane

section Lanes
variable {o : Outside} {target : Resource} {s : Desk × List Granted} {d : Desk} {l : RateLimiter}
  {n : Nat}

theorem reads_append (lane : Lane) (first rest : List Sight) :
    lane.reads target (first ++ rest) =
      lane.reads target first ++ (lane.after target first).reads target rest := by
  induction first generalizing lane with
  | nil => rfl
  | cons sight first ih =>
    rw [List.cons_append, Lane.reads, Lane.reads, ih, List.append_assoc]
    rfl

theorem Scheduled.lane (at_ : Scheduled l n d) : d.limiter.lane target = l.lane target := by
  rw [RateLimiter.lane, RateLimiter.lane, at_.next, at_.held, at_.minInterval,
    at_.mutationMinInterval, at_.quotaMaxAge]

theorem lane_delay (q : QuotaState) (isMutation : Bool) (now : ℚ) :
    (l.lane target).limiter.delayFor q isMutation now = l.delayFor q isMutation now := rfl

theorem lane_paced (q : QuotaState) (isMutation : Bool) (now delay : ℚ) :
    (((l.lane target).limiter.setQuota target q).schedule target isMutation now delay).paced =
      ((l.setQuota target q).schedule target isMutation now delay).paced := by
  simp only [RateLimiter.schedule, setQuota_self]
  rfl

theorem readsOf_append (first rest : List Granted) :
    readsOf target (first ++ rest) = readsOf target first ++ readsOf target rest := by
  rw [readsOf, List.filter_append, List.map_append]
  rfl

theorem Slotted.elsewhere {other : Resource} {isMutation : Bool} {cost : Int} {now later : ℚ}
    {q : QuotaState} {result : Except LimiterError ℚ}
    (slotted : Slotted o l n other isMutation cost now later q result d) (apart : other ≠ target) :
    d.limiter.lane target = l.lane target := by
  rcases known : l.delayFor q isMutation later with _ | delay
  · exact (slotted.unknown known).1.lane
  · refine (slotted.taken delay known).1.lane.trans ?_
    simp only [RateLimiter.lane, RateLimiter.scheduleTaken]
    rw [Function.update_of_ne apart.symm]

theorem Slotted.seen {isMutation : Bool} {cost : Int} {now later : ℚ} {q : QuotaState}
    {result : Except LimiterError ℚ}
    (slotted : Slotted o l n target isMutation cost now later q result d) :
    let moved := (l.lane target).step target (.call isMutation cost now later q)
    d.limiter.lane target = moved.1 ∧
      moved.2 = if result.toOption.isSome ∧ isMutation = false then
        [scheduledTime target isMutation d] else [] := by
  dsimp only
  rw [Lane.step, lane_delay]
  rcases known : l.delayFor q isMutation later with _ | delay
  · obtain ⟨kept, raised⟩ := slotted.unknown known
    refine ⟨kept.lane, ?_⟩
    rw [raised]
    rfl
  · obtain ⟨kept, returned⟩ := slotted.taken delay known
    dsimp only
    rw [lane_paced]
    refine ⟨kept.lane.trans ?_, ?_⟩
    · simp only [RateLimiter.lane, RateLimiter.scheduleTaken]
      rw [Function.update_self]
    · have refuses : (l.lane target).limiter.refuses q cost now = l.refuses q cost now := rfl
      rw [refuses, returned]
      cases isMutation with
      | true => simp
      | false =>
        have next : d.limiter.nextAllowedTime target =
            some ((l.setQuota target q).schedule target false now delay).paced :=
          (congrFun kept.next target).trans (Function.update_self ..)
        rw [scheduledTime, next]
        cases l.refuses q cost now <;> simp

theorem play_lane (target : Resource) (turn : Turn) :
    (turn.play o s).1.limiter.lane target =
        (s.1.limiter.lane target).after target (turn.sights o target s.1) ∧
      readsOf target (turn.play o s).2 =
        readsOf target s.2 ++ (s.1.limiter.lane target).reads target (turn.sights o target s.1) := by
  cases turn with
  | acquire resource isMutation cost =>
    rw [play_acquire, Turn.sights]
    dsimp only
    rcases ended : run (acquireQuota o resource) s.1 with ⟨e | found, v⟩
    · obtain ⟨kept, raised⟩ := acquire_unfound s.1 isMutation cost ended
      rw [raised, Option.isSome_none, if_neg Bool.false_ne_true, List.append_nil]
      split
      · next own =>
        rw [← own, ended]
        exact ⟨kept.lane, (List.append_nil _).symm⟩
      · exact ⟨kept.lane, (List.append_nil _).symm⟩
    · have slotted := acquire_slotted s.1 isMutation cost ended
      split
      · next own =>
        subst own
        obtain ⟨moved, read⟩ := slotted.seen
        rw [ended]
        refine ⟨moved, ?_⟩
        rw [readsOf_append, Lane.reads, Lane.reads, read, List.append_nil]
        split <;> cases isMutation <;> simp_all [readsOf, scheduledTime]
      · next other =>
        refine ⟨slotted.elsewhere other, ?_⟩
        rw [readsOf_append, Lane.reads]
        split <;> simp [readsOf, other]
  | hold wait => exact ⟨rfl, (List.append_nil _).symm⟩
  | work section_ =>
    have kept := section_scheduled (o := o) section_ s.1.limiter s.1.tick s.1 (Scheduled.refl s.1)
    exact ⟨kept.lane, (List.append_nil _).symm⟩
  | ledger file => exact ⟨rfl, (List.append_nil _).symm⟩

theorem play_desk (granted : List Granted) (turn : Turn) :
    (turn.play o (d, granted)).1 = (turn.play o (d, [])).1 := by
  cases turn with
  | acquire resource isMutation cost => rw [play_acquire, play_acquire]
  | hold wait => rfl
  | work section_ => rfl
  | ledger file => rfl

theorem play_all_reads (turns : List Turn) :
    readsOf target (playAll o s turns).2 =
      readsOf target s.2 ++ (s.1.limiter.lane target).reads target (sights o target s.1 turns) := by
  induction turns generalizing s with
  | nil => exact (List.append_nil _).symm
  | cons turn rest ih =>
    obtain ⟨lane, read⟩ := play_lane (o := o) (s := s) target turn
    change readsOf target (playAll o (turn.play o s) rest).2 = _
    rw [ih, sights, reads_append, read, lane, ← play_desk s.2, List.append_assoc]

/-- The section in which another resource takes its slot does not change the quota either. -/
theorem elsewhere_quota {other : Resource} (apart : other ≠ target) (isMutation : Bool) (cost : Int)
    (now : ℚ) (q : QuotaState) (seen : Option QuotaState) :
    Keeps (fun d => d.limiter.quotas target = seen)
      (acquireSlot o other isMutation cost now q) := by
  have ticked (d : Desk) (at_ : d.limiter.quotas target = seen) :
      d.ticked.limiter.quotas target = seen := at_
  refine keeps_bind (keeps_delayOfQuota ticked q) fun delay => ?_
  refine keeps_bind keeps_world fun v => keeps_bind keeps_world fun w => ?_
  refine keeps_bind (keeps_change fun _ at_ => at_) fun _ => ?_
  refine keeps_bind (keeps_bind keeps_world fun _ => ?_) fun _ => keeps_bind ?_ fun _ => ?_
  · split
    · exact keeps_pure _
    · refine keeps_ite (keeps_bind ?_ fun paid => ?_) (keeps_pure _)
      · exact keeps_bind keeps_world fun _ => keeps_bind (keeps_change ticked) fun _ => keeps_pure _
      · split
        · exact keeps_raise _
        · next charged _ =>
          refine keeps_bind (keeps_change fun d at_ => ?_) fun _ => keeps_pure _
          exact (Function.update_of_ne apart.symm ..).trans at_
  · exact keeps_change fun _ at_ => at_
  · refine keeps_bind ?_ fun _ => keeps_pure _
    refine keeps_bind keeps_world fun _ => keeps_ite ?_ (keeps_pure _)
    refine keeps_bind (keeps_change ticked) fun _ => keeps_ite ?_ (keeps_pure _)
    exact keeps_change fun _ at_ => at_

end Lanes

end DevopsCli.GitHub
