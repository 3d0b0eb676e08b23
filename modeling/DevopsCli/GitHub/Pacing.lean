import DevopsCli.GitHub.Holds

/- The slots that the calls of acquire on one resource get in one window. -/
namespace DevopsCli.GitHub
open Act

def QuotaState.charged (q : QuotaState) (cost : Int) (now : ℚ) : QuotaState :=
  { q with
    remaining := q.remaining.map fun remaining => remaining - cost.toNat
    used := q.used.map fun used => used + cost.toNat
    lastUpdated := some now
    lastRequestEpoch := some now }

def RateLimiter.delayOf (l : RateLimiter) (reset : ℚ) (remaining : Nat) (isMutation : Bool)
    (now : ℚ) : ℚ :=
  let delay :=
    if reset - now ≤ 0 then passedResetDelay l reset now
    else max l.minInterval (if remaining = 0 then reset - now else (reset - now) / remaining)
  if isMutation then max delay l.mutationMinInterval else delay

section
variable (o : Outside)

def acquireQuota (target : Resource) : Paced (ℚ × QuotaState) := do
  change (Desk.setLimiter fun l =>
    { l with requestsPaced := Function.update l.requestsPaced target (l.requestsPaced target + 1) })
  syncFromDiskLocked o
  let now ← time o
  let q ← resolveQuotaState o target
  return (now, q)

def foundQuota (d : Desk) (target : Resource) : Option QuotaState :=
  (run (acquireQuota o target) d).1.toOption.map Prod.snd

end

structure Scheduled (l : RateLimiter) (n : Nat) (d : Desk) : Prop where
  next : d.limiter.nextAllowedTime = l.nextAllowedTime
  write : d.limiter.lastMutationEpoch = l.lastMutationEpoch
  held : d.limiter.heldUntil = l.heldUntil
  minInterval : d.limiter.minInterval = l.minInterval
  mutationMinInterval : d.limiter.mutationMinInterval = l.mutationMinInterval
  quotaMaxAge : d.limiter.quotaMaxAge = l.quotaMaxAge
  past : n ≤ d.tick

section Acquire
variable {o : Outside} {l : RateLimiter} {n : Nat} {d d' : Desk} {t sleep : ℚ} {target : Resource}
  {isMutation : Bool} {cost : Int}

theorem Scheduled.refl (d : Desk) : Scheduled d.limiter d.tick d :=
  ⟨rfl, rfl, rfl, rfl, rfl, rfl, le_rfl⟩

theorem Scheduled.ticked (at_ : Scheduled l n d) : Scheduled l n d.ticked :=
  { at_ with past := at_.past.trans (Nat.le_succ _) }

theorem Scheduled.taken (at_ : Scheduled l n d) (target : Resource) (isMutation : Bool) (now : ℚ)
    (slot : Schedule) : Scheduled (l.scheduleTaken target isMutation now slot) n
      (d.setLimiter fun l => l.scheduleTaken target isMutation now slot) :=
  { at_ with
    next := by simp only [Desk.setLimiter, RateLimiter.scheduleTaken, at_.next]
    write := congrArg (fun epoch => if isMutation then slot.scheduled else epoch) at_.write }

theorem steady_scheduled (o : Outside) (l : RateLimiter) (n : Nat) : Steady o (Scheduled l n) where
  ticked _ at_ := at_.ticked
  setQuota _ _ _ at_ := { at_ with }
  synced := by
    refine keeps_bind keeps_world fun d => keeps_ite ?_ (keeps_pure _)
    refine keeps_bind (keeps_bind keeps_world fun _ => ?_) fun now => ?_
    · exact keeps_bind (keeps_change fun _ => Scheduled.ticked) fun _ => keeps_pure _
    · exact keeps_change fun d at_ => { at_ with }
  persisted := by
    refine keeps_bind keeps_world fun d => keeps_ite ?_ (keeps_pure _)
    refine keeps_bind (keeps_change fun _ => Scheduled.ticked) fun _ => keeps_ite ?_ (keeps_pure _)
    exact keeps_change fun d at_ => { at_ with }

theorem setQuota_self (l : RateLimiter) (name : Resource) (q : QuotaState) :
    (l.setQuota name q).quotas name = some q := Function.update_self ..

theorem keeps_ok {α : Type} {inv : Desk → Prop} {act : Paced α} (keeps : Keeps inv act) {a : α}
    (start : inv d) (ended : run act d = (.ok a, d')) : inv d' := by
  have kept := keeps d start
  rwa [ended] at kept

theorem run_time (o : Outside) (d : Desk) : run (time o) d = (.ok (o.clock d.tick), d.ticked) := rfl

theorem refreshed_holds {q : QuotaState}
    (ended : run (refreshedQuotaState o target) d = (.ok q, d')) :
    d'.limiter.quotas target = some q := by
  obtain ⟨started, v, -, ended⟩ := run_bind_ok.mp ended
  obtain ⟨resets, w, -, ended⟩ := run_bind_ok.mp ended
  split at ended
  · exact absurd (congrArg Prod.fst ended) (by simp)
  · split at ended
    · exact absurd (congrArg Prod.fst ended) (by simp)
    · obtain ⟨seen, w', looked, ended⟩ := run_bind_ok.mp ended
      obtain ⟨⟨⟩, rfl⟩ := Prod.mk.inj looked
      split at ended
      · next held =>
        obtain ⟨same, rfl⟩ := Prod.mk.inj ended
        rw [held, Except.ok.inj same]
      · exact absurd (congrArg Prod.fst ended) (by simp)

theorem resolve_holds {q : QuotaState}
    (ended : run (resolveQuotaState o target) d = (.ok q, d')) :
    d'.limiter.quotas target = some q := by
  obtain ⟨_, v, -, ended⟩ := run_bind_ok.mp ended
  obtain ⟨seen, w, looked, ended⟩ := run_bind_ok.mp ended
  obtain ⟨⟨⟩, rfl⟩ := Prod.mk.inj looked
  obtain ⟨now, w', timed, ended⟩ := run_bind_ok.mp ended
  obtain ⟨-, rfl⟩ := Prod.mk.inj timed
  split at ended
  · next held =>
    split at ended
    · obtain ⟨same, rfl⟩ := Prod.mk.inj ended
      exact held.trans (congrArg some (Except.ok.inj same))
    · exact refreshed_holds ended
  · exact refreshed_holds ended

/-- What a call that returned did: it found a quota, and took the slot that the quota gives. -/
structure Acquired (o : Outside) (target : Resource) (isMutation : Bool) (cost : Int) (t : ℚ)
    (d d' : Desk) (q : QuotaState) (reset : ℚ) (remaining : Nat) (at_ : Schedule) : Prop where
  found : foundQuota o d target = some q
  resets : q.resetEpoch = some reset
  remains : q.remaining = some remaining
  slot : at_ = (d.limiter.setQuota target q).schedule target isMutation t
    (d.limiter.delayOf reset remaining isMutation t)
  taken : Scheduled (d.limiter.scheduleTaken target isMutation t at_) d.tick d'
  charged : d'.limiter.quotas target =
    some (if q.isValid t (some d.limiter.quotaMaxAge) then q.charged cost t else q)

theorem requestDelay_ok {left : ℚ} {remaining : Nat} (positive : 0 < left) :
    calculateRequestDelay left remaining = .ok (if remaining = 0 then left else left / remaining) := by
  rw [calculateRequestDelay, if_neg positive.not_gt]
  split
  · rfl
  · rw [if_neg positive.ne']

theorem calculateDelay_ok {delay : ℚ}
    (ended : run (calculateTargetDelay o target isMutation) d = (.ok delay, d')) :
    ∃ q reset remaining v, run (resolveQuotaState o target) d = (.ok q, v) ∧ d' = v.ticked ∧
      q.resetEpoch = some reset ∧ q.remaining = some remaining ∧
      delay = v.limiter.delayOf reset remaining isMutation (o.clock v.tick) := by
  obtain ⟨paced, w, calculated, ended⟩ := run_bind_ok.mp ended
  obtain ⟨q, v, resolved, calculated⟩ := run_bind_ok.mp calculated
  obtain ⟨now, v', timed, calculated⟩ := run_bind_ok.mp calculated
  obtain ⟨same, rfl⟩ := Prod.mk.inj timed
  obtain rfl := Except.ok.inj same
  obtain ⟨seen, w', looked, ended⟩ := run_bind_ok.mp ended
  obtain ⟨⟨⟩, rfl⟩ := Prod.mk.inj looked
  split at calculated
  · exact absurd (congrArg Prod.fst calculated) (by simp)
  · exact absurd (congrArg Prod.fst calculated) (by simp)
  · next reset remaining resets remains =>
    obtain ⟨seen, w', looked, calculated⟩ := run_bind_ok.mp calculated
    obtain ⟨⟨⟩, rfl⟩ := Prod.mk.inj looked
    refine ⟨q, reset, remaining, v, resolved, ?_⟩
    have delayed : paced = (if reset - o.clock v.tick ≤ 0 then
          passedResetDelay v.limiter reset (o.clock v.tick)
        else max v.limiter.minInterval (if remaining = 0 then reset - o.clock v.tick
          else (reset - o.clock v.tick) / remaining)) ∧ w = v.ticked := by
      by_cases passed : reset - o.clock v.tick ≤ 0
      · simp only [passed, ↓reduceIte] at calculated ⊢
        obtain ⟨same, rfl⟩ := Prod.mk.inj calculated
        exact ⟨(Except.ok.inj same).symm, rfl⟩
      · simp only [passed, ↓reduceIte, requestDelay_ok (lt_of_not_ge passed)] at calculated ⊢
        obtain ⟨same, rfl⟩ := Prod.mk.inj calculated
        exact ⟨(Except.ok.inj same).symm, rfl⟩
    obtain ⟨rfl, rfl⟩ := delayed
    obtain ⟨same, rfl⟩ := Prod.mk.inj ended
    exact ⟨rfl, resets, remains, (Except.ok.inj same).symm⟩

theorem charge_ok {q : QuotaState} {valid : QuotaState → Bool} {charged : Bool}
    (held : d.limiter.quotas target = some q)
    (ended : run (chargeQuota o target valid cost) d = (.ok charged, d')) :
    if valid q then d.tick < d'.tick ∧
      d'.limiter.quotas target = some (q.charged cost (o.clock d.tick)) else d' = d := by
  obtain ⟨seen, v, looked, ended⟩ := run_bind_ok.mp ended
  obtain ⟨⟨⟩, rfl⟩ := Prod.mk.inj looked
  rw [held] at ended
  dsimp only at ended
  split at ended
  · next valid_ =>
    obtain ⟨now, w, timed, ended⟩ := run_bind_ok.mp ended
    obtain ⟨same, rfl⟩ := Prod.mk.inj timed
    obtain rfl := Except.ok.inj same
    rw [if_pos valid_]
    rw [QuotaState.recordUtilization] at ended
    split at ended
    · next raised =>
      exact absurd (congrArg Prod.fst ended) (by simp)
    · next q' paid =>
      obtain ⟨_, w', changed, ended⟩ := run_bind_ok.mp ended
      obtain ⟨-, rfl⟩ := Prod.mk.inj changed
      obtain ⟨-, rfl⟩ := Prod.mk.inj ended
      split at paid
      · exact absurd paid (by simp)
      · obtain rfl := Except.ok.inj paid
        exact ⟨Nat.lt_succ_self _, Function.update_self ..⟩
  · next valid_ =>
    rw [if_neg valid_]
    exact (Prod.mk.inj ended).2.symm

theorem keeps_persist_limiter (l : RateLimiter) :
    Keeps (fun d => d.limiter = l) (persistToDiskLocked o) := by
  refine keeps_bind keeps_world fun d => keeps_ite ?_ (keeps_pure _)
  refine keeps_bind (keeps_change fun _ same => same) fun _ => keeps_ite ?_ (keeps_pure _)
  exact keeps_change fun d same => same

theorem schedule_congr {l l' : RateLimiter} (next : l.nextAllowedTime target = l'.nextAllowedTime target)
    (quota : l.quotas target = l'.quotas target) (held : l.heldUntil = l'.heldUntil)
    (write : isMutation = true → l.lastMutationEpoch = l'.lastMutationEpoch ∧
      l.mutationMinInterval = l'.mutationMinInterval) (now delay : ℚ) :
    l.schedule target isMutation now delay = l'.schedule target isMutation now delay := by
  cases isMutation with
  | false => simp only [RateLimiter.schedule, next, quota, held, Bool.false_eq_true, ↓reduceIte]
  | true =>
    obtain ⟨epoch, interval⟩ := write rfl
    simp only [RateLimiter.schedule, next, quota, held, epoch, interval]

theorem delayOf_congr {l l' : RateLimiter} (minInterval : l.minInterval = l'.minInterval)
    (mutation : l.mutationMinInterval = l'.mutationMinInterval) (reset : ℚ) (remaining : Nat)
    (isMutation : Bool) (now : ℚ) :
    l.delayOf reset remaining isMutation now = l'.delayOf reset remaining isMutation now := by
  simp only [RateLimiter.delayOf, passedResetDelay, minInterval, mutation]

theorem acquire_ok (ended : run (acquire o target isMutation cost) d = (.ok sleep, d'))
    (clock : ∀ n, d.tick ≤ n → n < d'.tick → o.clock n = t) :
    ∃ q reset remaining at_, Acquired o target isMutation cost t d d' q reset remaining at_ ∧
      sleep = at_.sleep := by
  obtain ⟨_, d₁, counted, ended⟩ := run_bind_ok.mp ended
  obtain ⟨_, d₂, synced, ended⟩ := run_bind_ok.mp ended
  obtain ⟨now, d₃, timed, ended⟩ := run_bind_ok.mp ended
  obtain ⟨delay, d₄, delayed, ended⟩ := run_bind_ok.mp ended
  obtain ⟨seen, d₅, looked, ended⟩ := run_bind_ok.mp ended
  obtain ⟨⟨⟩, rfl⟩ := Prod.mk.inj looked
  obtain ⟨_, d₅, taken, ended⟩ := run_bind_ok.mp ended
  obtain ⟨charged, d₆, charge, ended⟩ := run_bind_ok.mp ended
  obtain ⟨_, d₇, total, ended⟩ := run_bind_ok.mp ended
  obtain ⟨_, d₈, persisted, ended⟩ := run_bind_ok.mp ended
  obtain ⟨same, rfl⟩ := Prod.mk.inj ended
  obtain ⟨q, reset, remaining, v, resolved, rfl, resets, remains, rfl⟩ := calculateDelay_ok delayed
  obtain ⟨same_now, rfl⟩ := Prod.mk.inj timed
  obtain ⟨-, rfl⟩ := Prod.mk.inj taken
  obtain ⟨-, rfl⟩ := Prod.mk.inj total
  -- The schedules and the ticks that the sections leave, one after the other.
  have first : Scheduled d.limiter d.tick d₁ := by
    obtain ⟨-, rfl⟩ := Prod.mk.inj counted
    exact ⟨rfl, rfl, rfl, rfl, rfl, rfl, le_rfl⟩
  have second := keeps_ok (steady_scheduled o _ _).synced first synced
  have third : Scheduled d.limiter (d₂.tick + 1) d₂.ticked := { second with past := le_rfl }
  have fourth := keeps_ok (keeps_resolve (steady_scheduled o _ _) target) third resolved
  have holds := resolve_holds resolved
  set at_ := v.ticked.limiter.schedule target isMutation now
    (v.limiter.delayOf reset remaining isMutation (o.clock v.tick)) with slot
  have ticked : Scheduled d.limiter (v.tick + 1) v.ticked := { fourth with past := le_rfl }
  have fifth : Scheduled (d.limiter.scheduleTaken target isMutation now at_) (v.tick + 1)
      (v.ticked.setLimiter fun l => l.scheduleTaken target isMutation now at_) :=
    ticked.taken ..
  have sixth := keeps_ok (keeps_chargeQuota (steady_scheduled o _ _) target _ cost) fifth charge
  have seventh : Scheduled (d.limiter.scheduleTaken target isMutation now at_) d₆.tick
      (d₆.setLimiter fun l => { l with totalRequests := l.totalRequests + 1 }) :=
    { sixth with past := le_rfl }
  have last := keeps_ok (steady_scheduled o _ _).persisted seventh persisted
  have found : foundQuota o d target = some q := by
    rw [foundQuota, acquireQuota, run_bind, counted]
    dsimp only
    rw [run_bind, synced]
    dsimp only
    rw [run_bind, run_time]
    dsimp only
    rw [run_bind, resolved]
    rfl
  have ticks : d.tick ≤ d₂.tick ∧ d₂.tick < v.tick + 1 ∧ v.tick + 1 ≤ d₆.tick ∧ d₆.tick ≤ d₈.tick :=
    ⟨second.past, fourth.past.trans (Nat.le_succ _), sixth.past, last.past⟩
  obtain rfl : now = t :=
    (Except.ok.inj same_now).symm.trans (clock _ ticks.1 (by omega))
  have later : o.clock v.tick = now := clock _ (by have := fourth.past; omega) (by omega)
  have place : at_ = (d.limiter.setQuota target q).schedule target isMutation now
      (d.limiter.delayOf reset remaining isMutation now) := by
    rw [slot, later, delayOf_congr fourth.minInterval fourth.mutationMinInterval]
    refine schedule_congr ?_ ?_ ?_ ?_ _ _
    · exact congrFun fourth.next target
    · exact holds.trans (setQuota_self d.limiter target q).symm
    · exact fourth.held
    · exact fun _ => ⟨fourth.write, fourth.mutationMinInterval⟩
  refine ⟨q, reset, remaining, at_, ⟨found, resets, remains, place, { last with past := by omega }, ?_⟩,
    (Except.ok.inj same).symm⟩
  have kept := keeps_ok (keeps_persist_limiter _) (Eq.refl _) persisted
  have paid := charge_ok (by exact holds) charge
  have age : v.ticked.limiter.quotaMaxAge = d.limiter.quotaMaxAge := fourth.quotaMaxAge
  rw [kept]
  rw [age] at paid
  split at paid
  · next valid =>
    obtain ⟨ticked, quota⟩ := paid
    rw [if_pos valid]
    refine Eq.trans quota ?_
    have same : o.clock (v.tick + 1) = now := clock _ (by omega) (Nat.lt_of_lt_of_le ticked ticks.2.2.2)
    rw [← same]
    rfl
  · next valid =>
    rw [if_neg valid, paid]
    exact holds

theorem paced_after (l : RateLimiter) (target : Resource) (isMutation : Bool) (delay : ℚ)
    {q : QuotaState} {reset : ℚ} (resets : q.resetEpoch = some reset) (inside : t < reset) :
    max t ((l.nextAllowedTime target).getD 0) + delay ≤
      ((l.setQuota target q).schedule target isMutation t delay).paced := by
  have running : ((l.setQuota target q).quotas target).any
      (fun q => q.resetEpoch.any fun reset => decide (reset ≤ t)) = false := by
    rw [setQuota_self, Option.any_some, resets, Option.any_some, decide_eq_false_iff_not]
    exact inside.not_ge
  simp only [RateLimiter.schedule, running, Bool.or_false, decide_eq_true_eq]
  refine le_trans (add_le_add_left ?_ delay) (le_max_left _ _)
  change max t _ ≤ max t (if (l.nextAllowedTime target).getD 0 < t then t
    else (l.nextAllowedTime target).getD 0)
  split
  · next past => rw [max_eq_left past.le, max_self]
  · exact le_rfl

theorem delayOf_bounds (l : RateLimiter) (remaining : Nat) (isMutation : Bool) {reset : ℚ}
    (inside : t < reset) :
    0 < l.delayOf reset remaining isMutation t ∧
      (remaining ≤ 1 → reset - t ≤ l.delayOf reset remaining isMutation t) ∧
      (isMutation = true → l.mutationMinInterval ≤ l.delayOf reset remaining isMutation t) := by
  have left : 0 < reset - t := sub_pos.mpr inside
  have share : 0 < if remaining = 0 then reset - t else (reset - t) / remaining := by
    split
    · exact left
    · next some_ => exact div_pos left (Nat.cast_pos.mpr (Nat.pos_of_ne_zero some_))
  have whole (few : remaining ≤ 1) :
      reset - t ≤ if remaining = 0 then reset - t else (reset - t) / remaining := by
    split
    · exact le_rfl
    · next some_ =>
      obtain rfl : remaining = 1 := by omega
      rw [Nat.cast_one, div_one]
  have least : (if remaining = 0 then reset - t else (reset - t) / remaining) ≤
      l.delayOf reset remaining isMutation t := by
    simp only [RateLimiter.delayOf, left.not_ge, ↓reduceIte]
    cases isMutation
    · exact le_max_right _ _
    · exact (le_max_right _ _).trans (le_max_left _ _)
  refine ⟨share.trans_le least, fun few => (whole few).trans least, ?_⟩
  rintro rfl
  exact le_max_right _ _

end Acquire

structure Slot where
  time : ℚ
  cost : Int
  scheduled : ℚ

/-- The quota is in use, and neither the ledger nor GitHub changes it for the next call. -/
def NoUpdate (o : Outside) (d : Desk) (target : Resource) (t : ℚ) : Prop :=
  ∃ q, d.limiter.quotas target = some q ∧ foundQuota o d target = some q ∧
    q.isValid t (some d.limiter.quotaMaxAge) = true

/-- Calls of acquire on one resource, each with one reading of the clock. Other processes may
    write the ledger between them. -/
inductive Paces (o : Outside) (target : Resource) : Desk → List Slot → Desk → Prop where
  | done (d : Desk) : Paces o target d [] d
  | call {d v w d' : Desk} {isMutation : Bool} {cost : Int} {t sleep : ℚ} {slots : List Slot}
      (same : v.limiter = d.limiter) (clock : ∀ n, v.tick ≤ n → n < w.tick → o.clock n = t)
      (quiet : NoUpdate o v target t)
      (ended : run (acquire o target isMutation cost) v = (.ok sleep, w))
      (rest : Paces o target w slots d') :
      Paces o target d (⟨t, cost, t + sleep⟩ :: slots) d'

def spentBefore (reset : ℚ) (slots : List Slot) : Nat :=
  ((slots.filter fun slot => slot.scheduled < reset).map fun slot => slot.cost.toNat).sum

theorem spentBefore_cons (reset t scheduled : ℚ) (cost : Int) (slots : List Slot) :
    spentBefore reset (⟨t, cost, scheduled⟩ :: slots) =
      if scheduled < reset then cost.toNat + spentBefore reset slots
      else spentBefore reset slots := by
  rw [spentBefore, List.filter_cons]
  by_cases early : scheduled < reset <;> simp [early, spentBefore]

section Window
variable {o : Outside} {target : Resource} {d d' : Desk} {slots : List Slot} {q : QuotaState}
  {reset : ℚ} {remaining : Nat}

/-- A call that the window holds: its slot is after the last one, not before the reset when at
    most one request is left, and its own paced time unless a write waits. -/
theorem call_slot {v w : Desk} {isMutation : Bool} {cost : Int} {t sleep : ℚ}
    (same : v.limiter = d.limiter) (clock : ∀ n, v.tick ≤ n → n < w.tick → o.clock n = t)
    (quiet : NoUpdate o v target t)
    (ended : run (acquire o target isMutation cost) v = (.ok sleep, w))
    (quota : d.limiter.quotas target = some q) (resets : q.resetEpoch = some reset)
    (remains : q.remaining = some remaining) (inside : t < reset) :
    w.limiter.quotas target = some (q.charged cost t) ∧ (remaining ≤ 1 → reset ≤ t + sleep) ∧
      ∃ paced, w.limiter.nextAllowedTime target = some paced ∧ paced ≤ t + sleep ∧
        (d.limiter.nextAllowedTime target).getD 0 ≤ paced ∧
        (d.limiter.lastMutationEpoch ≤ max t ((d.limiter.nextAllowedTime target).getD 0) →
          t + sleep = paced ∧ w.limiter.lastMutationEpoch ≤ paced) := by
  obtain ⟨q', held, found, valid⟩ := quiet
  obtain rfl : q = q' := Option.some.inj (quota.symm.trans (same ▸ held))
  obtain ⟨q', reset', remaining', at_, acquired, rfl⟩ := acquire_ok ended clock
  obtain rfl : q = q' := Option.some.inj (found.symm.trans acquired.found)
  obtain rfl : reset = reset' := Option.some.inj (resets.symm.trans acquired.resets)
  obtain rfl : remaining = remaining' := Option.some.inj (remains.symm.trans acquired.remains)
  have slot := acquired.slot
  have taken := acquired.taken
  have charged := acquired.charged
  rw [same] at slot taken charged valid
  obtain ⟨positive, few, interval⟩ := delayOf_bounds d.limiter remaining isMutation inside
  have after := paced_after d.limiter target isMutation
    (d.limiter.delayOf reset remaining isMutation t) resets inside
  rw [← slot] at after
  have scheduled : at_.scheduled = if isMutation then
      max at_.paced (d.limiter.lastMutationEpoch + d.limiter.mutationMinInterval) else at_.paced := by
    rw [slot]
    rfl
  have later : at_.paced ≤ at_.scheduled := by
    rw [scheduled]
    cases isMutation
    · exact le_rfl
    · exact le_max_left _ _
  have base := le_max_left t ((d.limiter.nextAllowedTime target).getD 0)
  have own := le_max_right t ((d.limiter.nextAllowedTime target).getD 0)
  have sleep : t + at_.sleep = at_.scheduled := by
    have slept : at_.sleep = max 0 (at_.scheduled - t) := by
      rw [slot]
      rfl
    rw [slept, max_eq_right (by linarith)]
    ring
  rw [sleep]
  refine ⟨by rw [charged, if_pos valid], fun one => by linarith [few one], at_.paced, ?_, later,
    by linarith, fun idle => ?_⟩
  · rw [taken.next]
    exact Function.update_self ..
  · have alone : at_.scheduled = at_.paced := by
      rw [scheduled]
      cases isMutation with
      | false => rfl
      | true => exact max_eq_left (by linarith [interval rfl])
    refine ⟨alone, ?_⟩
    rw [taken.write]
    change (if isMutation then at_.scheduled else d.limiter.lastMutationEpoch) ≤ at_.paced
    split
    · exact alone.le
    · linarith

theorem charged_remaining {cost : Int} {t : ℚ} (remains : q.remaining = some remaining) :
    (q.charged cost t).remaining = some (remaining - cost.toNat) := by
  rw [QuotaState.charged, remains]
  rfl

theorem window_spent (run : Paces o target d slots d') (quota : d.limiter.quotas target = some q)
    (resets : q.resetEpoch = some reset) (remains : q.remaining = some remaining)
    (inside : ∀ slot ∈ slots, slot.time < reset)
    (costs : ∀ slot ∈ slots, slot.cost = 1 ∨ slot.cost = 2) :
    spentBefore reset slots ≤ remaining ∧
      ((∀ slot ∈ slots, slot.cost = 1) → spentBefore reset slots ≤ remaining - 1) := by
  induction run generalizing q remaining with
  | done d => simp [spentBefore]
  | @call d v w d' isMutation cost t sleep slots same clock quiet ended rest ih =>
    obtain ⟨here, later⟩ := List.forall_mem_cons.mp inside
    obtain ⟨charge, others⟩ := List.forall_mem_cons.mp costs
    dsimp only at here charge
    obtain ⟨charged, few, -⟩ := call_slot same clock quiet ended quota resets remains here
    obtain ⟨spent, single⟩ := ih charged resets (charged_remaining remains) later others
    rw [spentBefore_cons]
    split
    · next early =>
      have many : 2 ≤ remaining := by
        by_contra one
        exact early.not_ge (few (by omega))
      refine ⟨by omega, fun ones => ?_⟩
      obtain ⟨one, ones⟩ := List.forall_mem_cons.mp ones
      have := single ones
      dsimp only at one
      omega
    · refine ⟨by omega, fun ones => ?_⟩
      have := single (List.forall_mem_cons.mp ones).2
      omega

theorem window_ordered (run : Paces o target d slots d') (quota : d.limiter.quotas target = some q)
    (resets : q.resetEpoch = some reset) (remains : q.remaining = some remaining)
    (inside : ∀ slot ∈ slots, slot.time < reset)
    (idle : ∀ slot ∈ slots, d.limiter.lastMutationEpoch ≤
      max slot.time ((d.limiter.nextAllowedTime target).getD 0)) :
    slots.Pairwise (·.scheduled ≤ ·.scheduled) ∧
      ∀ slot ∈ slots, (d.limiter.nextAllowedTime target).getD 0 ≤ slot.scheduled := by
  induction run generalizing q remaining with
  | done d => exact ⟨List.Pairwise.nil, List.forall_mem_nil _⟩
  | call same clock quiet ended rest ih =>
    obtain ⟨here, later⟩ := List.forall_mem_cons.mp inside
    obtain ⟨charged, -, paced, next, before, last, own⟩ :=
      call_slot same clock quiet ended quota resets remains here
    obtain ⟨waits, -⟩ := List.forall_mem_cons.mp idle
    dsimp only at waits here
    obtain ⟨scheduled, written⟩ := own waits
    obtain ⟨ordered, after⟩ := ih charged resets (charged_remaining remains) later
      fun slot _ => by
        rw [next]
        exact written.trans (le_max_right _ _)
    rw [next] at after
    rw [Option.getD_some] at after
    constructor
    · refine List.pairwise_cons.mpr ⟨fun slot member => ?_, ordered⟩
      exact scheduled.trans_le (after slot member)
    · refine List.forall_mem_cons.mpr ⟨last.trans before, fun slot member => ?_⟩
      exact last.trans (after slot member)

end Window

/-- In one window of a quota no more requests go before the reset than the quota has left, less
    one when each costs one, and with no write still waiting for its slot when the calls begin
    the requests go in the order of the calls. -/
theorem pacing_never_overspends (o : Outside) (target : Resource) (d d' : Desk) (slots : List Slot)
    (q : QuotaState) (reset : ℚ) (remaining : Nat) (run : Paces o target d slots d')
    (quota : d.limiter.quotas target = some q) (resets : q.resetEpoch = some reset)
    (remains : q.remaining = some remaining) (inside : ∀ slot ∈ slots, slot.time < reset)
    (costs : ∀ slot ∈ slots, slot.cost = 1 ∨ slot.cost = 2) :
    ((∀ slot ∈ slots, d.limiter.lastMutationEpoch ≤ slot.time) →
        slots.Pairwise (·.scheduled ≤ ·.scheduled)) ∧
      ((∀ slot ∈ slots, slot.cost = 1) → spentBefore reset slots ≤ remaining - 1) ∧
      spentBefore reset slots ≤ remaining := by
  obtain ⟨spent, single⟩ := window_spent run quota resets remains inside costs
  refine ⟨fun idle => ?_, single, spent⟩
  exact (window_ordered run quota resets remains inside fun slot member =>
    (idle slot member).trans (le_max_left _ _)).1

def stopped : Outside := { bySecond with clock := fun _ => 0 }

theorem returned_ok {α : Type} {act : Paced α} {d : Desk} {a : α}
    (returned : (run act d).1.toOption = some a) : run act d = (.ok a, (run act d).2) := by
  generalize run act d = ended at returned ⊢
  obtain ⟨_ | b, d'⟩ := ended
  · exact absurd returned (Option.some_ne_none a).symm
  · exact congrArg (fun b => (Except.ok b, d')) (Option.some.inj returned)

def threeLeft : RateLimiter :=
  { tenLeft with
    quotas := fun _ => some { remaining := some 3, resetEpoch := some 100, lastUpdated := some 0 } }

/-- Three reads at once: the third goes after the reset. -/
theorem pacing_never_overspends_three :
    ∃ d', Paces stopped "core" ⟨threeLeft, none, 0⟩
        [⟨0, 1, 0 + 100 / 3⟩, ⟨0, 1, 0 + 250 / 3⟩, ⟨0, 1, 0 + 550 / 3⟩] d' ∧
      spentBefore 100 [⟨0, 1, 0 + 100 / 3⟩, ⟨0, 1, 0 + 250 / 3⟩, ⟨0, 1, 0 + 550 / 3⟩] ≤ 2 := by
  let d : Desk := ⟨threeLeft, none, 0⟩
  let u : Desk := (run (acquire stopped "core" false 1) d).2
  let v : Desk := (run (acquire stopped "core" false 1) u).2
  let q : QuotaState := { remaining := some 3, resetEpoch := some 100, lastUpdated := some 0 }
  have first : (run (acquire stopped "core" false 1) d).1.toOption = some (100 / 3) := by
    decide +kernel
  have second : (run (acquire stopped "core" false 1) u).1.toOption = some (250 / 3) := by
    decide +kernel
  have third : (run (acquire stopped "core" false 1) v).1.toOption = some (550 / 3) := by
    decide +kernel
  have quiet : NoUpdate stopped d "core" 0 := ⟨q, by decide +kernel⟩
  have quiet' : NoUpdate stopped u "core" 0 := ⟨q.charged 1 0, by decide +kernel⟩
  have quiet'' : NoUpdate stopped v "core" 0 := ⟨(q.charged 1 0).charged 1 0, by decide +kernel⟩
  have run : Paces stopped "core" d
      [⟨0, 1, 0 + 100 / 3⟩, ⟨0, 1, 0 + 250 / 3⟩, ⟨0, 1, 0 + 550 / 3⟩]
      (Act.run (acquire stopped "core" false 1) v).2 :=
    .call rfl (fun _ _ _ => rfl) quiet (returned_ok first)
      (.call rfl (fun _ _ _ => rfl) quiet' (returned_ok second)
        (.call rfl (fun _ _ _ => rfl) quiet'' (returned_ok third) (.done _)))
  have bound := pacing_never_overspends stopped "core" d _ _ q 100 3 run rfl rfl rfl (by simp)
    (by simp)
  exact ⟨_, run, bound.2.1 (by simp)⟩

def oneElsewhere : RateLimiter :=
  { tenLeft with
    quotas := fun name => some (
      if name = "core" then { remaining := some 10, resetEpoch := some 2000, lastUpdated := some 0 }
      else { remaining := some 1, resetEpoch := some 1000, lastUpdated := some 0 }) }

/-- A write of another resource waits for its slot at second 1000, so a write gets the one after
    it, and the read that comes next goes long before both. -/
theorem read_passes_waiting_write :
    ¬ ∀ (o : Outside) (target : Resource) (d d' : Desk) (slots : List Slot) (q : QuotaState)
      (reset : ℚ) (remaining : Nat), Paces o target d slots d' →
      d.limiter.quotas target = some q → q.resetEpoch = some reset → q.remaining = some remaining →
      (∀ slot ∈ slots, slot.time < reset) → (∀ slot ∈ slots, slot.cost = 1 ∨ slot.cost = 2) →
      slots.Pairwise (·.scheduled ≤ ·.scheduled) := by
  intro ordered
  let before : Desk := ⟨oneElsewhere, none, 0⟩
  let d : Desk := (run (acquire stopped "graphql" true 1) before).2
  let q : QuotaState := { remaining := some 10, resetEpoch := some 2000, lastUpdated := some 0 }
  let w : Desk := (run (acquire stopped "core" true 1) d).2
  have wrote : (run (acquire stopped "core" true 1) d).1.toOption = some 1001 := by decide +kernel
  have read : (run (acquire stopped "core" false 1) w).1.toOption = some (3800 / 9) := by
    decide +kernel
  have first : NoUpdate stopped d "core" 0 := ⟨q, by decide +kernel⟩
  have second : NoUpdate stopped w "core" 0 := ⟨q.charged 1 0, by decide +kernel⟩
  have run : Paces stopped "core" d [⟨0, 1, 0 + 1001⟩, ⟨0, 1, 0 + 3800 / 9⟩]
      (Act.run (acquire stopped "core" false 1) w).2 :=
    .call rfl (fun _ _ _ => rfl) first (returned_ok wrote)
      (.call rfl (fun _ _ _ => rfl) second (returned_ok read) (.done _))
  have late := ordered stopped "core" d _ _ q 2000 10 run (by decide +kernel) rfl rfl (by simp)
    (by simp)
  norm_num at late

end DevopsCli.GitHub
