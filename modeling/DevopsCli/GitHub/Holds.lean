import DevopsCli.Lib.Run
import DevopsCli.GitHub.RateLimiter

/- Threads that share one limiter. A section under the lock is one event, placed in time where
   it gives the lock back; the sleep and the send of a request are events of their own. Events
   come in the order of their times. -/
namespace DevopsCli.GitHub
open Act Run

/-- Where the request of a thread is after the section under the lock. -/
inductive Phase where
  | free
  | slotted (sleep : ℚ)
  | asleep (until_ : ℚ)
  deriving DecidableEq

structure Send (Thread : Type) where
  thread : Thread
  time : ℚ
  deriving DecidableEq

structure Hold where
  start : ℚ
  wait : ℚ
  deriving DecidableEq

structure Traffic (Thread : Type) where
  desk : Desk
  /-- The time of the last event. -/
  clock : ℚ
  phase : Thread → Phase
  sends : List (Send Thread)
  holds : List Hold

inductive Event (Thread : Type) where
  | acquire (thread : Thread) (target : Resource) (isMutation : Bool) (cost : Int) (at_ : ℚ)
  | sleep (thread : Thread) (at_ : ℚ)
  | send (thread : Thread) (at_ : ℚ)
  | hold (wait : ℚ)
  | other (work : Section) (at_ : ℚ)
  | ledger (file : Option Ledger)

variable {Thread : Type}

section
variable (o : Outside)

def Ends (d : Desk) (at_ : ℚ) : Prop := ∀ n < d.tick, o.clock n ≤ at_

instance (d : Desk) (at_ : ℚ) : Decidable (Ends o d at_) :=
  inferInstanceAs (Decidable (∀ n < d.tick, o.clock n ≤ at_))

namespace Traffic

section
variable [DecidableEq Thread]

def setPhase (s : Traffic Thread) (thread : Thread) (phase : Phase) : Traffic Thread :=
  { s with phase := Function.update s.phase thread phase }

def step (s : Traffic Thread) : Event Thread → Option (Traffic Thread)
  | .acquire thread target isMutation cost at_ =>
    match s.phase thread, run (acquire o target isMutation cost) s.desk with
    | .free, (result, d) =>
      if s.clock ≤ at_ ∧ Ends o d at_ then
        let s := { s with desk := d, clock := at_ }
        match result with
        | .ok sleep => some (s.setPhase thread (.slotted sleep))
        | .error _ => some s
      else none
    | _, _ => none
  | .sleep thread at_ =>
    match s.phase thread with
    | .slotted sleep =>
      -- A pause that is not positive is not slept.
      if s.clock ≤ at_ then
        some ({ s with clock := at_ }.setPhase thread (.asleep (at_ + max 0 sleep)))
      else none
    | _ => none
  | .send thread at_ =>
    match s.phase thread with
    | .asleep until_ =>
      if s.clock ≤ at_ ∧ until_ ≤ at_ then
        some ({ s with clock := at_, sends := ⟨thread, at_⟩ :: s.sends }.setPhase thread .free)
      else none
    | _ => none
  | .hold wait =>
    let at_ := o.clock s.desk.tick
    if s.clock ≤ at_ then
      some { s with
        desk := (run (holdRequests o wait) s.desk).2
        clock := at_
        holds := ⟨at_, wait⟩ :: s.holds }
    else none
  | .other work at_ =>
    let d := (run (work.body o) s.desk).2
    if s.clock ≤ at_ ∧ Ends o d at_ then some { s with desk := d, clock := at_ } else none
  | .ledger file => some { s with desk := { s.desk with file := file } }

end

def start (limiter : RateLimiter) (file : Option Ledger) (now : ℚ) : Traffic Thread :=
  ⟨⟨{ limiter with heldUntil := 0 }, file, 0⟩, now, fun _ => .free, [], []⟩

/-- No request was sent strictly inside a hold. -/
def Silent (s : Traffic Thread) : Prop :=
  ∀ hold ∈ s.holds, ∀ send ∈ s.sends, ¬ (hold.start < send.time ∧ send.time < hold.start + hold.wait)

end Traffic

def Phase.earliest (now : ℚ) : Phase → Option ℚ
  | .free => none
  | .slotted sleep => some (now + max 0 sleep)
  | .asleep until_ => some (max now until_)

/-- A hold finds no request that has its slot and can be sent before the hold ends. -/
def HoldsAll (s : Traffic Thread) : Event Thread → Prop
  | .hold wait => ∀ thread, ∀ first ∈ (s.phase thread).earliest (o.clock s.desk.tick),
      o.clock s.desk.tick + wait ≤ first
  | _ => True

end

theorem schedule_after_hold (l : RateLimiter) (target : Resource) (isMutation : Bool)
    (now delay : ℚ) : l.heldUntil ≤ now + (l.schedule target isMutation now delay).sleep := by
  have paced : l.heldUntil ≤ (l.schedule target isMutation now delay).paced := le_max_right _ _
  have later : (l.schedule target isMutation now delay).paced ≤
      (l.schedule target isMutation now delay).scheduled := by
    simp only [RateLimiter.schedule]
    cases isMutation
    · exact le_rfl
    · exact le_max_left _ _
  have slept : (l.schedule target isMutation now delay).scheduled - now ≤
      (l.schedule target isMutation now delay).sleep := le_max_right _ _
  linarith

structure HeldAt (h : ℚ) (n : Nat) (d : Desk) : Prop where
  held : d.limiter.heldUntil = h
  past : n ≤ d.tick

section Acquire
variable {o : Outside} {h : ℚ} {n : Nat}

theorem HeldAt.ticked {d : Desk} (at_ : HeldAt h n d) : HeldAt h n d.ticked :=
  ⟨at_.held, at_.past.trans (Nat.le_succ _)⟩

theorem steady_heldAt (o : Outside) (h : ℚ) (n : Nat) : Steady o (HeldAt h n) where
  ticked _ at_ := at_.ticked
  setQuota _ _ _ at_ := ⟨at_.held, at_.past⟩
  synced := by
    refine keeps_bind keeps_world fun d => keeps_ite ?_ (keeps_pure _)
    refine keeps_bind (keeps_bind keeps_world fun _ => ?_) fun now => ?_
    · exact keeps_bind (keeps_change fun _ => HeldAt.ticked) fun _ => keeps_pure _
    · exact keeps_change fun d at_ => ⟨at_.held, at_.past⟩
  persisted := by
    refine keeps_bind keeps_world fun d => keeps_ite ?_ (keeps_pure _)
    refine keeps_bind (keeps_change fun _ => HeldAt.ticked) fun _ => keeps_ite ?_ (keeps_pure _)
    exact keeps_change fun d at_ => ⟨at_.held, at_.past⟩

theorem spec_time_held : Spec (HeldAt h n) (time o) fun result d =>
    ∃ k, result = .ok (o.clock k) ∧ HeldAt h (k + 1) d :=
  fun d at_ => ⟨d.tick, rfl, at_.held, le_rfl⟩

def AfterHold (o : Outside) (h : ℚ) (result : Except LimiterError ℚ) (d : Desk) : Prop :=
  d.limiter.heldUntil = h ∧
    ∀ sleep, result = .ok sleep → ∃ k < d.tick, h ≤ o.clock k + sleep

theorem afterHold_error {m : Nat} (e : LimiterError) (d : Desk) (at_ : HeldAt h m d) :
    AfterHold o h (.error e) d := ⟨at_.held, nofun⟩

theorem acquireLocked_after_hold (target : Resource) (isMutation : Bool) (cost : Int) :
    Spec (HeldAt h n) (acquireLocked o target isMutation cost) (AfterHold o h) := by
  refine spec_bind (steady_heldAt o h n).synced (fun _ => ?_) afterHold_error
  refine spec_bind spec_time_held (fun now => ?_) fun e d ⟨k, same, _⟩ => nomatch same
  refine spec_exists fun k => spec_fact fun same => ?_
  have reading : now = o.clock k := by simpa using same
  have steady := steady_heldAt o h (k + 1)
  refine spec_bind (keeps_calculateTargetDelay steady target isMutation) (fun delay => ?_)
    afterHold_error
  have look : Spec (HeldAt h (k + 1)) (world : Paced Desk) fun result d =>
      result = .ok d ∧ HeldAt h (k + 1) d := spec_world fun d at_ => ⟨rfl, at_⟩
  refine spec_bind look (fun d => ?_) fun e d at_ => nomatch at_.1
  let at_ := d.limiter.schedule target isMutation now delay
  have slot (w : Desk) (known : Except.ok (ε := LimiterError) d = .ok w ∧ HeldAt h (k + 1) w) :
      h ≤ o.clock k + at_.sleep ∧ HeldAt h (k + 1) w := by
    obtain ⟨asked, held⟩ := known
    have first := schedule_after_hold d.limiter target isMutation now delay
    rw [Except.ok.inj asked, held.held, ← Except.ok.inj asked, reading] at first
    exact ⟨reading ▸ first, held⟩
  refine spec_conseq (spec_fact fun slot => ?_) slot fun _ _ ended => ended
  refine spec_bind (keeps_change fun _ at_ => ⟨at_.held, at_.past⟩) (fun _ => ?_) afterHold_error
  refine spec_bind (keeps_chargeQuota steady target _ cost) (fun _ => ?_) afterHold_error
  refine spec_bind (keeps_change fun d at_ => ⟨at_.held, at_.past⟩) (fun _ => ?_) afterHold_error
  refine spec_bind steady.persisted (fun _ => ?_) afterHold_error
  refine spec_pure _ fun w at_ => ⟨at_.held, fun sleep same => ?_⟩
  rw [← Except.ok.inj same]
  exact ⟨k, at_.past, slot⟩

theorem acquire_after_hold (target : Resource) (isMutation : Bool) (cost : Int) :
    Spec (HeldAt h n) (acquire o target isMutation cost) (AfterHold o h) :=
  spec_bind (keeps_change fun _ at_ => ⟨at_.held, at_.past⟩)
    (fun _ => acquireLocked_after_hold target isMutation cost) afterHold_error

theorem section_keeps_hold (work : Section) : Keeps (HeldAt h n) (work.body o) := by
  have steady := steady_heldAt o h n
  cases work with
  | updateQuota name report => exact keeps_updateQuota steady name report
  | recordUtilization name cost =>
    exact keeps_recordUtilization steady (fun _ _ at_ => ⟨at_.held, at_.past⟩) name cost
  | recordThrottle wait =>
    exact keeps_bind (keeps_change fun _ at_ => ⟨at_.held, at_.past⟩) fun _ => steady.persisted

end Acquire

theorem earliest_mono {now later : ℚ} (after : now ≤ later) {phase : Phase} {end_ : ℚ}
    (slots : ∀ first ∈ phase.earliest now, end_ ≤ first) :
    ∀ first ∈ phase.earliest later, end_ ≤ first := by
  cases phase with
  | free => nofun
  | slotted sleep =>
    simp only [Phase.earliest, Option.mem_some_iff, forall_eq'] at slots ⊢
    linarith
  | asleep until_ =>
    simp only [Phase.earliest, Option.mem_some_iff, forall_eq'] at slots ⊢
    exact slots.trans (max_le_max_right until_ after)

def Hold.end_ (hold : Hold) : ℚ := hold.start + hold.wait

/-- Every hold reaches into what the limiter holds, and no request that has its slot can be
    sent before the end of a hold. -/
structure Spaced (s : Traffic Thread) : Prop where
  held : ∀ hold ∈ s.holds, hold.end_ ≤ s.desk.limiter.heldUntil
  slots : ∀ hold ∈ s.holds, ∀ thread, ∀ first ∈ (s.phase thread).earliest s.clock,
    hold.end_ ≤ first
  sent : ∀ send ∈ s.sends, send.time ≤ s.clock
  silent : s.Silent

namespace Spaced
variable {o : Outside} {s : Traffic Thread}

theorem passed (spaced : Spaced s) {d : Desk} {at_ : ℚ} (later : s.clock ≤ at_)
    (kept : d.limiter.heldUntil = s.desk.limiter.heldUntil) :
    Spaced { s with desk := d, clock := at_ } where
  held hold member := (spaced.held hold member).trans kept.ge
  slots hold member thread := earliest_mono later (spaced.slots hold member thread)
  sent send member := (spaced.sent send member).trans later
  silent := spaced.silent

theorem holding (spaced : Spaced s) (wait : ℚ) (later : s.clock ≤ o.clock s.desk.tick)
    (all : HoldsAll o s (.hold wait)) :
    Spaced { s with
      desk := (run (holdRequests o wait) s.desk).2
      clock := o.clock s.desk.tick
      holds := ⟨o.clock s.desk.tick, wait⟩ :: s.holds } where
  held hold member := by
    change hold.end_ ≤ max s.desk.limiter.heldUntil (o.clock s.desk.tick + wait)
    rcases List.mem_cons.mp member with rfl | earlier
    · exact le_max_right _ _
    · exact le_max_of_le_left (spaced.held hold earlier)
  slots hold member thread := by
    rcases List.mem_cons.mp member with rfl | earlier
    · exact all thread
    · exact earliest_mono later (spaced.slots hold earlier thread)
  sent send member := (spaced.sent send member).trans later
  silent hold member send sent := by
    rcases List.mem_cons.mp member with rfl | earlier
    · exact fun inside => absurd inside.1 (not_lt.mpr ((spaced.sent send sent).trans later))
    · exact spaced.silent hold earlier send sent

variable [DecidableEq Thread]

theorem setPhase (spaced : Spaced s) (thread : Thread) {phase : Phase}
    (after : ∀ hold ∈ s.holds, ∀ first ∈ phase.earliest s.clock, hold.end_ ≤ first) :
    Spaced (s.setPhase thread phase) where
  held := spaced.held
  slots hold member other := by
    by_cases same : other = thread
    · simpa [Traffic.setPhase, same] using after hold member
    · simpa [Traffic.setPhase, same] using spaced.slots hold member other
  sent := spaced.sent
  silent := spaced.silent

theorem acquired (spaced : Spaced s) (thread : Thread) (target : Resource) (isMutation : Bool)
    (cost : Int) {at_ : ℚ} {result : Except LimiterError ℚ} {d : Desk}
    (taken : run (acquire o target isMutation cost) s.desk = (result, d))
    (later : s.clock ≤ at_) (ends : Ends o d at_) :
    Spaced { s with desk := d, clock := at_ } ∧ ∀ sleep, result = .ok sleep →
      Spaced ({ s with desk := d, clock := at_ }.setPhase thread (.slotted sleep)) := by
  have ended := acquire_after_hold (o := o) target isMutation cost s.desk
    ⟨rfl, Nat.zero_le s.desk.tick⟩
  rw [taken] at ended
  obtain ⟨kept, slot⟩ := ended
  have passed := spaced.passed later kept
  refine ⟨passed, fun sleep got => passed.setPhase thread fun hold member => ?_⟩
  obtain ⟨k, made, after⟩ := slot sleep got
  have reading : o.clock k ≤ at_ := ends k made
  have held := spaced.held hold member
  have slept : sleep ≤ max 0 sleep := le_max_right 0 sleep
  simp only [Phase.earliest, Option.mem_some_iff, forall_eq']
  linarith

theorem slept (spaced : Spaced s) (thread : Thread) {sleep at_ : ℚ} (later : s.clock ≤ at_)
    (slotted : s.phase thread = .slotted sleep) :
    Spaced ({ s with clock := at_ }.setPhase thread (.asleep (at_ + max 0 sleep))) := by
  have passed := spaced.passed later (rfl : s.desk.limiter.heldUntil = _)
  refine passed.setPhase thread fun hold member => ?_
  have slot := passed.slots hold member thread
  simp only [slotted, Phase.earliest, Option.mem_some_iff, forall_eq'] at slot ⊢
  exact slot.trans (le_max_right _ _)

theorem sentAfter (spaced : Spaced s) (thread : Thread) {until_ at_ : ℚ} (later : s.clock ≤ at_)
    (awake : until_ ≤ at_) (asleep : s.phase thread = .asleep until_) :
    Spaced ({ s with clock := at_, sends := ⟨thread, at_⟩ :: s.sends }.setPhase thread .free) := by
  have passed := spaced.passed later (rfl : s.desk.limiter.heldUntil = _)
  have slot (hold : Hold) (member : hold ∈ s.holds) : hold.end_ ≤ at_ := by
    have slot := passed.slots hold member thread
    simp only [asleep, Phase.earliest, Option.mem_some_iff, forall_eq'] at slot
    exact slot.trans (max_le le_rfl awake)
  have joined : Spaced { s with clock := at_, sends := ⟨thread, at_⟩ :: s.sends } :=
    { held := passed.held
      slots := passed.slots
      sent := by simpa using passed.sent
      silent := by
        intro hold member send sent
        rcases List.mem_cons.mp sent with rfl | earlier
        · exact fun inside => absurd (slot hold member) (not_le.mpr inside.2)
        · exact spaced.silent hold member send earlier }
  exact joined.setPhase thread fun _ _ _ none => nomatch none

end Spaced

theorem start_spaced (limiter : RateLimiter) (file : Option Ledger) (now : ℚ) :
    Spaced (Traffic.start limiter file now : Traffic Thread) :=
  ⟨nofun, nofun, nofun, nofun⟩

variable [DecidableEq Thread]

theorem step_spaced {o : Outside} {s t : Traffic Thread} {event : Event Thread}
    (spaced : Spaced s) (all : HoldsAll o s event) (taken : s.step o event = some t) :
    Spaced t := by
  cases event with
  | acquire thread target isMutation cost at_ =>
    simp only [Traffic.step] at taken
    split at taken
    · rename_i result d free ran
      simp only [Option.ite_none_right_eq_some] at taken
      obtain ⟨⟨later, ends⟩, taken⟩ := taken
      obtain ⟨passed, slotted⟩ := spaced.acquired thread target isMutation cost ran later ends
      cases result with
      | ok sleep => exact Option.some.inj taken ▸ slotted sleep rfl
      | error e => exact Option.some.inj taken ▸ passed
    · simp at taken
  | sleep thread at_ =>
    simp only [Traffic.step] at taken
    split at taken
    · rename_i sleep slotted
      simp only [Option.ite_none_right_eq_some, Option.some.injEq] at taken
      obtain ⟨later, rfl⟩ := taken
      exact spaced.slept thread later slotted
    · simp at taken
  | send thread at_ =>
    simp only [Traffic.step] at taken
    split at taken
    · rename_i until_ asleep
      simp only [Option.ite_none_right_eq_some, Option.some.injEq] at taken
      obtain ⟨⟨later, awake⟩, rfl⟩ := taken
      exact spaced.sentAfter thread later awake asleep
    · simp at taken
  | hold wait =>
    simp only [Traffic.step, Option.ite_none_right_eq_some, Option.some.injEq] at taken
    obtain ⟨later, rfl⟩ := taken
    exact spaced.holding wait later all
  | other work at_ =>
    simp only [Traffic.step, Option.ite_none_right_eq_some, Option.some.injEq] at taken
    obtain ⟨⟨later, _⟩, rfl⟩ := taken
    exact spaced.passed later (section_keeps_hold work s.desk ⟨rfl, Nat.zero_le _⟩).held
  | ledger file =>
    simp only [Traffic.step, Option.some.injEq] at taken
    subst taken
    exact ⟨spaced.held, spaced.slots, spaced.sent, spaced.silent⟩

theorem send_inside_hold {o : Outside} {s : Traffic Thread} {thread : Thread} {until_ at_ : ℚ}
    {hold : Hold} (asleep : s.phase thread = .asleep until_) (later : s.clock ≤ at_)
    (awake : until_ ≤ at_) (member : hold ∈ s.holds) (inside : hold.start < at_ ∧ at_ < hold.end_) :
    ∃ u, s.step o (.send thread at_) = some u ∧ ¬ u.Silent := by
  refine ⟨{ s with clock := at_, sends := ⟨thread, at_⟩ :: s.sends }.setPhase thread .free, ?_, ?_⟩
  · simp [Traffic.step, asleep, later, awake]
  · exact fun silent => silent hold member ⟨thread, at_⟩ (List.mem_cons_self ..) inside

/-- A hold that finds a slot that ends before it does not stop that request. -/
theorem late_hold_breaks {o : Outside} {s t : Traffic Thread} {wait : ℚ}
    (late : ¬ HoldsAll o s (.hold wait)) (taken : s.step o (.hold wait) = some t) :
    ∃ events u, exec (Traffic.step o) t events = some u ∧ ¬ u.Silent := by
  simp only [HoldsAll, not_forall, not_le, exists_prop] at late
  obtain ⟨thread, first, slot, before⟩ := late
  simp only [Traffic.step, Option.ite_none_right_eq_some, Option.some.injEq] at taken
  obtain ⟨_, rfl⟩ := taken
  -- The request is sent between its slot and the end of the hold.
  obtain ⟨at_, after, before⟩ := exists_between before
  let hold : Hold := ⟨o.clock s.desk.tick, wait⟩
  let t : Traffic Thread := { s with
    desk := (run (holdRequests o wait) s.desk).2
    clock := hold.start
    holds := hold :: s.holds }
  have here : hold ∈ t.holds := List.mem_cons_self
  cases asked : s.phase thread with
  | free => simp [asked, Phase.earliest] at slot
  | slotted sleep =>
    simp only [asked, Phase.earliest, Option.mem_some_iff] at slot
    have now : hold.start < at_ := by
      have := le_max_left 0 sleep
      simp only [hold]
      linarith
    have slept : t.step o (.sleep thread hold.start) =
        some (t.setPhase thread (.asleep first)) := by
      simp [t, hold, Traffic.step, asked, ← slot]
    obtain ⟨u, sent, loud⟩ := send_inside_hold (o := o) (s := t.setPhase thread (.asleep first))
      (Function.update_self ..) now.le after.le here ⟨now, before⟩
    exact ⟨[.sleep thread hold.start, .send thread at_], u,
      exec_cons.mpr ⟨_, slept, exec_cons.mpr ⟨u, sent, rfl⟩⟩, loud⟩
  | asleep until_ =>
    simp only [asked, Phase.earliest, Option.mem_some_iff] at slot
    obtain ⟨now, awake⟩ := max_lt_iff.mp (slot ▸ after)
    obtain ⟨u, sent, loud⟩ := send_inside_hold (o := o) (s := t) asked now.le awake.le here
      ⟨now, before⟩
    exact ⟨[.send thread at_], u, exec_cons.mpr ⟨u, sent, rfl⟩, loud⟩

/-- Where every hold finds no slot that ends before it, no request is sent inside a hold. -/
theorem hold_stops_every_request (o : Outside) (limiter : RateLimiter) (file : Option Ledger)
    (now : ℚ) (events : List (Event Thread)) (s : Traffic Thread)
    (all : Meets (Traffic.step o) (HoldsAll o) (Traffic.start limiter file now) events)
    (run : exec (Traffic.step o) (Traffic.start limiter file now) events = some s) : s.Silent :=
  (exec_invariant Spaced (fun _ _ _ spaced all taken => step_spaced spaced all taken)
    (start_spaced limiter file now) all run).silent

def bySecond : Outside where
  clock n := n
  readable _ := false
  writable _ := false
  refresh _ := .failed "offline"

def tenLeft : RateLimiter where
  persists := false
  minInterval := 0
  mutationMinInterval := 1
  quotaMaxAge := 3600
  quotas := fun name =>
    if name = "core" then some { remaining := some 10, resetEpoch := some 100, lastUpdated := some 0 }
    else none

instance [Fintype Thread] (o : Outside) (s : Traffic Thread) :
    (event : Event Thread) → Decidable (HoldsAll o s event)
  | .hold wait => inferInstanceAs (Decidable (∀ thread,
      ∀ first ∈ (s.phase thread).earliest (o.clock s.desk.tick),
        o.clock s.desk.tick + wait ≤ first))
  | .acquire .. | .sleep .. | .send .. | .other .. | .ledger .. => .isTrue trivial

/-- A hold of 60 seconds, and then a request that waits for its end. -/
theorem hold_stops_every_request_reached :
    ∃ s : Traffic Unit, s.holds = [⟨0, 60⟩] ∧ s.sends = [⟨(), 64⟩] ∧ s.Silent := by
  let events : List (Event Unit) :=
    [.hold 60, .acquire () "core" false 1 4, .sleep () 5, .send () 64]
  have reached : (exec (Traffic.step bySecond) (Traffic.start tenLeft none 0) events).any
      (fun s => decide (s.holds = [⟨0, 60⟩] ∧ s.sends = [⟨(), 64⟩])) = true := by decide +kernel
  obtain ⟨s, run, sent⟩ := (Option.any_eq_true _ _).mp reached
  have all : Meets (Traffic.step bySecond) (HoldsAll bySecond) (Traffic.start tenLeft none 0)
      events := by decide +kernel
  obtain ⟨holds, sends⟩ := of_decide_eq_true sent
  exact ⟨s, holds, sends, hold_stops_every_request bySecond tenLeft none 0 events s all run⟩

/-- A request gets its slot, then a hold begins, and the request is sent inside it. -/
theorem hold_misses_slotted_request :
    ¬ ∀ (o : Outside) (limiter : RateLimiter) (file : Option Ledger) (now : ℚ)
      (events : List (Event Unit)) (s : Traffic Unit),
      exec (Traffic.step o) (Traffic.start limiter file now) events = some s → s.Silent := by
  intro silent
  let events : List (Event Unit) :=
    [.acquire () "core" false 1 3, .sleep () 3, .hold 60, .send () 14]
  have reached : (exec (Traffic.step bySecond) (Traffic.start tenLeft none 0) events).any
      (fun s => decide (s.holds = [⟨4, 60⟩] ∧ s.sends = [⟨(), 14⟩])) = true := by decide +kernel
  obtain ⟨s, run, sent⟩ := (Option.any_eq_true _ _).mp reached
  obtain ⟨holds, sends⟩ := of_decide_eq_true sent
  have outside := silent bySecond tenLeft none 0 events s run ⟨4, 60⟩ (by simp [holds])
    ⟨(), 14⟩ (by simp [sends])
  exact outside (by norm_num)

end DevopsCli.GitHub
