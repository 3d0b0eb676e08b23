import DevopsCli.GitHub.Holds

/- What a hold does to the requests of many threads, with no condition on the holds: a request waits
   out every hold that was made before it got its slot. -/
namespace DevopsCli.GitHub
open Act Run

variable {Thread : Type}

structure Sent (Thread : Type) where
  thread : Thread
  time : ℚ
  before : List Hold
  deriving DecidableEq

structure Watched (Thread : Type) where
  traffic : Traffic Thread
  before : Thread → List Hold
  sent : List (Sent Thread)

def Hold.Covers (hold : Hold) (time : ℚ) : Prop := hold.start < time ∧ time < hold.end_

instance (hold : Hold) (time : ℚ) : Decidable (hold.Covers time) :=
  inferInstanceAs (Decidable (hold.start < time ∧ time < hold.end_))

namespace Watched
variable [DecidableEq Thread]

def noteBefore (s : Watched Thread) : Event Thread → Thread → List Hold
  | .acquire thread .. => Function.update s.before thread s.traffic.holds
  | _ => s.before

def noteSent (s : Watched Thread) : Event Thread → List (Sent Thread)
  | .send thread at_ => ⟨thread, at_, s.before thread⟩ :: s.sent
  | _ => s.sent

def step (o : Outside) (s : Watched Thread) (event : Event Thread) : Option (Watched Thread) :=
  (s.traffic.step o event).map fun traffic => ⟨traffic, s.noteBefore event, s.noteSent event⟩

def start (limiter : RateLimiter) (file : Option Ledger) (now : ℚ) : Watched Thread :=
  ⟨.start limiter file now, fun _ => [], []⟩

def inside (s : Watched Thread) (hold : Hold) (thread : Thread) : Nat :=
  s.sent.countP fun sent => decide (sent.thread = thread ∧ hold.Covers sent.time)

/-- The thread has a slot that it got before the hold. -/
def unaware (s : Watched Thread) (hold : Hold) (thread : Thread) : Bool :=
  decide (s.traffic.phase thread ≠ .free) && decide (hold ∉ s.before thread)

end Watched

structure Onward (s t : Traffic Thread) : Prop where
  later : s.clock ≤ t.clock
  held : t.desk.limiter.heldUntil = s.desk.limiter.heldUntil
  holds : t.holds = s.holds

section Moves
variable [DecidableEq Thread]

inductive Moves (s t : Traffic Thread) : Event Thread → Prop where
  | refused {thread target isMutation cost at_} (onward : Onward s t) (was : s.phase thread = .free)
      (same : t.phase = s.phase) : Moves s t (.acquire thread target isMutation cost at_)
  | slotted {thread target isMutation cost at_} (sleep : ℚ) (onward : Onward s t)
      (slot : t.phase = Function.update s.phase thread (.slotted sleep))
      (after : s.desk.limiter.heldUntil ≤ t.clock + max 0 sleep) :
      Moves s t (.acquire thread target isMutation cost at_)
  | slept {thread at_} (sleep : ℚ) (onward : Onward s t) (was : s.phase thread = .slotted sleep)
      (slot : t.phase = Function.update s.phase thread (.asleep (t.clock + max 0 sleep))) :
      Moves s t (.sleep thread at_)
  | sent {thread at_} (until_ : ℚ) (onward : Onward s t) (was : s.phase thread = .asleep until_)
      (awake : until_ ≤ at_) (now : t.clock = at_)
      (slot : t.phase = Function.update s.phase thread .free) : Moves s t (.send thread at_)
  | held {wait} (later : s.clock ≤ t.clock) (same : t.phase = s.phase)
      (until_ : t.desk.limiter.heldUntil = max s.desk.limiter.heldUntil (t.clock + wait))
      (made : t.holds = ⟨t.clock, wait⟩ :: s.holds) : Moves s t (.hold wait)
  | other {work at_} (onward : Onward s t) (same : t.phase = s.phase) : Moves s t (.other work at_)
  | ledger {file} (onward : Onward s t) (same : t.phase = s.phase) : Moves s t (.ledger file)

theorem acquire_moves {o : Outside} {s t : Traffic Thread} {thread : Thread} {target : Resource}
    {isMutation : Bool} {cost : Int} {at_ : ℚ}
    (taken : s.step o (.acquire thread target isMutation cost at_) = some t) :
    Moves s t (.acquire thread target isMutation cost at_) := by
  simp only [Traffic.step] at taken
  split at taken
  case h_2 => simp at taken
  case h_1 result d free ran =>
    simp only [Option.ite_none_right_eq_some] at taken
    obtain ⟨⟨later, ends⟩, taken⟩ := taken
    have ended := acquire_after_hold (o := o) target isMutation cost s.desk
      ⟨rfl, Nat.zero_le s.desk.tick⟩
    rw [ran] at ended
    obtain ⟨kept, slot⟩ := ended
    cases result with
    | error e =>
      obtain rfl := Option.some.inj taken
      exact .refused ⟨later, kept, rfl⟩ free rfl
    | ok sleep =>
      obtain rfl := Option.some.inj taken
      obtain ⟨k, made, after⟩ := slot sleep rfl
      refine .slotted sleep ⟨later, kept, rfl⟩ rfl ?_
      calc s.desk.limiter.heldUntil ≤ o.clock k + sleep := after
        _ ≤ at_ + max 0 sleep := add_le_add (ends k made) (le_max_right 0 sleep)

theorem step_moves {o : Outside} {s t : Traffic Thread} {event : Event Thread}
    (taken : s.step o event = some t) : Moves s t event := by
  cases event with
  | acquire thread target isMutation cost at_ => exact acquire_moves taken
  | sleep thread at_ =>
    cases was : s.phase thread <;>
      simp only [Traffic.step, was, reduceCtorEq, Option.ite_none_right_eq_some,
        Option.some.injEq] at taken
    obtain ⟨later, rfl⟩ := taken
    exact .slept _ ⟨later, rfl, rfl⟩ was rfl
  | send thread at_ =>
    cases was : s.phase thread <;>
      simp only [Traffic.step, was, reduceCtorEq, Option.ite_none_right_eq_some,
        Option.some.injEq] at taken
    obtain ⟨⟨later, awake⟩, rfl⟩ := taken
    exact .sent _ ⟨later, rfl, rfl⟩ was awake rfl rfl
  | hold wait =>
    simp only [Traffic.step, Option.ite_none_right_eq_some, Option.some.injEq] at taken
    obtain ⟨later, rfl⟩ := taken
    exact .held later rfl rfl rfl
  | other work at_ =>
    simp only [Traffic.step, Option.ite_none_right_eq_some, Option.some.injEq] at taken
    obtain ⟨⟨later, _⟩, rfl⟩ := taken
    exact .other ⟨later, (section_keeps_hold work s.desk ⟨rfl, Nat.zero_le _⟩).held, rfl⟩ rfl
  | ledger file =>
    simp only [Traffic.step, Option.some.injEq] at taken
    subst taken
    exact .ledger ⟨le_rfl, rfl, rfl⟩ rfl

end Moves

/-- Every slot ends after the holds that it came after, and each thread sends at most one request
    inside a hold: the one whose slot it had. -/
structure Aware [DecidableEq Thread] (s : Watched Thread) : Prop where
  held : ∀ hold ∈ s.traffic.holds, hold.end_ ≤ s.traffic.desk.limiter.heldUntil
  slots : ∀ thread, ∀ hold ∈ s.before thread,
    ∀ first ∈ (s.traffic.phase thread).earliest s.traffic.clock, hold.end_ ≤ first
  past : ∀ sent ∈ s.sent, sent.time ≤ s.traffic.clock
  waited : ∀ sent ∈ s.sent, ∀ hold ∈ sent.before, hold.end_ ≤ sent.time
  once : ∀ hold ∈ s.traffic.holds, ∀ thread,
    s.inside hold thread + (s.unaware hold thread).toNat ≤ 1

namespace Aware
variable [DecidableEq Thread] {s : Watched Thread} {t : Traffic Thread}

theorem passed (aware : Aware s) (onward : Onward s.traffic t) (same : t.phase = s.traffic.phase) :
    Aware { s with traffic := t } where
  held hold made := onward.held ▸ aware.held hold (onward.holds ▸ made)
  slots thread hold member := by
    rw [same]
    exact earliest_mono onward.later (aware.slots thread hold member)
  past sent member := (aware.past sent member).trans onward.later
  waited := aware.waited
  once hold made thread := by
    have once := aware.once hold (onward.holds ▸ made) thread
    simpa only [Watched.inside, Watched.unaware, same] using once

theorem slotted (aware : Aware s) (thread : Thread) {sleep : ℚ} (onward : Onward s.traffic t)
    (slot : t.phase = Function.update s.traffic.phase thread (.slotted sleep))
    (after : s.traffic.desk.limiter.heldUntil ≤ t.clock + max 0 sleep) :
    Aware { s with traffic := t, before := Function.update s.before thread s.traffic.holds } where
  held hold made := onward.held ▸ aware.held hold (onward.holds ▸ made)
  slots other hold member := by
    dsimp only at member ⊢
    by_cases mine : other = thread
    · subst mine
      rw [Function.update_self] at member
      simp only [slot, Function.update_self, Phase.earliest, Option.mem_some_iff, forall_eq']
      exact (aware.held hold member).trans after
    · rw [Function.update_of_ne mine] at member
      rw [slot, Function.update_of_ne mine]
      exact earliest_mono onward.later (aware.slots other hold member)
  past sent member := (aware.past sent member).trans onward.later
  waited := aware.waited
  once hold made other := by
    have before : hold ∈ s.traffic.holds := onward.holds ▸ made
    have once := aware.once hold before other
    simp only [Watched.inside, Watched.unaware, slot] at once ⊢
    by_cases mine : other = thread
    · subst mine
      simp only [Function.update_self, before, not_true_eq_false, decide_false, Bool.and_false,
        Bool.toNat_false]
      exact (Nat.le_add_right _ _).trans once
    · simpa only [Function.update_of_ne mine] using once

theorem noted (aware : Aware s) (thread : Thread) (free : s.traffic.phase thread = .free) :
    Aware { s with before := Function.update s.before thread s.traffic.holds } where
  held := aware.held
  slots other hold member := by
    by_cases mine : other = thread
    · subst mine
      simp [free, Phase.earliest]
    · dsimp only at member
      rw [Function.update_of_ne mine] at member
      exact aware.slots other hold member
  past := aware.past
  waited := aware.waited
  once hold made other := by
    have once := aware.once hold made other
    by_cases mine : other = thread
    · subst mine
      simpa [Watched.inside, Watched.unaware, free] using once
    · simpa only [Watched.inside, Watched.unaware, Function.update_of_ne mine] using once

theorem slept (aware : Aware s) (thread : Thread) {sleep : ℚ} (onward : Onward s.traffic t)
    (was : s.traffic.phase thread = .slotted sleep)
    (slot : t.phase = Function.update s.traffic.phase thread (.asleep (t.clock + max 0 sleep))) :
    Aware { s with traffic := t } where
  held hold made := onward.held ▸ aware.held hold (onward.holds ▸ made)
  slots other hold member := by
    dsimp only at member ⊢
    have slots := earliest_mono onward.later (aware.slots other hold member)
    by_cases mine : other = thread
    · subst mine
      simp only [was, slot, Function.update_self, Phase.earliest, Option.mem_some_iff,
        forall_eq'] at slots ⊢
      exact slots.trans (le_max_right _ _)
    · rw [slot, Function.update_of_ne mine]
      exact slots
  past sent member := (aware.past sent member).trans onward.later
  waited := aware.waited
  once hold made other := by
    have once := aware.once hold (onward.holds ▸ made) other
    simp only [Watched.inside, Watched.unaware, slot] at once ⊢
    by_cases mine : other = thread
    · subst mine
      simpa [was] using once
    · simpa only [Function.update_of_ne mine] using once

/-- A request that is sent inside a hold uses up the slot that the thread had before it. -/
theorem sentAfter (aware : Aware s) (thread : Thread) {until_ at_ : ℚ} (onward : Onward s.traffic t)
    (was : s.traffic.phase thread = .asleep until_) (awake : until_ ≤ at_) (now : t.clock = at_)
    (slot : t.phase = Function.update s.traffic.phase thread .free) :
    Aware { s with traffic := t, sent := ⟨thread, at_, s.before thread⟩ :: s.sent } := by
  have waits (hold : Hold) (member : hold ∈ s.before thread) : hold.end_ ≤ at_ := by
    have slots := earliest_mono onward.later (aware.slots thread hold member)
    simp only [was, Phase.earliest, Option.mem_some_iff, forall_eq'] at slots
    exact slots.trans (max_le now.le awake)
  exact
    { held := fun hold made => onward.held ▸ aware.held hold (onward.holds ▸ made)
      slots := by
        intro other hold member
        dsimp only at member ⊢
        by_cases mine : other = thread
        · subst mine
          simp [slot, Phase.earliest]
        · rw [slot, Function.update_of_ne mine]
          exact earliest_mono onward.later (aware.slots other hold member)
      past := by
        intro sent member
        rcases List.mem_cons.mp member with rfl | earlier
        · exact now.ge
        · exact (aware.past sent earlier).trans onward.later
      waited := by
        intro sent member
        rcases List.mem_cons.mp member with rfl | earlier
        · exact waits
        · exact aware.waited sent earlier
      once := by
        intro hold made other
        have once := aware.once hold (onward.holds ▸ made) other
        simp only [Watched.inside, Watched.unaware, slot, List.countP_cons] at once ⊢
        by_cases mine : other = thread
        · subst mine
          by_cases known : hold ∈ s.before other
          · have late : ¬ hold.Covers at_ := fun covers => absurd (waits hold known) (not_le.mpr covers.2)
            simpa [late, known] using once
          · simp only [was, known, ne_eq, reduceCtorEq, not_false_eq_true, decide_true, Bool.and_self,
              Bool.toNat_true, Function.update_self, not_true_eq_false, decide_false, Bool.false_and,
              Bool.toNat_false, true_and, decide_eq_true_eq, Nat.add_zero] at once ⊢
            split
            · exact once
            · exact (Nat.le_add_right _ _).trans once
        · have apart : ¬ thread = other := fun same => mine same.symm
          simpa [apart, Function.update_of_ne mine] using once }

theorem holding (aware : Aware s) {wait : ℚ} (later : s.traffic.clock ≤ t.clock)
    (same : t.phase = s.traffic.phase)
    (until_ : t.desk.limiter.heldUntil = max s.traffic.desk.limiter.heldUntil (t.clock + wait))
    (made : t.holds = ⟨t.clock, wait⟩ :: s.traffic.holds) : Aware { s with traffic := t } where
  held hold member := by
    rw [made] at member
    rw [until_]
    rcases List.mem_cons.mp member with rfl | earlier
    · exact le_max_right _ _
    · exact le_max_of_le_left (aware.held hold earlier)
  slots thread hold member := by
    rw [same]
    exact earliest_mono later (aware.slots thread hold member)
  past sent member := (aware.past sent member).trans later
  waited := aware.waited
  once hold member thread := by
    rw [made] at member
    rcases List.mem_cons.mp member with rfl | earlier
    · -- Every request so far was sent before the hold began.
      have none_ : (s.sent.countP fun sent =>
          decide (sent.thread = thread ∧ Hold.Covers ⟨t.clock, wait⟩ sent.time)) = 0 := by
        refine List.countP_eq_zero.mpr fun sent member => ?_
        have early := (aware.past sent member).trans later
        exact fun counted => absurd early (not_le.mpr (of_decide_eq_true counted).2.1)
      simpa only [Watched.inside, none_, Nat.zero_add] using Bool.toNat_le _
    · have once := aware.once hold earlier thread
      simpa only [Watched.inside, Watched.unaware, same] using once

theorem step {o : Outside} {u : Watched Thread} {event : Event Thread} (aware : Aware s)
    (taken : s.step o event = some u) : Aware u := by
  obtain ⟨t, first, rfl⟩ := Option.map_eq_some_iff.mp taken
  cases step_moves first with
  | refused onward was same => exact (aware.noted _ was).passed onward same
  | slotted sleep onward slot after => exact aware.slotted _ onward slot after
  | slept sleep onward was slot => exact aware.slept _ onward was slot
  | sent until_ onward was awake now slot => exact aware.sentAfter _ onward was awake now slot
  | held later same until_ made => exact aware.holding later same until_ made
  | other onward same => exact aware.passed onward same
  | ledger onward same => exact aware.passed onward same

end Aware

theorem start_aware [DecidableEq Thread] (limiter : RateLimiter) (file : Option Ledger) (now : ℚ) :
    Aware (Watched.start limiter file now : Watched Thread) where
  held := by simp [Watched.start, Traffic.start]
  slots := by simp [Watched.start]
  past := by simp [Watched.start]
  waited := by simp [Watched.start]
  once := by simp [Watched.start, Traffic.start]

end DevopsCli.GitHub
