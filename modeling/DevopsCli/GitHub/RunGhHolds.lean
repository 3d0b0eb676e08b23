import DevopsCli.GitHub.RunGh

/- The attempts of run_gh in every run of its threads: a failure is sent again only after the hold that
   its backoff made, and no more often than the call allows. -/
namespace DevopsCli.GitHub.RunGh
open PyStr Run

section Laws
variable {Thread Digest : Type} (read : Readers Digest)

/-- What gh wrote names a rate limit, on stderr alone and together with what it printed. -/
def namesLimit (proc : Proc) : Bool :=
  isRateLimitError read proc.stderr && isRateLimitError read (proc.stderr ++ ' ' :: proc.stdout)

/-- An attempt made a hold only on a failure that names a rate limit, after its request. -/
def Held (holds : List Hold) (tried : Tried) : Prop :=
  ∀ hold ∈ tried.hold, hold ∈ holds ∧ 0 < hold.wait ∧ tried.sent ≤ hold.start ∧
    tried.proc.returncode ≠ 0 ∧ namesLimit read tried.proc = true

def Resent (later earlier : Tried) : Prop := ∃ hold ∈ earlier.hold, hold.end_ ≤ later.sent

def Asked (sent : List (Sent Thread)) (thread : Thread) (time : ℚ) : Prop :=
  ∃ paced ∈ sent, paced.thread = thread ∧ paced.time = time

structure Tries (s : Watched Thread) (thread : Thread) (call : Call) (tries : List Tried) : Prop where
  held : ∀ tried ∈ tries, Held read s.traffic.holds tried
  resent : tries.IsChain Resent
  paced : call.isExempt read = false → ∀ tried ∈ tries, Asked s.sent thread tried.sent

/-- The last attempt of a call succeeds, or its failure names no rate limit, or it has made its hold
    and the call has used all its attempts. -/
def Settles (call : Call) (tries : List Tried) (tried : Tried) : Prop :=
  tried.proc.returncode = 0 ∨ namesLimit read tried.proc = false ∨
  (tried.hold.isSome ∧ tries.length = (call.maxRetries + 1).toNat)

def Drawn {Thread Digest : Type} : Event Thread Digest → Prop
  | .gh _ (.judges draw _) _ => 0 ≤ draw
  | _ => True

instance {Thread Digest : Type} : DecidablePred (Drawn : Event Thread Digest → Prop) := fun event => by
  unfold Drawn
  split <;> infer_instance

def Answered (e : Ended Thread) : Prop :=
  match e.outcome with
  | .cached _ _ => e.tries = []
  | .returned proc | .calledProcessError proc =>
    (e.tries = [] ∧ e.call.maxRetries < 0) ∨
    ∃ tried ∈ e.tries.head?, tried.proc = proc ∧ Settles read e.call e.tries tried
  | .raised => True

structure Lawful (s : Watched Thread) (e : Ended Thread) : Prop where
  tries : Tries read s e.thread e.call e.tries
  few : e.tries.length ≤ (e.call.maxRetries + 1).toNat
  answered : Answered read e

def After (tries : List Tried) (time : ℚ) : Prop :=
  ∀ tried ∈ tries.head?, ∃ hold ∈ tried.hold, hold.end_ ≤ time

structure Running (s : Watched Thread) (thread : Thread) (job : Job) : Prop where
  after : After job.tries job.sent
  sent : job.sent ≤ job.since
  paced : job.call.isExempt read = false → Asked s.sent thread job.sent

def Ready (s : Watched Thread) (thread : Thread) (job : Job) : Prop :=
  match job.point with
  | .opens | .paces => After job.tries job.since
  | .runs | .reads _ _ => Running read s thread job
  | .holds proc wait => Running read s thread job ∧ 0 < wait ∧ proc.returncode ≠ 0 ∧
      namesLimit read proc = true
  | .throttles wait => ∃ tried ∈ job.tries.head?, ∃ hold ∈ tried.hold,
      hold.start ≤ job.since ∧ hold.wait = wait

structure Going (s : Watched Thread) (thread : Thread) (job : Job) : Prop where
  tries : Tries read s thread job.call job.tries
  few : job.tries.length ≤ job.call.maxRetries
  ready : Ready read s thread job

variable [DecidableEq Thread]

structure Kept (s : Line Thread Digest) : Prop where
  aware : Aware s.watched
  going : ∀ thread, ∀ job ∈ s.stage thread, Going read s.watched thread job
  ended : ∀ e ∈ s.ended, Lawful read s.watched e

end Laws

section Grows
variable {Thread : Type} [DecidableEq Thread] {o : Outside} {u v : Watched Thread}
  {event : GitHub.Event Thread}

theorem Moves.holds_subset {s t : Traffic Thread} (moves : Moves s t event) :
    s.holds ⊆ t.holds := by
  cases moves with
  | held _ _ _ made => exact made ▸ List.subset_cons_self _ _
  | refused onward | slotted _ onward | slept _ onward | sent _ onward | other onward
  | ledger onward => exact onward.holds.symm ▸ List.Subset.refl _

theorem step_grows (taken : u.step o event = some v) :
    u.traffic.holds ⊆ v.traffic.holds ∧ u.sent ⊆ v.sent := by
  obtain ⟨t, first, rfl⟩ := Option.map_eq_some_iff.mp taken
  refine ⟨Moves.holds_subset (step_moves first), ?_⟩
  cases event with
  | send thread at_ => exact List.subset_cons_self _ _
  | acquire | sleep | hold | other | ledger => exact List.Subset.refl _

end Grows

section Steps
variable {Thread Digest : Type} {read : Readers Digest} {w : Waits} {u v : Watched Thread}
  {thread : Thread} {call : Call} {tries : List Tried} {job : Job}

theorem Asked.mono {time : ℚ} (sent : u.sent ⊆ v.sent) (asked : Asked u.sent thread time) :
    Asked v.sent thread time := by
  obtain ⟨paced, member, mine⟩ := asked
  exact ⟨paced, sent member, mine⟩

theorem Running.mono (sent : u.sent ⊆ v.sent) (running : Running read u thread job) :
    Running read v thread job :=
  ⟨running.after, running.sent, fun exempt => (running.paced exempt).mono sent⟩

theorem Tries.mono (holds : u.traffic.holds ⊆ v.traffic.holds) (sent : u.sent ⊆ v.sent)
    (law : Tries read u thread call tries) : Tries read v thread call tries where
  held tried member hold made := by
    obtain ⟨kept, rest⟩ := law.held tried member hold made
    exact ⟨holds kept, rest⟩
  resent := law.resent
  paced exempt tried member := (law.paced exempt tried member).mono sent

theorem Lawful.mono {e : Ended Thread} (holds : u.traffic.holds ⊆ v.traffic.holds)
    (sent : u.sent ⊆ v.sent) (law : Lawful read u e) : Lawful read v e :=
  ⟨law.tries.mono holds sent, law.few, law.answered⟩

theorem Going.mono (holds : u.traffic.holds ⊆ v.traffic.holds) (sent : u.sent ⊆ v.sent)
    (going : Going read u thread job) : Going read v thread job where
  tries := going.tries.mono holds sent
  few := going.few
  ready := by
    have ready := going.ready
    unfold Ready at ready ⊢
    cases point : job.point <;> simp only [point] at ready ⊢
    case opens | paces | throttles => exact ready
    case runs | reads => exact ready.mono sent
    case holds => exact ⟨ready.1.mono sent, ready.2⟩

theorem boundedWait_ok {wait bounded : ℚ} {text : String} (asks : boundedWait w wait text = .ok bounded) :
    bounded = wait := by
  unfold boundedWait at asks
  split at asks
  · cases asks
  · exact (Except.ok.inj asks).symm

theorem retryDelay_positive (rate : 0 < w.secondaryRateWait) (cap : 0 < w.secondaryMaxCap)
    {retryAfter : Option ℚ} {state : Option QuotaState} {now draw wait : ℚ} (drawn : 0 ≤ draw)
    (asks : retryDelay w retryAfter state now draw = .ok wait) : 0 < wait := by
  unfold retryDelay at asks
  split at asks
  · next seconds named =>
    have positive := (Option.filter_eq_some_iff.mp named).2
    exact boundedWait_ok asks ▸ of_decide_eq_true positive
  · split at asks
    · next until_ spent =>
      simp only [primaryWait, Option.bind_eq_some_iff, Option.ite_none_right_eq_some,
        Option.some.injEq] at spent
      obtain ⟨_, _, reset, _, ⟨_, _, later⟩, rfl⟩ := spent
      exact boundedWait_ok asks ▸ sub_pos.mpr later
    · exact boundedWait_ok asks ▸ lt_min (add_pos_of_pos_of_nonneg rate drawn) cap

/-- A failure asks for a wait exactly where it names a rate limit. -/
theorem backoff_positive (rate : 0 < w.secondaryRateWait) (cap : 0 < w.secondaryMaxCap) {proc : Proc}
    {state : Option QuotaState} {now draw wait : ℚ} (drawn : 0 ≤ draw)
    (asks : backoffOf read w proc state now draw = .ok wait) :
    0 < wait ↔ namesLimit read proc = true := by
  unfold backoffOf calculateBackoffDelay at asks
  cases first : isRateLimitError read proc.stderr with
  | false =>
    simp only [first, Bool.not_false, if_true, Except.ok.injEq] at asks
    simp [namesLimit, first, ← asks]
  | true =>
    cases both : isRateLimitError read (proc.stderr ++ ' ' :: proc.stdout) with
    | false =>
      simp only [first, both, Bool.not_true, Bool.not_false, Bool.false_eq_true, if_false, if_true,
        Except.ok.injEq] at asks
      simp [namesLimit, both, ← asks]
    | true =>
      simp only [first, both, Bool.not_true, Bool.false_eq_true, if_false] at asks
      exact iff_of_true (retryDelay_positive rate cap drawn asks) (by simp [namesLimit, first, both])

theorem Running.tried (running : Running read u thread job)
    (law : Tries read u thread job.call job.tries) {proc : Proc} {hold : Option Hold}
    (held : Held read u.traffic.holds ⟨proc, job.sent, hold⟩) :
    Tries read u thread job.call (⟨proc, job.sent, hold⟩ :: job.tries) where
  held tried member := by
    rcases List.mem_cons.mp member with rfl | earlier
    · exact held
    · exact law.held tried earlier
  resent := List.isChain_cons.mpr ⟨running.after, law.resent⟩
  paced exempt tried member := by
    rcases List.mem_cons.mp member with rfl | earlier
    · exact running.paced exempt
    · exact law.paced exempt tried earlier

theorem held_none (read : Readers Digest) (holds : List Hold) (proc : Proc) (sent : ℚ) :
    Held read holds ⟨proc, sent, none⟩ := by simp [Held]

theorem answered_raise {e : Ended Thread} {check : Bool} {proc : Proc}
    (ends : e.outcome = raiseForStatus check proc)
    (last : (e.tries = [] ∧ e.call.maxRetries < 0) ∨
      ∃ tried ∈ e.tries.head?, tried.proc = proc ∧ Settles read e.call e.tries tried) :
    Answered read e := by
  have either : e.outcome = .returned proc ∨ e.outcome = .calledProcessError proc := by
    rw [ends, raiseForStatus]
    split
    · exact .inr rfl
    · exact .inl rfl
  rcases either with same | same <;> simpa only [Answered, same] using last

namespace Going
variable (going : Going read u thread job)
include going

theorem few_tries {tried : Tried} :
    (tried :: job.tries).length ≤ (job.call.maxRetries + 1).toNat := by
  have few := going.few
  simp only [List.length_cons]
  omega

theorem gives_up (at_ : ℚ) : Lawful read u ⟨thread, job.call, job.tries, .raised, at_⟩ where
  tries := going.tries
  few := by
    have few := going.few
    dsimp only
    omega
  answered := trivial

theorem ends (running : Running read u thread job) {proc : Proc} {hold : Option Hold}
    {outcome : Outcome} {at_ : ℚ} (held : Held read u.traffic.holds ⟨proc, job.sent, hold⟩)
    (answered : Answered read
      (⟨thread, job.call, ⟨proc, job.sent, hold⟩ :: job.tries, outcome, at_⟩ : Ended Thread)) :
    Lawful read u ⟨thread, job.call, ⟨proc, job.sent, hold⟩ :: job.tries, outcome, at_⟩ :=
  ⟨running.tried going.tries held, going.few_tries, answered⟩

theorem stays {since sent : ℚ} {point : Point}
    (ready : Ready read u thread { job with since := since, sent := sent, point := point }) :
    Going read u thread { job with since := since, sent := sent, point := point } :=
  ⟨going.tries, going.few, ready⟩

end Going

theorem After.later {time later : ℚ} (after : After tries time) (on : time ≤ later) :
    After tries later := by
  intro tried newest
  obtain ⟨hold, made, ended⟩ := after tried newest
  exact ⟨hold, made, ended.trans on⟩

end Steps

section Kept
variable {Thread Digest : Type} [DecidableEq Thread] {o : Outside} {read : Readers Digest}
  {w : Waits} {s t : Line Thread Digest} {thread : Thread} {job : Job}

namespace Kept

theorem put (kept : Kept read s) (going : Going read s.watched thread job) :
    Kept read (s.put thread job) where
  aware := kept.aware
  going other job' stands := by
    by_cases mine : other = thread
    · subst mine
      simp only [Line.put, Function.update_self, Option.mem_some_iff] at stands
      exact stands ▸ going
    · simp only [Line.put, Function.update_of_ne mine] at stands
      exact kept.going other job' stands
  ended := kept.ended

theorem finish {call : Call} {tries : List Tried} {outcome : Outcome} {at_ : ℚ}
    (kept : Kept read s) (lawful : Lawful read s.watched ⟨thread, call, tries, outcome, at_⟩) :
    Kept read (s.finish thread call tries outcome at_) where
  aware := kept.aware
  going other job' stands := by
    by_cases mine : other = thread
    · subst mine
      simp [Line.finish] at stands
    · simp only [Line.finish, Function.update_of_ne mine] at stands
      exact kept.going other job' stands
  ended e member := by
    rcases List.mem_cons.mp member with rfl | earlier
    · exact lawful
    · exact kept.ended e earlier

theorem watch {event : GitHub.Event Thread} {u : Watched Thread} (kept : Kept read s)
    (taken : s.watched.step o event = some u) : Kept read { s with watched := u } where
  aware := kept.aware.step taken
  going other job' stands :=
    (kept.going other job' stands).mono (step_grows taken).1 (step_grows taken).2
  ended e member := (kept.ended e member).mono (step_grows taken).1 (step_grows taken).2

theorem recache (kept : Kept read s) (cache : Responses Digest)
    (given : List (Digest × CacheEntry)) :
    Kept read { s with cache := cache, given := given } :=
  ⟨kept.aware, kept.going, kept.ended⟩

theorem open_ (kept : Kept read s) (call : Call) (at_ : ℚ) :
    Kept read (s.open_ thread call at_) := by
  have none_ : Tries read s.watched thread call [] := ⟨by simp, .nil, by simp⟩
  unfold Line.open_
  split
  · next never =>
    exact kept.finish ⟨none_, Nat.zero_le _, answered_raise rfl (.inl ⟨rfl, never⟩)⟩
  · next some_ =>
    exact kept.put ⟨none_, not_lt.mp some_, by simp [Ready, After]⟩

theorem begin_ [DecidableEq Digest] (kept : Kept read s) (call : Call) (fs : FileSystem Digest)
    (at_ : ℚ) : Kept read (s.begin_ read thread call fs at_) := by
  unfold Line.begin_
  split
  · split
    · next text seen c _ =>
      exact (kept.recache c s.given).finish ⟨⟨by simp, .nil, by simp⟩, Nat.zero_le _, rfl⟩
    · next c _ => exact (kept.recache c s.given).open_ call at_
  · exact kept.open_ call at_

theorem judge [DecidableEq Digest] (kept : Kept read s) (going : Going read s.watched thread job)
    {proc : Proc} (running : Running read s.watched thread job) (draw : ℚ) (fs : FileSystem Digest)
    {at_ : ℚ} (on : job.since ≤ at_) (rate : 0 < w.secondaryRateWait) (cap : 0 < w.secondaryMaxCap)
    (drawn : 0 ≤ draw) :
    Kept read (s.judge read w thread job proc draw fs at_) := by
  have newest : (⟨proc, job.sent, none⟩ : Tried) ∈
      ((⟨proc, job.sent, none⟩ : Tried) :: job.tries).head? := rfl
  have untried := held_none read s.watched.traffic.holds proc job.sent
  unfold Line.judge
  dsimp only
  split
  · next done_ =>
    exact (kept.recache _ s.given).finish
      (going.ends running untried (.inr ⟨_, newest, rfl, .inl done_⟩))
  · next failed =>
    split
    · exact kept.finish (going.ends running untried trivial)
    · next wait asks =>
      have waits := backoff_positive rate cap drawn asks
      split
      · next short =>
        have unnamed := Bool.eq_false_iff.mpr (waits.not.mp (not_lt.mpr short))
        exact kept.finish (going.ends running untried (answered_raise rfl
          (.inr ⟨_, newest, rfl, .inr (.inl unnamed)⟩)))
      · next long =>
        have positive := not_le.mp long
        exact kept.put (going.stays ⟨⟨running.after, running.sent.trans on, running.paced⟩,
          positive, failed, waits.mp positive⟩)

theorem held (kept : Kept read s) (going : Going read s.watched thread job) {proc : Proc}
    {wait at_ : ℚ} (running : Running read s.watched thread job)
    (made : (⟨at_, wait⟩ : Hold) ∈ s.watched.traffic.holds) (positive : 0 < wait)
    (failed : proc.returncode ≠ 0) (limited : namesLimit read proc = true)
    (on : job.since ≤ at_) : Kept read (s.held thread job proc wait at_) := by
  have holds : Held read s.watched.traffic.holds ⟨proc, job.sent, some ⟨at_, wait⟩⟩ := by
    intro hold mine
    obtain rfl := Option.some.inj mine
    exact ⟨made, positive, running.sent.trans on, failed, limited⟩
  unfold Line.held
  dsimp only
  split
  · next last =>
    have all : ((⟨proc, job.sent, some ⟨at_, wait⟩⟩ : Tried) :: job.tries).length =
        (job.call.maxRetries + 1).toNat := by
      have few := going.few
      simp only [List.length_cons]
      omega
    exact kept.finish (going.ends running holds (answered_raise rfl
      (.inr ⟨_, rfl, rfl, .inr (.inr ⟨rfl, all⟩)⟩)))
  · next more =>
    refine kept.put ⟨running.tried going.tries holds, ?_, _, rfl, _, rfl, le_rfl, rfl⟩
    simp only [List.length_cons, Nat.cast_add, Nat.cast_one]
    omega

theorem watch_put {event : GitHub.Event Thread} {u : Watched Thread} (kept : Kept read s)
    (taken : s.watched.step o event = some u) (going : Going read s.watched thread job)
    {since sent : ℚ} {point : Point}
    (ready : Ready read u thread { job with since := since, sent := sent, point := point }) :
    Kept read ({ s with watched := u }.put thread
      { job with since := since, sent := sent, point := point }) :=
  (kept.watch taken).put ((going.mono (step_grows taken).1 (step_grows taken).2).stays ready)

theorem charge [DecidableEq Digest] (kept : Kept read s) (going : Going read s.watched thread job)
    {proc : Proc} {line : Resource × ReportLine} {lines : List (Resource × ReportLine)} {at_ : ℚ}
    (running : Running read s.watched thread job) (on : job.since ≤ at_)
    (taken : s.charge o thread job proc line lines at_ = some t) : Kept read t := by
  have untried (u : Watched Thread) := held_none read u.traffic.holds proc job.sent
  have later (u : Watched Thread) (running : Running read u thread job) :
      Ready read u thread { job with since := at_, point := .reads proc lines } :=
    ⟨running.after, running.sent.trans on, running.paced⟩
  obtain ⟨name, report⟩ := line
  cases report with
  | skipped =>
    obtain rfl := Option.some.inj taken
    exact kept.put (going.stays (later s.watched running))
  | malformed =>
    obtain rfl := Option.some.inj taken
    exact kept.finish (going.ends running (untried s.watched) trivial)
  | numbers report =>
    obtain ⟨u, step, rfl⟩ := Option.map_eq_some_iff.mp taken
    have grown := step_grows step
    have running' := running.mono grown.2
    split
    · exact (kept.watch step).finish
        ((going.mono grown.1 grown.2).ends running' (untried u) trivial)
    · exact kept.watch_put step going (later u running')

end Kept

theorem hold_made {u v : Watched Thread} {wait : ℚ} (taken : u.step o (.hold wait) = some v) :
    ⟨o.clock u.traffic.desk.tick, wait⟩ ∈ v.traffic.holds := by
  obtain ⟨traffic, step, rfl⟩ := Option.map_eq_some_iff.mp taken
  simp only [Traffic.step, Option.ite_none_right_eq_some, Option.some.injEq] at step
  obtain ⟨_, rfl⟩ := step
  exact List.mem_cons_self

theorem start_kept (limiter : RateLimiter) (file : Option Ledger) (now : ℚ) :
    Kept read (Line.start limiter file now : Line Thread Digest) where
  aware := start_aware limiter file now
  going := by simp [Line.start]
  ended := by simp [Line.start]

variable [DecidableEq Digest]

theorem moves_kept (rate : 0 < w.secondaryRateWait) (cap : 0 < w.secondaryMaxCap)
    (kept : Kept read s) (stands : s.stage thread = some job) {at_ : ℚ} (on : job.since ≤ at_)
    {move : Move Digest} (drawn : Drawn (.gh thread move at_))
    (taken : s.moves o read w thread job at_ move = some t) : Kept read t := by
  have going := kept.going thread job stands
  have ready := going.ready
  unfold Ready at ready
  cases move with
  | begins call fs => simp [Line.moves] at taken
  | gets =>
    cases point : job.point <;> cases exempt : job.call.isExempt read <;>
      simp only [Line.moves, point, exempt, reduceCtorEq] at taken
    obtain ⟨u, step, rfl⟩ := Option.map_eq_some_iff.mp taken
    simp only [point] at ready
    have grown := step_grows step
    split
    · exact (kept.watch step).finish ((going.mono grown.1 grown.2).gives_up at_)
    · exact kept.watch_put step going (ready.later on)
  | sleeps =>
    cases point : job.point <;> simp only [Line.moves, point, reduceCtorEq] at taken
    obtain ⟨u, step, rfl⟩ := Option.map_eq_some_iff.mp taken
    simp only [point] at ready
    exact kept.watch_put step going (ready.later on)
  | sends =>
    cases point : job.point <;> simp only [Line.moves, point, reduceCtorEq] at taken
    obtain ⟨u, step, rfl⟩ := Option.map_eq_some_iff.mp taken
    simp only [point] at ready
    refine kept.watch_put step going ⟨ready.later on, le_rfl, fun _ => ?_⟩
    obtain ⟨traffic, _, rfl⟩ := Option.map_eq_some_iff.mp step
    exact ⟨_, List.mem_cons_self, rfl, rfl⟩
  | runs =>
    cases point : job.point <;> cases exempt : job.call.isExempt read <;>
      simp only [Line.moves, point, exempt, reduceCtorEq, Option.some.injEq] at taken
    subst taken
    simp only [point] at ready
    refine kept.put (going.stays ⟨ready.later on, le_rfl, fun paced => ?_⟩)
    exact absurd (exempt.symm.trans paced) Bool.false_ne_true.symm
  | answers proc =>
    cases point : job.point <;> simp only [Line.moves, point, reduceCtorEq, Option.some.injEq] at taken
    subst taken
    simp only [point] at ready
    exact kept.put (going.stays ⟨ready.after, ready.sent.trans on, ready.paced⟩)
  | charges =>
    cases point : job.point with
    | reads proc lines =>
      cases lines with
      | nil => simp [Line.moves, point] at taken
      | cons line lines =>
        simp only [Line.moves, point] at taken
        simp only [point] at ready
        exact kept.charge going ready on taken
    | opens | paces | runs | holds | throttles => simp [Line.moves, point] at taken
  | judges draw fs =>
    cases point : job.point with
    | reads proc lines =>
      cases lines with
      | nil =>
        simp only [Line.moves, point, Option.some.injEq] at taken
        simp only [point] at ready
        exact taken ▸ kept.judge going ready draw fs on rate cap drawn
      | cons line lines => simp [Line.moves, point] at taken
    | opens | paces | runs | holds | throttles => simp [Line.moves, point] at taken
  | holds =>
    cases point : job.point <;>
      simp only [Line.moves, point, reduceCtorEq, Option.ite_none_right_eq_some] at taken
    obtain ⟨now, taken⟩ := taken
    obtain ⟨u, step, rfl⟩ := Option.map_eq_some_iff.mp taken
    simp only [point] at ready
    obtain ⟨running, positive, failed, limited⟩ := ready
    have grown := step_grows step
    exact (kept.watch step).held (going.mono grown.1 grown.2) (running.mono grown.2)
      (now ▸ hold_made step) positive failed limited on
  | throttles =>
    cases point : job.point <;> simp only [Line.moves, point, reduceCtorEq] at taken
    obtain ⟨u, step, rfl⟩ := Option.map_eq_some_iff.mp taken
    simp only [point] at ready
    obtain ⟨tried, newest, hold, made, start, lasts⟩ := ready
    refine kept.watch_put step going ?_
    -- The thread sleeps as long as its hold lasts, from a later moment.
    intro other member
    obtain rfl := Option.some.inj (newest.symm.trans member)
    have ended : hold.end_ ≤ at_ + hold.wait := add_le_add (start.trans on) le_rfl
    exact ⟨hold, made, lasts ▸ ended⟩
  | fails =>
    cases point : job.point <;> simp only [Line.moves, point, reduceCtorEq, Option.some.injEq] at taken
    all_goals exact taken ▸ kept.finish (going.gives_up at_)

theorem step_kept (rate : 0 < w.secondaryRateWait) (cap : 0 < w.secondaryMaxCap)
    {event : Event Thread Digest} (kept : Kept read s) (drawn : Drawn event)
    (taken : s.step o read w event = some t) : Kept read t := by
  cases event with
  | gh thread move at_ =>
    cases stands : s.stage thread with
    | none =>
      cases move <;> simp only [Line.step, stands, reduceCtorEq] at taken
      split at taken
      · simp at taken
      · exact Option.some.inj taken ▸ kept.begin_ _ _ at_
    | some job =>
      simp only [Line.step, stands, Option.ite_none_right_eq_some] at taken
      exact moves_kept rate cap kept stands taken.1 drawn taken.2
  | session event =>
    simp only [Line.step, Option.ite_none_right_eq_some] at taken
    obtain ⟨u, step, rfl⟩ := Option.map_eq_some_iff.mp taken.2
    exact kept.watch step
  | prune fs now => exact Option.some.inj taken ▸ kept.recache _ s.given
  | clear fs => exact Option.some.inj taken ▸ kept.recache _ s.given
  | file name entry => exact Option.some.inj taken ▸ kept.recache _ _

end Kept

/-- In every run of the threads: a call sends its command again only after the hold that the failure
    before asked for, at most max_retries times; it answers what the last attempt answered, which
    has made its hold where it failed by a rate limit; and inside a hold each thread sends at most
    one request, whose slot it had before the hold. -/
theorem resends_wait_out_holds {Thread Digest : Type} [DecidableEq Thread] [DecidableEq Digest]
    (o : Outside) (read : Readers Digest) (w : Waits) (rate : 0 < w.secondaryRateWait)
    (cap : 0 < w.secondaryMaxCap) (limiter : RateLimiter) (file : Option Ledger) (now : ℚ)
    (events : List (Event Thread Digest)) (s : Line Thread Digest)
    (draws : Meets (Line.step o read w) (fun _ => Drawn) (.start limiter file now) events)
    (run : exec (Line.step o read w) (.start limiter file now) events = some s) :
    (∀ e ∈ s.ended, Lawful read s.watched e) ∧
    ∀ hold ∈ s.watched.traffic.holds,
      (∀ sent ∈ s.watched.sent, hold.Covers sent.time → hold ∉ sent.before) ∧
      ∀ thread, s.watched.inside hold thread ≤ 1 := by
  have begins : Kept read (Line.start limiter file now : Line Thread Digest) :=
    start_kept limiter file now
  have kept := exec_invariant (Kept read)
    (fun _ _ _ kept drawn taken => step_kept rate cap kept drawn taken) begins draws run
  refine ⟨kept.ended, fun hold made => ⟨fun sent member covers known => ?_, fun thread => ?_⟩⟩
  · exact absurd (kept.aware.waited sent member hold known) (not_le.mpr covers.2)
  · exact (Nat.le_add_right _ _).trans (kept.aware.once hold made thread)

def plainReaders : Readers Str where
  lower text := text
  ghCommandWords args := some (args.head?, (args.drop 1).head?)
  parseGhApiArgs _ := none
  isWriteGhCommand _ _ := false
  detectResource _ := "core"
  rateLimits _ _ := []
  rateLimitEndpoint _ := []
  extractRetryAfter _ _ := none
  digest key := key

def afterSend : Outside :=
  { bySecond with
    clock := fun n => if n < 4 then n else if n < 5 then 20 else if n < 9 then 86 + n else 162 + n }

def viewPr : Call := { args := ["pr".toList, "view".toList], maxRetries := 1, useCache := true }

def limitedOnce : List (Event Unit Str) :=
  [.gh () (.begins viewPr {}) 0, .gh () .gets 4, .gh () .sleeps 5, .gh () .sends 15,
    .gh () (.answers ⟨1, [], "http 429".toList⟩) 16, .gh () (.judges 10 {}) 17, .gh () .holds 20,
    .gh () .throttles 21, .gh () .gets 95, .gh () .sleeps 96, .gh () .sends 160,
    .gh () (.answers ⟨0, "open".toList, []⟩) 161, .gh () (.judges 0 {}) 162]

def limitedTwice : List (Event Unit Str) :=
  limitedOnce.dropLast.dropLast ++
    [.gh () (.answers ⟨1, [], "http 429".toList⟩) 161, .gh () (.judges 0 {}) 162, .gh () .holds 171]

theorem resends_wait_out_holds_view :
    ∃ s : Line Unit Str, s.ended.map (fun e => e.tries.map Tried.sent) = [[160, 15]] ∧
      s.watched.traffic.holds = [⟨171, 60⟩, ⟨20, 70⟩] ∧
      ∀ e ∈ s.ended, Lawful plainReaders s.watched e := by
  have draws : Meets (Line.step afterSend plainReaders {}) (fun _ => Drawn)
      (.start tenLeft none 0) limitedTwice := by decide +kernel
  have reached : (exec (Line.step afterSend plainReaders {}) (.start tenLeft none 0) limitedTwice).any
      (fun s => decide (s.ended.map (fun e => e.tries.map Tried.sent) = [[160, 15]] ∧
        s.watched.traffic.holds = [⟨171, 60⟩, ⟨20, 70⟩])) = true := by decide +kernel
  obtain ⟨s, run, seen⟩ := (Option.any_eq_true _ _).mp reached
  obtain ⟨sent, holds⟩ := of_decide_eq_true seen
  exact ⟨s, sent, holds, (resends_wait_out_holds afterSend plainReaders {} (by norm_num) (by norm_num)
    tenLeft none 0 limitedTwice s draws run).1⟩

end DevopsCli.GitHub.RunGh
