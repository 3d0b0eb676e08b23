import DevopsCli.Server.ServiceRuns

/- The pause of the Service: an error that a worker reported holds the rounds of every worker, until
   the time that it names or, for a refused identity, for good. A worker whose look has passed both
   of its checks takes what it has found, and no other does. -/
namespace DevopsCli.Server.Manager
open Run Interleave

section Pause
variable {E : Type} (readers : Readers E)

/-- The error bars a round at a time: it says that the identity was refused, or names a later
    time. -/
def errorBars (error : E) (at_ : Int) : Bool :=
  match readers.refusal error with
  | none => false
  | some true => true
  | some false => (readers.reader error).join.any (at_ < ·)

def bars (reports : List E) (at_ : Int) : Bool := reports.any fun error => errorBars readers error at_

variable {readers}

theorem errorBars_earlier {error : E} {earlier at_ : Int} (before : earlier ≤ at_)
    (barred : errorBars readers error at_ = true) : errorBars readers error earlier = true := by
  rw [errorBars] at barred ⊢
  split at barred
  · cases barred
  · rfl
  · obtain ⟨until_, named, held⟩ := (Option.any_eq_true _ _).mp barred
    rw [Option.any_eq_true]
    exact ⟨until_, named, decide_eq_true (lt_of_le_of_lt before (of_decide_eq_true held))⟩

theorem bars_earlier {reports : List E} {earlier at_ : Int} (before : earlier ≤ at_)
    (barred : bars readers reports at_ = true) : bars readers reports earlier = true := by
  rw [bars, List.any_eq_true] at barred ⊢
  obtain ⟨error, member, held⟩ := barred
  exact ⟨error, member, errorBars_earlier before held⟩

theorem holds_iff {pause : RoundPause} {at_ : Int} {budget : Bool} : pause.holds at_ budget = true ↔
    pause.halted = true ∨ (∃ until_, pause.until_ = some until_ ∧ at_ < until_) ∨ budget = true := by
  rw [RoundPause.holds, Bool.or_eq_true, Bool.or_eq_true, Option.any_eq_true, or_assoc]
  simp

theorem hold_holds {pause : RoundPause} (now until_ : Int) {at_ : Int} {budget : Bool}
    (held : pause.holds at_ budget = true) : (pause.hold now until_).holds at_ budget = true := by
  rw [RoundPause.hold]
  split
  · exact held
  · next later =>
    rw [Bool.or_eq_true, not_or] at later
    rw [holds_iff] at held ⊢
    rcases held with halted | ⟨earlier, same, before⟩ | asked
    · exact .inl halted
    · rw [same, Option.any_some, decide_eq_true_eq, decide_eq_true_eq, not_le, not_le] at later
      exact .inr (.inl ⟨until_, rfl, before.trans later.2⟩)
    · exact .inr (.inr asked)

theorem after_holds {pause : RoundPause} (now : Int) (error : E) {at_ : Int} {budget : Bool}
    (held : pause.holds at_ budget = true) :
    (pause.after readers now error).holds at_ budget = true := by
  rw [RoundPause.after]
  split
  · exact held
  · exact holds_iff.mpr (.inl rfl)
  · split
    · exact hold_holds now _ held
    · exact held

theorem after_bars (pause : RoundPause) {now at_ : Int} {error : E} (later : now ≤ at_)
    (barred : errorBars readers error at_ = true) (budget : Bool) :
    (pause.after readers now error).holds at_ budget = true := by
  rw [errorBars] at barred
  rw [RoundPause.after]
  cases refusal : readers.refusal error with
  | none =>
    rw [refusal] at barred
    cases barred
  | some refused =>
    cases refused with
    | true => exact holds_iff.mpr (.inl rfl)
    | false =>
      simp only [refusal] at barred
      obtain ⟨until_, named, held⟩ := (Option.any_eq_true _ _).mp barred
      have before := of_decide_eq_true held
      simp only [named, RoundPause.hold]
      split
      · next old =>
        rw [Bool.or_eq_true, decide_eq_true_eq, Option.any_eq_true] at old
        rcases old with past | ⟨kept, same, longer⟩
        · exact absurd (before.trans_le past) (not_lt.mpr later)
        · exact holds_iff.mpr (.inr (.inl ⟨kept, same, before.trans_le (of_decide_eq_true longer)⟩))
      · exact holds_iff.mpr (.inr (.inl ⟨until_, rfl, before⟩))

/-- The pause turns to halted once, and each time it is set to is later than those before; its time
    is the last. -/
structure Told (pause : RoundPause) : Prop where
  refusals : pause.refusals = if pause.halted then 1 else 0
  times : pause.times.Pairwise (· < ·)
  until_ : pause.until_ = pause.times.getLast?

theorem start_told (record : Bool) : Told (.start record) where
  refusals := rfl
  times := .nil
  until_ := rfl

theorem hold_told {pause : RoundPause} (told : Told pause) (now until_ : Int) :
    Told (pause.hold now until_) := by
  rw [RoundPause.hold]
  split
  · exact told
  · next later =>
    rw [Bool.or_eq_true, not_or, told.until_] at later
    have above : ∀ time ∈ pause.times, time < until_ := by
      intro time member
      obtain ⟨front, last, split⟩ :=
        (List.eq_nil_or_concat' pause.times).resolve_left (List.ne_nil_of_mem member)
      rw [split, List.getLast?_concat, Option.any_some, decide_eq_true_eq, decide_eq_true_eq, not_le,
        not_le] at later
      have ordered := told.times
      rw [split, List.pairwise_append] at ordered
      rw [split] at member
      rcases List.mem_append.mp member with old | new
      · exact (ordered.2.2 time old last (List.mem_singleton_self last)).trans later.2
      · exact List.mem_singleton.mp new ▸ later.2
    refine ⟨told.refusals, ?_, List.getLast?_concat.symm⟩
    rw [List.pairwise_append]
    refine ⟨told.times, List.pairwise_singleton _ _, fun time member new single => ?_⟩
    rw [List.mem_singleton.mp single]
    exact above time member

theorem after_told {pause : RoundPause} (told : Told pause) (now : Int) (error : E) :
    Told (pause.after readers now error) := by
  rw [RoundPause.after]
  split
  · exact told
  · refine ⟨?_, told.times, told.until_⟩
    have counted := told.refusals
    rw [RoundPause.halt]
    cases halted : pause.halted with
    | true => simpa [halted] using counted
    | false => simpa [halted] using counted
  · split
    · exact hold_told told now _
    · exact told

end Pause
section Looks
variable {R L E : Type} {config : Config R L E} {c : R × L} {action : LaneAction E}
  {lane lane' : Lane E} {shared shared' : Shared R L E}

def waved : Phase E → Bool
  | .decided _ false => true
  | _ => false

/-- From now on, at each time that is barred, the pause holds. -/
def Barred (before : Int → Bool) (now : Int) (pause : RoundPause) : Prop :=
  ∀ at_, now ≤ at_ → before at_ = true → ∀ budget, pause.holds at_ budget = true

theorem laneStep_reports (taken : laneStep config c action lane shared = some (lane', shared')) :
    shared'.now = shared.now ∧
      (shared'.pause = shared.pause ∧ shared'.reports = shared.reports ∨
        ∃ error, shared'.pause = shared.pause.after config.readers shared.now error ∧
          shared'.reports = shared.reports ++ [error]) := by
  obtain ⟨w, phase⟩ := lane
  cases action with
  | checks budget =>
    cases thread : w.thread <;> cases phase <;> simp only [laneStep, thread, reduceCtorEq] at taken
    split at taken <;> cases taken <;> exact ⟨rfl, .inl ⟨rfl, rfl⟩⟩
  | checksAgain budget => cases phase <;> cases taken; exact ⟨rfl, .inl ⟨rfl, rfl⟩⟩
  | pops =>
    cases phase <;> cases taken
    rw [Shared.hands]
    split <;> exact ⟨rfl, .inl ⟨rfl, rfl⟩⟩
  | turn | begins =>
    obtain ⟨w', first, last⟩ := Option.map_eq_some_iff.mp taken
    cases last
    exact ⟨rfl, .inl ⟨rfl, rfl⟩⟩
  | returns | raises error =>
    cases thread : w.thread <;> cases phase <;> simp only [laneStep, thread, reduceCtorEq] at taken
    cases taken
    exact ⟨rfl, .inl ⟨rfl, rfl⟩⟩
  | after =>
    cases phase <;> cases taken
    exact ⟨rfl, .inr ⟨_, rfl, rfl⟩⟩
  | keeps written => cases phase <;> cases taken; exact ⟨rfl, .inl ⟨rfl, rfl⟩⟩
  | finishes raises =>
    cases phase with
    | settled =>
      obtain ⟨w', first, last⟩ := Option.map_eq_some_iff.mp taken
      cases last
      exact ⟨rfl, .inl ⟨rfl, rfl⟩⟩
    | free | checked | decided | failed | halting => cases taken

theorem hands_taken {w : RepoWorker} {work : Work} (took : w.thread = .taken work) :
    shared.hands c w = { shared with handed := shared.handed ++ [⟨c, work, shared.now⟩] } := by
  rw [Shared.hands, took]

theorem hands_nothing {w : RepoWorker} (nothing : ∀ work, w.thread ≠ .taken work) :
    shared.hands c w = shared := by
  rw [Shared.hands]
  split
  · next work took => exact absurd took (nothing work)
  · rfl

theorem waitForNextBatch_held (w : RepoWorker) (waits : w.thread = .waiting) (first : Bool) (now : Int)
    (work : Work) : (w.waitForNextBatch first true now).thread ≠ .taken work := by
  rw [RepoWorker.waitForNextBatch]
  split
  · rw [waits]
    exact Thread.noConfusion
  · rw [RepoWorker.hasRunnableBatch, Bool.not_true, Bool.and_false, Bool.not_false, if_pos rfl]
    exact Thread.noConfusion

theorem laneStep_takes {before : Int → Bool} (fits : Fits lane)
    (barred : before shared.now = true → ∀ budget, shared.pause.holds shared.now budget = true)
    (taken : laneStep config c action lane shared = some (lane', shared')) :
    ∃ new, shared'.handed = shared.handed ++ new ∧ (∀ entry ∈ new, entry.lane = c) ∧
      (new.filter fun entry => before entry.at_).length +
          (waved lane'.phase && before shared.now).toNat ≤
        (waved lane.phase && before shared.now).toNat := by
  have stays : shared'.handed = shared.handed →
      (waved lane'.phase = true → before shared.now = true → waved lane.phase = true) →
      ∃ new, shared'.handed = shared.handed ++ new ∧ (∀ entry ∈ new, entry.lane = c) ∧
        (new.filter fun entry => before entry.at_).length +
            (waved lane'.phase && before shared.now).toNat ≤
          (waved lane.phase && before shared.now).toNat := by
    intro same fewer
    refine ⟨[], by rw [same, List.append_nil], fun _ none_ => absurd none_ List.not_mem_nil, ?_⟩
    rw [List.filter_nil, List.length_nil, Nat.zero_add]
    refine Bool.toNat_le_toNat fun on => ?_
    rw [Bool.and_eq_true] at on ⊢
    exact ⟨fewer on.1 on.2, on.2⟩
  obtain ⟨w, phase⟩ := lane
  cases action with
  | checks budget =>
    cases thread : w.thread <;> cases phase <;> simp only [laneStep, thread, reduceCtorEq] at taken
    split at taken <;> cases taken <;> exact stays rfl fun on => absurd on Bool.false_ne_true
  | checksAgain budget =>
    cases phase <;> cases taken
    refine stays rfl fun on before_ => ?_
    rw [barred before_ budget] at on
    cases on
  | pops =>
    cases phase with
    | decided first again =>
      cases taken
      cases again with
      | true =>
        have nothing := waitForNextBatch_held w fits first shared.now
        exact stays (congrArg Shared.handed (hands_nothing nothing)) fun on => absurd on Bool.false_ne_true
      | false =>
        by_cases took : ∃ work, (w.waitForNextBatch first false shared.now).thread = .taken work
        · obtain ⟨work, took⟩ := took
          refine ⟨[⟨c, work, shared.now⟩], congrArg Shared.handed (hands_taken took), ?_, ?_⟩
          · intro entry member
            rw [List.mem_singleton.mp member]
          · cases now : before shared.now <;> simp [waved, now]
        · exact stays (congrArg Shared.handed (hands_nothing (not_exists.mp took))) fun on => absurd on Bool.false_ne_true
    | free | checked | failed | halting | settled => cases taken
  | turn | begins =>
    obtain ⟨w', first, last⟩ := Option.map_eq_some_iff.mp taken
    cases last
    exact stays rfl fun on _ => on
  | returns | raises error =>
    cases thread : w.thread <;> cases phase <;> simp only [laneStep, thread, reduceCtorEq] at taken
    cases taken
    refine stays rfl fun on => ?_
    first | cases on | (split at on <;> cases on)
  | after =>
    cases phase <;> cases taken
    refine stays rfl fun on => ?_
    dsimp only at on
    split at on <;> cases on
  | keeps written =>
    cases phase <;> cases taken
    exact stays rfl fun on => absurd on Bool.false_ne_true
  | finishes raises =>
    cases phase with
    | settled =>
      obtain ⟨w', first, last⟩ := Option.map_eq_some_iff.mp taken
      cases last
      exact stays rfl fun on => absurd on Bool.false_ne_true
    | free | checked | decided | failed | halting => cases taken

end Looks
section Held
variable {R L E : Type} [DecidableEq R] [DecidableEq L] (config : Config R L E)

/-- A new process finds the record of the halt. -/
def KeepsHalt (s : State R L E) (event : Event R L E) : Prop :=
  event.restarts = true → (config.keepsState && s.shared.record) = true

instance (s : State R L E) (event : Event R L E) : Decidable (KeepsHalt config s event) :=
  inferInstanceAs (Decidable (_ → _))

/-- What the workers took since a state of the Service at times that are barred, and what the looks
    that were waved on may take. -/
structure Holding (before : Int → Bool) (s t : State R L E) : Prop where
  fits : ∀ c, Fits (t.lanes c)
  barred : Barred before t.shared.now t.shared.pause
  took : ∃ new, t.shared.handed = s.shared.handed ++ new ∧
    ∀ c, (new.filter fun entry => decide (entry.lane = c) && before entry.at_).length +
        (waved (t.lanes c).phase && before t.shared.now).toNat ≤ (waved (s.lanes c).phase).toNat

variable {config}

theorem withWorker_phase (lanes : R × L → Lane E) (c : R × L) (w : RepoWorker) (d : R × L) :
    (withWorker lanes c w d).phase = (lanes d).phase := by
  by_cases mine : d = c
  · rw [mine, withWorker_self]
  · rw [withWorker_other lanes mine]

theorem Aside.phases {event : Event R L E} {s t : State R L E} (aside : Aside event s t) (c : R × L) :
    (t.lanes c).phase = (s.lanes c).phase := by
  rcases aside.lanes with same | ⟨d, w, -, -, -, same⟩
  · rw [same]
  · rw [same, withWorker_phase]

theorem aside_holding {before : Int → Bool} {s t u : State R L E} {event : Event R L E}
    (earlier : ∀ a b, a ≤ b → before b = true → before a = true)
    (holding : Holding before s t) (aside : Aside event t u) : Holding before s u := by
  obtain ⟨new, split, counts⟩ := holding.took
  refine ⟨fun c => (aside.follows holding.fits c).2,
    fun at_ later => aside.pause ▸ holding.barred at_ (aside.time.trans later), new,
    aside.handed.trans split, fun c => le_trans (Nat.add_le_add_left ?_ _) (counts c)⟩
  rw [aside.phases]
  refine Bool.toNat_le_toNat fun on => ?_
  rw [Bool.and_eq_true] at on ⊢
  exact ⟨on.1, earlier _ _ aside.time on.2⟩

theorem lane_holding {before : Int → Bool} {s t : State R L E} {c : R × L} {action : LaneAction E}
    {lane : Lane E} {shared : Shared R L E} (holding : Holding before s t)
    (first : laneStep config c action (t.lanes c) t.shared = some (lane, shared)) :
    Holding before s { t with lanes := Function.update t.lanes c lane, shared } := by
  obtain ⟨now, pause⟩ := laneStep_reports first
  obtain ⟨new, split, counts⟩ := holding.took
  obtain ⟨own, own_split, mine, own_count⟩ :=
    laneStep_takes (holding.fits c) (holding.barred t.shared.now le_rfl) first
  refine ⟨fun d => (lane_follows holding.fits first d).2, fun at_ later barred budget => ?_, new ++ own, ?_,
    fun d => ?_⟩
  · have held := holding.barred at_ (now ▸ later) barred budget
    rcases pause with ⟨same, -⟩ | ⟨error, same, -⟩
    · dsimp only
      rw [same]
      exact held
    · dsimp only
      rw [same]
      exact after_holds _ _ held
  · dsimp only
    rw [own_split, split, List.append_assoc]
  · have before_ := counts d
    rw [List.filter_append, List.length_append]
    dsimp only
    rw [now]
    by_cases same : d = c
    · subst same
      have all : own.filter (fun entry => decide (entry.lane = d) && before entry.at_) =
          own.filter fun entry => before entry.at_ := by
        refine List.filter_congr fun entry member => ?_
        rw [mine entry member, decide_eq_true rfl, Bool.true_and]
      rw [all, Function.update_self]
      omega
    · have none_ : own.filter (fun entry => decide (entry.lane = d) && before entry.at_) = [] := by
        rw [List.filter_eq_nil_iff]
        intro entry member
        rw [mine entry member, decide_eq_false (Ne.symm same), Bool.false_and]
        exact Bool.false_ne_true
      rw [none_, Function.update_of_ne same, List.length_nil]
      exact before_

theorem step_holding {before : Int → Bool} {s t u : State R L E} {event : Event R L E}
    (earlier : ∀ a b, a ≤ b → before b = true → before a = true) (keeps : KeepsHalt config t event)
    (holding : Holding before s t) (taken : step config t event = some u) : Holding before s u := by
  rcases step_cases taken with ⟨c, action, lane, shared, first, rfl, rfl⟩ | ⟨rfl, rfl⟩ | aside
  · exact lane_holding holding first
  · obtain ⟨new, split, counts⟩ := holding.took
    exact ⟨fun _ => trivial, fun _ _ _ _ => holds_iff.mpr (.inl (keeps rfl)), new, split,
      fun c => le_trans (Nat.add_le_add_left (Nat.zero_le _) _) (counts c)⟩
  · exact aside_holding earlier holding aside

structure Reported (config : Config R L E) (s : State R L E) : Prop where
  barred : Barred (bars config.readers s.shared.reports) s.shared.now s.shared.pause
  told : Told s.shared.pause

theorem lane_reported {s : State R L E} {c : R × L} {action : LaneAction E} {lane : Lane E}
    {shared : Shared R L E} (reported : Reported config s)
    (first : laneStep config c action (s.lanes c) s.shared = some (lane, shared)) :
    Reported config { s with lanes := Function.update s.lanes c lane, shared } := by
  obtain ⟨now, ⟨pause, reports⟩ | ⟨error, pause, reports⟩⟩ := laneStep_reports first
  · refine ⟨fun at_ later barred budget => ?_, ?_⟩
    · dsimp only at later barred ⊢
      rw [now] at later
      rw [reports] at barred
      rw [pause]
      exact reported.barred at_ later barred budget
    · exact pause ▸ reported.told
  · refine ⟨fun at_ later barred budget => ?_, ?_⟩
    · dsimp only at later barred ⊢
      rw [now] at later
      rw [reports, bars, List.any_append, Bool.or_eq_true, List.any_cons, List.any_nil,
        Bool.or_false] at barred
      rw [pause]
      rcases barred with old | new
      · exact after_holds _ _ (reported.barred at_ later old budget)
      · exact after_bars _ later new budget
    · dsimp only
      rw [pause]
      exact after_told reported.told _ _

theorem step_reported {s t : State R L E} {event : Event R L E} (reported : Reported config s)
    (taken : step config s event = some t) : Reported config t := by
  rcases step_cases taken with ⟨c, action, lane, shared, first, rfl, rfl⟩ | ⟨rfl, rfl⟩ | aside
  · exact lane_reported reported first
  · exact ⟨fun _ _ none_ => (by cases none_), start_told _⟩
  · refine ⟨fun at_ later barred => ?_, aside.pause ▸ reported.told⟩
    rw [aside.pause]
    exact reported.barred at_ (aside.time.trans later) (aside.reports ▸ barred)

theorem run_holding {now : Int} {record : Bool} {events more : List (Event R L E)} {s t : State R L E}
    (run : exec (step config) (start config now record) events = some s)
    (later : exec (step config) s more = some t) (keeps : Meets (step config) (KeepsHalt config) s more) :
    Told t.shared.pause ∧ Holding (bars config.readers s.shared.reports) s t := by
  have begins : Reported config (start config now record) :=
    ⟨fun _ _ none_ => (by cases none_), start_told _⟩
  have reported := exec_invariant_always (fun _ _ _ held taken => step_reported held taken) begins run
  have last := exec_invariant_always (fun _ _ _ held taken => step_reported held taken) reported later
  have here : Holding (bars config.readers s.shared.reports) s s :=
    ⟨(run_sound run).fits, reported.barred, [], (List.append_nil _).symm, fun c => by
      rw [List.filter_nil, List.length_nil, Nat.zero_add]
      exact Bool.toNat_le_toNat fun on => (Bool.and_eq_true _ _ ▸ on).1⟩
  exact ⟨last.told, exec_invariant (Holding (bars config.readers s.shared.reports) s)
    (fun _ _ _ held keeps taken => step_holding (fun _ _ => bars_earlier) keeps held taken) here keeps later⟩

/-- In any order of all steps: once the pause read an error that bars the rounds, for good or until a
    time, each worker takes no more work that is barred than what its look was waved on to take
    before, also in new processes that find the record of the halt. The pause turns to halted once a
    process, and the times it is set to increase. -/
theorem reported_errors_hold (now : Int) (record : Bool) (events more : List (Event R L E))
    (s t : State R L E) (run : exec (step config) (start config now record) events = some s)
    (later : exec (step config) s more = some t) (keeps : Meets (step config) (KeepsHalt config) s more) :
    Told t.shared.pause ∧ ∃ new, t.shared.handed = s.shared.handed ++ new ∧
      ∀ c, (new.filter fun entry => decide (entry.lane = c) &&
        bars config.readers s.shared.reports entry.at_).length ≤ (waved (s.lanes c).phase).toNat := by
  obtain ⟨told, holding⟩ := run_holding run later keeps
  obtain ⟨new, split, counts⟩ := holding.took
  exact ⟨told, new, split, fun c => (Nat.le_add_right _ _).trans (counts c)⟩

end Held
section Refused

def refused {E : Type} (error : E) : List (Event String Bool E) :=
  pushed ++ [.enqueues, .lane ("o/r", true) .begins, .lane ("o/r", true) (.raises error),
    .lane ("o/r", false) (.checks false), .lane ("o/r", false) (.checksAgain false),
    .lane ("o/r", true) .after]

def halted {E : Type} : List (Event String Bool E) :=
  [.lane ("o/r", true) (.keeps true), .lane ("o/r", false) .pops, .restart, .enqueueTrigger "o/r" push,
    .enqueues, .lane ("o/r", true) (.checks false)]

theorem reported_errors_hold_refused : ∃ s t : State String Bool Unit,
    exec (step (twoLanes refusals)) (start (twoLanes refusals) 0 false) (refused ()) = some s ∧
      exec (step (twoLanes refusals)) s halted = some t ∧ t.shared.handed.length = 2 ∧
      Told t.shared.pause ∧ ∃ new, t.shared.handed = s.shared.handed ++ new ∧
        ∀ c, (new.filter fun entry => decide (entry.lane = c) &&
          bars refusals s.shared.reports entry.at_).length ≤ (waved (s.lanes c).phase).toNat := by
  have reached : (exec (step (twoLanes refusals)) (start (twoLanes refusals) 0 false) (refused ())).any (fun s =>
      decide (Meets (step (twoLanes refusals)) (KeepsHalt (twoLanes refusals)) s halted) &&
        (exec (step (twoLanes refusals)) s halted).any fun t => t.shared.handed.length == 2) = true := by
    decide
  obtain ⟨s, run, all⟩ := (Option.any_eq_true _ _).mp reached
  rw [Bool.and_eq_true, decide_eq_true_eq, Option.any_eq_true] at all
  obtain ⟨keeps, t, later, both⟩ := all
  exact ⟨s, t, run, later, beq_iff_eq.mp both,
    reported_errors_hold 0 false (refused ()) halted s t run later keeps⟩

end Refused
end DevopsCli.Server.Manager
