import DevopsCli.Server.ServiceManager

/- What holds in every run of the Service: each worker is a run of its own, each trigger reaches each
   lane once, and a drain that says it was clean leaves no work behind. -/
namespace DevopsCli.Server.Manager
open Run Interleave

section Workers
variable {R L E : Type} {config : Config R L E}

/-- The thread stands where the phase of its worker says. -/
def Fits (lane : Lane E) : Prop :=
  match lane.phase with
  | .free => True
  | .checked _ | .decided _ _ => lane.worker.thread = .waiting
  | .failed _ | .halting | .settled => ∃ work, lane.worker.thread = .running work

def Follows (w w' : RepoWorker) : Prop := w' = w ∨ ∃ event, w.step event = some w'

theorem Follows.kept {w w' : RepoWorker} (follows : Follows w w') (kept : w.Kept) : w'.Kept := by
  rcases follows with rfl | ⟨event, taken⟩
  · exact kept
  · exact RepoWorker.step_kept kept taken

variable {c : R × L} {action : LaneAction E} {lane lane' : Lane E} {shared shared' : Shared R L E}

theorem laneStep_follows (fits : Fits lane)
    (taken : laneStep config c action lane shared = some (lane', shared')) :
    Follows lane.worker lane'.worker ∧ Fits lane' := by
  obtain ⟨w, phase⟩ := lane
  cases action with
  | checks budget =>
    cases thread : w.thread <;> cases phase <;> simp only [laneStep, thread, reduceCtorEq] at taken
    split at taken <;> cases taken
    · exact ⟨.inl rfl, fits⟩
    · exact ⟨.inl rfl, thread⟩
  | checksAgain budget =>
    cases phase <;> cases taken
    exact ⟨.inl rfl, fits⟩
  | pops =>
    cases phase with
    | decided first again =>
      cases taken
      have waits : w.thread = .waiting := fits
      refine ⟨.inr ⟨.look first again shared.now, ?_⟩, trivial⟩
      simp only [RepoWorker.step, waits]
    | free | checked | failed | halting | settled => cases taken
  | turn =>
    obtain ⟨w', first, last⟩ := Option.map_eq_some_iff.mp taken
    cases last
    refine ⟨.inr ⟨.turn, first⟩, ?_⟩
    cases thread : w.thread <;> simp only [RepoWorker.step, thread, reduceCtorEq] at first
    cases phase <;> simp [Fits, thread] at fits ⊢
  | begins =>
    obtain ⟨w', first, last⟩ := Option.map_eq_some_iff.mp taken
    cases last
    refine ⟨.inr ⟨.begins, first⟩, ?_⟩
    cases thread : w.thread <;> simp only [RepoWorker.step, thread, reduceCtorEq] at first
    cases phase <;> simp [Fits, thread] at fits ⊢
  | returns =>
    cases thread : w.thread <;> cases phase <;> simp only [laneStep, thread, reduceCtorEq] at taken
    cases taken
    exact ⟨.inl rfl, _, thread⟩
  | raises error =>
    cases thread : w.thread <;> cases phase <;> simp only [laneStep, thread, reduceCtorEq] at taken
    cases taken
    refine ⟨.inl rfl, ?_⟩
    cases config.readers.endedByStop error <;> exact ⟨_, thread⟩
  | after =>
    cases phase <;> cases taken
    refine ⟨.inl rfl, ?_⟩
    dsimp only
    split <;> exact fits
  | keeps written =>
    cases phase <;> cases taken
    exact ⟨.inl rfl, fits⟩
  | finishes raises =>
    cases phase with
    | settled =>
      obtain ⟨w', first, last⟩ := Option.map_eq_some_iff.mp taken
      cases last
      exact ⟨.inr ⟨.finishes raises, first⟩, trivial⟩
    | free | checked | decided | failed | halting => cases taken

variable {s t : State R L E} {event : Event R L E}

variable [DecidableEq R] [DecidableEq L]

theorem withWorker_follows (fits : ∀ c, Fits (s.lanes c)) {w : RepoWorker}
    (follows : Follows (s.lanes c).worker w) (thread : w.thread = (s.lanes c).worker.thread)
    (d : R × L) : Follows (s.lanes d).worker (withWorker s.lanes c w d).worker ∧
      Fits (withWorker s.lanes c w d) := by
  by_cases mine : d = c
  · subst mine
    rw [withWorker_self]
    refine ⟨follows, ?_⟩
    have fits_here := fits d
    rw [Fits] at fits_here ⊢
    rw [thread]
    exact fits_here
  · rw [withWorker_other s.lanes mine]
    exact ⟨.inl rfl, fits d⟩

/-- What a step that is not of a thread does: it asks something of one worker at most, and the pause
    and what was taken stay. -/
structure Aside (event : Event R L E) (s t : State R L E) : Prop where
  lanes : t.lanes = s.lanes ∨ ∃ c w asked, (s.lanes c).worker.step asked = some w ∧
    w.thread = (s.lanes c).worker.thread ∧ t.lanes = withWorker s.lanes c w
  time : s.shared.now ≤ t.shared.now
  pause : t.shared.pause = s.shared.pause
  reports : t.shared.reports = s.shared.reports
  handed : t.shared.handed = s.shared.handed
  hands : event.hands = false → t.delivering = s.delivering ∧ t.accepted = s.accepted ∧
    ∀ c, (t.lanes c).worker.enqueued = (s.lanes c).worker.enqueued
  drain : event.ofDrain = false → t.drain = s.drain

theorem withWorker_enqueued (lanes : R × L → Lane E) (c : R × L) {w : RepoWorker}
    (same : w.enqueued = (lanes c).worker.enqueued) (d : R × L) :
    (withWorker lanes c w d).worker.enqueued = (lanes d).worker.enqueued := by
  by_cases mine : d = c
  · subst mine
    rw [withWorker_self]
    exact same
  · rw [withWorker_other lanes mine]

theorem step_cases (taken : step config s event = some t) :
    (∃ c action lane shared, laneStep config c action (s.lanes c) s.shared = some (lane, shared) ∧
      event = .lane c action ∧ t = { s with lanes := Function.update s.lanes c lane, shared }) ∨
    (event = .restart ∧ t = { shared := { s.shared with
      pause := .start (config.keepsState && s.shared.record), reports := [] } }) ∨
    Aside event s t := by
  cases event with
  | lane c action =>
    obtain ⟨next, acted, rfl⟩ := Option.map_eq_some_iff.mp taken
    obtain ⟨⟨lane, shared⟩, first, rfl⟩ := Option.map_eq_some_iff.mp acted
    exact .inl ⟨c, action, lane, shared, first, rfl, rfl⟩
  | tick later =>
    simp only [step, Option.ite_none_right_eq_some] at taken
    cases taken.2
    exact .inr (.inr ⟨.inl rfl, taken.1, rfl, rfl, rfl, fun _ => ⟨rfl, rfl, fun _ => rfl⟩, fun _ => rfl⟩)
  | enqueueTrigger repo key =>
    simp only [step, Option.ite_none_left_eq_some] at taken
    obtain ⟨-, taken⟩ := taken
    split at taken <;> cases taken <;>
      exact .inr (.inr ⟨.inl rfl, le_rfl, rfl, rfl, rfl, fun no => (by cases no), fun _ => rfl⟩)
  | enqueues =>
    simp only [step, enqueues] at taken
    split at taken
    · cases taken
    · cases taken
      exact .inr (.inr ⟨.inl rfl, le_rfl, rfl, rfl, rfl, fun no => (by cases no), fun _ => rfl⟩)
    · next repo key lane rest _ =>
      simp only [Option.ite_none_left_eq_some] at taken
      cases taken.2
      exact .inr (.inr ⟨.inr ⟨_, _, .enqueue key s.shared.now, rfl, rfl, rfl⟩, le_rfl, rfl, rfl, rfl,
        fun no => (by cases no), fun _ => rfl⟩)
  | enqueueScoped repo lane =>
    simp only [step, Option.ite_none_left_eq_some] at taken
    obtain ⟨-, taken⟩ := taken
    split at taken
    · simp only [Option.ite_none_left_eq_some] at taken
      cases taken.2
      exact .inr (.inr ⟨.inr ⟨_, _, .enqueueScoped, rfl, rfl, rfl⟩, le_rfl, rfl, rfl, rfl,
        fun _ => ⟨rfl, rfl, withWorker_enqueued s.lanes _ rfl⟩, fun _ => rfl⟩)
    · cases taken
      exact .inr (.inr ⟨.inl rfl, le_rfl, rfl, rfl, rfl, fun _ => ⟨rfl, rfl, fun _ => rfl⟩, fun _ => rfl⟩)
  | drains =>
    simp only [step, Option.ite_none_left_eq_some] at taken
    cases taken.2
    exact .inr (.inr ⟨.inl rfl, le_rfl, rfl, rfl, rfl, fun _ => ⟨rfl, rfl, fun _ => rfl⟩,
      fun no => (by cases no)⟩)
  | waits late budget =>
    simp only [step, waits] at taken
    split at taken
    · simp only [Option.ite_none_left_eq_some] at taken
      obtain ⟨-, taken⟩ := taken
      split at taken <;> cases taken <;>
        exact .inr (.inr ⟨.inl rfl, le_rfl, rfl, rfl, rfl, fun _ => ⟨rfl, rfl, fun _ => rfl⟩,
          fun no => (by cases no)⟩)
    · cases taken
  | stops =>
    simp only [step, stops] at taken
    split at taken
    · cases taken
      exact .inr (.inr ⟨.inr ⟨_, _, .stop, rfl, rfl, rfl⟩, le_rfl, rfl, rfl, rfl,
        fun _ => ⟨rfl, rfl, withWorker_enqueued s.lanes _ rfl⟩, fun no => (by cases no)⟩)
    · cases taken
  | joins late =>
    simp only [step, joins] at taken
    split at taken
    · split at taken <;> cases taken <;>
        exact .inr (.inr ⟨.inl rfl, le_rfl, rfl, rfl, rfl, fun _ => ⟨rfl, rfl, fun _ => rfl⟩,
          fun no => (by cases no)⟩)
    · cases taken
  | restart =>
    cases taken
    exact .inr (.inl ⟨rfl, rfl⟩)
  | removesRecord =>
    cases taken
    exact .inr (.inr ⟨.inl rfl, le_rfl, rfl, rfl, rfl, fun _ => ⟨rfl, rfl, fun _ => rfl⟩, fun _ => rfl⟩)

theorem lane_follows (fits : ∀ c, Fits (s.lanes c))
    (taken : laneStep config c action (s.lanes c) shared = some (lane', shared')) (d : R × L) :
    Follows (s.lanes d).worker (Function.update s.lanes c lane' d).worker ∧
      Fits (Function.update s.lanes c lane' d) := by
  by_cases mine : d = c
  · subst mine
    rw [Function.update_self]
    exact laneStep_follows (fits d) taken
  · rw [Function.update_of_ne mine]
    exact ⟨.inl rfl, fits d⟩

theorem Aside.follows (aside : Aside event s t) (fits : ∀ c, Fits (s.lanes c)) (d : R × L) :
    Follows (s.lanes d).worker (t.lanes d).worker ∧ Fits (t.lanes d) := by
  rcases aside.lanes with same | ⟨c, w, asked, taken, thread, same⟩
  · rw [same]
    exact ⟨.inl rfl, fits d⟩
  · rw [same]
    exact withWorker_follows fits (.inr ⟨asked, taken⟩) thread d

theorem step_follows (fits : ∀ c, Fits (s.lanes c)) (goes : event.restarts = false)
    (taken : step config s event = some t) (d : R × L) :
    Follows (s.lanes d).worker (t.lanes d).worker ∧ Fits (t.lanes d) := by
  rcases step_cases taken with ⟨c, action, lane, shared, first, rfl, rfl⟩ | ⟨rfl, -⟩ | aside
  · exact lane_follows fits first d
  · cases goes
  · exact aside.follows fits d

end Workers
section Triggers
variable {R L E : Type} {config : Config R L E}

theorem waitForNextBatch_enqueued (w : RepoWorker) (first again : Bool) (now : Int) :
    (w.waitForNextBatch first again now).enqueued = w.enqueued := by
  rw [RepoWorker.waitForNextBatch]
  split
  · rfl
  · split
    · rfl
    · split <;> rfl

theorem laneStep_enqueued {c : R × L} {action : LaneAction E} {lane lane' : Lane E}
    {shared shared' : Shared R L E}
    (taken : laneStep config c action lane shared = some (lane', shared')) :
    lane'.worker.enqueued = lane.worker.enqueued := by
  obtain ⟨w, phase⟩ := lane
  cases action with
  | checks budget =>
    cases thread : w.thread <;> cases phase <;> simp only [laneStep, thread, reduceCtorEq] at taken
    split at taken <;> cases taken <;> rfl
  | checksAgain budget => cases phase <;> cases taken; rfl
  | pops =>
    cases phase <;> cases taken
    exact waitForNextBatch_enqueued ..
  | turn | begins =>
    obtain ⟨w', first, last⟩ := Option.map_eq_some_iff.mp taken
    cases last
    cases thread : w.thread <;> simp only [RepoWorker.step, thread, reduceCtorEq] at first
    cases first
    rfl
  | returns | raises error =>
    cases thread : w.thread <;> cases phase <;> simp only [laneStep, thread, reduceCtorEq] at taken
    cases taken
    rfl
  | after => cases phase <;> cases taken; rfl
  | keeps written => cases phase <;> cases taken; rfl
  | finishes raises =>
    cases phase with
    | settled =>
      obtain ⟨w', first, last⟩ := Option.map_eq_some_iff.mp taken
      cases last
      cases thread : w.thread <;> simp only [RepoWorker.step, thread, reduceCtorEq] at first
      cases first
      rfl
    | free | checked | decided | failed | halting => cases taken

variable [DecidableEq R] [DecidableEq L]

def toDeliver (s : State R L E) (repo : R) (lane : L) (key : TriggerKey) : Nat :=
  match s.delivering with
  | some (other, held, left) => if other = repo ∧ held = key then left.count lane else 0
  | none => 0

/-- Every trigger of a repository was given to each of its lanes, or the loop is about to. -/
def Delivered (config : Config R L E) (s : State R L E) : Prop :=
  ∀ repo ∈ config.repos, ∀ lane ∈ config.jobs, ∀ key,
    (s.lanes (repo, lane)).worker.enqueued.count key + toDeliver s repo lane key =
      s.accepted.count (repo, key)

theorem delivered_same {s t : State R L E} (delivered : Delivered config s)
    (enqueued : ∀ c, (t.lanes c).worker.enqueued = (s.lanes c).worker.enqueued)
    (delivering : t.delivering = s.delivering) (accepted : t.accepted = s.accepted) :
    Delivered config t := by
  intro repo managed lane job key
  rw [enqueued, accepted, toDeliver, delivering]
  exact delivered repo managed lane job key

theorem enqueueTrigger_delivered {s : State R L E} (delivered : Delivered config s)
    (idle : s.delivering = none) (repo : R) (key : TriggerKey) :
    Delivered config { s with
      delivering := some (repo, key, config.jobs), accepted := s.accepted ++ [(repo, key)] } := by
  intro other managed lane job asked
  have before := delivered other managed lane job asked
  rw [toDeliver, idle] at before
  dsimp only at before
  have once : config.jobs.count lane = 1 := List.count_eq_one_of_mem config.distinct job
  rw [List.count_append, ← before, toDeliver]
  dsimp only
  by_cases same : repo = other ∧ key = asked
  · obtain ⟨rfl, rfl⟩ := same
    rw [if_pos ⟨rfl, rfl⟩, once, List.count_singleton_self]
  · have apart : (repo, key) ≠ (other, asked) := fun both => same (Prod.mk.inj both)
    rw [if_neg same, List.count_singleton, beq_false_of_ne apart]
    rfl

theorem enqueues_delivered {s t : State R L E} (delivered : Delivered config s)
    (taken : enqueues s = some t) : Delivered config t := by
  rw [enqueues] at taken
  split at taken
  · cases taken
  · next repo key held =>
    cases taken
    intro other managed lane job asked
    have before := delivered other managed lane job asked
    rw [toDeliver, held] at before
    simpa [toDeliver] using before
  · next repo key lane rest held =>
    rw [Option.ite_none_left_eq_some] at taken
    cases taken.2
    intro other managed own job asked
    have before := delivered other managed own job asked
    rw [toDeliver, held] at before
    dsimp only at before ⊢
    rw [← before, toDeliver]
    dsimp only
    by_cases mine : (other, own) = (repo, lane)
    · cases mine
      simp only [withWorker_self, RepoWorker.enqueue, List.count_append, List.count_singleton, List.count_cons_self,
        true_and, beq_iff_eq]
      by_cases same : key = asked
      · rw [if_pos same, if_pos same, if_pos same]
        omega
      · rw [if_neg same, if_neg same, if_neg same]
    · rw [withWorker_other s.lanes mine]
      by_cases same : repo = other ∧ key = asked
      · rw [if_pos same, if_pos same, List.count_cons_of_ne]
        exact fun own_lane => mine (Prod.ext same.1.symm own_lane.symm)
      · rw [if_neg same, if_neg same]

theorem step_delivered {s t : State R L E} {event : Event R L E} (delivered : Delivered config s)
    (taken : step config s event = some t) : Delivered config t := by
  rcases step_cases taken with ⟨c, action, lane, shared, first, rfl, rfl⟩ | ⟨rfl, rfl⟩ | aside
  · refine delivered_same delivered (fun d => ?_) rfl rfl
    dsimp only
    by_cases mine : d = c
    · subst mine
      rw [Function.update_self]
      exact laneStep_enqueued first
    · rw [Function.update_of_ne mine]
  · intro repo managed lane job key
    rfl
  · cases hands : event.hands with
    | false =>
      obtain ⟨delivering, accepted, enqueued⟩ := aside.hands hands
      exact delivered_same delivered enqueued delivering accepted
    | true =>
      cases event with
      | enqueueTrigger repo key =>
        simp only [step, Option.ite_none_left_eq_some] at taken
        obtain ⟨idle, taken⟩ := taken
        rw [Bool.or_eq_true, not_or, Bool.not_eq_true, Option.isSome_eq_false_iff,
          Option.isNone_iff_eq_none] at idle
        split at taken <;> cases taken
        · exact enqueueTrigger_delivered delivered idle.1 repo key
        · exact delivered
      | enqueues => exact enqueues_delivered delivered taken
      | _ => cases hands

end Triggers
section Drained
variable {R L E : Type} {config : Config R L E}

theorem over_stays {lane lane' : Lane E} (follows : Follows lane.worker lane'.worker)
    (gone : lane.isOver = true) : lane'.isOver = true := by
  rw [Lane.isOver] at gone ⊢
  rcases follows with same | ⟨event, taken⟩
  · rw [same]
    exact gone
  · have same : lane'.worker.thread = lane.worker.thread := by
      cases thread : lane.worker.thread <;> simp only [thread, Bool.false_eq_true] at gone <;>
        cases event <;> simp only [RepoWorker.step, thread, reduceCtorEq, Option.some.injEq] at taken <;>
        rw [← taken] <;> exact thread
    rw [same]
    exact gone

/-- The drain went through the workers in their order, and found each over while it is clean. -/
def Cleared (config : Config R L E) (s : State R L E) : Prop :=
  ∀ drain, s.drain = some drain → ∃ past, config.workers = past ++ drain.left ∧
    (drain.clean = true → ∀ c ∈ past, (s.lanes c).isOver = true)

theorem cleared_same {s t : State R L E} (cleared : Cleared config s)
    (follows : ∀ c, Follows (s.lanes c).worker (t.lanes c).worker) (same : t.drain = s.drain) :
    Cleared config t := by
  intro drain held
  obtain ⟨past, split, gone⟩ := cleared drain (same.symm.trans held)
  exact ⟨past, split, fun clean c member => over_stays (follows c) (gone clean c member)⟩

theorem cleared_turn {s t : State R L E} {drain drain' : Drain (R × L)} (cleared : Cleared config s)
    (follows : ∀ c, Follows (s.lanes c).worker (t.lanes c).worker) (held : s.drain = some drain)
    (next : t.drain = some drain') (left : drain'.left = drain.left) (clean : drain'.clean = drain.clean) :
    Cleared config t := by
  intro last same
  obtain rfl := Option.some.inj (next.symm.trans same)
  obtain ⟨past, split, gone⟩ := cleared drain held
  rw [left, clean]
  exact ⟨past, split, fun clean c member => over_stays (follows c) (gone clean c member)⟩

theorem joins_cleared [DecidableEq R] [DecidableEq L] {s t : State R L E} {late : Bool}
    (cleared : Cleared config s) (taken : joins s late = some t) : Cleared config t := by
  rw [joins] at taken
  split at taken
  · next c rest drained clean held =>
    dsimp only at taken
    split at taken <;> cases taken
    · intro last same
      obtain rfl := Option.some.inj same
      obtain ⟨past, split, gone⟩ := cleared _ held
      refine ⟨past ++ [c], by rw [split, List.append_assoc]; rfl, fun all d member => ?_⟩
      rw [Bool.and_eq_true, Bool.and_eq_true] at all
      rcases List.mem_append.mp member with old | new
      · exact gone all.1.1 d old
      · rw [List.mem_singleton.mp new]
        exact all.2
    · exact cleared
  · cases taken

variable [DecidableEq R] [DecidableEq L]

theorem step_cleared {s t : State R L E} {event : Event R L E} (fits : ∀ c, Fits (s.lanes c))
    (cleared : Cleared config s) (taken : step config s event = some t) : Cleared config t := by
  rcases step_cases taken with ⟨c, action, lane, shared, first, rfl, rfl⟩ | ⟨rfl, rfl⟩ | aside
  · exact cleared_same cleared (fun d => (lane_follows fits first d).1) rfl
  · intro drain none_
    cases none_
  · have follows := fun d => (aside.follows fits d).1
    cases drain : event.ofDrain with
    | false => exact cleared_same cleared follows (aside.drain drain)
    | true =>
      cases event with
      | drains =>
        simp only [step, Option.ite_none_left_eq_some] at taken
        cases taken.2
        intro drain same
        cases same
        exact ⟨[], rfl, fun _ c none_ => absurd none_ List.not_mem_nil⟩
      | waits late budget =>
        simp only [step, waits] at taken
        split at taken
        · next held =>
          simp only [Option.ite_none_left_eq_some] at taken
          obtain ⟨-, taken⟩ := taken
          split at taken <;> cases taken
          · exact cleared_turn cleared follows held rfl rfl rfl
          · exact cleared
        · cases taken
      | stops =>
        simp only [step, stops] at taken
        split at taken
        · next held =>
          cases taken
          exact cleared_turn cleared follows held rfl rfl rfl
        · cases taken
      | joins late => exact joins_cleared cleared taken
      | _ => cases drain

end Drained
section Runs
variable {R L E : Type} [DecidableEq R] [DecidableEq L] (config : Config R L E)

structure Sound (s : State R L E) : Prop where
  fits : ∀ c, Fits (s.lanes c)
  kept : ∀ c, (s.lanes c).worker.Kept
  delivered : Delivered config s
  cleared : Cleared config s

variable {config}

theorem fresh_kept : ({} : RepoWorker).Kept := ⟨fun _ => rfl, rfl, rfl, rfl⟩

theorem step_sound {s t : State R L E} {event : Event R L E} (sound : Sound config s)
    (taken : step config s event = some t) : Sound config t := by
  have lanes : ∀ c, Fits (t.lanes c) ∧ (t.lanes c).worker.Kept := by
    cases goes : event.restarts with
    | true =>
      cases event <;> cases goes
      cases taken
      exact fun c => ⟨trivial, fresh_kept⟩
    | false =>
      have follows := step_follows sound.fits goes taken
      exact fun c => ⟨(follows c).2, (follows c).1.kept (sound.kept c)⟩
  exact {
    fits := fun c => (lanes c).1
    kept := fun c => (lanes c).2
    delivered := step_delivered sound.delivered taken
    cleared := step_cleared sound.fits sound.cleared taken }

theorem run_sound {now : Int} {record : Bool} {events : List (Event R L E)} {s : State R L E}
    (run : exec (step config) (start config now record) events = some s) : Sound config s := by
  have begins : Sound config (start config now record) := {
    fits := fun _ => trivial
    kept := fun _ => fresh_kept
    delivered := fun _ _ _ _ _ => rfl
    cleared := fun _ none_ => by cases none_ }
  exact exec_invariant_always (fun _ _ _ sound taken => step_sound sound taken) begins run

/-- In any order of the steps of the workers, the loop, the drain and new processes: each trigger
    that a process took for a repository is in one batch of each lane or pending there, or is still
    with the loop; each lane runs one job at most, and in the order of its queue. -/
theorem triggers_reach_lanes (now : Int) (record : Bool) (events : List (Event R L E)) (s : State R L E)
    (run : exec (step config) (start config now record) events = some s)
    (repo : R) (managed : repo ∈ config.repos) (lane : L) (job : lane ∈ config.jobs) :
    (∀ key, ((s.lanes (repo, lane)).worker.handed.map (Work.triggers key)).sum +
      tally (s.lanes (repo, lane)).worker.pendingCounts key + toDeliver s repo lane key =
        s.accepted.count (repo, key)) ∧
      (s.lanes (repo, lane)).worker.handed =
        (s.lanes (repo, lane)).worker.begun ++ (s.lanes (repo, lane)).worker.inHand ∧
      ∃ jobs, (s.lanes (repo, lane)).worker.begun = (s.lanes (repo, lane)).worker.done_ ++ jobs ∧
        jobs.length ≤ 1 := by
  have sound := run_sound run
  have kept := sound.kept (repo, lane)
  refine ⟨fun key => ?_, kept.begun, _, kept.oneJob, RepoWorker.running_le_one _⟩
  rw [kept.counts key]
  exact sound.delivered repo managed lane job key

/-- A drain that answers that it was clean left no thread alive, and no work that was taken and did
    not come to its end. -/
theorem clean_drain (now : Int) (record : Bool) (events : List (Event R L E)) (s : State R L E)
    (run : exec (step config) (start config now record) events = some s)
    (phase : DrainPhase) (drained : Bool) (ended : s.drain = some ⟨[], phase, drained, true⟩)
    (c : R × L) (worker : c ∈ config.workers) :
    (s.lanes c).isOver = true ∧ (s.lanes c).worker.handed = (s.lanes c).worker.done_ := by
  have sound := run_sound run
  obtain ⟨past, split, gone⟩ := sound.cleared _ ended
  rw [List.append_nil] at split
  have gone_here := gone rfl c (split ▸ worker)
  have kept := sound.kept c
  refine ⟨gone_here, ?_⟩
  rw [kept.begun, kept.oneJob, RepoWorker.inHand, RepoWorker.running]
  rw [Lane.isOver] at gone_here
  cases thread : (s.lanes c).worker.thread <;> simp only [thread, Bool.false_eq_true] at gone_here <;>
    simp

end Runs
section Pair

def twoLanes {E : Type} (readers : Readers E) : Config String Bool E where
  repos := ["o/r"]
  jobs := [true, false]
  distinct := by decide
  readers := readers
  keepsState := true

def refusals : Readers Unit := ⟨fun _ => false, fun _ => some true, fun _ => none⟩

def push : TriggerKey := ("webhook", "push", "")

def pushed {E : Type} : List (Event String Bool E) :=
  [.enqueueTrigger "o/r" push, .enqueues, .lane ("o/r", true) (.checks false),
    .lane ("o/r", true) (.checksAgain false), .enqueues, .lane ("o/r", true) .pops]

def laneEnds (lane : Bool) : List (Event String Bool Unit) :=
  [.waits false false, .stops, .lane ("o/r", lane) (.checks false),
    .lane ("o/r", lane) (.checksAgain false), .lane ("o/r", lane) .pops, .lane ("o/r", lane) .turn,
    .joins false]

def drained : List (Event String Bool Unit) :=
  pushed ++ [.enqueues, .drains, .waits false false, .lane ("o/r", true) .begins,
    .lane ("o/r", true) .returns, .lane ("o/r", true) (.finishes false)] ++ laneEnds true ++
  [.waits false false, .lane ("o/r", false) (.checks false), .lane ("o/r", false) (.checksAgain false),
    .lane ("o/r", false) .pops, .lane ("o/r", false) .begins, .lane ("o/r", false) .returns,
    .lane ("o/r", false) (.finishes false)] ++ laneEnds false

def State.isClean (s : State String Bool Unit) : Bool :=
  match s.drain with
  | some ⟨[], .waiting, true, true⟩ => true
  | _ => false

theorem drain_of_clean {s : State String Bool Unit} (clean : s.isClean = true) :
    s.drain = some ⟨[], .waiting, true, true⟩ := by
  rw [State.isClean] at clean
  split at clean
  · assumption
  · cases clean

theorem clean_drain_batches : ∃ s : State String Bool Unit,
    exec (step (twoLanes refusals)) (start (twoLanes refusals) 0 false) drained = some s ∧
      s.drain = some ⟨[], .waiting, true, true⟩ ∧
      (s.lanes ("o/r", false)).isOver = true ∧
      (s.lanes ("o/r", false)).worker.handed = (s.lanes ("o/r", false)).worker.done_ := by
  have reached : (exec (step (twoLanes refusals)) (start (twoLanes refusals) 0 false) drained).any State.isClean = true := by
    decide
  obtain ⟨s, run, clean⟩ := (Option.any_eq_true _ _).mp reached
  have ended := drain_of_clean clean
  exact ⟨s, run, ended, clean_drain 0 false drained s run .waiting true ended ("o/r", false) (by decide)⟩

end Pair
end DevopsCli.Server.Manager
