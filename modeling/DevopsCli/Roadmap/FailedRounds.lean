import DevopsCli.Roadmap.LaneRounds

/- How often a row fails on one input, over any order of the rounds of the lanes. -/
namespace DevopsCli.Roadmap.Rounds
open Run Interleave
variable {limit : Nat}

def toldOf (repo job : String) (told : List Told) : List Told :=
  (told.filter fun entry => entry.repo == repo && entry.job == job).reverse

/-- The failed rounds in a row on the input of the newest. -/
def failingRun : List Told → Nat
  | [] => 0
  | newest :: older =>
    if newest.failed then (older.takeWhile fun entry => entry.failed && entry.input == newest.input).length + 1
    else 0

theorem toldOf_push (repo job : String) (told : List Told) (entry : Told) :
    toldOf repo job (told ++ [entry]) =
      if entry.repo = repo ∧ entry.job = job then entry :: toldOf repo job told else toldOf repo job told := by
  rw [toldOf, List.filter_append, List.reverse_append, List.filter_singleton]
  by_cases mine : entry.repo = repo ∧ entry.job = job
  · simp [mine, toldOf]
  · have none_ : (entry.repo == repo && entry.job == job) = false := by
      rw [Bool.and_eq_false_iff, beq_eq_false_iff_ne, beq_eq_false_iff_ne]
      exact not_and_or.mp mine
    rw [none_, if_neg mine]
    rfl

theorem failingRun_push {older : List Told} {entry : Told} (failed : entry.failed = true) :
    failingRun (entry :: older) = 1 ∨
      (failingRun (entry :: older) = failingRun older + 1 ∧
        ∃ newest rest, older = newest :: rest ∧ newest.failed = true ∧ newest.input = entry.input) := by
  rw [failingRun, if_pos failed]
  cases older with
  | nil => exact .inl rfl
  | cons newest rest =>
    cases same : newest.failed && newest.input == entry.input with
    | false =>
      rw [List.takeWhile_cons_of_neg (by rw [same]; exact Bool.false_ne_true)]
      exact .inl rfl
    | true =>
      rw [Bool.and_eq_true, beq_iff_eq] at same
      rw [List.takeWhile_cons_of_pos (by rw [same.1, same.2, Bool.true_and, beq_self_eq_true]), failingRun,
        if_pos same.1, same.2]
      exact .inr ⟨rfl, newest, rest, rfl, same⟩

/-- What the ledger holds of a row agrees with what it was told: the run of its failures on one
    input is within the limit, and counted. -/
structure Agrees (limit : Nat) (told : List Told) (held : RowHeld) : Prop where
  short : failingRun told ≤ max 1 limit
  counted : ∀ newest older, told = newest :: older → newest.failed = true →
    ∃ rounds, held.1 = some (rounds, newest.input) ∧ failingRun told ≤ rounds

theorem agrees_failed {told : List Told} {held : RowHeld} (agrees : Agrees limit told held) {entry : Told}
    (failed : entry.failed = true) (allowed : held.suspended limit entry.input = false) (cause : String) :
    Agrees limit (entry :: told) (held.failed limit entry.input cause) := by
  have rounds_pos : 1 ≤ held.rounds limit entry.input := by
    rw [RowHeld.rounds]
    cases held.1 with
    | none => exact le_rfl
    | some last =>
      dsimp only
      split
      · exact Nat.le_add_left 1 _
      · exact le_rfl
  have counts : failingRun (entry :: told) ≤ held.rounds limit entry.input ∧
      failingRun (entry :: told) ≤ max 1 limit := by
    rcases @failingRun_push told entry failed with one | ⟨more, newest, older, same, newest_failed, input⟩
    · rw [one]
      exact ⟨rounds_pos, le_max_left 1 limit⟩
    · obtain ⟨rounds, counted, at_most⟩ := agrees.counted newest older same newest_failed
      rw [RowHeld.suspended, counted, input, Option.any_some, beq_self_eq_true, Bool.and_true,
        decide_eq_false_iff_not, not_le] at allowed
      have next : held.rounds limit entry.input = rounds + 1 := by
        rw [RowHeld.rounds, counted, input]
        simp
      rw [more, next]
      omega
  exact {
    short := counts.2
    counted := by
      intro newest older same _
      obtain ⟨rfl, rfl⟩ := List.cons_eq_cons.mp same
      exact ⟨_, rfl, counts.1⟩ }

theorem agrees_succeeded {told : List Told} {entry : Told} (fine : entry.failed = false) (held : RowHeld) :
    Agrees limit (entry :: told) held where
  short := by
    rw [failingRun, if_neg (Bool.eq_false_iff.mp fine)]
    exact Nat.zero_le _
  counted newest older same failed := by
    obtain ⟨rfl, rfl⟩ := List.cons_eq_cons.mp same
    rw [fine] at failed
    cases failed

section Lanes
variable {C : Type} (lanes : Lanes C) (digest : RoundInput → String)

def Allowed (s : Shared limit) : Lane → Prop
  | .waiting | .ended _ => True
  | .busy at_ => ∀ row ∈ at_.phase.row,
      (s.records.row at_.job.repo row.name).2.suspended limit (at_.job.inputs row.name) = false

/-- No lane is with a suspended row, and the ledger agrees with what it was told. -/
structure Sound (state : (C → Lane) × Shared limit) : Prop where
  good : ∀ c, Good lanes c (state.1 c)
  allowed : ∀ c, Allowed state.2 (state.1 c)
  agrees : ∀ repo job, Agrees limit (toldOf repo job state.2.told) (state.2.records.row repo job).2

theorem advance_agrees {at_ : LaneRound} {s : Shared limit} (allowed : Allowed s (.busy at_))
    (agrees : ∀ repo job, Agrees limit (toldOf repo job s.told) (s.records.row repo job).2)
    (repo job : String) :
    Agrees limit (toldOf repo job (at_.advance s).2.told) ((at_.advance s).2.records.row repo job).2 := by
  obtain ⟨work, todo, round, phase⟩ := at_
  cases phase with
  | next =>
    cases todo with
    | nil => exact agrees repo job
    | cons row todo =>
      simp only [LaneRound.advance]
      split
      · split <;> exact agrees repo job
      · exact agrees repo job
  | calling row =>
    have stamped : ∀ repo job, ((s.records.stamp work row).row repo job).2 = (s.records.row repo job).2 := by
      intro repo job
      rw [Records.stamp]
      split
      · rw [row_recordSuccess]
      · rfl
    simp only [LaneRound.advance]
    split
    · exact agrees repo job
    · split
      · exact (stamped repo job).symm ▸ agrees repo job
      · exact (stamped repo job).symm ▸ agrees repo job
  | returned row =>
    simp only [LaneRound.advance]
    split
    · exact agrees repo job
    · rw [row_recordSuccess]
      exact agrees repo job
  | recorded row =>
    simp only [LaneRound.advance, Shared.succeeds]
    rw [row_succeeded, toldOf_push]
    by_cases mine : work.repo = repo ∧ row.name = job
    · rw [if_pos mine]
      exact agrees_succeeded rfl _
    · rw [if_neg mine, if_neg fun both => mine ⟨both.1.symm, both.2.symm⟩]
      exact agrees repo job
  | raised row error =>
    simp only [LaneRound.advance, Shared.fails]
    rw [row_countFailure]
    cases stopped : error.endedByStop with
    | true =>
      rw [if_pos rfl, if_neg fun both => Bool.noConfusion both.2]
      exact agrees repo job
    | false =>
      rw [if_neg Bool.false_ne_true, toldOf_push]
      by_cases mine : work.repo = repo ∧ row.name = job
      · obtain ⟨rfl, rfl⟩ := mine
        rw [if_pos ⟨rfl, rfl⟩, if_pos ⟨⟨rfl, rfl⟩, rfl⟩]
        exact agrees_failed (agrees work.repo row.name) rfl (allowed row rfl) error.className
      · rw [if_neg mine, if_neg fun both => mine ⟨both.1.1.symm, both.1.2.symm⟩]
        exact agrees repo job

theorem allowed_next {work : Job} {todo : List DueRow} {round : Round} {s : Shared limit} :
    Allowed s (.busy ⟨work, todo, round, .next⟩) :=
  fun _ none_ => absurd none_ (Option.not_mem_none _)

theorem advance_allowed {at_ : LaneRound} {s : Shared limit} (allowed : Allowed s (.busy at_)) :
    Allowed (at_.advance s).2 (at_.advance s).1 := by
  obtain ⟨work, todo, round, phase⟩ := at_
  cases phase with
  | next =>
    cases todo with
    | nil => trivial
    | cons row todo =>
      cases asks : round.asks work row s.records with
      | false =>
        simp only [LaneRound.advance, asks, Bool.false_eq_true, if_false]
        exact allowed_next
      | true =>
        have free : (s.records.row work.repo row.name).2.suspended limit (work.inputs row.name) = false := by
          rw [Round.asks, Bool.and_eq_true, Bool.not_eq_true', FailureLedger.suspended_held] at asks
          exact asks.2
        simp only [LaneRound.advance, asks, if_true]
        split
        · exact allowed_next
        · exact fun _ same => Option.some.inj same ▸ free
  | calling row =>
    have held := allowed row rfl
    have stamped : ((s.records.stamp work row).row work.repo row.name).2 =
        (s.records.row work.repo row.name).2 := by
      rw [Records.stamp]
      split
      · rw [row_recordSuccess]
      · rfl
    simp only [LaneRound.advance]
    split
    · exact fun _ same => Option.some.inj same ▸ held
    · split
      · exact fun _ same => Option.some.inj same ▸ stamped.symm ▸ held
      · exact fun _ same => Option.some.inj same ▸ stamped.symm ▸ held
  | returned row =>
    have held := allowed row rfl
    simp only [LaneRound.advance]
    split
    · exact fun _ same => Option.some.inj same ▸ held
    · intro other same
      obtain rfl := Option.some.inj same
      rw [row_recordSuccess]
      exact held
  | recorded row => exact allowed_next
  | raised row error =>
    simp only [LaneRound.advance]
    split
    · trivial
    · exact allowed_next

theorem allowed_other {c : C} {lane : Lane} {s t : Shared limit} (good : Good lanes c lane)
    (allowed : Allowed s lane) (same : laneView lanes c t = laneView lanes c s) : Allowed t lane := by
  cases lane with
  | waiting | ended result => trivial
  | busy at_ =>
    intro row found
    have member := List.mem_map_of_mem (f := fun row : DueRow => row.name) (good.row row found)
    rw [good.repo, laneView_iff.mp same row.name member, ← good.repo]
    exact allowed row found

variable [DecidableEq C]

theorem sound_step (state : (C → Lane) × Shared limit) (action : C × LaneStep)
    (next : (C → Lane) × Shared limit) (sound : Sound lanes state) (taken : act (laneStep lanes digest) state action = some next) :
    Sound lanes next := by
  have good := act_good (lanes_apart lanes digest) sound.good taken
  obtain ⟨⟨lane, t⟩, first, rfl⟩ := Option.map_eq_some_iff.mp taken
  have own : Allowed t lane ∧ ∀ repo job, Agrees limit (toldOf repo job t.told) (t.records.row repo job).2 := by
    rcases laneStep_cases lanes digest first with
      ⟨call, -, rfl, -, ⟨result, -, rfl⟩ | ⟨job, -, rfl⟩⟩ | ⟨at_, -, same, rfl, rfl⟩
    · exact ⟨trivial, sound.agrees⟩
    · exact ⟨allowed_next, sound.agrees⟩
    · have allowed := sound.allowed action.1
      rw [same] at allowed
      exact ⟨advance_allowed allowed, advance_agrees allowed sound.agrees⟩
  refine ⟨good, fun c => ?_, own.2⟩
  by_cases mine : c = action.1
  · rw [mine]
    dsimp only
    rw [Function.update_self]
    exact own.1
  · dsimp only
    rw [Function.update_of_ne mine]
    have frame := (@lanes_apart limit C lanes digest).frame c action.1 action.2 _ state.2 lane t
      (sound.good action.1) (Ne.symm mine) first
    exact allowed_other lanes (sound.good c) (sound.allowed c) frame

/-- In any order of the steps of the lanes, no row fails on one input more often in a row than the
    limit, or than once. -/
theorem failing_rounds_bounded (records : Records limit) (actions : List (C × LaneStep))
    (lanes' : C → Lane) (t : Shared limit)
    (run : exec (act (laneStep lanes digest)) (atRest, ⟨records, []⟩) actions = some (lanes', t))
    (repo job : String) : failingRun (toldOf repo job t.told) ≤ max 1 limit := by
  have start : Sound lanes ((atRest, ⟨records, []⟩) : (C → Lane) × Shared limit) := {
    good := fun _ => trivial
    allowed := fun _ => trivial
    agrees := fun _ _ => ⟨Nat.zero_le _, fun _ _ empty => absurd empty (List.cons_ne_nil _ _).symm⟩ }
  have sound := exec_invariant_always (sound_step lanes digest) start run
  exact (sound.agrees repo job).short

end Lanes
theorem failing_rounds_bounded_intake : ∃ lanes' t,
    exec (act (laneStep serviceLanes fun _ => "")) (atRest, ⟨startState.records, []⟩)
      ((.triage, .begins serviceCall) :: firstSteps) = some (lanes', t) ∧
    failingRun (toldOf "o/r" "intake" t.told) ≤ max 1 3 := by
  obtain ⟨⟨lanes', t⟩, run, -⟩ := Option.map_eq_some_iff.mp firstSteps_end
  exact ⟨lanes', t, run, failing_rounds_bounded serviceLanes (fun _ => "") startState.records
    ((.triage, .begins serviceCall) :: firstSteps) lanes' t run "o/r" "intake"⟩

end DevopsCli.Roadmap.Rounds
