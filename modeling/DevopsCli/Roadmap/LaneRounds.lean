import DevopsCli.Lib.Interleave
import DevopsCli.Roadmap.RoundLaw

/- The lanes of the Service, roadmap/run.py: each runs its rounds in its own worker, over one schedule
   for each repository and one ledger. A write of either is locked, so it is one step. -/
namespace DevopsCli.Roadmap.Rounds
open RefineDue (dueStamp)
open Run Interleave
variable {limit : Nat}

inductive Phase where
  | next
  | calling (row : DueRow)
  | returned (row : DueRow)
  | recorded (row : DueRow)
  | raised (row : DueRow) (error : Exc)

def Phase.row : Phase → Option DueRow
  | .next => none
  | .calling row | .returned row | .recorded row | .raised row _ => some row

structure LaneRound where
  job : Job
  todo : List DueRow
  round : Round := {}
  phase : Phase := .next

inductive Lane where
  | waiting
  | busy (at_ : LaneRound)
  | ended (result : Except CallError (List String))

inductive LaneStep where
  | begins (call : Call)
  | advances

structure Told where
  repo : String
  job : String
  input : String
  failed : Bool
  deriving DecidableEq

structure Shared (limit : Nat) where
  records : Records limit
  told : List Told := []

def Shared.fails (s : Shared limit) (job : Job) (row : DueRow) (error : Exc) : Shared limit where
  records := s.records.countFailure job row error
  told := if error.endedByStop then s.told
    else s.told ++ [⟨job.repo, row.name, job.inputs row.name, true⟩]

def Shared.succeeds (s : Shared limit) (job : Job) (row : DueRow) : Shared limit where
  records := s.records.succeeded job row
  told := s.told ++ [⟨job.repo, row.name, job.inputs row.name, false⟩]

/-- One step of a round: the look at the ledger, the call of a runner, and each write. -/
def LaneRound.advance (at_ : LaneRound) (s : Shared limit) : Lane × Shared limit :=
  let job := at_.job
  match at_.phase with
  | .next =>
    match at_.todo with
    | [] => (.ended (at_.round.result.mapError .rows), s)
    | row :: todo =>
      if at_.round.asks job row s.records then
        match row.needsClone, at_.round.clone with
        | true, .lost error => (.busy ⟨job, todo, at_.round.lose job row error, .next⟩, s)
        | _, _ => (.busy ⟨job, todo, at_.round, .calling row⟩, s)
      else (.busy ⟨job, todo, at_.round, .next⟩, s)
  | .calling row =>
    match at_.round.checkout job row with
    | (round, some error) => (.busy ⟨job, at_.todo, round, .raised row error⟩, s)
    | (round, none) =>
      let s := { s with records := s.records.stamp job row }
      match (job.answers row.name).runner with
      | .error error => (.busy ⟨job, at_.todo, round.call row, .raised row error⟩, s)
      | .ok outcome =>
        (.busy ⟨job, at_.todo, (round.call row).returned row (outcome.getD {}), .returned row⟩, s)
  | .returned row =>
    match (job.answers row.name).unwritten with
    | some error => (.busy ⟨job, at_.todo, at_.round, .raised row error⟩, s)
    | none =>
      (.busy ⟨job, at_.todo, at_.round, .recorded row⟩,
        { s with records := s.records.recordSuccess job.repo row.name job.now })
  | .recorded row =>
    (.busy ⟨job, at_.todo, at_.round.countJob job row .success, .next⟩, s.succeeds job row)
  | .raised row error =>
    let round := at_.round.raised job row error
    (if error.identityRefused then .ended (round.result.mapError .rows)
      else .busy ⟨job, at_.todo, round, .next⟩, s.fails job row error)

/-- The lanes: two lanes of one repository have no row in common. -/
structure Lanes (C : Type) where
  repo : C → String
  rows : C → List DueRow
  distinct : ∀ c, (names (rows c)).Nodup
  unstamped : ∀ c, dueStamp ∉ names (rows c)
  apart : ∀ c d, c ≠ d → repo c = repo d → ∀ name ∈ names (rows c), name ∉ names (rows d)

section Lanes
variable {C : Type} (lanes : Lanes C) (digest : RoundInput → String)

/-- A round begins with the schedule and the ledger as they are; its store and its rows answer in
    any way. -/
def laneStep : Step C LaneStep Lane (Shared limit) := fun c action lane s =>
  match action, lane with
  | .begins call, .waiting | .begins call, .ended _ =>
    if call.repo = lanes.repo c then
      match judge digest (lanes.rows c) call s.records with
      | .inl result => some (.ended result, s)
      | .inr job => some (.busy ⟨job, lanes.rows c, {}, .next⟩, s)
    else none
  | .advances, .busy at_ => some (at_.advance s)
  | _, _ => none

structure Inside (c : C) (at_ : LaneRound) : Prop where
  repo : at_.job.repo = lanes.repo c
  todo : at_.todo.Sublist (lanes.rows c)
  row : ∀ row ∈ at_.phase.row, row ∈ lanes.rows c

def Good (c : C) : Lane → Prop
  | .waiting | .ended _ => True
  | .busy at_ => Inside lanes c at_

def laneView (c : C) (s : Shared limit) (name : {name // name ∈ names (lanes.rows c)}) : RowRecord :=
  s.records.row (lanes.repo c) name

def IsAdvance : LaneStep → Prop
  | .begins _ => False
  | .advances => True

section Advance
variable {lanes} {c : C} {at_ : LaneRound} {s s' : Shared limit}

def Same (lanes : Lanes C) (c : C) (s s' : Shared limit) : Prop :=
  ∀ name ∈ names (lanes.rows c), s.records.row (lanes.repo c) name = s'.records.row (lanes.repo c) name

theorem laneView_iff : laneView lanes c s = laneView lanes c s' ↔ Same lanes c s s' :=
  ⟨fun same name member => congrFun same ⟨name, member⟩, fun same => funext fun ⟨name, member⟩ => same name member⟩

theorem Same.apply (same : Same lanes c s s') {t t' : Shared limit} (op : Records limit → Records limit)
    (each : String → RowRecord → RowRecord)
    (shape : ∀ records : Records limit, ∀ name ≠ dueStamp,
      (op records).row (lanes.repo c) name = each name (records.row (lanes.repo c) name))
    (after_ : t.records = op s.records) (after_' : t'.records = op s'.records) : Same lanes c t t' := by
  intro name member
  have plain : name ≠ dueStamp := fun own => lanes.unstamped c (own ▸ member)
  rw [after_, after_', shape _ name plain, shape _ name plain, same name member]

theorem asks_same (same : Same lanes c s s') {job : Job} (repo : job.repo = lanes.repo c) {row : DueRow}
    (inside : row ∈ lanes.rows c) (round : Round) :
    round.asks job row s.records = round.asks job row s'.records := by
  have held := congrArg Prod.snd (same row.name (List.mem_map_of_mem inside))
  rw [← repo] at held
  rw [Round.asks, Round.asks, FailureLedger.suspended_held, FailureLedger.suspended_held]
  exact congrArg (fun h : RowHeld => _ && !h.suspended limit (job.inputs row.name)) held

theorem fails_same (same : Same lanes c s s') (job : Job) (row : DueRow) (error : Exc) :
    Same lanes c (s.fails job row error) (s'.fails job row error) :=
  same.apply (fun records => records.countFailure job row error)
    (fun name record => (record.1,
      if (lanes.repo c = job.repo ∧ name = row.name) ∧ error.endedByStop = false then
        record.2.failed limit (job.inputs row.name) error.className
      else record.2))
    (fun records name _ => row_countFailure records job row error (lanes.repo c) name) rfl rfl

theorem succeeds_same (same : Same lanes c s s') (job : Job) (row : DueRow) :
    Same lanes c (s.succeeds job row) (s'.succeeds job row) :=
  same.apply (fun records => records.succeeded job row)
    (fun name record =>
      (record.1, if lanes.repo c = job.repo ∧ name = row.name then RowHeld.cleared else record.2))
    (fun records name _ => row_succeeded records job row (lanes.repo c) name) rfl rfl

theorem stamp_same (same : Same lanes c s s') (job : Job) (row : DueRow) :
    Same lanes c { s with records := s.records.stamp job row }
      { s' with records := s'.records.stamp job row } :=
  same.apply (fun records => records.stamp job row) (fun _ record => record)
    (fun records name plain => row_stamp records job row (lanes.repo c) name fun _ => plain) rfl rfl

theorem record_same (same : Same lanes c s s') (job : Job) (name : String) (at_ : Int) :
    Same lanes c { s with records := s.records.recordSuccess job.repo name at_ }
      { s' with records := s'.records.recordSuccess job.repo name at_ } :=
  same.apply (fun records => records.recordSuccess job.repo name at_)
    (fun key record =>
      (if lanes.repo c = job.repo ∧ key = name then some at_ else record.1, record.2))
    (fun records key _ => row_recordSuccess records job (lanes.repo c) key name at_) rfl rfl

/-- A step of a round looks at the records of its own lane only. -/
theorem advance_same (inside : Inside lanes c at_) (same : Same lanes c s s') :
    (at_.advance s).1 = (at_.advance s').1 ∧ Same lanes c (at_.advance s).2 (at_.advance s').2 := by
  obtain ⟨job, todo, round, phase⟩ := at_
  cases phase with
  | next =>
    cases todo with
    | nil => exact ⟨rfl, same⟩
    | cons row todo =>
      have member : row ∈ lanes.rows c := inside.todo.subset List.mem_cons_self
      simp only [LaneRound.advance, asks_same same inside.repo member]
      split
      · split
        · exact ⟨rfl, same⟩
        · exact ⟨rfl, same⟩
      · exact ⟨rfl, same⟩
  | calling row =>
    simp only [LaneRound.advance]
    split
    · exact ⟨rfl, same⟩
    · split
      · exact ⟨rfl, stamp_same same job row⟩
      · exact ⟨rfl, stamp_same same job row⟩
  | returned row =>
    simp only [LaneRound.advance]
    split
    · exact ⟨rfl, same⟩
    · exact ⟨rfl, record_same same job row.name job.now⟩
  | recorded row => exact ⟨rfl, succeeds_same same job row⟩
  | raised row error => exact ⟨rfl, fails_same same job row error⟩

theorem advance_frame (inside : Inside lanes c at_) {repo name : String}
    (other : repo = lanes.repo c → name ∉ names (lanes.rows c) ∧ name ≠ dueStamp) :
    (at_.advance s).2.records.row repo name = s.records.row repo name := by
  obtain ⟨job, todo, round, phase⟩ := at_
  have own_repo : job.repo = lanes.repo c := inside.repo
  have own_row : ∀ row, phase.row = some row → repo = job.repo → name ≠ row.name := by
    intro row found same own
    have member : row ∈ lanes.rows c := inside.row row found
    exact (other (same.trans own_repo)).1 (own ▸ List.mem_map_of_mem member)
  have plain : repo = job.repo → name ≠ dueStamp := fun same => (other (same.trans own_repo)).2
  cases phase with
  | next =>
    cases todo with
    | nil => rfl
    | cons row todo =>
      simp only [LaneRound.advance]
      split
      · split <;> rfl
      · rfl
  | calling row =>
    simp only [LaneRound.advance]
    split
    · rfl
    · split
      · exact row_stamp s.records job row repo name plain
      · exact row_stamp s.records job row repo name plain
  | returned row =>
    simp only [LaneRound.advance]
    split
    · rfl
    · refine (row_recordSuccess s.records job repo name row.name job.now).trans ?_
      rw [if_neg fun both => own_row row rfl both.1 both.2]
  | recorded row =>
    refine (row_succeeded s.records job row repo name).trans ?_
    rw [if_neg fun both => own_row row rfl both.1 both.2]
  | raised row error => exact row_counted_other error (own_row row rfl)

theorem advance_good (inside : Inside lanes c at_) : Good lanes c (at_.advance s).1 := by
  obtain ⟨job, todo, round, phase⟩ := at_
  have own_repo : job.repo = lanes.repo c := inside.repo
  have own_todo : todo.Sublist (lanes.rows c) := inside.todo
  have own_row : ∀ row, phase.row = some row → row ∈ lanes.rows c := fun row found => inside.row row found
  cases phase with
  | next =>
    cases todo with
    | nil => trivial
    | cons row todo =>
      have member : row ∈ lanes.rows c := own_todo.subset List.mem_cons_self
      have rest : todo.Sublist (lanes.rows c) := (List.sublist_cons_self row todo).trans own_todo
      simp only [LaneRound.advance]
      split
      · split
        · exact ⟨own_repo, rest, nofun⟩
        · exact ⟨own_repo, rest, fun _ found => Option.some.inj found ▸ member⟩
      · exact ⟨own_repo, rest, nofun⟩
  | calling row =>
    have member := own_row row rfl
    simp only [LaneRound.advance]
    split
    · exact ⟨own_repo, own_todo, fun _ found => Option.some.inj found ▸ member⟩
    · split <;> exact ⟨own_repo, own_todo, fun _ found => Option.some.inj found ▸ member⟩
  | returned row =>
    have member := own_row row rfl
    simp only [LaneRound.advance]
    split <;> exact ⟨own_repo, own_todo, fun _ found => Option.some.inj found ▸ member⟩
  | recorded row => exact ⟨own_repo, own_todo, nofun⟩
  | raised row error =>
    simp only [LaneRound.advance]
    split
    · trivial
    · exact ⟨own_repo, own_todo, nofun⟩

end Advance

theorem judge_repo {rows : List DueRow} {call : Call} {records : Records limit} {job : Job}
    (judged : judge digest rows call records = .inr job) : job.repo = call.repo := by
  rw [judge] at judged
  split at judged
  · cases judged
  · split at judged
    · cases judged
    · rw [judgeChanges] at judged
      split at judged
      · cases judged
      · split at judged
        · cases judged
        · split at judged
          · cases judged
          · cases judged
            rfl

theorem laneStep_cases {c : C} {action : LaneStep} {lane lane' : Lane} {s t : Shared limit}
    (taken : laneStep lanes digest c action lane s = some (lane', t)) :
    (∃ call, action = .begins call ∧ t = s ∧ call.repo = lanes.repo c ∧
      ((∃ result, judge digest (lanes.rows c) call s.records = .inl result ∧ lane' = .ended result) ∨
        ∃ job, judge digest (lanes.rows c) call s.records = .inr job ∧
          lane' = .busy ⟨job, lanes.rows c, {}, .next⟩)) ∨
    ∃ at_, action = .advances ∧ lane = .busy at_ ∧ lane' = (at_.advance s).1 ∧
      t = (at_.advance s).2 := by
  have begun : ∀ call, (if call.repo = lanes.repo c then
      match judge digest (lanes.rows c) call s.records with
      | .inl result => some (Lane.ended result, s)
      | .inr job => some (.busy ⟨job, lanes.rows c, {}, .next⟩, s)
    else none) = some (lane', t) →
      t = s ∧ call.repo = lanes.repo c ∧
      ((∃ result, judge digest (lanes.rows c) call s.records = .inl result ∧ lane' = .ended result) ∨
        ∃ job, judge digest (lanes.rows c) call s.records = .inr job ∧
          lane' = .busy ⟨job, lanes.rows c, {}, .next⟩) := by
    intro call taken
    split at taken
    · next same =>
      split at taken
      · next result judged =>
        cases taken
        exact ⟨rfl, same, .inl ⟨result, judged, rfl⟩⟩
      · next job judged =>
        cases taken
        exact ⟨rfl, same, .inr ⟨job, judged, rfl⟩⟩
    · cases taken
  cases action with
  | begins call =>
    cases lane with
    | waiting | ended result => exact .inl ⟨call, rfl, begun call taken⟩
    | busy at_ => cases taken
  | advances =>
    cases lane with
    | waiting | ended result => cases taken
    | busy at_ =>
      have same := Option.some.inj taken
      exact .inr ⟨at_, rfl, rfl, (congrArg Prod.fst same).symm, (congrArg Prod.snd same).symm⟩

theorem lanes_apart : Apart (@laneStep limit C lanes digest) (laneView lanes) (Good lanes) IsAdvance where
  keeps c action lane s lane' t good taken := by
    rcases laneStep_cases lanes digest taken with
      ⟨call, -, -, repo, ⟨result, -, rfl⟩ | ⟨job, judged, rfl⟩⟩ | ⟨at_, -, rfl, rfl, -⟩
    · trivial
    · exact ⟨(judge_repo digest judged).trans repo, List.Sublist.refl _, nofun⟩
    · exact advance_good good
  reads c action lane s s' lane' t good near same taken := by
    rcases laneStep_cases lanes digest taken with ⟨call, rfl, -⟩ | ⟨at_, rfl, rfl, rfl, rfl⟩
    · cases near
    · have both := advance_same good (laneView_iff.mp same)
      exact ⟨(at_.advance s').2, by rw [both.1]; rfl, laneView_iff.mpr both.2⟩
  frame c d action lane s lane' t good other taken := by
    rcases laneStep_cases lanes digest taken with ⟨call, -, rfl, -⟩ | ⟨at_, -, rfl, -, rfl⟩
    · rfl
    · rw [laneView_iff]
      intro name member
      refine advance_frame good fun same => ⟨?_, ?_⟩
      · exact lanes.apart c d (Ne.symm other) same name member
      · exact fun own => lanes.unstamped c (own ▸ member)

section Alone
variable {lanes} {digest} {c : C}

def Reaches (lanes : Lanes C) (digest : RoundInput → String) (c : C) (x y : Lane × Shared limit) : Prop :=
  ∃ n, exec (alone (laneStep lanes digest) c) x (List.replicate n .advances) = some y

theorem Reaches.refl (x : Lane × Shared limit) : Reaches lanes digest c x x := ⟨0, rfl⟩

theorem Reaches.trans {x y z : Lane × Shared limit} (first : Reaches lanes digest c x y)
    (second : Reaches lanes digest c y z) : Reaches lanes digest c x z := by
  obtain ⟨n, run⟩ := first
  obtain ⟨m, run'⟩ := second
  refine ⟨n + m, ?_⟩
  rw [List.replicate_add]
  exact exec_append.mpr ⟨y, run, run'⟩

theorem Reaches.step (at_ : LaneRound) (s : Shared limit) :
    Reaches lanes digest c (.busy at_, s) (at_.advance s) := ⟨1, rfl⟩

def landing (job : Job) (todo : List DueRow) (result : Bool × Round × Records limit) : Lane :=
  if result.1 then .busy ⟨job, todo, result.2.1, .next⟩ else .ended (result.2.1.result.mapError .rows)

def Lands (lanes : Lanes C) (digest : RoundInput → String) (c : C) (job : Job) (todo : List DueRow)
    (x : Lane × Shared limit) (result : Bool × Round × Records limit) : Prop :=
  ∃ told, Reaches lanes digest c x (landing job todo result, ⟨result.2.2, told⟩)

theorem Lands.step {job : Job} {todo : List DueRow} {at_ : LaneRound} {s : Shared limit}
    {result : Bool × Round × Records limit}
    (rest : Lands lanes digest c job todo (at_.advance s) result) :
    Lands lanes digest c job todo (.busy at_, s) result := by
  obtain ⟨told, run⟩ := rest
  exact ⟨told, (Reaches.step at_ s).trans run⟩

theorem Lands.here {job : Job} {todo : List DueRow} {s : Shared limit}
    {result : Bool × Round × Records limit} (same : result.2.2 = s.records) :
    Lands lanes digest c job todo (landing job todo result, s) result :=
  ⟨s.told, by rw [same]; exact .refl _⟩

theorem raised_lands (job : Job) (todo : List DueRow) (round : Round) (row : DueRow) (error : Exc)
    (s : Shared limit) : Lands lanes digest c job todo (.busy ⟨job, todo, round, .raised row error⟩, s)
      (rowRaised job row error round s.records) := by
  refine .step ?_
  have same : LaneRound.advance ⟨job, todo, round, .raised row error⟩ s =
      (landing job todo (rowRaised job row error round s.records), s.fails job row error) := by
    rw [landing, rowRaised]
    cases refused : error.identityRefused with
    | true => simp only [LaneRound.advance, refused, if_true, Bool.not_true, Bool.false_eq_true, if_false]
    | false => simp only [LaneRound.advance, refused, if_true, Bool.not_false, Bool.false_eq_true, if_false]
  rw [same]
  exact .here rfl

theorem returned_lands (job : Job) (todo : List DueRow) (round : Round) (row : DueRow)
    (outcome : JobOutcome) (s : Shared limit) :
    Lands lanes digest c job todo (.busy ⟨job, todo, round.returned row outcome, .returned row⟩, s)
      (rowReturned job row outcome round s.records) := by
  refine .step ?_
  cases unwritten : (job.answers row.name).unwritten with
  | some error =>
    have result : rowReturned job row outcome round s.records =
        rowRaised job row error (round.returned row outcome) s.records := by rw [rowReturned, unwritten]
    simp only [LaneRound.advance, unwritten, result]
    exact raised_lands job todo _ row error s
  | none =>
    have result : rowReturned job row outcome round s.records =
        (true, (round.returned row outcome).countJob job row .success,
          (s.records.recordSuccess job.repo row.name job.now).succeeded job row) := by
      rw [rowReturned, unwritten]
    simp only [LaneRound.advance, unwritten, result]
    refine .step ?_
    exact ⟨_, .refl _⟩

theorem called_lands (job : Job) (todo : List DueRow) (round : Round) (row : DueRow) (s : Shared limit) :
    Lands lanes digest c job todo (.busy ⟨job, todo, round, .calling row⟩, s)
      (rowChecked job row (round.checkout job row) s.records) := by
  refine .step ?_
  simp only [LaneRound.advance]
  generalize round.checkout job row = checked
  obtain ⟨round', error⟩ := checked
  cases error with
  | some error => exact raised_lands job todo round' row error s
  | none =>
    simp only [rowChecked, rowCalled]
    cases (job.answers row.name).runner with
    | error error =>
      exact raised_lands job todo (round'.call row) row error { s with records := s.records.stamp job row }
    | ok outcome =>
      exact returned_lands job todo (round'.call row) row _ { s with records := s.records.stamp job row }

/-- The steps of a row give what the row gives at once. -/
theorem row_lands (job : Job) (row : DueRow) (todo : List DueRow) (round : Round) (s : Shared limit) :
    Lands lanes digest c job todo (.busy ⟨job, row :: todo, round, .next⟩, s)
      (runRow job row round s.records) := by
  refine .step ?_
  cases asks : round.asks job row s.records with
  | false =>
    have result : runRow job row round s.records = (true, round, s.records) :=
      if_neg (Bool.eq_false_iff.mp asks)
    simp only [LaneRound.advance, asks, Bool.false_eq_true, if_false, result]
    exact ⟨s.told, .refl _⟩
  | true =>
    simp only [LaneRound.advance, asks, if_true, runRow]
    cases row.needsClone with
    | false => exact called_lands job todo round row s
    | true =>
      cases clone : round.clone with
      | unmade | made => exact called_lands job todo round row s
      | lost error => exact ⟨s.told, .refl _⟩

theorem rows_end (job : Job) (rows : List DueRow) (round : Round) (s : Shared limit) :
    ∃ told, Reaches lanes digest c (.busy ⟨job, rows, round, .next⟩, s)
      (.ended ((executeRows job rows round s.records).1.result.mapError .rows),
        ⟨(executeRows job rows round s.records).2, told⟩) := by
  induction rows generalizing round s with
  | nil => exact ⟨s.told, .step ⟨job, [], round, .next⟩ s⟩
  | cons row rows ih =>
    obtain ⟨told, run⟩ := @row_lands limit C lanes digest c job row rows round s
    rw [executeRows]
    generalize runRow job row round s.records = result at run ⊢
    obtain ⟨go, round', records'⟩ := result
    cases go with
    | false => exact ⟨told, run⟩
    | true =>
      obtain ⟨told', rest⟩ := ih round' ⟨records', told⟩
      exact ⟨told', run.trans rest⟩

end Alone

section Among
variable [DecidableEq C]

def atRest : C → Lane := fun _ => .waiting

theorem reached_good {s₀ s : Shared limit} {ls : C → Lane} {actions : List (C × LaneStep)}
    (run : exec (act (laneStep lanes digest)) (atRest, s₀) actions = some (ls, s)) :
    ∀ c, Good lanes c (ls c) :=
  @exec_invariant_always _ _ (act (laneStep lanes digest))
    (fun state : (C → Lane) × Shared limit => ∀ c, Good lanes c (state.1 c))
    (fun _ _ _ good taken => act_good (lanes_apart lanes digest) good taken) (atRest, s₀) _ _ (fun _ => trivial) run

theorem own_advances {c : C} {actions : List (C × LaneStep)}
    (last : ∀ again, (c, LaneStep.begins again) ∉ actions) :
    own c actions = List.replicate (own c actions).length .advances := by
  refine List.eq_replicate_of_mem fun action member => ?_
  obtain ⟨⟨d, step⟩, there, rfl⟩ := List.mem_map.mp member
  obtain ⟨inside, mine⟩ := List.mem_filter.mp there
  obtain rfl : d = c := of_decide_eq_true mine
  cases step with
  | begins again => exact absurd inside (last again)
  | advances => rfl

/-- Any order of the steps of the lanes: a round of a lane that is over gave what the call gives when
    no other lane runs, from the records at its begin, and left the same in the records of its rows. -/
theorem round_among_lanes (s₀ : Shared limit) (before later : List (C × LaneStep)) (c : C) (call : Call)
    (lanes' : C → Lane) (t : Shared limit) (result : Except CallError (List String))
    (run : exec (act (laneStep lanes digest)) (atRest, s₀) (before ++ (c, .begins call) :: later) =
      some (lanes', t))
    (last : ∀ again, (c, LaneStep.begins again) ∉ later) (over_ : lanes' c = .ended result) :
    ∃ others s, exec (act (laneStep lanes digest)) (atRest, s₀) before = some (others, s) ∧
      result = (runDueJobs digest (lanes.rows c) call s.records).1 ∧
      ∀ name ∈ names (lanes.rows c), t.records.row (lanes.repo c) name =
        (runDueJobs digest (lanes.rows c) call s.records).2.row (lanes.repo c) name := by
  obtain ⟨⟨others, s⟩, run_before, run⟩ := exec_append.mp run
  obtain ⟨middle, begun, run_later⟩ := exec_cons.mp run
  have good := act_good (lanes_apart lanes digest) (reached_good lanes digest run_before) begun
  obtain ⟨⟨lane, s'⟩, taken, rfl⟩ := Option.map_eq_some_iff.mp begun
  refine ⟨others, s, run_before, ?_⟩
  have near : ∀ a ∈ own c later, IsAdvance a := by
    intro a member
    rw [own_advances last] at member
    rw [List.eq_of_mem_replicate member]
    trivial
  obtain ⟨t', alone_run, agree⟩ := among_alone (lanes_apart lanes digest) c near good run_later rfl
  dsimp only at alone_run
  rw [Function.update_self, own_advances last, over_] at alone_run
  have same := laneView_iff.mp agree
  have stuck : ∀ (result : Except CallError (List String)) (u : Shared limit),
      alone (laneStep lanes digest) c (.ended result, u) .advances = none := fun _ _ => rfl
  rcases laneStep_cases lanes digest taken with
    ⟨call', begins, rfl, -, ended⟩ | ⟨at_, advances, -⟩
  · cases begins
    rcases ended with ⟨early, judged, rfl⟩ | ⟨job, judged, rfl⟩
    · have result_eq : runDueJobs digest (lanes.rows c) call s'.records = (early, s'.records) := by
        rw [runDueJobs, judged]
      have last_ := exec_same (n := 0) rfl alone_run (stuck early s') (stuck result t')
      cases last_
      rw [result_eq]
      exact ⟨rfl, same⟩
    · have result_eq : runDueJobs digest (lanes.rows c) call s'.records =
          ((executeDueRows job (lanes.rows c) s'.records).1.mapError .rows,
            (executeDueRows job (lanes.rows c) s'.records).2) := by
        rw [runDueJobs, judged]
      obtain ⟨told, n, ended⟩ := @rows_end limit C lanes digest c job (lanes.rows c) {} s'
      have last_ := exec_same ended alone_run (stuck _ _) (stuck result t')
      rw [result_eq]
      obtain ⟨result_same, records_same⟩ := Prod.mk.inj last_
      cases result_same
      rw [← records_same] at same
      exact ⟨rfl, same⟩
  · cases advances

end Among
end Lanes
section Service

inductive ServiceLane where
  | status | triage | model
  deriving DecidableEq

def laneRows : ServiceLane → List DueRow
  | .status => statusLaneRows
  | .triage => triageLaneRows false
  | .model => modelLaneRows

def serviceLanes : Lanes ServiceLane where
  repo _ := "o/r"
  rows := laneRows
  distinct c := by cases c <;> decide
  unstamped c := by cases c <;> decide
  apart c d other _ := by
    cases c <;> cases d <;> first | exact absurd rfl other | decide

def serviceCall : Call where
  repo := "o/r"
  lane := some "triage"
  batchCounts := []
  now := 0
  changesSince _ := .ok []
  commentsSince _ := .ok []
  answers _ := {}

def firstSteps : List (ServiceLane × LaneStep) :=
  [(.triage, .advances), (.status, .begins serviceCall), (.triage, .advances), (.status, .advances),
    (.triage, .advances), (.triage, .advances), (.triage, .advances)]

def startState : Shared 3 := ⟨⟨fun _ _ => none, .empty⟩, []⟩

def Lane.succeeded : Lane → Option (List String)
  | .ended (.ok jobs) => some jobs
  | _ => none

theorem ended_of_succeeded {lane : Lane} {jobs : List String} (same : lane.succeeded = some jobs) :
    lane = .ended (.ok jobs) := by
  cases lane with
  | waiting | busy at_ => cases same
  | ended result =>
    cases result with
    | error failure => cases same
    | ok names => rw [Option.some.inj same]

theorem firstSteps_end : ((exec (act (laneStep serviceLanes fun _ => "")) (atRest, startState)
    ((.triage, .begins serviceCall) :: firstSteps)).map fun state => (state.1 .triage).succeeded) =
      some (some ["intake"]) := by
  decide

theorem round_among_lanes_intake : ∃ lanes' t others s,
    exec (act (laneStep serviceLanes fun _ => "")) (atRest, startState)
      ([] ++ (.triage, .begins serviceCall) :: firstSteps) = some (lanes', t) ∧
    exec (act (laneStep serviceLanes fun _ => "")) (atRest, startState) [] = some (others, s) ∧
    .ok ["intake"] = (runDueJobs (fun _ => "") (triageLaneRows false) serviceCall s.records).1 ∧
    ∀ name ∈ names (triageLaneRows false), t.records.row "o/r" name =
      (runDueJobs (fun _ => "") (triageLaneRows false) serviceCall s.records).2.row "o/r" name := by
  obtain ⟨⟨lanes', t⟩, run, done_⟩ := Option.map_eq_some_iff.mp firstSteps_end
  have last : ∀ again, (ServiceLane.triage, LaneStep.begins again) ∉ firstSteps := by
    intro again member
    simp [firstSteps] at member
  obtain ⟨others, s, before, result, records⟩ := round_among_lanes serviceLanes (fun _ => "") startState []
    firstSteps .triage serviceCall lanes' t (.ok ["intake"]) run last (ended_of_succeeded done_)
  exact ⟨lanes', t, others, s, run, before, result, records⟩

end Service
end DevopsCli.Roadmap.Rounds
