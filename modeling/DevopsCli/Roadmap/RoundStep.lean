import DevopsCli.Roadmap.Round

/- What one row of a round does, by how the row is met: skipped, with the clone lost before it or
   for it, or run. -/
namespace DevopsCli.Roadmap

/-- What the ledger holds of a job: its rounds in a row with the input of the last, and causes. -/
abbrev RowHeld := Option (Nat × String) × List String

namespace FailureLedger
variable {limit : Nat} (l : FailureLedger limit)

def held (key : JobKey) : RowHeld := (l.failedRounds.lookup key, (l.causesOf.lookup key).getD [])

end FailureLedger

namespace RowHeld

def suspended (limit : Nat) (held : RowHeld) (current : String) : Bool :=
  held.1.any fun entry => decide (limit ≤ entry.1) && entry.2 == current

def rounds (limit : Nat) (held : RowHeld) (current : String) : Nat :=
  match held.1 with
  | none => 1
  | some (rounds, failedOn) => if failedOn == current || decide (rounds < limit) then rounds + 1 else 1

def failed (limit : Nat) (held : RowHeld) (current cause : String) : RowHeld :=
  let rounds := held.rounds limit current
  (some (rounds, current), ((if rounds = 1 then [] else held.2) ++ [cause]).rtake limit)

def cleared : RowHeld := (none, [])

end RowHeld

namespace FailureLedger
variable {limit : Nat} (l : FailureLedger limit) (repo job current cause : String) (key : JobKey)

theorem suspended_held :
    l.suspended repo job current = (l.held (repo, job)).suspended limit current := by
  rw [suspended, roundsOf, held, RowHeld.suspended]
  cases l.failedRounds.lookup (repo, job) with
  | none => simp
  | some entry => rfl

theorem holdsFailure_held : l.holdsFailure repo job = (l.held (repo, job)).1.isSome := rfl

theorem failed_held_rounds :
    (l.failed repo job current cause).1 = (l.held (repo, job)).rounds limit current := by
  rw [failed, roundsOf, held, RowHeld.rounds]
  cases l.failedRounds.lookup (repo, job) with
  | none => simp
  | some entry => rfl

theorem held_failed :
    (l.failed repo job current cause).2.held key =
      if key = (repo, job) then (l.held key).failed limit current cause else l.held key := by
  rw [held, failed_rounds, failed_causes, failed_held_rounds]
  split
  · next own =>
    rw [own]
    rfl
  · rfl

theorem held_succeeded :
    (l.succeeded repo job).2.held key = if key = (repo, job) then RowHeld.cleared else l.held key := by
  rw [held, succeeded_rounds, succeeded_causes]
  split
  · rfl
  · rfl

theorem held_countFailure (stopped : Bool) :
    (l.countFailure repo job current cause stopped).1.held key =
      if key = (repo, job) ∧ stopped = false then (l.held key).failed limit current cause
      else l.held key := by
  cases stopped with
  | true => rw [if_neg fun both => Bool.noConfusion both.2, countFailure, if_pos rfl]
  | false =>
    rw [countFailure, if_neg Bool.false_ne_true]
    change (l.failed repo job current cause).2.held key = _
    rw [held_failed]
    exact if_congr (and_iff_left rfl).symm rfl rfl

end FailureLedger

namespace Rounds
open RefineDue (dueStamp)
variable {limit : Nat}

abbrev RowRecord := Option Int × RowHeld

def Records.row (records : Records limit) (repo name : String) : RowRecord :=
  (records.schedules repo name, records.ledger.held (repo, name))

def Answer.failure (answer : Answer) : Option Exc :=
  match answer.runner with
  | .error error => some error
  | .ok _ => answer.unwritten

def missed (limit : Nat) (job : Job) (row : DueRow) (error : Exc) (record : RowRecord) : RowRecord :=
  (record.1, if error.endedByStop then record.2
    else record.2.failed limit (job.inputs row.name) error.className)

def cloneOf (job : Job) : Option DueRow → Clone
  | none => .unmade
  | some row =>
    match (job.answers row.name).checkout with
    | none => .made
    | some error => .lost error

/-- How a row is met: the checkout was lost before, or is lost for it, or it runs. -/
inductive Fate where
  | skipped
  | lost (error : Exc)
  | unchecked (error : Exc)
  | ran

namespace Fate

def error (answer : Answer) : Fate → Option Exc
  | .skipped => none
  | .lost error | .unchecked error => some error
  | .ran => answer.failure

def ends : Fate → Bool
  | .skipped => false
  | .lost _ | .unchecked _ | .ran => true

def shared : Fate → Bool
  | .lost _ | .unchecked _ => true
  | .skipped | .ran => false

def refused (answer : Answer) : Fate → Bool
  | .skipped | .lost _ => false
  | .unchecked error => error.identityRefused
  | .ran => answer.failure.any Exc.identityRefused

def runs : Fate → Bool
  | .ran => true
  | .skipped | .lost _ | .unchecked _ => false

end Fate

def Answer.returns (answer : Answer) : Bool :=
  match answer.runner with
  | .error _ => false
  | .ok _ => true

def fateOf (job : Job) (row : DueRow) (round : Round) (records : Records limit) : Fate :=
  if round.asks job row records then
    match row.needsClone, round.clone with
    | false, _ | true, .made => .ran
    | true, .lost error => .lost error
    | true, .unmade =>
      match (job.answers row.name).checkout with
      | none => .ran
      | some error => .unchecked error
  else .skipped

def push (wanted : Bool) (name : String) : List String := if wanted then [name] else []

def Fate.entries (job : Job) (row : DueRow) : Fate → List Entry
  | .skipped | .lost _ => []
  | .unchecked error => [.clone error]
  | .ran => ((job.answers row.name).failure.map (Entry.row row.name)).toList

def Fate.leaves (limit : Nat) (job : Job) (row : DueRow) (record : RowRecord) : Fate → RowRecord
  | .skipped | .lost _ => record
  | .unchecked error => missed limit job row error record
  | .ran =>
    match (job.answers row.name).failure with
    | none => (some job.now, RowHeld.cleared)
    | some error => missed limit job row error record

structure Stepped (job : Job) (row : DueRow) (fate : Fate) (round : Round) (t : Records limit)
    (result : Bool × Round × Records limit) : Prop where
  goes : result.1 = !fate.refused (job.answers row.name)
  failed : result.2.1.failed = round.failed ++ push (fate.error (job.answers row.name)).isSome row.name
  ran : result.2.1.ran = round.ran ++ push fate.runs row.name
  succeeded : result.2.1.succeeded =
    round.succeeded ++ push (fate.runs && (job.answers row.name).returns) row.name
  outcomes : ∀ name ≠ row.name, result.2.1.outcomes name = round.outcomes name
  cloneJobs : result.2.1.cloneJobs = round.cloneJobs ++ push fate.shared row.name
  entries : result.2.1.entries = round.entries ++ fate.entries job row
  counts : job.lane ≠ none → result.2.1.counts = round.counts ++
    if fate.ends then
      [(row.name, ((fate.error (job.answers row.name)).map failedResult).getD .success)]
    else []
  asked : (fate.ends && row.needsClone) = true → round.clone = .unmade →
    result.2.1.checkouts = round.checkouts ++ [row.name] ∧ result.2.1.clone = cloneOf job (some row)
  unasked : ((fate.ends && row.needsClone) = false ∨ round.clone ≠ .unmade) →
    result.2.1.checkouts = round.checkouts ∧ result.2.1.clone = round.clone
  own : result.2.2.row job.repo row.name = fate.leaves limit job row (t.row job.repo row.name)
  others : ∀ repo name, (repo = job.repo → name ≠ row.name ∧ name ≠ dueStamp) →
    result.2.2.row repo name = t.row repo name

section Records
variable (records : Records limit) (job : Job) (row : DueRow)

theorem row_countFailure (error : Exc) (repo name : String) :
    (records.countFailure job row error).row repo name =
      ((records.row repo name).1,
        if (repo = job.repo ∧ name = row.name) ∧ error.endedByStop = false then
          (records.row repo name).2.failed limit (job.inputs row.name) error.className
        else (records.row repo name).2) := by
  refine Prod.ext rfl ?_
  change (records.ledger.countFailure _ _ _ _ _).1.held (repo, name) = _
  rw [FailureLedger.held_countFailure]
  simp only [Prod.mk.injEq]
  rfl

theorem row_recordSuccess (repo name key : String) (at_ : Int) :
    (records.recordSuccess job.repo key at_).row repo name =
      (if repo = job.repo ∧ name = key then some at_ else (records.row repo name).1,
        (records.row repo name).2) := by
  refine Prod.ext ?_ rfl
  change Function.update records.schedules job.repo _ repo name = _
  by_cases same : repo = job.repo
  · subst same
    rw [Function.update_self, RefineDue.recordSuccess]
    simp only [true_and]
    rfl
  · rw [Function.update_of_ne same, if_neg fun both => same both.1]
    rfl

theorem row_succeeded (repo name : String) :
    (records.succeeded job row).row repo name =
      ((records.row repo name).1,
        if repo = job.repo ∧ name = row.name then RowHeld.cleared else (records.row repo name).2) := by
  refine Prod.ext rfl ?_
  change (records.ledger.succeeded _ _).2.held (repo, name) = _
  rw [FailureLedger.held_succeeded]
  simp only [Prod.mk.injEq]
  rfl

theorem row_stamp (repo name : String) (other : repo = job.repo → name ≠ dueStamp) :
    (records.stamp job row).row repo name = records.row repo name := by
  rw [Records.stamp]
  split
  · rw [row_recordSuccess, if_neg fun both => other both.1 both.2]
  · rfl

end Records

section Step
variable {job : Job} {row : DueRow} {round : Round} {t : Records limit}

section Raised
variable (job row round) (error : Exc)

def notMade : Clone → Bool
  | .made => false
  | .unmade | .lost _ => true

def ofClone : Bool := row.needsClone && notMade round.clone

theorem raised_failed : (round.raised job row error).failed = round.failed ++ [row.name] := by
  unfold Round.raised Round.countJob
  cases job.lane <;> cases row.needsClone <;> cases round.clone <;> rfl

theorem raised_ran : (round.raised job row error).ran = round.ran := by
  unfold Round.raised Round.countJob
  cases job.lane <;> cases row.needsClone <;> cases round.clone <;> rfl

theorem raised_succeeded : (round.raised job row error).succeeded = round.succeeded := by
  unfold Round.raised Round.countJob
  cases job.lane <;> cases row.needsClone <;> cases round.clone <;> rfl

theorem raised_outcomes {name : String} (other : name ≠ row.name) :
    (round.raised job row error).outcomes name = round.outcomes name := by
  have kept : ∀ outcome, Function.update round.outcomes row.name outcome name = round.outcomes name :=
    fun outcome => Function.update_of_ne other _ _
  unfold Round.raised Round.countJob
  cases job.lane <;> cases row.needsClone <;> cases round.clone <;> exact kept _

theorem raised_checkouts : (round.raised job row error).checkouts = round.checkouts := by
  unfold Round.raised Round.countJob
  cases job.lane <;> cases row.needsClone <;> cases round.clone <;> rfl

theorem raised_counts (inLane : job.lane ≠ none) :
    (round.raised job row error).counts = round.counts ++ [(row.name, failedResult error)] := by
  unfold Round.raised Round.countJob
  cases lane : job.lane with
  | none => exact absurd lane inLane
  | some lane => cases row.needsClone <;> cases round.clone <;> rfl

theorem raised_cloneJobs : (round.raised job row error).cloneJobs =
    round.cloneJobs ++ push (ofClone row round) row.name := by
  unfold Round.raised Round.countJob ofClone
  cases job.lane <;> cases row.needsClone <;> cases round.clone <;>
    first | rfl | exact (List.append_nil _).symm

theorem raised_entries : (round.raised job row error).entries =
    round.entries ++ [if ofClone row round then .clone error else .row row.name error] := by
  unfold Round.raised Round.countJob ofClone
  cases job.lane <;> cases row.needsClone <;> cases round.clone <;> rfl

theorem raised_clone : (round.raised job row error).clone =
    if ofClone row round then .lost error else round.clone := by
  unfold Round.raised Round.countJob ofClone
  cases job.lane <;> cases row.needsClone <;> cases round.clone <;> rfl

end Raised

theorem asks_of_fate (ends : fateOf job row round t ≠ .skipped) : round.asks job row t = true := by
  by_contra no
  rw [fateOf, if_neg no] at ends
  exact ends rfl

theorem checkout_ran (runs : fateOf job row round t = .ran) :
    ∃ clone checkouts,
      round.checkout job row = ({ round with clone := clone, checkouts := checkouts }, none) ∧
      (row.needsClone = true → clone = .made) ∧
      (row.needsClone = true → round.clone = .unmade →
        checkouts = round.checkouts ++ [row.name] ∧ clone = cloneOf job (some row)) ∧
      (row.needsClone = false ∨ round.clone ≠ .unmade →
        checkouts = round.checkouts ∧ clone = round.clone) := by
  rw [fateOf] at runs
  split at runs
  case isFalse => cases runs
  rw [Round.checkout]
  cases needs : row.needsClone with
  | false => exact ⟨round.clone, round.checkouts, rfl, nofun, nofun, fun _ => ⟨rfl, rfl⟩⟩
  | true =>
    rw [needs] at runs
    cases clone : round.clone with
    | made => exact ⟨round.clone, round.checkouts, rfl, fun _ => clone, nofun, fun _ => ⟨rfl, clone⟩⟩
    | lost error =>
      rw [clone] at runs
      cases runs
    | unmade =>
      rw [clone] at runs
      cases answer : (job.answers row.name).checkout with
      | some error =>
        rw [answer] at runs
        cases runs
      | none =>
        refine ⟨.made, round.checkouts ++ [row.name], rfl, fun _ => rfl, fun _ _ => ⟨rfl, ?_⟩, ?_⟩
        · rw [cloneOf, answer]
        · rintro (no | no)
          · cases no
          · exact absurd rfl no

theorem row_counted (error : Exc) :
    (t.countFailure job row error).row job.repo row.name =
      missed limit job row error (t.row job.repo row.name) := by
  rw [row_countFailure, missed]
  cases error.endedByStop with
  | true => rw [if_neg fun both => Bool.noConfusion both.2, if_pos rfl]
  | false => rw [if_pos ⟨⟨rfl, rfl⟩, rfl⟩, if_neg Bool.false_ne_true]

theorem row_counted_other (error : Exc) {repo name : String}
    (other : repo = job.repo → name ≠ row.name) :
    (t.countFailure job row error).row repo name = t.row repo name := by
  rw [row_countFailure, if_neg fun both => other both.1.1 both.1.2]

theorem ran_raised (notStamp : row.name ≠ dueStamp) (runs : fateOf job row round t = .ran)
    {error : Exc} (failure : (job.answers row.name).failure = some error) {met : Round}
    (other : ∀ name ≠ row.name, met.outcomes name = round.outcomes name)
    (same : { met with outcomes := round.outcomes, succeeded := round.succeeded } =
      (round.checkout job row).1.call row)
    (returned : met.succeeded =
      round.succeeded ++ push (job.answers row.name).returns row.name) :
    Stepped job row .ran round t (rowRaised job row error met (t.stamp job row)) := by
  obtain ⟨clone, checkouts, checked, ready, asked, unasked⟩ := checkout_ran runs
  rw [checked] at same
  obtain ⟨-, clone_eq, -, failed_eq, cloneJobs_eq, entries_eq, counts_eq, checkouts_eq, ran_eq⟩ :=
    Round.mk.inj same
  have own : ofClone row met = false := by
    rw [ofClone]
    cases needs : row.needsClone with
    | false => rfl
    | true => rw [clone_eq, ready needs]; rfl
  have error_eq : Fate.error (job.answers row.name) .ran = some error := failure
  exact {
    goes := by rw [Fate.refused, failure]; rfl
    failed := by rw [error_eq]; exact (raised_failed job row met error).trans (by rw [failed_eq]; rfl)
    ran := (raised_ran job row met error).trans ran_eq
    succeeded := (raised_succeeded job row met error).trans returned
    outcomes := fun name apart => (raised_outcomes job row met error apart).trans (other name apart)
    cloneJobs := (raised_cloneJobs job row met error).trans (by rw [own, cloneJobs_eq]; rfl)
    entries := (raised_entries job row met error).trans
      (by rw [own, entries_eq, Fate.entries, failure]; rfl)
    counts := fun inLane => (raised_counts job row met error inLane).trans
      (by rw [error_eq, counts_eq]; rfl)
    asked := fun needs unmade => by
      have facts := asked needs unmade
      refine ⟨(raised_checkouts job row met error).trans (checkouts_eq.trans facts.1), ?_⟩
      exact (raised_clone job row met error).trans (by rw [own]; exact clone_eq.trans facts.2)
    unasked := fun either => by
      have facts := unasked either
      refine ⟨(raised_checkouts job row met error).trans (checkouts_eq.trans facts.1), ?_⟩
      exact (raised_clone job row met error).trans (by rw [own]; exact clone_eq.trans facts.2)
    own := by
      rw [Fate.leaves, failure]
      exact (row_counted error).trans (by rw [row_stamp t job row _ _ fun _ => notStamp])
    others := fun repo name apart => (row_counted_other error fun same => (apart same).1).trans
      (row_stamp t job row repo name fun same => (apart same).2) }

theorem ran_returned (runs : fateOf job row round t = .ran)
    (failure : (job.answers row.name).failure = none) (returns : (job.answers row.name).returns = true)
    (outcome : JobOutcome) :
    Stepped job row .ran round t (rowReturned job row outcome ((round.checkout job row).1.call row)
      (t.stamp job row)) := by
  obtain ⟨clone, checkouts, checked, ready, asked, unasked⟩ := checkout_ran runs
  have unwritten : (job.answers row.name).unwritten = none := by
    rw [Answer.failure] at failure
    rw [Answer.returns] at returns
    split at failure
    · cases failure
    · exact failure
  have error_eq : Fate.error (job.answers row.name) .ran = none := failure
  have frame : ∀ other : Round, (other.countJob job row .success) =
      { other with counts := (other.countJob job row .success).counts } := by
    intro other
    rw [Round.countJob]
    cases job.lane <;> rfl
  rw [rowReturned, unwritten, checked, frame]
  exact {
    goes := by rw [Fate.refused, failure]; rfl
    failed := by rw [error_eq]; exact (List.append_nil _).symm
    ran := rfl
    succeeded := by rw [returns]; rfl
    outcomes := fun name apart => Function.update_of_ne apart _ _
    cloneJobs := (List.append_nil _).symm
    entries := by rw [Fate.entries, failure]; exact (List.append_nil _).symm
    counts := fun inLane => by
      rw [error_eq, Round.countJob]
      cases lane : job.lane with
      | none => exact absurd lane inLane
      | some lane => rfl
    asked := asked
    unasked := fun either => unasked either
    own := by
      rw [Fate.leaves, failure, row_succeeded, row_recordSuccess]
      simp
    others := fun repo name apart => by
      rw [row_succeeded, row_recordSuccess, if_neg fun both => (apart both.1).1 both.2,
        if_neg fun both => (apart both.1).1 both.2]
      exact row_stamp t job row repo name fun same => (apart same).2 }

theorem lost_facts {error : Exc} (lost : fateOf job row round t = .lost error) :
    row.needsClone = true ∧ round.clone = .lost error := by
  rw [fateOf] at lost
  split at lost
  case isFalse => cases lost
  cases needs : row.needsClone with
  | false =>
    rw [needs] at lost
    cases lost
  | true =>
    rw [needs] at lost
    cases clone : round.clone with
    | made =>
      rw [clone] at lost
      cases lost
    | lost held =>
      rw [clone] at lost
      cases lost
      exact ⟨rfl, rfl⟩
    | unmade =>
      rw [clone] at lost
      cases answer : (job.answers row.name).checkout with
      | none =>
        rw [answer] at lost
        cases lost
      | some held =>
        rw [answer] at lost
        cases lost

theorem unchecked_facts {error : Exc} (unchecked : fateOf job row round t = .unchecked error) :
    row.needsClone = true ∧ round.clone = .unmade ∧ (job.answers row.name).checkout = some error := by
  rw [fateOf] at unchecked
  split at unchecked
  case isFalse => cases unchecked
  cases needs : row.needsClone with
  | false =>
    rw [needs] at unchecked
    cases unchecked
  | true =>
    rw [needs] at unchecked
    cases clone : round.clone with
    | made =>
      rw [clone] at unchecked
      cases unchecked
    | lost held =>
      rw [clone] at unchecked
      cases unchecked
    | unmade =>
      rw [clone] at unchecked
      cases answer : (job.answers row.name).checkout with
      | none =>
        rw [answer] at unchecked
        cases unchecked
      | some held =>
        rw [answer] at unchecked
        cases unchecked
        exact ⟨rfl, rfl, rfl⟩

theorem skipped_idle (skipped : fateOf job row round t = .skipped) : round.asks job row t = false := by
  by_contra asks
  rw [fateOf, if_pos (Bool.not_eq_false _ ▸ asks)] at skipped
  split at skipped <;> first | cases skipped | skip
  split at skipped <;> cases skipped

theorem skipped_stepped (skipped : fateOf job row round t = .skipped) :
    Stepped job row .skipped round t (runRow job row round t) := by
  rw [runRow, if_neg (Bool.eq_false_iff.mp (skipped_idle skipped))]
  exact {
    goes := rfl
    failed := (List.append_nil _).symm
    ran := (List.append_nil _).symm
    succeeded := (List.append_nil _).symm
    outcomes := fun _ _ => rfl
    cloneJobs := (List.append_nil _).symm
    entries := (List.append_nil _).symm
    counts := fun _ => (List.append_nil _).symm
    asked := nofun
    unasked := fun _ => ⟨rfl, rfl⟩
    own := rfl
    others := fun _ _ _ => rfl }

theorem lost_stepped {error : Exc} (lost : fateOf job row round t = .lost error) :
    Stepped job row (.lost error) round t (runRow job row round t) := by
  obtain ⟨needs, clone⟩ := lost_facts lost
  have frame : round.lose job row error = { round with
      failed := round.failed ++ [row.name]
      cloneJobs := round.cloneJobs ++ [row.name]
      counts := (round.lose job row error).counts } := by
    rw [Round.lose, Round.countJob]
    cases job.lane <;> rfl
  have counts : job.lane ≠ none → (round.lose job row error).counts =
      round.counts ++ [(row.name, failedResult error)] := by
    intro inLane
    rw [Round.lose, Round.countJob]
    cases lane : job.lane with
    | none => exact absurd lane inLane
    | some lane => rfl
  rw [runRow, if_pos (asks_of_fate fun skipped => by rw [lost] at skipped; cases skipped)]
  simp only [needs, clone]
  rw [frame]
  exact {
    goes := rfl
    failed := rfl
    ran := (List.append_nil _).symm
    succeeded := (List.append_nil _).symm
    outcomes := fun _ _ => rfl
    cloneJobs := rfl
    entries := (List.append_nil _).symm
    counts := counts
    asked := fun _ unmade => by rw [clone] at unmade; cases unmade
    unasked := fun _ => ⟨rfl, rfl⟩
    own := rfl
    others := fun _ _ _ => rfl }

theorem unchecked_stepped {error : Exc} (unchecked : fateOf job row round t = .unchecked error) :
    Stepped job row (.unchecked error) round t (runRow job row round t) := by
  obtain ⟨needs, clone, answer⟩ := unchecked_facts unchecked
  have asks := asks_of_fate fun skipped => by rw [unchecked] at skipped; cases skipped
  have checked : round.checkout job row =
      ({ round with checkouts := round.checkouts ++ [row.name] }, some error) := by
    rw [Round.checkout]
    simp only [needs, clone, answer]
  have same : runRow job row round t = rowRaised job row error
      { round with checkouts := round.checkouts ++ [row.name] } t := by
    rw [runRow, if_pos asks]
    simp only [needs, clone, checked, rowChecked]
  have own : ofClone row { round with checkouts := round.checkouts ++ [row.name] } = true := by
    rw [ofClone, needs, clone]
    rfl
  rw [same]
  exact {
    goes := rfl
    failed := raised_failed ..
    ran := (raised_ran ..).trans (List.append_nil _).symm
    succeeded := (raised_succeeded ..).trans (List.append_nil _).symm
    outcomes := fun name apart => raised_outcomes _ _ _ _ apart
    cloneJobs := (raised_cloneJobs ..).trans (by rw [own]; rfl)
    entries := (raised_entries ..).trans (by rw [own]; rfl)
    counts := raised_counts _ _ _ _
    asked := fun _ _ => ⟨raised_checkouts .., (raised_clone ..).trans (by rw [own, cloneOf, answer]; rfl)⟩
    unasked := fun either => by
      rcases either with no | no
      · rw [needs] at no
        cases no
      · exact absurd clone no
    own := row_counted error
    others := fun repo name apart => row_counted_other error fun same => (apart same).1 }

theorem ran_stepped (notStamp : row.name ≠ dueStamp) (runs : fateOf job row round t = .ran) :
    Stepped job row .ran round t (runRow job row round t) := by
  obtain ⟨clone, checkouts, checked, ready, -, -⟩ := checkout_ran runs
  have same : runRow job row round t = rowCalled job row (round.checkout job row).1 t := by
    have asks := asks_of_fate fun skipped => by rw [runs] at skipped; cases skipped
    rw [runRow, if_pos asks, checked]
    cases needs : row.needsClone with
    | false => rfl
    | true =>
      cases held : round.clone with
      | unmade => rfl
      | made => rfl
      | lost error =>
        rw [fateOf, if_pos asks, needs, held] at runs
        cases runs
  rw [same, rowCalled]
  have ready_outcomes : (round.checkout job row).1.outcomes = round.outcomes := by rw [checked]
  have ready_succeeded : (round.checkout job row).1.succeeded = round.succeeded := by rw [checked]
  cases runner : (job.answers row.name).runner with
  | error error =>
    have failure : (job.answers row.name).failure = some error := by rw [Answer.failure, runner]
    have returns : (job.answers row.name).returns = false := by rw [Answer.returns, runner]
    refine ran_raised notStamp runs failure (fun name _ => congrFun ready_outcomes name) ?_ ?_
    · rw [checked]
      rfl
    · rw [returns]
      exact ready_succeeded.trans (List.append_nil _).symm
  | ok outcome =>
    have returns : (job.answers row.name).returns = true := by rw [Answer.returns, runner]
    cases unwritten : (job.answers row.name).unwritten with
    | none =>
      exact ran_returned runs (by rw [Answer.failure, runner]; exact unwritten) returns _
    | some error =>
      have failure : (job.answers row.name).failure = some error := by
        rw [Answer.failure, runner]
        exact unwritten
      have raised : rowReturned job row (outcome.getD {}) ((round.checkout job row).1.call row)
          (t.stamp job row) = rowRaised job row error
            (((round.checkout job row).1.call row).returned row (outcome.getD {})) (t.stamp job row) := by
        rw [rowReturned, unwritten]
      change Stepped job row .ran round t (rowReturned job row _ _ _)
      rw [raised]
      refine ran_raised notStamp runs failure (fun name apart => ?_) ?_ ?_
      · exact (Function.update_of_ne apart _ _).trans (congrFun ready_outcomes name)
      · rw [checked]
        rfl
      · rw [returns]
        exact congrArg (· ++ [row.name]) ready_succeeded

/-- What one row does is what its fate says. -/
theorem runRow_stepped (notStamp : row.name ≠ dueStamp) :
    Stepped job row (fateOf job row round t) round t (runRow job row round t) := by
  cases fate : fateOf job row round t with
  | skipped => exact skipped_stepped fate
  | lost error => exact lost_stepped fate
  | unchecked error => exact unchecked_stepped fate
  | ran => exact ran_stepped notStamp fate

end Step
end Rounds
end DevopsCli.Roadmap
