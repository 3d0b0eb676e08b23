import DevopsCli.Roadmap.RefineDue
import DevopsCli.Roadmap.FailureLedger

/- A round of the due table, roadmap/run.py. What the checkout, a runner and the write of a success
   do comes from outside, one answer for each row. A comment and a change are read newest first. -/
namespace DevopsCli.Roadmap.Rounds
open RefineDue (Schedule Reads TriggerKey Change recordSuccess isDue dueStamp)

inductive Kind where
  | stopping
  | runError
  | unauthenticated
  | refine (readied : Nat)
  | other (name : String)
  deriving DecidableEq

def Kind.name : Kind → String
  | .stopping => "ServiceStoppingError"
  | .runError => "RoadmapRunError"
  | .unauthenticated => "GitHubUnauthenticatedError"
  | .refine _ => "RoadmapRefineError"
  | .other name => name

inductive Exc where
  | single (kind : Kind) (cause : Option Exc)
  | group (members : List Exc)

namespace Exc

def className : Exc → String
  | .single kind _ => kind.name
  | .group _ => "ExceptionGroup"

mutual
def endedByStop : Exc → Bool
  | .single kind cause => kind == .stopping || causeEnded cause
  | .group members => allEnded members

def causeEnded : Option Exc → Bool
  | none => false
  | some cause => endedByStop cause

def allEnded : List Exc → Bool
  | [] => true
  | member :: members => endedByStop member && allEnded members
end

mutual
/-- A group under a RoadmapRunError is read as any other cause is: by its members. -/
def identityRefused : Exc → Bool
  | .single kind cause => kind == .unauthenticated || causeRefused cause
  | .group members => anyRefused members

def causeRefused : Option Exc → Bool
  | none => false
  | some cause => identityRefused cause

def anyRefused : List Exc → Bool
  | [] => false
  | member :: members => identityRefused member || anyRefused members
end

end Exc

structure JobOutcome where
  placedCriticalOrP0 : Bool := false
  setReady : Bool := false
  deriving DecidableEq

abbrev Outcomes := String → Option JobOutcome

structure DueRow extends RefineDue.JobRow where
  needsClone : Bool := false
  crossJobPredicate : Option (Outcomes → Bool) := none

def names (rows : List DueRow) : List String := rows.map fun row => row.name

def intakeDue (pending : Bool) (check : RefineDue.DueCheck) : Bool :=
  check.changes.any (·.kind == "reopened") || pending

def refineCrossJob (outcomes : Outcomes) : Bool := (outcomes "intake").any (·.placedCriticalOrP0)

def stageCrossJob (outcomes : Outcomes) : Bool := (outcomes "refine").any (·.setReady)

def outcomeOfFailure : Exc → JobOutcome
  | .single (.refine readied) _ => { setReady := decide (0 < readied) }
  | _ => {}

def minutes (n : Int) : Int := n * 60000000

def statusLaneRows : List DueRow := [
  { name := "metrics", interval := some (minutes 13), needsClone := true, firstRunDue := true },
  { name := "implement", interval := some (minutes 7), needsClone := true, firstRunDue := true },
  { name := "stage_ready", interval := some (minutes 3), firstRunDue := true },
  { name := "release_comments", interval := some (minutes 11), firstRunDue := true }]

def triageLaneRows (pending : Bool) : List DueRow := [
  { name := "intake"
    interval := some (minutes 29)
    batchKeys := [("webhook", "issues", "opened"), ("webhook", "issues", "reopened")]
    firstRunDue := true
    dueRule := some (intakeDue pending) }]

def modelLaneRows : List DueRow := [
  { name := "refine"
    interval := some (minutes 31)
    needsClone := true
    firstRunDue := true
    crossJobPredicate := some refineCrossJob },
  { name := "retitle", interval := some (minutes 61), firstRunDue := true },
  { name := "stage"
    interval := some (minutes 37)
    needsClone := true
    firstRunDue := true
    crossJobPredicate := some stageCrossJob },
  { name := "alternatives", interval := some (minutes 719), firstRunDue := true }]

def defaultDueTable (pending : Bool) : List DueRow :=
  statusLaneRows ++ triageLaneRows pending ++ modelLaneRows

inductive JobResult where
  | success | error | stopped
  deriving DecidableEq

def failedResult (error : Exc) : JobResult := if error.endedByStop then .stopped else .error

/-- What a row meets when it runs: the error of the checkout when it is the row that asks for it,
    what its runner gives, whether the runner stamps refine as due, and the error of the write of
    its success. -/
structure Answer where
  checkout : Option Exc := none
  runner : Except Exc (Option JobOutcome) := .ok none
  stampsRefine : Bool := false
  unwritten : Option Exc := none

structure Job where
  repo : String
  lane : Option String
  now : Int
  due : String → Bool
  inputs : String → String
  answers : String → Answer

inductive Clone where
  | unmade
  | made
  | lost (error : Exc)

/-- An error of the report: the first is of all rows that needed the clone. -/
inductive Entry where
  | clone (error : Exc)
  | row (name : String) (error : Exc)

structure Round where
  outcomes : Outcomes := fun _ => none
  clone : Clone := .unmade
  succeeded : List String := []
  failed : List String := []
  cloneJobs : List String := []
  entries : List Entry := []
  counts : List (String × JobResult) := []
  /-- The rows that asked for the checkout, and those whose runner was called. -/
  checkouts : List String := []
  ran : List String := []

structure Records (limit : Nat) where
  schedules : String → Schedule
  ledger : FailureLedger limit

variable {limit : Nat}

namespace Records

def recordSuccess (records : Records limit) (repo job : String) (at_ : Int) : Records limit :=
  { records with
    schedules := Function.update records.schedules repo
      (RefineDue.recordSuccess (records.schedules repo) job at_) }

def stamp (records : Records limit) (job : Job) (row : DueRow) : Records limit :=
  if (job.answers row.name).stampsRefine then records.recordSuccess job.repo dueStamp job.now
  else records

def countFailure (records : Records limit) (job : Job) (row : DueRow) (error : Exc) : Records limit :=
  { records with
    ledger := (records.ledger.countFailure job.repo row.name (job.inputs row.name) error.className
      error.endedByStop).1 }

def succeeded (records : Records limit) (job : Job) (row : DueRow) : Records limit :=
  { records with ledger := (records.ledger.succeeded job.repo row.name).2 }

end Records

namespace Round
variable (round : Round)

def countJob (job : Job) (row : DueRow) (result : JobResult) : Round :=
  match job.lane with
  | none => round
  | some _ => { round with counts := round.counts ++ [(row.name, result)] }

def asks (job : Job) (row : DueRow) (records : Records limit) : Bool :=
  (job.due row.name || row.crossJobPredicate.any (· round.outcomes)) &&
    !records.ledger.suspended job.repo row.name (job.inputs row.name)

/-- The checkout failed for a row before. -/
def lose (job : Job) (row : DueRow) (error : Exc) : Round :=
  { round with
    failed := round.failed ++ [row.name]
    cloneJobs := round.cloneJobs ++ [row.name] }.countJob job row (failedResult error)

def checkout (job : Job) (row : DueRow) : Round × Option Exc :=
  match row.needsClone, round.clone with
  | true, .unmade =>
    let round := { round with checkouts := round.checkouts ++ [row.name] }
    match (job.answers row.name).checkout with
    | some error => (round, some error)
    | none => ({ round with clone := .made }, none)
  | _, _ => (round, none)

def call (row : DueRow) : Round := { round with ran := round.ran ++ [row.name] }

def returned (row : DueRow) (outcome : JobOutcome) : Round :=
  { round with
    outcomes := Function.update round.outcomes row.name (some outcome)
    succeeded := round.succeeded ++ [row.name] }

def raised (job : Job) (row : DueRow) (error : Exc) : Round :=
  let round := { round with
    failed := round.failed ++ [row.name]
    outcomes := Function.update round.outcomes row.name (some (outcomeOfFailure error)) }.countJob
      job row (failedResult error)
  match row.needsClone, round.clone with
  | false, _ | true, .made => { round with entries := round.entries ++ [.row row.name error] }
  | true, _ =>
    { round with
      clone := .lost error
      cloneJobs := round.cloneJobs ++ [row.name]
      entries := round.entries ++ [.clone error] }

end Round

/-- A row that raised: whether the round goes on, and what it holds then. -/
def rowRaised (job : Job) (row : DueRow) (error : Exc) (round : Round) (records : Records limit) :
    Bool × Round × Records limit :=
  (!error.identityRefused, round.raised job row error, records.countFailure job row error)

def rowReturned (job : Job) (row : DueRow) (outcome : JobOutcome) (round : Round)
    (records : Records limit) : Bool × Round × Records limit :=
  let round := round.returned row outcome
  match (job.answers row.name).unwritten with
  | some error => rowRaised job row error round records
  | none =>
    (true, round.countJob job row .success,
      (records.recordSuccess job.repo row.name job.now).succeeded job row)

def rowCalled (job : Job) (row : DueRow) (round : Round) (records : Records limit) :
    Bool × Round × Records limit :=
  let round := round.call row
  let records := records.stamp job row
  match (job.answers row.name).runner with
  | .error error => rowRaised job row error round records
  | .ok outcome => rowReturned job row (outcome.getD {}) round records

def rowChecked (job : Job) (row : DueRow) (checked : Round × Option Exc) (records : Records limit) :
    Bool × Round × Records limit :=
  match checked with
  | (round, some error) => rowRaised job row error round records
  | (round, none) => rowCalled job row round records

def runRow (job : Job) (row : DueRow) (round : Round) (records : Records limit) :
    Bool × Round × Records limit :=
  if round.asks job row records then
    match row.needsClone, round.clone with
    | true, .lost error => (true, round.lose job row error, records)
    | _, _ => rowChecked job row (round.checkout job row) records
  else (true, round, records)

def executeRows (job : Job) : List DueRow → Round → Records limit → Round × Records limit
  | [], round, records => (round, records)
  | row :: rows, round, records =>
    match runRow job row round records with
    | (true, round, records) => executeRows job rows round records
    | (false, round, records) => (round, records)

structure RunFailure where
  failedJobs : List String
  errors : List (List String × Exc)

def Round.errors (round : Round) : List (List String × Exc) :=
  round.entries.map fun
    | .clone error => (round.cloneJobs, error)
    | .row name error => ([name], error)

def RunFailure.message (line : Exc → String) (failure : RunFailure) : String :=
  "Roadmap jobs failed: " ++ "; ".intercalate (failure.errors.map fun (jobs, error) =>
    ", ".intercalate jobs ++ ": " ++ line error)

def Round.result (round : Round) : Except RunFailure (List String) :=
  if round.failed = [] then .ok round.succeeded else .error ⟨round.failed, round.errors⟩

def executeDueRows (job : Job) (rows : List DueRow) (records : Records limit) :
    Except RunFailure (List String) × Records limit :=
  let (round, records) := executeRows job rows {} records
  (round.result, records)

section Inputs

def hasPush (batch : List TriggerKey) : Bool := batch.any fun key => key.1 != "poll"

def laneReadsChanges (rows : List DueRow) : Bool := rows.any fun row => row.dueRule.isSome

structure RoundInput where
  seen : List (String × Nat × Int)
  pushedAt : Option Int
  hour : Option Int
  commentAt : Option Int
  deriving DecidableEq

def roundInput (reads : Reads) (readsChanges : Bool) (commentAt : Option Int) : RoundInput where
  seen := reads.changes.map fun change => (change.kind, change.number, change.at_)
  pushedAt := if hasPush reads.batch then some reads.now else none
  hour := if readsChanges then none else some (reads.now / 3600000000)
  commentAt := commentAt

structure Comment where
  createdAt : Int
  ofPerson : Bool

def commentWindow : Nat := 100

/-- The newest comment of a person for each row that may run and failed a round before: the first
    part is the start of the read, when the round reads. -/
def personCommentStamps (rows : List DueRow) (due : String → Bool) (schedule : Schedule)
    (ledger : FailureLedger limit) (batch : List TriggerKey) (repo : String)
    (commentsSince : Option Int → Except Exc (List Comment)) : Except Exc (String → Option Int) :=
  let failed := (rows.filter fun row =>
    (due row.name || row.crossJobPredicate.isSome) && ledger.holdsFailure repo row.name).map fun row => row.name
  if hasPush batch || failed.isEmpty then .ok fun _ => none
  else
    let known := failed.filterMap schedule
    let since := if known.length = failed.length then known.min? else none
    (commentsSince since).map fun comments =>
      match (comments.take commentWindow).find? (·.ofPerson) with
      | none => fun _ => none
      | some newest => fun name =>
        if name ∈ failed ∧ ∀ last ∈ schedule name, last ≤ newest.createdAt then some newest.createdAt
        else none

end Inputs

def simulateRows (due : String → Bool) : List DueRow → Outcomes → List String
  | [], _ => []
  | row :: rows, outcomes =>
    if due row.name || row.crossJobPredicate.any (· outcomes) then
      row.name :: simulateRows due rows (Function.update outcomes row.name (some {}))
    else simulateRows due rows outcomes

def simulateDryRun (rows : List DueRow) (due : String → Bool) : List String :=
  simulateRows due rows fun _ => none

structure Call where
  repo : String
  lane : Option String := none
  batchCounts : List (TriggerKey × Nat)
  now : Int
  dryRun : Bool := false
  changesSince : Int → Except Exc (List Change)
  commentsSince : Option Int → Except Exc (List Comment)
  answers : String → Answer

inductive CallError where
  | read (error : Exc)
  | rows (failure : RunFailure)

def Call.batch (call : Call) : List TriggerKey :=
  (call.batchCounts.filter fun entry => 0 < entry.2).map Prod.fst

def fetchChanges (rows : List DueRow) (schedule : Schedule) (call : Call) : Except Exc (List Change) :=
  if laneReadsChanges rows then
    let cutoffs := (rows.filter fun row => row.dueRule.isSome).map fun row =>
      (schedule row.name).getD call.now
    call.changesSince (cutoffs.min?.getD call.now)
  else .ok []

/-- Whether a row is due before any row runs; the rows of a table have names of their own. -/
def initiallyDue (rows : List DueRow) (schedule : Schedule) (reads : Reads) (name : String) : Bool :=
  rows.any fun row => row.name == name && isDue schedule reads row.toJobRow

def judgeChanges (digest : RoundInput → String) (rows : List DueRow) (call : Call)
    (records : Records limit) (changes : List Change) : Except CallError (List String) ⊕ Job :=
  let schedule := records.schedules call.repo
  let reads : Reads := ⟨call.batch, changes, call.now⟩
  let due := initiallyDue rows schedule reads
  if !(names rows).any due then .inl (.ok [])
  else if call.dryRun then .inl (.ok (simulateDryRun rows due))
  else
    match personCommentStamps rows due schedule records.ledger call.batch call.repo
        call.commentsSince with
    | .error error => .inl (.error (.read error))
    | .ok stamps =>
      let inputs name := digest (roundInput reads (laneReadsChanges rows) (stamps name))
      .inr ⟨call.repo, call.lane, call.now, due, inputs, call.answers⟩

def judge (digest : RoundInput → String) (rows : List DueRow) (call : Call) (records : Records limit) :
    Except CallError (List String) ⊕ Job :=
  let schedule := records.schedules call.repo
  let quiet := initiallyDue rows schedule ⟨call.batch, [], call.now⟩
  if call.batch.isEmpty && !(names rows).any quiet then .inl (.ok [])
  else
    match fetchChanges rows schedule call with
    | .error error => .inl (.error (.read error))
    | .ok changes => judgeChanges digest rows call records changes

def runDueJobs (digest : RoundInput → String) (rows : List DueRow) (call : Call)
    (records : Records limit) : Except CallError (List String) × Records limit :=
  match judge digest rows call records with
  | .inl result => (result, records)
  | .inr job =>
    let (result, records) := executeDueRows job rows records
    (result.mapError .rows, records)

end DevopsCli.Roadmap.Rounds
