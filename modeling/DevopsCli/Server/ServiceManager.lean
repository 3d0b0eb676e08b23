import DevopsCli.Lib.Interleave
import DevopsCli.Server.RepoWorker

/- The Service, server/service.py: the workers of each lane of each repository, the pause that they
   share, the loop that hands a trigger to each lane, and the drain. A look at a queue holds the
   condition of its worker from the first check of the pause to the pop, and the other workers go on
   meanwhile. The request budget answers each check for itself. -/
namespace DevopsCli.Server.Manager
open Run Interleave

/-- How the Service reads the error of a round; nothing when the reader itself raises. -/
structure Readers (E : Type) where
  endedByStop : E → Bool
  refusal : E → Option Bool
  reader : E → Option (Option Int)

structure RoundPause where
  until_ : Option Int := none
  halted : Bool := false
  /-- How often the pause turned to halted, and the times it was set to. The counts and the logs of
      the source follow after the lock is released. -/
  refusals : Nat := 0
  times : List Int := []

namespace RoundPause
variable (pause : RoundPause)

def start (record : Bool) : RoundPause := { halted := record, refusals := if record then 1 else 0 }

def holds (now : Int) (budget : Bool) : Bool := pause.halted || pause.until_.any (now < ·) || budget

def hold (now until_ : Int) : RoundPause :=
  if until_ ≤ now || pause.until_.any (until_ ≤ ·) then pause
  else { pause with until_ := some until_, times := pause.times ++ [until_] }

def halt : RoundPause :=
  { pause with halted := true, refusals := if pause.halted then pause.refusals else pause.refusals + 1 }

def after {E : Type} (readers : Readers E) (now : Int) (error : E) : RoundPause :=
  match readers.refusal error with
  | none => pause
  | some true => pause.halt
  | some false =>
    match (readers.reader error).join with
    | some until_ => pause.hold now until_
    | none => pause

end RoundPause

inductive Phase (E : Type) where
  | free
  -- The worker holds its condition, past the first check of the pause or past both.
  | checked (first : Bool)
  | decided (first again : Bool)
  -- The job raised, and the pause is to read the error.
  | failed (error : E)
  -- The worker halted the rounds, and the record is to be written.
  | halting
  | settled

structure Lane (E : Type) where
  worker : RepoWorker := {}
  phase : Phase E := .free

namespace Lane
variable {E : Type} (lane : Lane E)

def locked : Bool :=
  match lane.phase with
  | .checked _ | .decided _ _ => true
  | _ => false

def isActive : Bool :=
  match lane.worker.thread with
  | .taken _ | .running _ => true
  | _ => false

def isOver : Bool :=
  match lane.worker.thread with
  | .ended | .crashed => true
  | _ => false

end Lane

structure Config (R L E : Type) where
  repos : List R
  jobs : List L
  distinct : jobs.Nodup
  readers : Readers E
  keepsState : Bool

def Config.workers {R L E : Type} (config : Config R L E) : List (R × L) :=
  config.repos.flatMap fun repo => config.jobs.map fun lane => (repo, lane)

/-- What a worker took from its queue, and when. -/
structure Handed (R L : Type) where
  lane : R × L
  work : Work
  at_ : Int

structure Shared (R L E : Type) where
  now : Int
  pause : RoundPause
  /-- Whether the record of the halt is there. -/
  record : Bool
  /-- The errors that the pause of this process read, and all work that was taken. -/
  reports : List E := []
  handed : List (Handed R L) := []

inductive LaneAction (E : Type) where
  | checks (budget : Bool)
  | checksAgain (budget : Bool)
  | pops
  | turn
  | begins
  | returns
  | raises (error : E)
  | after
  | keeps (written : Bool)
  | finishes (raises : Bool)

inductive DrainPhase where
  | waiting
  | stopping
  | joining

structure Drain (C : Type) where
  left : List C
  phase : DrainPhase := .waiting
  drained : Bool := true
  clean : Bool := true

structure State (R L E : Type) where
  lanes : R × L → Lane E := fun _ => {}
  shared : Shared R L E
  /-- The trigger that the loop hands out, with the lanes that are left, and all of this process. -/
  delivering : Option (R × TriggerKey × List L) := none
  accepted : List (R × TriggerKey) := []
  drain : Option (Drain (R × L)) := none

inductive Event (R L E : Type) where
  | lane (c : R × L) (action : LaneAction E)
  | tick (later : Int)
  | enqueueTrigger (repo : R) (key : TriggerKey)
  | enqueues
  | enqueueScoped (repo : R) (lane : L)
  | drains
  | waits (late budget : Bool)
  | stops
  | joins (late : Bool)
  -- The process ends at any point, and a new one starts.
  | restart
  | removesRecord

namespace Event
variable {R L E : Type}

def restarts : Event R L E → Bool
  | .restart => true
  | _ => false

def hands : Event R L E → Bool
  | .enqueueTrigger _ _ | .enqueues => true
  | _ => false

def ofDrain : Event R L E → Bool
  | .drains | .waits _ _ | .stops | .joins _ => true
  | _ => false

end Event

section Steps
variable {R L E : Type} (config : Config R L E)

def Shared.hands (shared : Shared R L E) (c : R × L) (worker : RepoWorker) : Shared R L E :=
  match worker.thread with
  | .taken work => { shared with handed := shared.handed ++ [⟨c, work, shared.now⟩] }
  | _ => shared

def laneStep : Step (R × L) (LaneAction E) (Lane E) (Shared R L E) := fun c action lane shared =>
  match action with
  | .checks budget =>
    match lane.worker.thread, lane.phase with
    | .waiting, .free =>
      let held := shared.pause.holds shared.now budget
      if !lane.worker.hasRunnableBatch held && !lane.worker.stopped then some (lane, shared)
      else some ({ lane with phase := .checked held }, shared)
    | _, _ => none
  | .checksAgain budget =>
    match lane.phase with
    | .checked first =>
      some ({ lane with phase := .decided first (shared.pause.holds shared.now budget) }, shared)
    | _ => none
  | .pops =>
    match lane.phase with
    | .decided first again =>
      let worker := lane.worker.waitForNextBatch first again shared.now
      some (⟨worker, .free⟩, shared.hands c worker)
    | _ => none
  | .turn => (lane.worker.step .turn).map fun worker => ({ lane with worker }, shared)
  | .begins => (lane.worker.step .begins).map fun worker => ({ lane with worker }, shared)
  | .returns =>
    match lane.worker.thread, lane.phase with
    | .running _, .free => some ({ lane with phase := .settled }, shared)
    | _, _ => none
  | .raises error =>
    match lane.worker.thread, lane.phase with
    | .running _, .free =>
      some ({ lane with
        phase := if config.readers.endedByStop error then .settled else .failed error }, shared)
    | _, _ => none
  | .after =>
    match lane.phase with
    | .failed error =>
      let pause := shared.pause.after config.readers shared.now error
      let first := pause.halted && !shared.pause.halted
      some ({ lane with phase := if first then .halting else .settled },
        { shared with pause, reports := shared.reports ++ [error] })
    | _ => none
  | .keeps written =>
    match lane.phase with
    | .halting =>
      some ({ lane with phase := .settled },
        { shared with record := shared.record || config.keepsState && written })
    | _ => none
  | .finishes raises =>
    match lane.phase with
    | .settled => (lane.worker.step (.finishes raises)).map fun worker => (⟨worker, .free⟩, shared)
    | _ => none

variable [DecidableEq R] [DecidableEq L]

def withWorker (lanes : R × L → Lane E) (c : R × L) (worker : RepoWorker) : R × L → Lane E :=
  Function.update lanes c ⟨worker, (lanes c).phase⟩

@[simp] theorem withWorker_self (lanes : R × L → Lane E) (c : R × L) (worker : RepoWorker) :
    withWorker lanes c worker c = ⟨worker, (lanes c).phase⟩ := Function.update_self ..

theorem withWorker_other (lanes : R × L → Lane E) {c d : R × L} (other : d ≠ c) (worker : RepoWorker) :
    withWorker lanes c worker d = lanes d := Function.update_of_ne other ..

/-- One pass of the loop of enqueue_trigger, which the condition of the lane can keep waiting. -/
def enqueues (s : State R L E) : Option (State R L E) :=
  match s.delivering with
  | none => none
  | some (_, _, []) => some { s with delivering := none }
  | some (repo, key, lane :: rest) =>
    if (s.lanes (repo, lane)).locked then none
    else
      let worker := (s.lanes (repo, lane)).worker.enqueue key s.shared.now
      some { s with
        lanes := withWorker s.lanes (repo, lane) worker, delivering := some (repo, key, rest) }

/-- The steps of the drain; the loop that hands out triggers is the one that drains. -/
def waits (s : State R L E) (late budget : Bool) : Option (State R L E) :=
  match s.drain with
  | some ⟨c :: rest, .waiting, _, clean⟩ =>
    if (s.lanes c).locked then none
    else
      let held := s.shared.pause.holds s.shared.now budget
      let drained := !(s.lanes c).isActive && !(s.lanes c).worker.hasRunnableBatch held
      if drained || late then some { s with drain := some ⟨c :: rest, .stopping, drained, clean⟩ }
      else some s
  | _ => none

def stops (s : State R L E) : Option (State R L E) :=
  match s.drain with
  | some ⟨c :: rest, .stopping, drained, clean⟩ =>
    let worker := { (s.lanes c).worker with stopped := true }
    some { s with
      lanes := withWorker s.lanes c worker, drain := some ⟨c :: rest, .joining, drained, clean⟩ }
  | _ => none

def joins (s : State R L E) (late : Bool) : Option (State R L E) :=
  match s.drain with
  | some ⟨c :: rest, .joining, drained, clean⟩ =>
    let joined := (s.lanes c).isOver
    if joined || late then
      some { s with drain := some ⟨rest, .waiting, true, clean && drained && joined⟩ }
    else some s
  | _ => none

def step (s : State R L E) : Event R L E → Option (State R L E)
  | .lane c action =>
    (act (laneStep config) (s.lanes, s.shared) (c, action)).map fun next =>
      { s with lanes := next.1, shared := next.2 }
  | .tick later =>
    if s.shared.now ≤ later then some { s with shared := { s.shared with now := later } } else none
  | .enqueueTrigger repo key =>
    if s.delivering.isSome || s.drain.isSome then none
    else if repo ∈ config.repos then
      some { s with delivering := some (repo, key, config.jobs), accepted := s.accepted ++ [(repo, key)] }
    else some s
  | .enqueues => enqueues s
  | .enqueueScoped repo lane =>
    if s.delivering.isSome || s.drain.isSome then none
    else if repo ∈ config.repos ∧ lane ∈ config.jobs then
      if (s.lanes (repo, lane)).locked then none
      else
        let worker := (s.lanes (repo, lane)).worker.enqueueScoped
        some { s with lanes := withWorker s.lanes (repo, lane) worker }
    else some s
  | .drains =>
    if s.delivering.isSome || s.drain.isSome then none
    else some { s with drain := some { left := config.workers } }
  | .waits late budget => waits s late budget
  | .stops => stops s
  | .joins late => joins s late
  | .restart =>
    some { shared := { s.shared with
      pause := .start (config.keepsState && s.shared.record), reports := [] } }
  | .removesRecord => some { s with shared := { s.shared with record := false } }

def start (now : Int) (record : Bool) : State R L E :=
  { shared := { now, pause := .start (config.keepsState && record), record } }

end Steps
end DevopsCli.Server.Manager
