import DevopsCli.Implement.StepFiles
import DevopsCli.Lib.Git
import DevopsCli.Lib.Run

/- The commits of one step, implement/implement_wip.py and the exit checks of
   implement/implement_step.py. An agent leaves any repository behind between two calls. What
   the checks and their programs find comes from outside, and the stray files are functions on the
   other files: a file of the change folder is never stray. Git does what it is asked.
   The trace, the texts of a stop and the diff of the discarded work are left out. -/
namespace DevopsCli.Implement.WipKeeper
open PyStr StepFiles Git

/-- What a step reads before the run. -/
structure StepInputs where
  group : TaskGroup
  tasksMd : Str
  fix : Bool
  keep : Bool
  item : Nat
  /-- The title of the commit of the step. -/
  commitTitle : Str
  repairRounds : Nat
  tiers : Nat

def wipPrefix : Str := "wip:".toList

def lookBack : Nat := 200

section Model
variable {F : Type} [DecidableEq F]

/-- The last of the first parents that is no work in progress, as far as the listing goes. -/
def wipBase (head : Commit F) : Commit F :=
  let listed := head.firstParents.take lookBack
  match listed.find? fun commit => !wipPrefix.isPrefixOf commit.message with
  | some commit => commit
  | none => listed.getLastD head

structure CheckRun (F : Type) where
  strays : Repo F → F × F
  /-- A test is lost. -/
  lost : Bool
  /-- Another staged path is a link. -/
  links : Bool
  passes : Nat → Bool
  commands : Checkout F → Checkout F
  clock : Int

structure Program (F : Type) where
  fails : Option Bool
  checkout : Checkout F → Checkout F
  staged : Repo F → F

abbrev Removal (F : Type) := Repo F → F × List Str

structure ExitRun (F : Type) where
  /-- A head that the agent moved can be put back. -/
  resets : Bool
  strays : Removal F
  /-- A file other than tasks.md changed. -/
  changed : Bool
  outside : Bool
  lost : Bool
  /-- The formatter, the commands, the replay, the static checks and the hooks. -/
  programs : List (Program F)
  clock : Int

structure Keeper (F : Type) where
  tip : Commit F
  base : Commit F
  folded : Bool := false
  kept : List Nat := []
  commits : Nat := 0
  stamp : Int

structure WipCommit (F : Type) where
  text : Str
  passes : Nat → Bool
  commit : Commit F

inductive Judged where
  | passes
  | fails (repairs : Bool)
  | raises
deriving DecidableEq

/-- What the job and the agent do next. The agent leaves any repository behind. -/
inductive Action (F : Type) where
  | request (left : Repo F) (run : CheckRun F)
  | turnEnds (left : Repo F) (reason moves : Bool) (run : ExitRun F)
  | extraTurn (left : Repo F) (reason moves : Bool) (strays : Removal F) (foreign : Bool)
      (run : ExitRun F)
  | moveTier (attempt : Nat)
  | finish (refused : Bool)
  | raises (left : Repo F)
  | discard

inductive Phase (F : Type) where
  | running
  | judged (verdict : Judged) (moves : Bool)
  /-- The step ends without its commit, and the checkout is still to be discarded. -/
  | ending
  | done_ (commit : Commit F)
  | stopped

structure State (F : Type) where
  repo : Repo F
  keeper : Keeper F
  phase : Phase F
  rounds : Nat := 0
  attempt : Nat := 0
  /-- The commits of the work in progress, the oldest first. -/
  wips : List (WipCommit F) := []

def Keeper.expectedHead (keeper : Keeper F) : Commit F :=
  if keeper.folded = true then keeper.base else keeper.tip

section Tasks
variable (reader : Reader) (inputs : StepInputs)

def ownGroup (text : Str) : Option (Option TaskGroup) :=
  (parseTaskGroups reader text).map (·.find? (·.number = inputs.group.number))

def sameTasks (own : Option TaskGroup) : Option (List GroupTask) :=
  match own with
  | none => none
  | some group => if group.tasks.length = inputs.group.tasks.length then some group.tasks else none

def ownTasks (text : Str) : Option (Option (List GroupTask)) :=
  (ownGroup reader inputs text).map (sameTasks inputs)

def tickText (text : Str) (lines : List Int) : Option Str :=
  (tickLines (fileLines text) lines).map List.flatten

def lineOf (index : Nat) : Int := ((inputs.group.tasks[index]?).map (·.line)).getD (-1)

/-- The text before the run with the ticks of the given tasks; nothing where a line is missing. -/
def canonical (kept : List Nat) : Option Str := tickText inputs.tasksMd (kept.map (lineOf inputs))

def freshTasks (kept : List Nat) (tasks : List GroupTask) : List Nat :=
  ((inputs.group.tasks.zip tasks).zipIdx.filter fun entry =>
    entry.1.2.ticked && !entry.1.1.ticked && decide (entry.2 ∉ kept)).map (·.2)

def tickedLines (own : Option TaskGroup) : List Int :=
  if inputs.fix = true then []
  else
    match sameTasks inputs own with
    | none => []
    | some tasks =>
      ((inputs.group.tasks.zip tasks).filter fun pair => pair.2.ticked && !pair.1.ticked).map
        (·.1.line)

end Tasks

namespace State
variable (s : State F)

def fold : State F :=
  { s with
    repo := if s.keeper.folded = false ∧ s.keeper.tip ≠ s.keeper.base then
      s.repo.resetSoft s.keeper.base else s.repo
    keeper := { s.keeper with folded := true } }

def unfold : State F :=
  { s with
    repo := if s.keeper.folded = true ∧ s.keeper.tip ≠ s.keeper.base then
      s.repo.resetSoft s.keeper.tip else s.repo
    keeper := { s.keeper with folded := false } }

def discard : State F :=
  { s with
    repo := s.repo.resetHard s.keeper.tip
    keeper := { s.keeper with folded := false } }

end State

def stage (strays : Repo F → F × F) (repo : Repo F) : Repo F :=
  let files := strays repo
  let staged := repo.addAll
  { staged with
    index := { staged.index with rest := files.1 }
    checkout := { staged.checkout with rest := files.2 } }

def tidied (strays : Removal F) (repo : Repo F) : Repo F :=
  let files := strays repo
  Repo.addAll { repo with checkout := { repo.checkout with rest := files.1, nested := files.2 } }

section Check
variable (reader : Reader) (inputs : StepInputs)

def blocked (run : CheckRun F) (repo : Repo F) : Bool :=
  run.lost || run.links ||
    repo.checkout.node.isLink && listed repo.head.tree.file repo.index.file

def green (run : CheckRun F) (repo : Repo F) (fresh : List Nat) : List Nat :=
  if blocked run repo = true then [] else fresh.filter run.passes

def wipMessage (kept : List Nat) : Str :=
  let done_ := kept.length + (inputs.group.tasks.filter (·.ticked)).length
  wipPrefix ++ " ".toList ++ digits done_ ++ " of ".toList ++ digits inputs.group.tasks.length ++
    " tasks of group ".toList ++ digits inputs.group.number ++ ", ".toList ++ inputs.group.title ++
    " (#".toList ++ digits inputs.item ++ ")".toList

/-- The commit of the checkout with the tasks.md of the job. The state of an error is the one in
    which the call raises. -/
def commitWip (s : State F) (run : CheckRun F) (text : Str) : Except (State F) (State F) :=
  match (canonical inputs s.keeper.kept).bind (s.repo.checkout.node.write ·) with
  | none => .error s
  | some node =>
    let written := { s.repo with checkout := { s.repo.checkout with node := node } }
    let repo := (stage run.strays written).commit (wipMessage inputs s.keeper.kept)
    match repo.checkout.node.write text with
    | none => .error { s with repo := repo }
    | some node =>
      .ok { s with
        repo := { repo with checkout := { repo.checkout with node := node, mtime := run.clock } }
        keeper := { s.keeper with
          tip := repo.head
          commits := s.keeper.commits + 1
          stamp := run.clock }
        wips := s.wips ++ [⟨text, run.passes, repo.head⟩] }

def examined (s : State F) (run : CheckRun F) : State F :=
  { s.unfold with repo := stage run.strays s.unfold.repo }

def keepGreen (s : State F) (run : CheckRun F) (text : Str) (fresh : List Nat) :
    Except (State F) (State F) :=
  let s := examined s run
  let green := green run s.repo fresh
  let repo :=
    if blocked run s.repo = true then s.repo
    else { s.repo with checkout := run.commands s.repo.checkout }
  if green = [] then .ok { s with repo := repo.reset }
  else
    commitWip inputs
      { s with repo := repo, keeper := { s.keeper with kept := s.keeper.kept ++ green } } run text

def check (s : State F) (run : CheckRun F) : Except (State F) (State F) :=
  let stamp := s.repo.checkout.mtime
  if stamp = s.keeper.stamp then .ok s
  else
    let s := { s with keeper := { s.keeper with stamp := stamp } }
    match s.repo.checkout.node.read with
    | none => .ok s
    | some text =>
      match ownTasks reader inputs text with
      | none => .error s
      | some none => .ok s
      | some (some tasks) =>
        let fresh := freshTasks inputs s.keeper.kept tasks
        if fresh = [] then .ok s else keepGreen inputs s run text fresh

end Check

section Exit
variable (reader : Reader) (inputs : StepInputs)

def ownAfter (node : Node) : Option (Option TaskGroup) :=
  match node.read with
  | none => some none
  | some text => ownGroup reader inputs text

/-- The checkout with tasks.md as before the run and the ticks of the agent, or nothing where the
    write raises. -/
def restoreTasks (checkout : Checkout F) (clock : Int) : Option (Checkout F) :=
  (ownAfter reader inputs checkout.node).bind fun own =>
    (tickText inputs.tasksMd (tickedLines inputs own)).bind fun wanted =>
      if checkout.node.isLink = false ∧ checkout.node.read = some wanted then some checkout
      else if checkout.node = .barred then none
      else some { checkout with node := .file wanted, mtime := clock }

def tickGroup (repo : Repo F) (clock : Int) : Repo F × Judged :=
  if inputs.fix = true then (repo, .passes)
  else
    match ownAfter reader inputs repo.checkout.node, repo.checkout.node.read with
    | none, _ => (repo, .raises)
    | some (some own), some text =>
      let unticked := (own.tasks.filter (!·.ticked)).map (·.line)
      if unticked = [] then (repo, .passes)
      else
        match (tickText text unticked).bind (repo.checkout.node.write ·) with
        | none => (repo, .raises)
        | some node =>
          let written :=
            { repo with checkout := { repo.checkout with node := node, mtime := clock } }
          match written.add with
          | none => (written, .raises)
          | some added => (added, .passes)
    | some _, _ => (repo, .fails false)

def Program.run (program : Program F) (repo : Repo F) : Repo F :=
  { repo with
    index := { repo.index with rest := program.staged repo }
    checkout := program.checkout repo.checkout }

def runPrograms (repo : Repo F) : List (Program F) → Repo F × Option Bool
  | [] => (repo, none)
  | program :: later =>
    let repo := program.run repo
    match program.fails with
    | some repairs => (repo, some repairs)
    | none => runPrograms repo later

def judge (repo : Repo F) (run : ExitRun F) : Repo F × Judged :=
  if (listed repo.head.tree.file repo.index.file || run.changed) = false then
    (repo, .fails false)
  else if inputs.fix = true ∧ run.outside = true then (repo, .fails false)
  else if run.lost = true then (repo, .fails false)
  else
    match runPrograms repo run.programs with
    | (repo, some repairs) => (repo, .fails repairs)
    | (repo, none) => tickGroup reader inputs repo run.clock

/-- The head that the agent moved put back, and the work in progress in the index. -/
def headBack (s : State F) : State F :=
  State.fold { s with repo := s.repo.resetSoft s.keeper.expectedHead }

def readied (s : State F) (run : ExitRun F) : Option (Repo F) :=
  (restoreTasks reader inputs s.repo.checkout run.clock).map fun checkout =>
    tidied run.strays { s.repo with checkout := checkout }

def exitFailure (s : State F) (run : ExitRun F) : State F × Judged :=
  if s.repo.head ≠ s.keeper.expectedHead ∧ run.resets = false then (s, .fails false)
  else
    let s := headBack s
    match readied reader inputs s run with
    | none => (s, .raises)
    | some repo =>
      let judged := judge reader inputs repo run
      ({ s with repo := judged.1 }, judged.2)

end Exit

section Step
variable (reader : Reader) (inputs : StepInputs)

/-- The state after the exit checks: a call that raises ends the step. -/
def judgedBy (moves : Bool) (result : State F × Judged) : State F :=
  { result.1 with phase := if result.2 = .raises then .ending else .judged result.2 moves }

/-- The state after a turn: a turn that a limit or an error ended is not judged. -/
def afterTurn (s : State F) (reason moves : Bool) (run : ExitRun F) : State F :=
  if reason = true then { s with phase := .judged (.fails false) moves }
  else judgedBy moves (exitFailure reader inputs s run)

def repairs (s : State F) (verdict : Judged) : Bool :=
  decide (verdict = .fails true ∧ s.rounds < inputs.repairRounds)

def hooked : Bool := !inputs.fix && inputs.keep

def step (s : State F) : Action F → Option (State F)
  | .request left run =>
    match s.phase with
    | .running =>
      let s := { s with repo := left }
      if hooked inputs = true then
        match check reader inputs s run with
        | .ok s => some s
        | .error s => some { s with phase := .ending }
      else some s
    | _ => none
  | .turnEnds left reason moves run =>
    match s.phase with
    | .running => some (afterTurn reader inputs { s with repo := left } reason moves run)
    | _ => none
  | .extraTurn left reason moves strays foreign run =>
    match s.phase with
    | .judged verdict _ =>
      if repairs inputs s verdict = true then
        let s := { s with repo := left, rounds := s.rounds + 1 }
        -- The keeper looks at no request of an extra turn.
        if reason = true then some { s with phase := .judged (.fails false) moves }
        else
          let s := { s with repo := tidied strays s.repo }
          if foreign = true then some { s with phase := .judged (.fails false) moves }
          else some (afterTurn reader inputs s false moves run)
      else none
    | _ => none
  | .moveTier attempt =>
    match s.phase with
    | .judged (.fails repairable) true =>
      if repairs inputs s (.fails repairable) = false ∧ s.attempt < attempt ∧
          attempt < inputs.tiers then
        some { s.discard with phase := .running, attempt := attempt }
      else none
    | _ => none
  | .finish refused =>
    match s.phase with
    | .judged .passes _ =>
      let s := s.fold
      -- A stopped step shows its work, so it is staged once more.
      if refused = true then some { s with repo := s.repo.addAll, phase := .ending }
      else
        let repo := s.repo.commit inputs.commitTitle
        some { s with repo := repo, phase := .done_ repo.head }
    | .judged (.fails repairable) moves =>
      if repairs inputs s (.fails repairable) = true ∨
          moves = true ∧ s.attempt + 1 < inputs.tiers then none
      else some { s with repo := s.repo.addAll, phase := .ending }
    | _ => none
  | .raises left =>
    match s.phase with
    | .running | .judged _ _ => some { s with repo := left, phase := .ending }
    | _ => none
  | .discard =>
    match s.phase with
    | .ending => some { s.discard with phase := .stopped }
    | _ => none

end Step

section Begin

structure Request where
  item : Nat
  group : Nat
  fix : Option Str
  keep : Bool
  commitTitle : Str
  repairRounds : Nat
  tiers : Nat

def fixGroupNumber : Nat := 0

def verificationCommands (group : TaskGroup) : List Str :=
  fromkeys (group.tasks.flatMap (·.verification))

def fixGroup (check : Str) (groups : List TaskGroup) : TaskGroup :=
  let title := "Make check ".toList ++ check ++ " pass".toList
  let task := "[ ] Make check `".toList ++ check ++ "` pass".toList
  { number := fixGroupNumber
    title := title
    tasks := [{ text := task, ticked := false,
                verification := fromkeys (groups.flatMap verificationCommands) }]
    text := "## ".toList ++ digits fixGroupNumber ++ ". ".toList ++ title ++ "

- ".toList ++ task }

def duplicateGroup (groups : List TaskGroup) : Option Nat :=
  let numbers := groups.map (·.number)
  numbers.find? fun number => decide (1 < numbers.count number)

def chosenGroup (groups : List TaskGroup) (request : Request) : Option TaskGroup :=
  match request.fix with
  | some check => some (fixGroup check groups)
  | none => groups.find? (·.number = request.group)

def begin_ (reader : Reader) (request : Request) (attempt : Nat) (repo : Repo F) :
    Option (StepInputs × State F) :=
  repo.checkout.node.read.bind fun tasksMd =>
    (parseTaskGroups reader tasksMd).bind fun groups =>
      if duplicateGroup groups ≠ none then none
      else
        (chosenGroup groups request).bind fun group =>
          if repo.IsClean then
            some
              ({ group := group, tasksMd := tasksMd, fix := request.fix.isSome, keep := request.keep,
                 item := request.item, commitTitle := request.commitTitle,
                 repairRounds := request.repairRounds, tiers := request.tiers },
               { repo := repo
                 keeper := ⟨repo.head, wipBase repo.head, false, [], 0, repo.checkout.mtime⟩
                 phase := .running
                 attempt := attempt })
          else none

end Begin
end Model
end DevopsCli.Implement.WipKeeper
