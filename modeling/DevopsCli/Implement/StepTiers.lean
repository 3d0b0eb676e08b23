import DevopsCli.Lib.PyStr
import DevopsCli.Roadmap.Failure

/- The tiers of one step, roadmap/implement/implement_step.py. What a model sends
   back, what the exit checks find and what the gateway says of a tier come from outside: a step
   reads them from a tape, and ends without an outcome where the tape ends or a call raises. The
   checkout, the trace and the texts of the turns are left out. -/
namespace DevopsCli.Implement
open PyStr
open Roadmap (FailureClass FailureAction actionByClass)

/-- The resend loop compares the number of messages of two conversations, and nothing else. -/
structure Conversation where
  messages : Nat

structure Reply where
  inputTokens : Nat
  outputTokens : Nat
  toolCalls : Nat

inductive StopKind where
  | outputCapReached | limitReached | other

def StopKind.typed : StopKind → Option FailureClass
  | .outputCapReached => some .outputCap
  | .limitReached => some .limitReached
  | .other => none

inductive SendEnd where
  | output (text : String) (kept : Conversation)
  | stopped (error message last : String) (kind : StopKind)
  | failedCall (error message last : String) (resend : Option Conversation)
  -- The model refuses the key, which raises.
  | refusedKey

structure Send where
  end_ : SendEnd
  replies : List Reply

structure Run where
  reason : String
  lastMessage : String
  requests : Nat
  inputTokens : Nat
  outputTokens : Nat
  toolCalls : Nat
  conversation : Option Conversation
  resend : Option Conversation
  providerError : Bool
  failureClass : Option FailureClass
  firstRequestTokens : Nat

def orElse (first later : Nat) : Nat := if first = 0 then later else first

def Run.then (run later : Run) : Run where
  reason := later.reason
  lastMessage := if later.lastMessage = "" then run.lastMessage else later.lastMessage
  requests := run.requests + later.requests
  inputTokens := run.inputTokens + later.inputTokens
  outputTokens := run.outputTokens + later.outputTokens
  firstRequestTokens := orElse run.firstRequestTokens later.firstRequestTokens
  toolCalls := run.toolCalls + later.toolCalls
  conversation := later.conversation
  resend := later.resend
  providerError := run.providerError || later.providerError
  failureClass := later.failureClass

structure TierSpend where
  requests : Nat := 0
  inputTokens : Nat := 0
  outputTokens : Nat := 0

def TierSpend.plus (spend : TierSpend) (run : Run) : TierSpend where
  requests := spend.requests + run.requests
  inputTokens := spend.inputTokens + run.inputTokens
  outputTokens := spend.outputTokens + run.outputTokens

structure Failure where
  reason : String
  repairPaths : Option (List String) := none
  klass : Option FailureClass := none

inductive Checked where
  | passes
  | fails (failure : Failure)
  | raises

structure Extra where
  sends : List Send
  foreign : Option String
  checked : Checked

/-- One tier: what the gateway says before it, its first turn and checks, its extra turns. -/
structure TierTape where
  health : Str → Bool
  sends : List Send
  checked : Checked
  extras : List Extra

structure StepTape where
  tiers : List TierTape
  /-- The commit and the reason when git refuses it; nothing when git raises. -/
  commit : Option (String × String)

def modelResends : Nat := 1

section Turns
variable (classify : String → FailureClass)

def runClass (reason : String) (typed : Option FailureClass) : Option FailureClass :=
  if reason = "" then none else some (typed.getD (classify reason))

def stopReason (error message : String) : String := error ++ ": " ++ message

def spentBy (replies : List Reply) : Run where
  reason := ""
  lastMessage := ""
  requests := replies.length
  inputTokens := (replies.map (·.inputTokens)).sum
  outputTokens := (replies.map (·.outputTokens)).sum
  firstRequestTokens := (replies.head?.map (·.inputTokens)).getD 0
  toolCalls := (replies.map (·.toolCalls)).sum
  conversation := none
  resend := none
  providerError := false
  failureClass := none

def runTurn (send : Send) : Option Run :=
  match send.end_ with
  | .output text kept =>
    some { spentBy send.replies with lastMessage := text, conversation := some kept }
  | .stopped error message last kind =>
    some { spentBy send.replies with
      reason := stopReason error message
      lastMessage := last
      failureClass := runClass classify (stopReason error message) kind.typed }
  | .failedCall error message last resend =>
    some { spentBy send.replies with
      reason := stopReason error message
      lastMessage := last
      resend := resend
      providerError := true
      failureClass := runClass classify (stopReason error message) none }
  | .refusedKey => none

structure Turn where
  run : Run
  parserFailures : Nat
  sends : List Run

/-- The sends that follow the first. A request is sent again while it can be, once for a failure
    of the parser; a send that gets a reply gives the next failed request its own resends. -/
def resendLoop (resends : Nat) (turn : Turn) (tape : List Send) : Option Turn :=
  match turn.run.resend with
  | none => some turn
  | some sent =>
    if resends = 0 then some turn
    else if turn.run.failureClass = some .parser ∧ turn.parserFailures ≠ 0 then some turn
    else
      match tape with
      | [] => none
      | next :: rest =>
        match runTurn classify next with
        | none => none
        | some later =>
          let stalled := later.resend.any (fun again => again.messages ≤ sent.messages)
          resendLoop (if stalled then resends - 1 else modelResends)
            { run := turn.run.then later
              parserFailures := if turn.run.failureClass = some .parser then
                turn.parserFailures + 1 else turn.parserFailures
              sends := turn.sends ++ [later] } rest

def runAgent (parserFailures : Nat) : List Send → Option Turn
  | [] => none
  | first :: rest =>
    match runTurn classify first with
    | none => none
    | some run => resendLoop classify modelResends ⟨run, parserFailures, [run]⟩ rest

structure Rounds where
  turn : Turn
  failure : Option Failure
  used : Nat
  number : Nat
  allowed : Nat
  spent : Bool := false
  /-- An extra turn, or a check after it, raised. -/
  raised : Bool := false

def judged (run : Run) (foreign : Option String) : Checked → Option (Option Failure)
  | checked =>
    if run.reason ≠ "" then some (some { reason := run.reason, klass := run.failureClass })
    else
      match foreign, checked with
      | some reason, _ => some (some { reason := reason })
      | none, .passes => some none
      | none, .fails failure => some (some failure)
      | none, .raises => none

def extraAsk (failure : Option Failure) : Bool := failure.any (·.repairPaths.isSome)

def extraTurn (first : Turn) (extra : Extra) : Option (Turn × Option Failure) :=
  match runAgent classify first.parserFailures extra.sends with
  | none => none
  | some later =>
    let run := first.run.then later.run
    (judged run extra.foreign extra.checked).map fun failure =>
      (⟨run, later.parserFailures, first.sends ++ later.sends⟩, failure)

def repairRounds (rounds : Rounds) (tape : List Extra) : Rounds :=
  let ask := extraAsk rounds.failure
  if ask = true ∧ rounds.used < rounds.allowed then
    match tape with
    | [] => { rounds with raised := true }
    | extra :: rest =>
      match extraTurn classify rounds.turn extra with
      | none => { rounds with used := rounds.used + 1, raised := true }
      | some (turn, failure) =>
        repairRounds { rounds with
          turn := turn
          failure := failure
          used := rounds.used + 1
          number := rounds.number + 1 } rest
  else { rounds with spent := ask }

end Turns

/-- The names of a ladder, weakest first, each once and none empty. -/
def ladderTiers (names : List Str) : List Str :=
  ((names.map strip).filter (· ≠ [])).foldl (fun tiers name =>
    if name ∈ tiers then tiers else tiers ++ [name]) []

/-- The first tier from the attempt on that is healthy, else the tier of the attempt. -/
def tierForAttempt (tiers : List Str) (attempt : Nat) (health : Str → Bool) : Str × Nat :=
  if tiers = [] then ([], attempt)
  else
    let from_ := min attempt tiers.length
    match (tiers.drop from_).findIdx? health with
    | some later => (tiers.getD (from_ + later) [], from_ + later)
    | none => (tiers.getD (min attempt (tiers.length - 1)) [], min attempt (tiers.length - 1))

def changesTier (klass : Option FailureClass) : Bool :=
  klass.any (actionByClass · = .changeTier)

def movesTier (run : Run) : Bool :=
  if run.providerError then true
  else if run.reason = "" then false
  else changesTier run.failureClass

def addSpend (tier : Str) (run : Run) : List (Str × TierSpend) → List (Str × TierSpend)
  | [] => [(tier, ({} : TierSpend).plus run)]
  | (other, spend) :: rest =>
    if tier = other then (other, spend.plus run) :: rest else (other, spend) :: addSpend tier run rest

/-- An attempt that came to its end: its tier, its last turn, each send of its turns, and the
    failure that was left. -/
structure TierAttempt where
  tier : Str
  position : Nat
  run : Run
  sends : List Run
  failure : Option Failure

def TierAttempt.staysOn (attempt : TierAttempt) (tiers : List Str) : Bool :=
  attempt.failure.isNone || !movesTier attempt.run || decide (tiers.length ≤ attempt.position + 1)

structure Progress where
  rounds : Nat := 0
  number : Nat := 1
  roundsSpent : Bool := false
  toolCalls : Nat := 0
  firstRequest : Nat := 0
  total : TierSpend := {}
  spent : List (Str × TierSpend) := []
  tried : List Str := []
  tier : Str := []
  attempt : Nat := 0
  /-- The positions of the ladder that began, the attempts that ended, and those of them that the
      step left for a later tier. -/
  positions : List Nat := []
  attempts : List TierAttempt := []
  left : List TierAttempt := []

abbrev LastTurn := Run × Option Failure

namespace Progress
variable (p : Progress)

def serve (tiers : List Str) (health : Str → Bool) : Progress :=
  let (tier, attempt) := tierForAttempt tiers p.attempt health
  { p with
    tried := if tier = [] then p.tried else p.tried ++ [tier]
    tier := tier
    attempt := attempt
    positions := p.positions ++ [attempt] }

def ended (rounds : Rounds) : TierAttempt where
  tier := p.tier
  position := p.attempt
  run := rounds.turn.run
  sends := rounds.turn.sends
  failure := rounds.failure

def account (rounds : Rounds) : Progress :=
  let run := rounds.turn.run
  { p with
    rounds := rounds.used
    number := rounds.number
    roundsSpent := rounds.spent
    toolCalls := p.toolCalls + run.toolCalls
    total := p.total.plus run
    spent := if p.tier = [] then p.spent else addSpend p.tier run p.spent
    attempts := p.attempts ++ [p.ended rounds] }

def move (attempt : TierAttempt) : Progress :=
  { p with attempt := p.attempt + 1, number := p.number + 1, left := p.left ++ [attempt] }

end Progress

section Step
variable (classify : String → FailureClass)

def attemptLoop (tiers : List Str) (budget : Nat) (p : Progress) :
    List TierTape → Progress × Option LastTurn
  | [] => (p, none)
  | tape :: later =>
    let p := p.serve tiers tape.health
    match runAgent classify 0 tape.sends with
    | none => (p, none)
    | some turn =>
      let p := { p with firstRequest := orElse p.firstRequest turn.run.firstRequestTokens }
      match judged turn.run none tape.checked with
      | none => (p, none)
      | some failure =>
        let rounds := repairRounds classify
          { turn := turn, failure := failure, used := p.rounds, number := p.number, allowed := budget }
          tape.extras
        if rounds.raised then ({ p with rounds := rounds.used }, none)
        else
          let attempt := p.ended rounds
          let p := p.account rounds
          if attempt.staysOn tiers then (p, some (attempt.run, attempt.failure))
          else attemptLoop tiers budget (p.move attempt) later

inductive StepStatus where
  | done_ | stopped
deriving DecidableEq

structure StepOutcome where
  status : StepStatus
  reason : String
  commit : String
  lastMessage : String
  requests : Nat
  toolCalls : Nat
  inputTokens : Nat
  outputTokens : Nat
  firstRequestTokens : Nat
  repairRounds : Nat
  tier : Str
  tiers : List Str
  tierSpend : List (Str × TierSpend)
  failureClass : Option FailureClass

def roundsText (budget : Nat) : String :=
  "The step used all its repair rounds: `roadmap.implement.repair_rounds=" ++
    toString budget ++ "`."

def stepOutcome (budget : Nat) (p : Progress) (last : LastTurn)
    (commitGroup : Option (String × String)) : Option StepOutcome :=
  let outcome : StepOutcome :=
    { status := .stopped
      reason := ""
      commit := ""
      lastMessage := last.1.lastMessage
      requests := p.total.requests
      toolCalls := p.toolCalls
      inputTokens := p.total.inputTokens
      outputTokens := p.total.outputTokens
      firstRequestTokens := p.firstRequest
      repairRounds := p.rounds
      tier := p.tried.getLastD []
      tiers := p.tried
      tierSpend := p.spent
      failureClass := none }
  let reason := (last.2.map (·.reason)).getD ""
  let klass := last.2.bind (·.klass)
  if reason ≠ "" then
    let reason := if p.roundsSpent then reason ++ "\n" ++ roundsText budget else reason
    some { outcome with reason := reason, failureClass := klass }
  else
    match commitGroup with
    | none => none
    | some (commit, "") => some { outcome with status := .done_, commit := commit }
    | some (_, refused) => some { outcome with reason := refused, failureClass := klass }

def runStep (ladder : List Str) (budget : Nat) (tape : StepTape) : Progress × Option StepOutcome :=
  let (p, last) := attemptLoop classify (ladderTiers ladder) budget {} tape.tiers
  (p, last.bind fun last => stepOutcome budget p last tape.commit)

end Step
end DevopsCli.Implement
