import DevopsCli.Lib.PyStr
import DevopsCli.Lib.Run
import DevopsCli.Roadmap.Failure

/- How an item leaves Blocked, roadmap/stop_clear.py and digest_clears.py. The readers and writers
   of the counters in the record are those of pydantic. -/
namespace DevopsCli.Roadmap.StopClear
open PyStr Run

inductive RecordKey where
  | status | stopped | failure | check | checkLog | conflict | job | jobState | jobDigest
  | digestClears | digestClearCommentedAt | continuations
deriving DecidableEq

abbrev JobRecord := RecordKey → Option String

def truthy (text : Option String) : Bool := text.any (· ≠ "")

structure Item where
  number : Nat
  open_ : Bool
  status : Option String
  owner : Option String
  record : JobRecord

structure IssueComment where
  authorAssociation : String
  body : Str

namespace Item
variable (item : Item)

def holdsServiceStop : Bool :=
  item.status = some "Blocked" && item.record .status = some "Blocked" &&
    truthy (item.record .stopped)

def jobHolds : Bool := truthy (item.record .job) && !truthy (item.record .jobState)

def claimed : Bool := item.owner.any (· ≠ "Service")

def isServiceStop : Bool := item.open_ && item.holdsServiceStop && !item.jobHolds && !item.claimed

def retryClass : Option FailureClass :=
  (FailureClass.ofValue ((item.record .failure).getD "")).filter (actionByClass · = .retry)

end Item

def commentMarker : Str := "<!-- devops roadmap implement -->".toList

def trustedAuthors : List String := ["OWNER", "MEMBER", "COLLABORATOR"]

/-- Only the ASCII letters fold to the letters of the retry comment. -/
def casefold (text : Str) : Str := text.map Char.toLower

def asksRetry (comment : IssueComment) : Bool :=
  trustedAuthors.contains comment.authorAssociation &&
    casefold (PyStr.strip comment.body) == "implement: retry".toList

def ofJob (comment : IssueComment) : Bool := commentMarker.isPrefixOf comment.body

def retryAsked (comments : List IssueComment) : Bool :=
  (comments.reverse.takeWhile (!ofJob ·)).any asksRetry

structure DigestClear where
  failureClass : FailureClass
  digest : String
  time : Int

/-- The counters of the record as texts: what is read back from a text that was written is what
    was written, and no list is written as the empty text. -/
structure Texts where
  readCount : String → Option Nat
  readClears : String → Option (List DigestClear)
  encodeClears : List DigestClear → String
  readTime : String → Option Int
  isoformat : Int → String
  count_back : ∀ n m, readCount (toString n) = some m → m = n
  clears_text : ∀ clears, encodeClears clears ≠ ""
  clears_back : ∀ clears more, readClears (encodeClears clears) = some more → more = clears

structure ClearLimits where
  perClass : Nat
  perItem : Nat
  continuations : Nat

inductive ClearRule where
  | retry | continue_ | digest
deriving DecidableEq

def ClearRule.value : ClearRule → String
  | .retry => "retry"
  | .continue_ => "continue"
  | .digest => "digest"

structure Decision where
  rule : ClearRule
  new : Option String := none
  clears : List DigestClear := []
  failureClass : Option FailureClass := none
  comment : Bool := true
  continuations : Nat := 0

inductive Template where
  | raises
  | digest (current : Option String)

/-- The digest of the template when it is another than that of the stop; nothing at all when the
    read raises. -/
def newDigest (item : Item) (template : Template) : Option (Option String) :=
  if truthy (item.record .jobDigest) then
    match template with
    | .raises => none
    | .digest current => some (current.filter fun text =>
        text ≠ "" && some text ≠ item.record .jobDigest)
  else some none

section Rules
variable (texts : Texts) (limits : ClearLimits)

def usedContinuations (item : Item) : Option Nat :=
  if truthy (item.record .continuations) then
    (item.record .continuations).bind texts.readCount
  else some 0

def continueDecision (item : Item) : Option Decision :=
  if item.record .stopped ≠ some "job" then none
  else
    match item.retryClass, usedContinuations texts item with
    | some klass, some used =>
      if limits.continuations ≤ used then none
      else some { rule := .continue_, failureClass := some klass, continuations := used + 1 }
    | _, _ => none

def recordedClears (item : Item) : Option (List DigestClear) :=
  if truthy (item.record .digestClears) then (item.record .digestClears).bind texts.readClears
  else some []

def lastClearComment (item : Item) : Option (Option Int) :=
  if truthy (item.record .digestClearCommentedAt) then
    ((item.record .digestClearCommentedAt).bind texts.readTime).map some
  else some none

def commentWindow : Int := 24 * 3600

def digestDecision (item : Item) (template : Template) (now : Int) : Option (Option Decision) :=
  match item.retryClass, recordedClears texts item, lastClearComment texts item with
  | some klass, some clears, some commented =>
    if limits.perItem ≤ clears.length then some none
    else if limits.perClass ≤ clears.countP (·.failureClass = klass) then some none
    else
      (newDigest item template).map fun new => new.map fun digest =>
        { rule := .digest
          new := some digest
          clears := clears ++ [⟨klass, digest, now⟩]
          failureClass := some klass
          comment := commented.all fun at_ => commentWindow ≤ now - at_ }
  | _, _, _ => some none

def rule (item : Item) (comments : List IssueComment) (template : Template) (now : Int) :
    Option (Option Decision) :=
  if retryAsked comments then some (some { rule := .retry })
  else
    match continueDecision texts limits item with
    | some decision => some (some decision)
    | none => digestDecision texts limits item template now

/-- What a clear writes with the Status; a key that is not named keeps its text. -/
def marks (decision : Decision) (now : Int) : RecordKey → Option (Option String)
  | .stopped | .failure | .check | .checkLog | .conflict => some none
  | .continuations =>
    if decision.rule = .continue_ then some (some (toString decision.continuations)) else none
  | .digestClears =>
    if decision.rule = .digest then some (some (texts.encodeClears decision.clears)) else none
  | .digestClearCommentedAt =>
    if decision.rule = .digest ∧ decision.comment = true then some (some (texts.isoformat now))
    else none
  | _ => none

end Rules

def deriveStatus (planMerged : Bool) : String := if planMerged then "Planned" else "Ready"

def setField (item : Item) (status : String) (marks : RecordKey → Option (Option String)) : Item :=
  { item with
    status := some status
    record := fun key =>
      if key = .status then some status else (marks key).getD (item.record key) }

def shown (text : Option String) : String := text.getD "None"

def classText (decision : Decision) : String := (decision.failureClass.map (·.value)).getD ""

def commentText (decision : Decision) (item : Item) (status : String) (limits : ClearLimits) : Str :=
  commentMarker ++ ("\n" ++ match decision.rule with
  | .retry =>
    "Cleared the stop at " ++ shown (item.record .stopped) ++ " by the rule `" ++
      decision.rule.value ++ "`: a person commented `implement: retry`. The item is " ++ status ++
      " again, and the Service takes it in the next round."
  | .continue_ =>
    "Cleared the stop at job by the rule `" ++ decision.rule.value ++ "`: the runner Job " ++
      shown (item.record .job) ++ " ended without a result. The class `" ++ classText decision ++
      "` of the stop is one that a new attempt can fix. This is continuation " ++
      toString decision.continuations ++ " of " ++ toString limits.continuations ++
      " for this item." ++
      (if limits.continuations ≤ decision.continuations then
        " No continuation is left. A comment `implement: retry` clears the next stop of this " ++
        "kind. A new runner image can also clear it, within its limits."
      else "") ++
      " The item is " ++ status ++ " again. The Service takes it in the next round. The new Job " ++
      "takes the branch from `origin`, so it keeps the work that the run pushed there."
  | .digest =>
    "Cleared the stop at " ++ shown (item.record .stopped) ++ " by the rule `" ++
      decision.rule.value ++ "`: the runner image changed since the stop, from " ++
      shown (item.record .jobDigest) ++ " to " ++ shown decision.new ++ ", and the class `" ++
      classText decision ++ "` of the stop is one that a new attempt can fix. The item is " ++
      status ++ " again, and the Service takes it in the next round. The Service clears at most " ++
      toString limits.perClass ++ " for each class and " ++ toString limits.perItem ++
      " for each item by digest. A stop of another class, a new stop on this image, and a stop " ++
      "over a limit wait for a comment `implement: retry`.").toList

structure ClearWrite where
  before : Item
  comments : List IssueComment
  decision : Decision

structure Board where
  item : Item
  comments : List IssueComment
  writes : List ClearWrite := []

inductive Answer where
  -- Refused, or lost before it was made.
  | refused
  -- Made, and its answer lost.
  | lost
  | made

structure Pass where
  cached : Item
  template : Template
  now : Int
  planMerged : Bool
  answer : Answer
  commentBy : Option String

section Step
variable (texts : Texts) (limits : ClearLimits)

def writeClear (s : Board) (pass : Pass) (decision : Decision) : Board :=
  let status := deriveStatus pass.planMerged
  let written :=
    { s with
      item := setField s.item status (marks texts decision pass.now)
      writes := s.writes ++ [⟨s.item, s.comments, decision⟩] }
  match pass.answer, pass.commentBy with
  | .refused, _ => s
  | .lost, _ => written
  | .made, some author =>
    if decision.comment then
      { written with comments :=
          s.comments ++ [⟨author, commentText decision s.item status limits⟩] }
    else written
  | .made, none => written

/-- The decision on the listed item only tells whether the issue is read again. -/
def clearOne (s : Board) (pass : Pass) : Board :=
  match rule texts limits pass.cached s.comments pass.template pass.now with
  | some (some _) =>
    if s.item.isServiceStop then
      match rule texts limits s.item s.comments pass.template pass.now with
      | some (some decision) => writeClear texts limits s pass decision
      | _ => s
    else s
  | _ => s

def clearStops (s : Board) (pass : Pass) : Board :=
  if pass.cached.isServiceStop then clearOne texts limits s pass else s

inductive BoardEvent where
  | pass (pass : Pass)
  -- A job stops: the service or the runner records the step and the class of its failure.
  | stop (step : String) (klass : FailureClass)
  | comment (comment : IssueComment)
  -- A person, a job or another row changes the issue; only a clear writes the counters.
  | other (item : Item) (comments : List IssueComment)

def stopped (item : Item) (step : String) (klass : FailureClass) : Item :=
  setField item "Blocked" fun key =>
    match key with
    | .stopped => some (some step)
    | .failure => some (some klass.value)
    | _ => none

def step (s : Board) : BoardEvent → Option Board
  | .pass pass => some (clearStops texts limits s pass)
  | .stop step klass => some { s with item := stopped s.item step klass }
  | .comment comment => some { s with comments := s.comments ++ [comment] }
  | .other item comments =>
    if item.record .digestClears = s.item.record .digestClears ∧
        item.record .continuations = s.item.record .continuations then
      some { s with item := item, comments := comments }
    else none

end Step
end DevopsCli.Roadmap.StopClear
