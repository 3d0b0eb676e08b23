import DevopsCli.Lib.PyStr
import DevopsCli.Lib.Run
import DevopsCli.Lib.Text
import DevopsCli.Roadmap.Store

/- How intake files a new candidate, intake/intake.py: the subject, the judgement of the reply, the
   plan, and the writes in order with Priority last, at each of which a run may stop. -/
namespace DevopsCli.Roadmap.Intake
open Json PyStr Run

structure Held where
  labels : List Text
  record : JobRecord := fun _ => none
  reasonComments : Nat := 0
  parent : Option Nat := none

structure IssueRecord where
  number : Nat
  title : Text
  body : Text
  isOpen : Bool := true
  notPlanned : Bool := false
  subIssues : Nat := 0
  held : Held

structure NewCandidate where
  title : Text
  body : Text
  source : Option Text := none
  sourceIssue : Option Nat := none
  byAgent : Bool := true

def NewCandidate.filedBody (new : NewCandidate) : Text :=
  match new.source with
  | none => new.body
  | some source =>
    if source = [] then new.body else new.body ++ "\n\nSource: ".toList ++ source

structure Subject where
  title : Text
  body : Text
  number : Option Nat
  held : Held

structure Repo where
  issues : List IssueRecord
  next : Nat
  distinct : (issues.map (·.number)).Nodup
  free : ∀ issue ∈ issues, issue.number < next

section Repo

def editIssue (number : Nat) (change : IssueRecord → IssueRecord) (issue : IssueRecord) : IssueRecord :=
  if issue.number = number then { change issue with number := issue.number } else issue

theorem editIssue_number (number : Nat) (change : IssueRecord → IssueRecord) (issue : IssueRecord) :
    (editIssue number change issue).number = issue.number := by
  unfold editIssue
  split <;> rfl

theorem editIssue_numbers (number : Nat) (change : IssueRecord → IssueRecord) (issues : List IssueRecord) :
    (issues.map (editIssue number change)).map (·.number) = issues.map (·.number) := by
  simp [editIssue_number]

def Repo.edit (repo : Repo) (number : Nat) (change : IssueRecord → IssueRecord) : Repo where
  issues := repo.issues.map (editIssue number change)
  next := repo.next
  distinct := by
    rw [editIssue_numbers]
    exact repo.distinct
  free := by
    intro issue mem
    obtain ⟨before, held, rfl⟩ := List.mem_map.mp mem
    rw [editIssue_number]
    exact repo.free before held

def Repo.opened (repo : Repo) (title body : Text) (labels : List Text) : IssueRecord where
  number := repo.next
  title := title
  body := body
  held := { labels := labels }

def Repo.create (repo : Repo) (title body : Text) (labels : List Text) : Repo where
  issues := repo.issues ++ [repo.opened title body labels]
  next := repo.next + 1
  distinct := by
    rw [List.map_append, List.nodup_append]
    refine ⟨repo.distinct, List.nodup_singleton _, ?_⟩
    intro number mem other last
    obtain ⟨issue, held, rfl⟩ := List.mem_map.mp mem
    have below := repo.free issue held
    have same : other = repo.next := List.mem_singleton.mp last
    omega
  free := by
    intro issue mem
    rcases List.mem_append.mp mem with old | last
    · exact Nat.lt_succ_of_lt (repo.free issue old)
    · rw [List.mem_singleton.mp last]
      exact Nat.lt_succ_self _

end Repo

section Reading

def fieldOf (held : Held) (field : ItemField) : Option Text := fieldValue held.labels held.record field

def isItem (issue : IssueRecord) : Bool := (fieldOf issue.held .priority).isSome

def isCandidate (issue : IssueRecord) : Bool := issue.isOpen && !isItem issue

/-- The issue that a stopped run left for the candidate. -/
def isFiled (new : NewCandidate) (issue : IssueRecord) : Bool :=
  isCandidate issue && issue.title = new.title && issue.body = new.filedBody

def newSubject (repo : Repo) (new : NewCandidate) : Subject :=
  match repo.issues.find? (isFiled new) with
  | some issue => ⟨issue.title, issue.body, some issue.number, issue.held⟩
  | none => ⟨new.title, new.filedBody, none, { labels := [] }⟩

def isDone (issue : IssueRecord) : Bool := !issue.isOpen && !issue.notPlanned

def sourceAgentLabel : Text := "source/agent".toList

def compared (issue : IssueRecord) : Bool :=
  if 0 < issue.subIssues then false
  else if isItem issue then true
  else if !issue.isOpen then issue.notPlanned
  else issue.held.labels.contains sourceAgentLabel

def sourceIssue (repo : Repo) (new : NewCandidate) : Option Nat :=
  new.sourceIssue.filter fun number => repo.issues.any (·.number = number)

/-- The subject itself, the issue its source links and the other parts of that issue. -/
def apart (repo : Repo) (new : NewCandidate) (subject : Subject) : List Nat :=
  match sourceIssue repo new with
  | none => subject.number.toList
  | some source => subject.number.toList ++ source ::
      ((repo.issues.filter (·.held.parent = some source)).map (·.number))

end Reading

section Titles

def typePrefix : Text := "type/".toList

def scopePrefix : Text := "scope/".toList

def epicLabel : Text := "type/epic".toList

def commitTypeLabels : List (Text × Text) :=
  [("feat".toList, "type/feature".toList), ("fix".toList, "type/bug".toList),
    ("perf".toList, "type/infra".toList), ("build".toList, "type/infra".toList),
    ("ci".toList, "type/infra".toList), ("refactor".toList, "type/refactor".toList),
    ("docs".toList, "type/docs".toList), ("test".toList, "type/test".toList),
    ("chore".toList, "type/chore".toList), ("style".toList, "type/chore".toList),
    ("revert".toList, "type/chore".toList)]

def removeSuffix (text : Text) (last : Char) : Text :=
  if text.getLast? = some last then text.dropLast else text

def titleHead (title : Text) : Option Text :=
  if ':' ∈ title then some (title.takeWhile (· ≠ ':')) else none

def commitType (title : Text) : Option Text :=
  (titleHead title).bind fun head =>
    let kind := removeSuffix (head.takeWhile (· ≠ '(')) '!'
    if kind ∈ commitTypeLabels.map Prod.fst then some kind else none

def commitScope (title : Text) : Option Text :=
  (commitType title).bind fun _ =>
    (titleHead title).bind fun head =>
      let rest := (head.dropWhile (· ≠ '(')).drop 1
      let scope := strip (removeSuffix (removeSuffix rest '!') ')')
      if scope = [] then none else some scope

structure TitleLabels where
  typeLabel : Option Text
  scopeLabel : Option Text

def titleLabels (title : Text) (declared : List Text) : TitleLabels where
  typeLabel := ((commitType title).bind (commitTypeLabels.lookup ·)).filter (· ∈ declared)
  scopeLabel := ((commitScope title).map (scopePrefix ++ ·)).filter (· ∈ declared)

def types (declared : List Text) : List Text :=
  declared.filter fun name => typePrefix.isPrefixOf name && name ≠ epicLabel

def typeLabelOf (labels : List Text) : Option Text := labels.find? (typePrefix.isPrefixOf ·)

def scopeLabelOf (labels : List Text) : Option Text := labels.find? (scopePrefix.isPrefixOf ·)

end Titles

structure ModelProposal where
  sharedChange : Text := []
  duplicateOf : Option Nat := none
  relatedTo : Option Nat := none
  type : Text
  priority : Text
  value : Text
  effort : Text

structure Proposal where
  type : Text
  priority : Text
  value : Text
  effort : Text

structure Judgement where
  possibleDuplicate : Option Nat := none
  related : Option Nat := none

structure Entry where
  number : Nat
  done : Bool

section Judging

def p0Priorities : List Text := ["P0-Critical".toList, "P0".toList]

def modelPriorities : List Text := ["P1-High".toList, "P2-Medium".toList, "P3-Low".toList]

/-- A P0 of the model is capped, as only evidence sets it. -/
def priorityChoice (value : Text) : Text :=
  if value ∈ p0Priorities then "P1-High".toList else value

def validateProposal (raw : ModelProposal) (types : List Text) (needsType : Bool) : Option Proposal :=
  let priority := priorityChoice raw.priority
  if (!needsType || raw.type ∈ types) && priority ∈ modelPriorities && raw.value ∈ sizeOptions &&
      raw.effort ∈ sizeOptions then
    some ⟨raw.type, priority, raw.value, raw.effort⟩
  else none

def regressionReference (number : Nat) : Text := "regression of #".toList ++ digits number

def withRegressionReference (subject : Subject) (entry : Entry) : Subject :=
  let ref := regressionReference entry.number
  if (DevopsCli.Text.find subject.body ref).isSome then subject
  else
    { subject with body := if subject.body = [] then ref else subject.body ++ "\n\n".toList ++ ref }

def related (raw : ModelProposal) (shortlist : List Entry) : Judgement where
  related := raw.relatedTo.filter fun named => shortlist.any (·.number = named)

def judge (raw : ModelProposal) (shortlist : List Entry) (subject : Subject) : Judgement × Subject :=
  match raw.duplicateOf.bind fun named => shortlist.find? (·.number = named) with
  | none => (related raw shortlist, subject)
  | some entry =>
    if entry.done then (related raw shortlist, withRegressionReference subject entry)
    else if strip raw.sharedChange = [] then ({ related := some entry.number }, subject)
    else ({ possibleDuplicate := some entry.number }, subject)

end Judging

structure IntakeDecision where
  subject : Subject
  judgement : Judgement
  filingLabels : List Text
  parent : Option Nat
  labels : List Text
  fields : List (ItemField × Text)
  comment : Bool
  priority : Text

structure IntakeRun where
  declared : List Text
  -- The issues that the embeddings put nearest to the candidate.
  near : List Nat
  reply : Option ModelProposal
  -- Evidence that GitHub confirms sets P0.
  critical : Bool
  stop : Nat

section Planning

def shortlist (repo : Repo) (new : NewCandidate) (subject : Subject) (near : List Nat) : List Entry :=
  (repo.issues.filter fun issue =>
    compared issue && issue.number ∈ near && !(apart repo new subject).contains issue.number).map
      fun issue => ⟨issue.number, isDone issue⟩

def fields (subject : Subject) (proposal : Proposal) : List (ItemField × Text) :=
  [(.status, "New".toList), (.value, proposal.value), (.effort, proposal.effort)].filter
    fun wanted => (fieldOf subject.held wanted.1).isNone

def place (repo : Repo) (new : NewCandidate) (run : IntakeRun) (subject : Subject) (proposal : Proposal)
    (judgement : Judgement) : IntakeDecision :=
  let title := titleLabels subject.title run.declared
  let held := typeLabelOf subject.held.labels
  let added := if held.isSome then none else some (title.typeLabel.getD proposal.type)
  let scopeAdded := if (scopeLabelOf subject.held.labels).isSome then none else title.scopeLabel
  { subject := subject
    judgement := judgement
    filingLabels := if new.byAgent then [sourceAgentLabel] else []
    parent := if subject.number.isNone then sourceIssue repo new else none
    labels := (added.toList ++ scopeAdded.toList).filter (· ≠ [])
    fields := fields subject proposal
    comment := subject.number.isNone || subject.held.reasonComments = 0
    priority := if run.critical then "P0-Critical".toList else proposal.priority }

def planIntake (repo : Repo) (new : NewCandidate) (run : IntakeRun) : Option IntakeDecision :=
  let subject := newSubject repo new
  if (types run.declared).isEmpty then none
  else
    run.reply.bind fun raw =>
      let needsType := (typeLabelOf subject.held.labels).isNone &&
        (titleLabels subject.title run.declared).typeLabel.isNone
      let (judgement, judged) := judge raw (shortlist repo new subject run.near) subject
      (validateProposal raw (types run.declared) needsType).map fun proposal =>
        place repo new run judged proposal judgement

theorem place_subject (repo : Repo) (new : NewCandidate) (run : IntakeRun) (subject : Subject)
    (proposal : Proposal) (judgement : Judgement) :
    (place repo new run subject proposal judgement).subject = subject := rfl

theorem place_comment (repo : Repo) (new : NewCandidate) (run : IntakeRun) (subject : Subject)
    (proposal : Proposal) (judgement : Judgement) :
    (place repo new run subject proposal judgement).comment =
      (subject.number.isNone || subject.held.reasonComments = 0) := rfl

theorem place_filingLabels (repo : Repo) (new : NewCandidate) (run : IntakeRun) (subject : Subject)
    (proposal : Proposal) (judgement : Judgement) :
    (place repo new run subject proposal judgement).filingLabels =
      if new.byAgent then [sourceAgentLabel] else [] := rfl

end Planning

inductive Write where
  | file
  | link (parent : Nat)
  | label (name : Text)
  | setField (field : ItemField) (value : Text)
  | comment
  | priority (value : Text)
deriving DecidableEq

def Write.isPriority : Write → Bool
  | .priority _ => true
  | _ => false

def Held.set (held : Held) (field : ItemField) (value : Text) : Held :=
  { held with
    labels := relabeled held.labels field (some value)
    record := Function.update held.record field (some value) }

def Write.apply (write : Write) (held : Held) : Held :=
  match write with
  | .file => held
  | .link parent => { held with parent := some parent }
  | .label name => { held with labels := addLabel name held.labels }
  | .setField field value => held.set field value
  | .comment => { held with reasonComments := held.reasonComments + 1 }
  | .priority value => held.set .priority value

/-- The writes of a placement after the issue is there, Priority last. -/
def IntakeDecision.writes (decision : IntakeDecision) : List Write :=
  decision.parent.toList.map .link ++ decision.labels.map .label ++
    decision.fields.map (fun wanted => .setField wanted.1 wanted.2) ++
    (if decision.comment then [.comment] else []) ++ [.priority decision.priority]

/-- A write that was made, and whether the issue keeps its labels. -/
structure Made where
  write : Write
  kept : Bool

structure State where
  repo : Repo
  log : List Made := []

def State.placed (s : State) : Bool := s.log.any (·.write.isPriority)

def keepsLabels (repo : Repo) (number : Nat) (write : Write) : Bool :=
  repo.issues.all fun issue => issue.number ≠ number ||
    issue.held.labels.all ((write.apply issue.held).labels.contains ·)

def State.write (s : State) (number : Nat) (write : Write) : State where
  repo :=
    let written := s.repo.edit number fun issue => { issue with held := write.apply issue.held }
    match write with
    | .link parent => written.edit parent fun issue => { issue with subIssues := issue.subIssues + 1 }
    | _ => written
  log := s.log ++ [⟨write, keepsLabels s.repo number write⟩]

def State.writeAll (s : State) (number : Nat) (writes : List Write) : State :=
  writes.foldl (fun s write => s.write number write) s

def State.file (s : State) (decision : IntakeDecision) : State where
  repo := s.repo.create decision.subject.title decision.subject.body decision.filingLabels
  log := s.log ++ [⟨.file, true⟩]

/-- The writes that a run makes before it stops: the issue is filed first when it is not there. -/
def applyPlacement (s : State) (decision : IntakeDecision) (stop : Nat) : State :=
  match decision.subject.number with
  | some number => s.writeAll number (decision.writes.take stop)
  | none =>
    match stop with
    | 0 => s
    | stop + 1 => (s.file decision).writeAll s.repo.next (decision.writes.take stop)

def step (new : NewCandidate) (s : State) (run : IntakeRun) : Option State :=
  if s.placed then none
  else
    match planIntake s.repo new run with
    | none => some s
    | some decision => some (applyPlacement s decision run.stop)

end DevopsCli.Roadmap.Intake
