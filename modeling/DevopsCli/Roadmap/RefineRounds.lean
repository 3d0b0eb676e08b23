import DevopsCli.Lib.Run
import DevopsCli.Roadmap.BodyHash

/- The rounds of refine on one item, refine/refine.py: the selection, what a round makes of the reply
   of its model, and the writes. Every write succeeds, and only the rounds change the item, so the
   body that a write checks again is the one that the round read. -/
namespace DevopsCli.Roadmap.RefineRounds
open PyStr Sanitize Run
open BodyHash hiding refineOneItem

inductive NextStep where
  | ready | person | split | blocked | edit | retry | failed | none_
deriving DecidableEq

inductive JobCheck where
  | problemStatement | existingTool | acceptanceCriteria
  | missingSource | unansweredQuestion | investigationStopped
deriving DecidableEq

inductive JudgeVerdict where
  | approved | refused
deriving DecidableEq

inductive Verdict where
  | covers | partly | none_ | notApplicable | rejected | inUse
deriving DecidableEq

inductive Status where
  | new | ready | other
deriving DecidableEq

inductive JobMarker where
  | retitle | refine | outside | alternatives | intake | stage
deriving DecidableEq

def isPathChar (c : Char) : Bool := c.isAlphanum || c == '_' || c == '-' || c == '.' || c == '/'

def IsCited (path : Str) : Prop := path ≠ [] ∧ ∀ c ∈ path, isPathChar c = true

instance : DecidablePred IsCited := fun path =>
  inferInstanceAs (Decidable (path ≠ [] ∧ ∀ c ∈ path, isPathChar c = true))

structure Refs where
  issues : List Nat
  paths : List Str
deriving DecidableEq

structure Names extends Refs where
  cited : ∀ path ∈ paths, IsCited path

def Names.none_ : Names := ⟨⟨[], []⟩, by simp⟩

structure Comment where
  markers : List JobMarker
  -- A person with write access or the bot of the Service App made it.
  trusted : Bool
  createdAt : Int
  names : Names

def Comment.ofRefine (comment : Comment) : Bool := comment.markers.contains .refine

/-- What the texts of the job record read as. A text that its key does not read stands as none. -/
structure RefineRecord (H : Type) where
  hashes : Hashes H := ⟨none, none⟩
  failedBodyHash : Option H := none
  nextStep : Option NextStep := none
  needsSplit : Option Bool := none
  blockedBy : List Int := []
  blockPaths : List Str := []
  cappedAfter : Option Int := none
  alternativesAsked : Option Str := none
  deferred : List Nat := []
  returnedBodyHash : Option H := none
  judge : Option JudgeVerdict := none
  tries : Option Nat := none
  failedCheck : List JobCheck := []
  commentsSeen : Option Nat := none
  commentedAt : Option Int := none
  waitRefs : Refs := ⟨[], []⟩
  -- The keys of the alternatives job and of the stage job.
  verdict : Option Verdict := none
  tool : Option Str := none
  branch : Option Str := none

structure Item (H : Type) where
  number : Nat
  status : Status
  -- A person with write access opened it.
  personFiled : Bool := true
  botFiled : Bool := false
  body : Str
  record : RefineRecord H := {}
  comments : List Comment := []

structure OtherIssue where
  isOpen : Bool
  updatedAt : Option Int
  closedAt : List Int

structure Env where
  issue : Nat → Option OtherIssue
  pathChangedAt : Str → Option Int
  ownTrusted : Bool

inductive PyError where
  | indexError
deriving DecidableEq

def maxTries : Nat := 3

def maxCommentsPerItem : Nat := 2

def commentCapWindow : Int := 24 * 3600

def maxWaitChecks : Nat := 5

section Env
variable (env : Env)

def isOpen (number : Int) : Bool :=
  match number with
  | .ofNat number => (env.issue number).any (·.isOpen)
  | .negSucc _ => false

def changedSince (paths : List Str) (since : Int) : Bool :=
  paths.any fun path => (env.pathChangedAt path).any (since ≤ ·)

def closedSince (number : Nat) (since : Int) : Bool :=
  match env.issue number with
  | none => false
  | some found =>
    if found.isOpen then false
    else if found.updatedAt.any (· < since) then false
    else found.closedAt.any (since ≤ ·)

def namedCauseEnded (refs : Refs) (since : Int) : Bool :=
  changedSince env refs.paths since || refs.issues.any (closedSince env · since)

end Env

section Comments

def repliesAfterMarker (comments : List Comment) (marker : JobMarker) : Option (List Comment) :=
  if comments.any (·.markers.contains marker) then
    some (comments.rtakeWhile fun comment => !comment.markers.contains marker)
  else none

def withoutOtherJobsComments (comments : List Comment) : List Comment :=
  comments.filter fun comment => comment.markers.all (· = .refine)

def repliesSinceRefine (comments : List Comment) : Option (List Comment) :=
  (repliesAfterMarker comments .refine).map withoutOtherJobsComments

def waitText (comments : List Comment) : List Comment :=
  let upTo := comments.rdropWhile (!·.ofRefine)
  withoutOtherJobsComments (upTo.dropLast.rtakeWhile (!·.ofRefine) ++ upTo.getLast?.toList)

def waitRefs (text : List Comment) (own : Nat) : Names where
  issues := (((text.flatMap (·.names.issues)).filter (· ≠ own)).eraseDups).take maxWaitChecks
  paths := ((text.flatMap (·.names.paths)).eraseDups).take maxWaitChecks
  cited path mem := by
    have held := List.mem_eraseDups.mp (List.mem_of_mem_take mem)
    obtain ⟨comment, _, named⟩ := List.mem_flatMap.mp held
    exact comment.names.cited path named

end Comments

structure ReadMarks where
  commentsSeen : Nat
  commentedAt : Int
  waitRefs : Names

structure WaitingItem where
  step : NextStep
  capStop : Option Int := none
  notice : Bool := false
  marks : Option ReadMarks := none

section Selection
variable {H : Type} [DecidableEq H] (hash : Str → H) (env : Env) (item : Item H)

def commentsOn : List Comment := item.comments.filter (·.trusted)

def unchanged (body : Str) : Bool := isUnchanged hash item.record.hashes body

def isTrusted : Bool := item.personFiled || item.botFiled

def isApproved : Bool :=
  if item.botFiled then item.record.judge = some .approved && unchanged hash item item.body else true

/-- The check of the alternatives job. A record with no block in the body is none. -/
def recordedCheck (body : Str) : Option (Verdict × Option Str) :=
  if (extract body alternativesStart alternativesEnd).2.isSome then
    item.record.verdict.map fun verdict => (verdict, item.record.tool)
  else none

def coveringTool (body : Str) : Option Str :=
  match recordedCheck item body with
  | some (.covers, tool) => tool
  | _ => none

def needsSecondLook : Bool :=
  (coveringTool item item.body).isSome &&
    coveringTool item item.body ≠ item.record.alternativesAsked &&
    item.record.nextStep ≠ some .edit && item.record.nextStep ≠ some .failed

def recordedBlockers : List Int := item.record.blockedBy

/-- What the record holds of the comments, when it was made at the count that they have now. -/
def recordedReads : Option (Int × Refs) :=
  match item.record.commentedAt with
  | none => none
  | some at_ =>
    if item.record.commentsSeen = some item.comments.length then some (at_, item.record.waitRefs) else none

def readMarks (commentedAt : Int) (refs : Names) : Option ReadMarks :=
  if item.record.commentsSeen = some item.comments.length ∧ item.record.commentedAt = some commentedAt ∧
      item.record.waitRefs = refs.toRefs then none
  else some ⟨item.comments.length, commentedAt, refs⟩

/-- The newest comment of the stage job after refine's last one, when it returned the item. -/
def stageReturn (comments : List Comment) : Option Comment :=
  if item.record.branch.isSome then none
  else (((repliesAfterMarker comments .refine).getD []).filter (·.markers.contains .stage)).getLast?

def returnedTwice : Bool :=
  item.record.returnedBodyHash.isSome && item.record.returnedBodyHash = item.record.hashes.bodyHash

def returnedWait (comments : List Comment) : Bool :=
  (stageReturn item comments).isNone || returnedTwice item

def waitState (comments : Option (List Comment)) :
    Except PyError (Option (Int × Refs × Option ReadMarks)) :=
  match (if comments.isNone then recordedReads item else none) with
  | some (at_, refs) => .ok (some (at_, refs, none))
  | none =>
    let comments := comments.getD (commentsOn item)
    match repliesSinceRefine comments with
    | some [] =>
      match (withoutOtherJobsComments comments).getLast? with
      | none => .error .indexError
      | some last =>
        let refs := waitRefs (waitText comments) item.number
        .ok (some (last.createdAt, refs.toRefs, readMarks item last.createdAt refs))
    | _ => .ok none

def waitOn (step : NextStep) (namesCause : Bool) (comments : Option (List Comment)) :
    Except PyError (Option WaitingItem) :=
  match waitState item comments with
  | .error raised => .error raised
  | .ok none => .ok none
  | .ok (some (commentedAt, refs, marks)) =>
    if changedSince env item.record.blockPaths commentedAt then .ok none
    else if namesCause && namedCauseEnded env refs commentedAt then .ok none
    else .ok (some { step := step, marks := marks })

def stillWaiting : Except PyError (Option WaitingItem) :=
  match item.record.nextStep with
  | none | some .retry => .ok none
  | some .edit => .ok (some { step := .edit })
  | some .failed => .ok (some { step := .failed })
  | some .blocked =>
    if (recordedBlockers item).any (isOpen env) then waitOn env item .blocked false none else .ok none
  | some .ready =>
    if returnedWait item (commentsOn item) then waitOn env item .person false (some (commentsOn item))
    else .ok none
  | some .person => waitOn env item .person true none
  | some .split => waitOn env item .split false none
  | some .none_ => waitOn env item .none_ false none

def commentCap (now : Int) : Except PyError (Option WaitingItem) :=
  let since := now - commentCapWindow
  let count := (commentsOn item).countP fun comment => comment.ofRefine && decide (since < comment.createdAt)
  if count < maxCommentsPerItem then .ok none
  else
    match (withoutOtherJobsComments (commentsOn item)).getLast? with
    | none => .error .indexError
    | some last =>
      let stop := if item.record.cappedAfter = some last.createdAt then none else some last.createdAt
      .ok (some { step := .person, capStop := stop })

/-- None when the round takes the item. -/
def consider (now : Int) : Except PyError (Option WaitingItem) :=
  if !isTrusted item then
    let told := (commentsOn item).any (·.markers.contains .outside)
    .ok (some { step := .person, notice := !told })
  else
    match (if unchanged hash item item.body && !needsSecondLook item then stillWaiting env item
      else .ok none) with
    | .error raised => .error raised
    | .ok (some waits) => .ok (some waits)
    | .ok none =>
      match checkPersonEdits hash item.record.hashes item.body with
      | some _ => .ok (some { step := .edit })
      | none => commentCap item now

/-- An unrefined Ready item counts in a milestone and among the first of the backlog. -/
def refinable (unrefinedReady : Bool) : Bool :=
  item.status = .new ||
    (item.status = .ready && unrefinedReady && item.record.hashes.sectionHash.isNone) ||
    (item.status = .ready && needsSecondLook item) || (item.status = .ready && !isApproved hash item)

inductive Look where
  | out
  | waits (waiting : WaitingItem)
  | taken
  | raises

def look (now : Int) (unrefinedReady : Bool) : Look :=
  if refinable hash item unrefinedReady then
    match consider hash env item now with
    | .error _ => .raises
    | .ok (some waiting) => .waits waiting
    | .ok none => .taken
  else .out

end Selection

structure Validated where
  proposal : RefinementProposal
  openQuestions : List Str
  blockPaths : List Str
  stopped : Bool
  findings : List Str
  refused : Bool
  deferred : List Nat
  sha : Sha
  allowedUrls : List Str
  names : Names
  cited : ∀ path ∈ blockPaths, IsCited path

inductive Reply where
  /-- No reply validated, which the text of the item brings again. -/
  | invalid
  | valid (found : Validated)

section Proposal

def aPersonDecides : Str := "(a person decides)".toList

def missingSource : Str := "(missing verified source)".toList

def lowerAscii (c : Char) : Char := if 'A' ≤ c ∧ c ≤ 'Z' then Char.ofNat (c.toNat + 32) else c

def noBlockTexts : List Str := [[], "none".toList, "null".toList]

def suspectedBlock (proposal : RefinementProposal) : Option Str :=
  let block := PyStr.strip (proposal.suspectedBlock.getD [])
  if block.map lowerAscii ∈ noBlockTexts then none else some block

def complete (criterion : AcceptanceCriterion) : Bool :=
  [criterion.name, criterion.requirement, criterion.scenario, criterion.when_, criterion.then_].all
    (PyStr.strip · ≠ [])

def formChecks (proposal : RefinementProposal) : List JobCheck :=
  (if PyStr.strip proposal.problemStatement = [] then [.problemStatement] else []) ++
  (if PyStr.strip proposal.existingTool = [] then [.existingTool] else []) ++
  (if proposal.fitsOnePr && !(!proposal.acceptanceCriteria.isEmpty &&
      proposal.acceptanceCriteria.all complete) then [.acceptanceCriteria] else [])

def checkReady (proposal : RefinementProposal) (openQuestions : List Str) (blockers : List Int) : Bool :=
  (formChecks proposal).isEmpty && openQuestions.isEmpty && proposal.fitsOnePr && blockers.isEmpty &&
    (suspectedBlock proposal).isNone

def nextStepOf (proposal : RefinementProposal) (openQuestions : List Str) (blockers : List Int)
    (isReady : Bool) : NextStep × List Int :=
  if isReady then (.ready, [])
  else if !openQuestions.isEmpty then (.person, [])
  else if !proposal.fitsOnePr then (.split, [])
  else if !blockers.isEmpty then (.blocked, blockers)
  else if (suspectedBlock proposal).isNone then (.retry, [])
  else (.person, [])

def jobFailure (found : Validated) : List JobCheck :=
  let jobOpen := found.openQuestions.filter fun question => !aPersonDecides.isSuffixOf question
  formChecks found.proposal ++
    if jobOpen.isEmpty then []
    else
      (if found.stopped then [.investigationStopped] else []) ++
      (if jobOpen.any (missingSource.isSuffixOf ·) then [.missingSource] else []) ++
      (if jobOpen.any (!missingSource.isSuffixOf ·) then [.unansweredQuestion] else [])

end Proposal

structure Design where
  isReady : Bool
  nextStep : NextStep
  needsSplit : Bool
  blockedBy : List Int
  blockPaths : List Str
  alternativesAsked : Option Str
  deferred : List Nat
  afterStageReturn : Bool
  judge : Option JudgeVerdict
  names : Names
  cited : ∀ path ∈ blockPaths, IsCited path

inductive Refined (H : Type) where
  /-- A person edited the section: no model is called. -/
  | edited
  | failed
  /-- Only the record is written: the job failed, or the body would be too long. -/
  | recordOnly (hashes : Hashes H) (nextStep : NextStep) (failure : List JobCheck) (tries : Nat)
  | written (write : BodyHash.Written H) (design : Design)

section Round
variable {H : Type} [DecidableEq H] (hash : Str → H) (env : Env) (engine : Engine) (item : Item H)

def seenHashes (body : Str) : Hashes H := ⟨some (bodyHashes hash body).1, (bodyHashes hash body).2⟩

def triesOn (body : Str) : Nat :=
  if item.record.hashes.bodyHash = some (bodyHashes hash body).1 then item.record.tries.getD 0 else 0

def failedRound (body : Str) (failure : List JobCheck) : Refined H :=
  let tries := triesOn hash item body + 1
  let step := if maxTries ≤ tries then .failed else .retry
  .recordOnly (seenHashes hash body) step failure tries

def judge (unchanged : Bool) (findings : List Str) : JudgeVerdict × List Str :=
  if unchanged && item.record.judge = some .approved then (.approved, [])
  else if findings.isEmpty then (.approved, [])
  else (.refused, findings)

def designOf (found : Validated) : Design :=
  let proposal := found.proposal
  let blockers := proposal.dependencies.filter (isOpen env)
  let formReady := checkReady proposal found.openQuestions blockers
  let review :=
    if formReady && item.botFiled then some (judge item (unchanged hash item item.body) found.findings)
    else none
  let approved := formReady && review.all (·.1 = .approved)
  let next := nextStepOf proposal found.openQuestions blockers approved
  let refusedByReview := review.any (!·.2.isEmpty)
  let blockedBy := if refusedByReview then [] else next.2
  let refused := approved && found.refused
  let blocked := !blockedBy.isEmpty || (suspectedBlock proposal).isSome
  { isReady := approved && !refused
    nextStep := if refused then .person else if refusedByReview then .edit else next.1
    needsSplit := !proposal.fitsOnePr
    blockedBy := blockedBy
    blockPaths := if blocked then found.blockPaths else []
    alternativesAsked := coveringTool item item.body
    deferred := if approved && !refused then found.deferred else []
    afterStageReturn := (stageReturn item (commentsOn item)).isSome && unchanged hash item item.body
    judge := review.map (·.1)
    names := found.names
    cited := by
      intro path mem
      split at mem
      · exact found.cited path mem
      · exact absurd mem (by simp) }

def refineOneItem (reply : Reply) : Refined H :=
  if (checkPersonEdits hash item.record.hashes item.body).isSome then .edited
  else
    match reply with
    | .invalid => .failed
    | .valid found =>
      let failure := jobFailure found
      if !failure.isEmpty then failedRound hash item item.body failure
      else
        match BodyHash.refineOneItem hash engine item.record.hashes item.body found.proposal
            found.openQuestions found.sha found.allowedUrls with
        | none => .recordOnly (seenHashes hash item.body) .edit [] 0
        | some write => .written write (designOf hash env item found)

/-- The first failure records the body it was about, and a second on it settles the item. -/
def recordFailure : RefineRecord H :=
  let seen := seenHashes hash item.body
  if item.record.failedBodyHash ≠ seen.bodyHash then { item.record with failedBodyHash := seen.bodyHash }
  else
    { item.record with
      hashes := seen
      failedBodyHash := none
      nextStep := some .edit
      judge := none }

def recordUnwritten (hashes : Hashes H) (nextStep : NextStep) (failure : List JobCheck) (tries : Nat) :
    RefineRecord H :=
  { item.record with
    hashes := hashes
    nextStep := some nextStep
    tries := if failure.isEmpty then none else some tries
    failedCheck := failure
    judge := none }

def refineMarks (hashes : Hashes H) (design : Design) : RefineRecord H :=
  { item.record with
    hashes := hashes
    needsSplit := some design.needsSplit
    failedBodyHash := none
    nextStep := some design.nextStep
    -- A number below zero is written, and no reader takes it for a number.
    blockedBy := design.blockedBy.filter (0 ≤ ·)
    blockPaths := design.blockPaths
    alternativesAsked := design.alternativesAsked
    returnedBodyHash := if design.afterStageReturn then hashes.bodyHash else none
    tries := none
    failedCheck := []
    judge := design.judge
    deferred := if design.deferred.isEmpty then item.record.deferred
      else item.record.deferred ++ design.deferred }

def newStatus (status : Status) (isReady : Bool) : Status :=
  if isReady then .ready else if status = .ready then .new else status

def ownComment (now : Int) (names : Names) : Comment where
  markers := [.refine]
  trusted := env.ownTrusted
  createdAt := now
  names := names

def applyResult (now : Int) (refined : Refined H) : Item H :=
  match refined with
  | .edited => item
  | .failed => { item with record := recordFailure hash item }
  | .recordOnly hashes nextStep failure tries =>
    { item with record := recordUnwritten item hashes nextStep failure tries }
  | .written write design =>
    { item with
      body := write.newBody
      record := refineMarks item write.hashes design
      status := newStatus item.status design.isReady
      comments := item.comments ++ [ownComment env now design.names] }

def marked (record : RefineRecord H) (waiting : WaitingItem) : RefineRecord H :=
  let capped := match waiting.capStop with
    | none => record
    | some at_ => { record with cappedAfter := some at_ }
  match waiting.marks with
  | none => capped
  | some marks =>
    { capped with
      commentsSeen := some marks.commentsSeen
      commentedAt := some marks.commentedAt
      waitRefs := marks.waitRefs.toRefs }

/-- What the round owes an item that it leaves: the stop of the cap, what it read of the comments,
    and the notice to an author that it does not trust. -/
def applyWaiting (now : Int) (waiting : WaitingItem) : Item H :=
  { item with
    record := marked item.record waiting
    comments := if waiting.notice then
        item.comments ++ [⟨[.outside], env.ownTrusted, now, .none_⟩]
      else item.comments }

end Round

structure State (H : Type) where
  item : Item H
  clock : Int
  -- The rounds that called the model.
  calls : Nat := 0

structure Round where
  now : Int
  unrefinedReady : Bool
  reply : Reply

section Runs
variable {H : Type} [DecidableEq H] (hash : Str → H) (env : Env) (engine : Engine)

def Refined.called : Refined H → Bool
  | .edited => false
  | _ => true

def step (s : State H) (round : Round) : Option (State H) :=
  if s.clock ≤ round.now then
    match look hash env s.item round.now round.unrefinedReady with
    | .out | .raises => some { s with clock := round.now }
    | .waits waiting => some { s with item := applyWaiting env s.item round.now waiting, clock := round.now }
    | .taken =>
      let refined := refineOneItem hash env engine s.item round.reply
      some {
        item := applyResult hash env s.item round.now refined
        clock := round.now
        calls := if refined.called then s.calls + 1 else s.calls }
  else none

end Runs
end DevopsCli.Roadmap.RefineRounds
