import DevopsCli.Lib.Text
import DevopsCli.Roadmap.Sanitize

/- The section that refine writes into the body of an item, and the hashes by which it knows its own
   write again: roadmap/body_hash.py and refine/refine.py. -/
namespace DevopsCli.Roadmap.BodyHash
open PyStr Sanitize

def refineStart : Str := "<!-- devops-roadmap-refine:start -->".toList

def alternativesStart : Str := "<!-- devops-roadmap-alternatives:start -->".toList

def alternativesEnd : Str := "<!-- devops-roadmap-alternatives:end -->".toList

def splitAt (text marker : Str) : Option (Str × Str) :=
  (Text.find text marker).map fun i => (text.take i, text.drop (i + marker.length))

def extract (body start end_ : Str) : Str × Option Str :=
  match splitAt body start with
  | none => (body, none)
  | some (before, rest) =>
    match splitAt rest end_ with
    | none => (body, none)
    | some (inside, after) => (before ++ after, some inside)

def extractSectionAndOutside (body : Str) : Str × Option Str := extract body refineStart refineEndMarker

def withoutAlternatives (body : Str) : Str := (extract body alternativesStart alternativesEnd).1

def textOfAPerson (body : Str) : Str := (extractSectionAndOutside (withoutAlternatives body)).1

structure AcceptanceCriterion where
  name : Str
  requirement : Str
  scenario : Str
  when_ : Str
  then_ : Str

structure DesignOption where
  option : Str
  chosen : Bool
  reason : Str

structure QuestionAnswer where
  question : Str
  answer : Str
  sources : List Str
  options : List DesignOption

structure RefinementProposal where
  problemStatement : Str
  acceptanceCriteria : List AcceptanceCriterion
  existingTool : Str
  keyQuestions : List QuestionAnswer
  fitsOnePr : Bool
  splitOffs : List Str
  suspectedBlock : Option Str
  dependencies : List Int

structure Sha where
  text : Str
  hex : ∀ c ∈ text, c.isAlphanum = true

def requirementBlock (criterion : AcceptanceCriterion) : List Str :=
  [[],
    "### Requirement: ".toList ++ PyStr.strip criterion.name,
    PyStr.strip criterion.requirement,
    [],
    "#### Scenario: ".toList ++ PyStr.strip criterion.scenario,
    "- **WHEN** ".toList ++ PyStr.strip criterion.when_,
    "- **THEN** ".toList ++ PyStr.strip criterion.then_]

def optionLines (answer : QuestionAnswer) : List Str :=
  answer.options.map fun option =>
    "  - ".toList ++ (if option.chosen then "Chosen" else "Rejected").toList ++ ": ".toList ++
      (PyStr.strip option.option).rdropWhile (· = '.') ++ ". ".toList ++ PyStr.strip option.reason

def questionLines (answer : QuestionAnswer) : List Str :=
  let sources := if answer.sources = [] then []
    else " [sources: ".toList ++ join ", ".toList answer.sources ++ "]".toList
  ("- **".toList ++ PyStr.strip answer.question ++ "**: ".toList ++ PyStr.strip answer.answer ++ sources) ::
    optionLines answer

def number (i : Int) : Str := (toString i).toList

def fitLines (proposal : RefinementProposal) : List Str :=
  if proposal.fitsOnePr then ["Fits in one pull request.".toList]
  else
    let count := if proposal.splitOffs = [] then 2 else proposal.splitOffs.length
    ("Needs splitting into ".toList ++ digits count ++ " items:".toList) ::
      proposal.splitOffs.mapIdx fun i part => digits (i + 1) ++ ". ".toList ++ PyStr.strip part

def orNone (text : Option Str) : Str :=
  match text with
  | some text => if text = [] then "None.".toList else PyStr.strip text
  | none => "None.".toList

def proposalLines (proposal : RefinementProposal) (openQuestions : List Str) : List Str :=
  ["## Proposed design".toList, [], "### Problem statement".toList, PyStr.strip proposal.problemStatement,
    [], "### Acceptance criteria".toList] ++
  proposal.acceptanceCriteria.flatMap requirementBlock ++
  [[], "### Existing Tool Considered".toList, PyStr.strip proposal.existingTool,
    [], "### Key questions".toList] ++
  (if proposal.keyQuestions = [] then ["None.".toList]
    else proposal.keyQuestions.flatMap questionLines) ++
  (if openQuestions = [] then []
    else [[], "### Open questions".toList] ++
      openQuestions.map fun question => "- ".toList ++ PyStr.strip question) ++
  [[], "### Fit".toList] ++ fitLines proposal ++
  [[], "### Suspected block".toList, orNone proposal.suspectedBlock, [], "### Dependencies".toList] ++
  (if proposal.dependencies = [] then ["None.".toList]
    else [join ", ".toList (proposal.dependencies.map fun item => '#' :: number item)])

def checkedAt (sha : Sha) : Str := "<!-- checked-at: sha=".toList ++ sha.text ++ " -->".toList

def sectionInside (engine : Engine) (proposal : RefinementProposal) (openQuestions : List Str)
    (sha : Sha) (allowedUrls : List Str) : Str :=
  let text := sanitizeText engine (join ['\n'] (proposalLines proposal openQuestions)) allowedUrls true
  '\n' :: checkedAt sha ++ '\n' :: text ++ ['\n']

def renderProposalSection (engine : Engine) (proposal : RefinementProposal)
    (openQuestions : List Str) (sha : Sha) (allowedUrls : List Str) : Str :=
  refineStart ++ sectionInside engine proposal openQuestions sha allowedUrls ++ refineEndMarker

section Hash
variable {H : Type} [DecidableEq H] (hash : Str → H)

def hashText (text : Str) : H := hash (PyStr.strip text)

/-- The hash of the body outside its section, and the section's when it holds one. -/
def bodyHashes (body : Str) : H × Option H :=
  let (outside, inside) := extractSectionAndOutside (withoutAlternatives body)
  (hashText hash outside, (inside.filter (· ≠ [])).map (hashText hash))

structure Hashes (H : Type) where
  bodyHash : Option H
  sectionHash : Option H

def isUnchanged (recorded : Hashes H) (body : Str) : Bool :=
  some (bodyHashes hash body).1 = recorded.bodyHash && (bodyHashes hash body).2 = recorded.sectionHash

def checkPersonEdits (recorded : Hashes H) (body : Str) : Option String :=
  match (extractSectionAndOutside body).2 with
  | none => none
  | some inside =>
    match recorded.sectionHash with
    | none => some "the body holds a section refine has no record of"
    | some stored =>
      if hashText hash inside ≠ stored then
        some "the section's hash differs from the one refine last recorded"
      else none

def maxBodyChars : Nat := 65536

structure Written (H : Type) where
  newBody : Str
  hashes : Hashes H

/-- The write of a round that has its proposal, unless it reads a person's edit of the section or
    the body would be too long. -/
def refineOneItem (engine : Engine) (recorded : Hashes H) (body : Str)
    (proposal : RefinementProposal) (openQuestions : List Str) (sha : Sha) (allowedUrls : List Str) :
    Option (Written H) :=
  if (checkPersonEdits hash recorded body).isSome then none
  else
    let rendered := renderProposalSection engine proposal openQuestions sha allowedUrls
    let newBody := rstrip (extractSectionAndOutside body).1 ++ ['\n', '\n'] ++ rendered
    if maxBodyChars < newBody.length then none
    else
      let inside := (rendered.drop refineStart.length).take
        (rendered.length - refineStart.length - refineEndMarker.length)
      some ⟨newBody, ⟨some (bodyHashes hash body).1, some (hashText hash inside)⟩⟩

end Hash
end DevopsCli.Roadmap.BodyHash
