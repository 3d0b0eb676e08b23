import DevopsCli.Lib.PyWords
import DevopsCli.Implement.StepFiles

/- The task groups of a staged change and the tasks.md that holds them,
   roadmap/stage/stage_change.py. What str.isprintable says of a character comes from outside. -/
namespace DevopsCli.Implement.StageTasks
open PyStr

/-- str.isprintable, character by character. The characters that end a line are not printable. -/
structure Printable where
  holds : Char → Bool
  line_feed : holds '\n' = false
  carriage_return : holds '\r' = false

/-- White space of Unicode, which strip_whitespace takes away: the separators U+001C to U+001F
    are blank for str.isspace only. -/
def isWhite (c : Char) : Bool := isSpace c && !(28 ≤ c.toNat && c.toNat ≤ 31)

def stripWhitespace (text : Str) : Str := (text.dropWhile isWhite).rdropWhile isWhite

def jsSpace (text : Str) : Str := text.map fun c => if c.toNat = 0xfeff then ' ' else c

def oneLine (text : Str) : Str := join [' '] (words (jsSpace text))

def joinLines (text : Str) : Str := strip (join [' '] (splitlines (jsSpace text)))

def sentenceEnd (c : Char) : Bool := (9 ≤ c.toNat && c.toNat ≤ 13) || c == ' ' || c == '.'

/-- A text with at least one character once stripped, before it is changed. -/
def atLeastOne (after : Str → Str) (raw : Str) : Option Str :=
  if stripWhitespace raw = [] then none else some (after (stripWhitespace raw))

def text (raw : Str) : Option Str := atLeastOne oneLine raw
def process (raw : Str) : Option Str := atLeastOne oneLine raw
def command (raw : Str) : Option Str := atLeastOne joinLines raw

def sentence (raw : Str) : Option Str :=
  let kept := (oneLine (stripWhitespace raw)).rdropWhile sentenceEnd
  if kept = [] then none else some kept

def pathParts (path : Str) : List Str := (path.splitOn '/').filter fun part =>
  !part.isEmpty && part != ['.']

def sourceDirectory : Str := "src/".toList
def livingSpecDirectory : Str := "openspec/specs/".toList
def changesDirectory : Str := "openspec/changes".toList
def regeneratePrefixes : List Str :=
  ["src/devops_cli/commands/".toList, "src/devops_cli/lang/".toList]

inductive GroupKind where
  | behavior
  | other
  deriving DecidableEq

structure StageGroup where
  title : Str
  kind : GroupKind
  reads : List Str := []
  changes : List Str
  creates : List Str := []
  createsLines : List (Str × Int) := []
  test : Option Str := none
  implementation : Str
  documentation : Option Str := none
  verify : Option Str := none
  process : Option Str := none

section Schema
variable (printable : Printable)

def isPlain (path : Str) : Bool := !path.contains '`' && path.all printable.holds

def repositoryPath (path : Str) : Option Str :=
  if path = [] ∨ path.head? = some '/' ∨ "..".toList ∈ pathParts path ∨
      isPlain printable path = false then none
  else some path

def optional (check : Str → Option Str) : Option Str → Option (Option Str)
  | none => some none
  | some raw => (check raw).map some

def estimate (entry : Str × Int) : Option (Str × Int) :=
  (repositoryPath printable entry.1).bind fun path =>
    if 1 ≤ entry.2 then some (path, entry.2) else none

def createsAreChanges (group : StageGroup) : Bool := group.creates.all group.changes.contains

def createsHaveLineEstimates (group : StageGroup) : Bool :=
  (group.creates.all fun path => group.createsLines.any fun entry => entry.1 == path) &&
    group.createsLines.all fun entry => group.creates.contains entry.1

def noLivingSpec (group : StageGroup) : Bool :=
  (group.changes ++ group.creates).all fun path => !livingSpecDirectory.isPrefixOf path

def behaviorRules (group : StageGroup) : Bool :=
  group.test.isSome && group.verify.isSome && group.process.isNone &&
    group.changes.any sourceDirectory.isPrefixOf

def otherRules (group : StageGroup) : Bool :=
  group.test.isNone && (group.verify.isSome || group.process.isSome) &&
    !(group.verify.isSome && group.process.isSome)

def kindRules (group : StageGroup) : Bool :=
  if group.kind = .behavior then behaviorRules group else otherRules group

def noChangeFolderWrites (group : StageGroup) : Bool :=
  (group.changes ++ group.creates).all fun path =>
    path != changesDirectory && !(changesDirectory ++ ['/']).isPrefixOf path

def fits (group : StageGroup) : Bool :=
  createsAreChanges group && createsHaveLineEstimates group && noLivingSpec group &&
    kindRules group && noChangeFolderWrites group

def validate (raw : StageGroup) : Option StageGroup := do
  let title ← text raw.title
  let reads ← raw.reads.mapM (repositoryPath printable)
  let changes ← raw.changes.mapM (repositoryPath printable)
  let creates ← raw.creates.mapM (repositoryPath printable)
  let createsLines ← raw.createsLines.mapM (estimate printable)
  let test ← optional sentence raw.test
  let implementation ← sentence raw.implementation
  let documentation ← optional sentence raw.documentation
  let verify ← optional command raw.verify
  let process ← optional process raw.process
  let group : StageGroup :=
    { title, kind := raw.kind, reads, changes, creates, createsLines, test, implementation,
      documentation, verify, process }
  if changes ≠ [] ∧ fits group = true then some group else none

def Accepted (group : StageGroup) : Prop := ∃ raw, validate printable raw = some group

end Schema

inductive CriterionGroup where
  | number (n : Nat)
  | pendingPerson
  deriving DecidableEq

structure StageCriterion where
  criterion : Str
  group : CriterionGroup
  reason : Option Str := none

section Writer

def shown (field : Option Str) : Str := field.getD "None".toList

def ciDocs : Str := "uv run devops ci docs".toList
def regenerateDocuments : Str := "uv run devops docs generate --sync-readme".toList

def verificationLine (command result : Str) : Str :=
  "\n  - Verification: `$ ".toList ++ command ++ "` ".toList ++ result

def testTask (test verify : Str) : Str := test ++ verificationLine verify "fails on the base".toList
def passTask (work verify : Str) : Str := work ++ verificationLine verify "passes".toList
def processTask (work process : Str) : Str :=
  work ++ ", and run this check by hand: ".toList ++ process

def isDocumentPath (word : Str) : Bool :=
  word.contains '/' ||
    (word.rdropWhile Char.isAlpha != word &&
      (word.rdropWhile Char.isAlpha).getLast? == some '.')

def documentWork (documentation : Str) : Str :=
  let parts := (StepFiles.partition [' '] documentation).map fun found => (found.1, ' ' :: found.2)
  let word := (parts.map (·.1)).getD documentation
  let rest := (parts.map (·.2)).getD []
  let path := word.rdropWhile ".,;:".toList.contains
  let name := (path.dropWhile (· == '`')).rdropWhile (· == '`')
  if isDocumentPath name = false then documentation
  else "Edit `".toList ++ name ++ ['`'] ++ (word.drop path.length ++ rest)

def documentsTask (documentation : Str) (changes : List Str) : Str :=
  let work := documentWork documentation
  let regenerate := changes.any fun path => regeneratePrefixes.any (·.isPrefixOf path)
  (if regenerate then work ++ ", and run `".toList ++ regenerateDocuments ++ ['`'] else work) ++
    verificationLine ciDocs "passes".toList

def taskTexts (group : StageGroup) : List Str :=
  (if group.kind = .behavior then
      [testTask (shown group.test) (shown group.verify),
        passTask group.implementation (shown group.verify)]
    else if group.process.isSome then [processTask group.implementation (shown group.process)]
    else [passTask group.implementation (shown group.verify)]) ++
  match group.documentation with
  | none => []
  | some documentation => [documentsTask documentation group.changes]

def paths (names created : List Str) : Str :=
  join ", ".toList (names.map fun path =>
    '`' :: path ++ ['`'] ++ if created.contains path then " (new)".toList else [])

def groupFiles (group : StageGroup) : Str :=
  "Reads: ".toList ++ (if group.reads = [] then "none".toList else paths group.reads []) ++
    ". Changes: ".toList ++ paths group.changes group.creates ++ ['.']

def taskMark (index number : Nat) : Str :=
  "[ ] ".toList ++ digits index ++ ['.'] ++ digits number ++ [' ']

def taskLines (index : Nat) (group : StageGroup) : Str :=
  ((taskTexts group).zipIdx 1).flatMap fun entry =>
    "- ".toList ++ taskMark index entry.2 ++ entry.1 ++ ['\n']

def groupText (index : Nat) (group : StageGroup) : Str :=
  "## ".toList ++ digits index ++ ". ".toList ++ group.title ++ "\n\n".toList ++
    groupFiles group ++ "\n\n".toList ++ taskLines index group

def bullets (lines : List Str) : Str := join ['\n'] (lines.map fun line => "- ".toList ++ strip line)

def criterionLine (entry : StageCriterion) : Str :=
  match entry.group with
  | .pendingPerson =>
    "Pending person: ".toList ++ oneLine entry.criterion ++ ", ".toList ++
      oneLine (entry.reason.getD [])
  | .number n => "Group ".toList ++ digits n ++ ": ".toList ++ oneLine entry.criterion

def criteriaSection (criteria : List StageCriterion) : Str :=
  if criteria = [] then []
  else "## Criteria\n\n".toList ++ bullets (criteria.map criterionLine) ++ "\n\n".toList

def pendingReview : Str :=
  "Pending a person: review the diff in tuicr (tuicr -r <base>..HEAD).".toList

def followUpSection (groups : List StageGroup) : Str :=
  if groups.any fun group => group.changes.any sourceDirectory.isPrefixOf then
    "## Workflow follow-up\n\n- ".toList ++ pendingReview ++ ['\n']
  else []

def tasksFile (groups : List StageGroup) (criteria : List StageCriterion) : Str :=
  let sections := join ['\n'] ((groups.zipIdx 1).map fun entry => groupText entry.2 entry.1)
  let body := "# Tasks\n\n".toList ++ sections ++ ['\n'] ++ criteriaSection criteria ++
    followUpSection groups
  body.rdropWhile (· == '\n') ++ ['\n']

end Writer
end DevopsCli.Implement.StageTasks
