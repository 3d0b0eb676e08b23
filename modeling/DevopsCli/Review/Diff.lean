import DevopsCli.Lib.PyLines
import DevopsCli.Lib.PyWords
import DevopsCli.Lib.PyDigits

/- The line numbers of a diff and its added lines, review/diff.py. The digits of Unicode come from
   outside. -/
namespace DevopsCli.Review.Diff
open PyStr

def linesWithEnds : Str → List Str
  | [] => []
  | '\n' :: rest => ['\n'] :: linesWithEnds rest
  | c :: rest =>
    match linesWithEnds rest with
    | [] => [[c]]
    | line :: lines => (c :: line) :: lines

def after (start : Str) (text : Str) : Option Str :=
  if start.isPrefixOf text then some (text.drop start.length) else none

section Reader
variable (decimals : Decimals)

def hunkCount (text : Str) : Option Nat × Str :=
  match text with
  | ',' :: rest =>
    match decimals.leading rest with
    | some (count, rest) => (some count, rest)
    | none => (none, text)
  | _ => (none, text)

structure HunkHeader where
  oldCount : Option Nat
  newStart : Nat
  newCount : Option Nat

def hunkHeader (line : Str) : Option HunkHeader :=
  (after "@@ -".toList line).bind fun rest =>
  (decimals.leading rest).bind fun old =>
  let oldCount := hunkCount decimals old.2
  (after " +".toList oldCount.2).bind fun rest =>
  (decimals.leading rest).bind fun new =>
  let newCount := hunkCount decimals new.2
  (after " @@".toList newCount.2).map fun _ => ⟨oldCount.1, new.1, newCount.1⟩

structure Counters where
  newNo : Nat := 0
  oldLeft : Int := 0
  newLeft : Int := 0

def isMarker (c : Char) : Bool := c == ' ' || c == '+' || c == '-' || c == '\\'

/-- One line of the numbering: the counters after it and what is written of it. -/
def numberLine (counters : Counters) (line : Str) : Counters × Str :=
  if (0 < counters.oldLeft ∨ 0 < counters.newLeft) ∧ line.head?.any isMarker = true then
    if line.head? = some '-' then
      ({ counters with oldLeft := counters.oldLeft - 1 }, '\t' :: line)
    else if line.head? = some '\\' then (counters, '\t' :: line)
    else
      ({ newNo := counters.newNo + 1
         oldLeft := counters.oldLeft - (if line.head? = some ' ' then 1 else 0)
         newLeft := counters.newLeft - 1 },
        digits counters.newNo ++ '\t' :: line)
  else
    match hunkHeader decimals line with
    | some header =>
      ({ newNo := header.newStart
         oldLeft := header.oldCount.getD 1
         newLeft := header.newCount.getD 1 }, line)
    | none => (counters, line)

def numberLines (counters : Counters) : List Str → List Str
  | [] => []
  | line :: rest =>
    (numberLine decimals counters line).2 :: numberLines (numberLine decimals counters line).1 rest

def numberDiffLines (diff : Str) : Str := (numberLines decimals {} (linesWithEnds diff)).flatten

def numberColumn (line : Str) : Option (Str × Str) :=
  match line.dropWhile decimals.isDigit with
  | '\t' :: rest => some (line.takeWhile decimals.isDigit, rest)
  | _ => none

def stripColumn (line : Str) : Str := ((numberColumn decimals line).map (·.2)).getD line

def stripLineNumbers (text : Str) : Str := (linesWithEnds text).flatMap (stripColumn decimals)

def before (separator : Str) : Str → Str
  | [] => []
  | c :: rest => if separator.isPrefixOf (c :: rest) then [] else c :: before separator rest

def removePrefix (start text : Str) : Str := (after start text).getD text

def headerFilename (line : Str) : Option Str :=
  if "diff --git ".toList.isPrefixOf line then
    ((words line)[3]?).map (removePrefix "b/".toList)
  else
    match after "### File: ".toList line with
    | some rest =>
      let name := strip (before " (part ".toList rest)
      if name = [] then none else some name
    | none => none

/-- The path that a header names, or the path before it. -/
def resolveDiffPath (line : Str) (path : Option Str) : Option Str :=
  match headerFilename line with
  | some (c :: name) => some (c :: name)
  | _ =>
    match after "+++ b/".toList line with
    | some rest => some (strip rest)
    | none => path

def truthy (path : Option Str) : Option Str := path.filter fun name => !name.isEmpty

def isAdded (line : Str) : Bool := ['+'].isPrefixOf line && !"+++".toList.isPrefixOf line

def parseNumberedDiffLine (line : Str) (path : Option Str) : Option (Str × Nat) :=
  match numberColumn decimals line with
  | none => none
  | some (run, content) =>
    if run ≠ [] ∧ isAdded content = true then
      (truthy path).map fun name => (name, decimals.number run)
    else none

def stepRawDiffLine (line : Str) (path : Option Str) (current : Nat) : Nat × Option (Str × Nat) :=
  match hunkHeader decimals line with
  | some header => (header.newStart, none)
  | none =>
    if isAdded line = true then
      (current + 1, if 0 < current then (truthy path).map fun name => (name, current) else none)
    else (if line.head? = some ' ' ∨ line = [] then current + 1 else current, none)

structure Extraction where
  path : Option Str
  current : Nat := 0
  added : List (Str × Nat) := []

def stripReturns (line : Str) : Str := (line.dropWhile (· == '\r')).rdropWhile (· == '\r')

def extractLine (state : Extraction) (rawLine : Str) : Extraction :=
  let line := stripReturns rawLine
  let path := resolveDiffPath line state.path
  if path ≠ state.path then { state with path := path, current := 0 }
  else
    match parseNumberedDiffLine decimals line state.path with
    | some coord => { state with added := state.added ++ [coord] }
    | none =>
      let step := stepRawDiffLine decimals line state.path state.current
      { state with current := step.1, added := state.added ++ step.2.toList }

def extractAddedDiffLines (diff : Str) (defaultPath : Option Str) : List (Str × Nat) :=
  ((splitlines diff).foldl (extractLine decimals) { path := defaultPath }).added

end Reader
end DevopsCli.Review.Diff
