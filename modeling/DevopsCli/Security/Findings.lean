import DevopsCli.Lib.PyStr
import DevopsCli.Lib.LeastFirst

/- The findings of the scanners, security/normalization.py and review/fingerprint.py. The files, the
   parser of Python, the digest and the tables of Unicode come from outside; the limit on the
   digits that Python reads in a number is left out. -/
namespace DevopsCli.Security
open PyStr

structure Outside where
  /-- The text of a file that can be read. -/
  readFile : Str → Option Str
  /-- The innermost definition of a Python text around a line. -/
  enclosingSymbol : Str → Int → Str
  sha256 : Str → Str
  lower : Str → Str
  upper : Str → Str
  /-- The value of a decimal digit. -/
  digit : Char → Option Nat
  isWord : Char → Bool

/-- The value of a rule property: a text, or a list that holds a text at some places. -/
inductive Property where
  | text (value : Str)
  | list (items : List (Option Str))
  | other

structure NormalizedFinding where
  tool : Str
  ruleId : Str
  severity : Str
  message : Str
  path : Str := []
  line : Option Int := none
  symbol : Option Str := none
  description : Str := []
  fix : Str := []
  references : List Str := []
  gating : Bool := true
  toolVersion : Option Str := none
  partialFingerprints : Str → Option Str := fun _ => none
  ruleProperties : Str → Option Property := fun _ => none
  baselineState : Option Str := none
  logicalLocations : List (Str → Option Str) := []
  fileContent : Option Str := none
  occurrenceIndex : Nat := 0
  endLine : Option Int := none
  cwe : Option Str := none

def severityOrder : List Str :=
  ["CRITICAL".toList, "HIGH".toList, "MEDIUM".toList, "LOW".toList, "INFO".toList]

def severityMedium : Str := "MEDIUM".toList

def severityAliases : List (Str × Str) :=
  [("CRITICAL".toList, "CRITICAL".toList), ("BLOCKER".toList, "CRITICAL".toList),
    ("HIGH".toList, "HIGH".toList), ("ERROR".toList, "HIGH".toList),
    ("MEDIUM".toList, "MEDIUM".toList), ("MODERATE".toList, "MEDIUM".toList),
    ("WARNING".toList, "MEDIUM".toList), ("WARN".toList, "MEDIUM".toList),
    ("LOW".toList, "LOW".toList), ("MINOR".toList, "LOW".toList), ("NOTE".toList, "LOW".toList),
    ("INFO".toList, "INFO".toList), ("INFORMATIONAL".toList, "INFO".toList),
    ("UNKNOWN".toList, "INFO".toList), ("NONE".toList, "INFO".toList)]

def sarifFingerprintKey : Str := "devopsCli/v2".toList

def present (text : Option Str) : Option Str := text.filter fun value => !value.isEmpty

def orText (first second : Str) : Str := if first = [] then second else first

section Places
variable (outside : Outside)

def isDigit (c : Char) : Bool := (outside.digit c).isSome

def number (run : Str) : Nat := run.foldl (fun n c => 10 * n + (outside.digit c).getD 0) 0

/-- The letters that a pattern matches without regard to case. -/
def letterL (c : Char) : Bool := c == 'l' || c == 'L'
def letterI (c : Char) : Bool := c == 'i' || c == 'I' || c == 'ı' || c == 'İ'
def letterN (c : Char) : Bool := c == 'n' || c == 'N'
def letterE (c : Char) : Bool := c == 'e' || c == 'E'
def letterS (c : Char) : Bool := c == 's' || c == 'S' || c == 'ſ'

def skipLineWord (text : Str) : Str :=
  match text with
  | l :: i :: n :: e :: rest =>
    if letterL l && letterI i && letterN n && letterE e then
      match rest with
      | s :: more => if letterS s then more.dropWhile isSpace else rest.dropWhile isSpace
      | [] => []
    else text
  | _ => text

def skipL (text : Str) : Str :=
  match text with
  | l :: rest => if letterL l then rest else text
  | [] => []

def leadingNumber (text : Str) : Option (Nat × Str) :=
  let run := text.takeWhile (isDigit outside)
  if run = [] then none else some (number outside run, text.dropWhile (isDigit outside))

def lineSuffix : Str → Option (Nat × Option Nat)
  | [] => none
  | c :: rest =>
    if c == '#' || c == ':' then
      match leadingNumber outside (skipL (skipLineWord (rest.dropWhile isSpace))) with
      | none => none
      | some (first, []) => some (first, none)
      | some (first, more) =>
        match more.dropWhile isSpace with
        | dash :: more =>
          if dash == '-' || dash == '–' || dash == '—' || dash == ':' then
            match leadingNumber outside (skipL (more.dropWhile isSpace)) with
            | some (last, []) => some (first, some last)
            | _ => none
          else none
        | [] => none
    else none

/-- The shortest front of a text whose rest is nothing or names lines; a front holds no newline. -/
def cutLines (front : Str) : Str → Option (Str × Option (Nat × Option Nat))
  | [] => some (front, none)
  | c :: rest =>
    match lineSuffix outside (c :: rest) with
    | some lines => some (front, some lines)
    | none => if c = '\n' then none else cutLines (front ++ [c]) rest

def slashes (text : Str) : Str := text.map fun c => if c = '\\' then '/' else c

def parseLocation (location : Str) : Str × Option Int × Option Int :=
  let loc := strip location
  match cutLines outside [] loc with
  | none => (slashes loc, none, none)
  | some (front, none) => (slashes (strip front), none, none)
  | some (front, some (first, last)) =>
    let last := last.getD first
    (slashes (strip front), some (min first last : Nat), some (max first last : Nat))

def cweAt : Str → Option Nat
  | c :: w :: e :: rest =>
    if (c == 'c' || c == 'C') && (w == 'w' || w == 'W') && letterE e then
      let rest := match rest with
        | s :: more => if s == '-' || s == '_' || s == ':' || s == ' ' then more else rest
        | [] => []
      let run := rest.takeWhile (isDigit outside)
      if run ≠ [] ∧ run.length ≤ 5 ∧ (rest.drop run.length).head?.any outside.isWord = false then
        some (number outside run)
      else none
    else none
  | _ => none

def cweFrom (before : Option Char) : Str → Option Nat
  | [] => none
  | c :: rest =>
    if before.any outside.isWord then cweFrom (some c) rest
    else
      match cweAt outside (c :: rest) with
      | some found => some found
      | none => cweFrom (some c) rest

def cweNumber (text : Str) : Option Nat := cweFrom outside none text

end Places

section Findings
variable (outside : Outside)

def normalizeSeverity (value : Str) : Str :=
  if value = [] then severityMedium
  else (severityAliases.lookup (outside.upper (strip value))).getD severityMedium

def severityRank (severity : Str) : Nat := severityOrder.idxOf (normalizeSeverity outside severity)

def nonSpace (text : Str) : Str := text.filter fun c => !isSpace c

def windowHash (fileContent : Str) (startLine : Int) : Str :=
  let lines := splitlines fileContent
  if 1 ≤ startLine ∧ startLine ≤ lines.length then
    let relevant := join ['\n'] (lines.drop (startLine - 1).toNat)
    (outside.sha256 ((nonSpace relevant).take 100)).take 16
  else []

def fingerprintElements (tool ruleId path : Str) (startLine : Option Int)
    (fileContent enclosingSymbol logicalLocation : Option Str) : List Str :=
  match path, startLine, fileContent, present logicalLocation, present enclosingSymbol with
  | _ :: _, some line, some content, _, enclosing =>
    [strip tool, strip ruleId, strip path,
      (enclosing.map strip).getD (outside.enclosingSymbol content line),
      windowHash outside content line]
  | _, _, _, some logical, _ => [strip tool, strip ruleId, strip logical]
  | _, _, _, none, some enclosing => [strip tool, strip ruleId, strip path, strip enclosing]
  | _, _, _, none, none => [strip tool, strip ruleId, strip path]

def computeFingerprintV2 (tool ruleId path : Str) (startLine : Option Int)
    (fileContent enclosingSymbol logicalLocation : Option Str) (occurrenceIndex : Nat) : Str :=
  let elements :=
    fingerprintElements outside tool ruleId path startLine fileContent enclosingSymbol logicalLocation
  outside.sha256 (join ['␟']
    (if 0 < occurrenceIndex then elements ++ [digits occurrenceIndex] else elements))

namespace NormalizedFinding
variable (finding : NormalizedFinding)

def rank : Nat := severityRank outside finding.severity

def intText (n : Int) : Str := if n < 0 then '-' :: digits n.natAbs else digits n.natAbs

def location : Str :=
  match present finding.symbol, finding.line with
  | some symbol, _ => if finding.path = [] then symbol else finding.path ++ ':' :: symbol
  | none, some line =>
    let lines := match finding.endLine with
      | some last => if last ≠ line then intText line ++ '-' :: intText last else intText line
      | none => intText line
    if finding.path = [] then lines else finding.path ++ ':' :: lines
  | none, none => finding.path

def logicalName : Option Str := present (finding.logicalLocations.head?.bind fun first => first "name".toList)

def content : Option Str :=
  match finding.fileContent with
  | some content => some content
  | none => if finding.path = [] then none else outside.readFile finding.path

def fingerprint : Str :=
  match finding.partialFingerprints sarifFingerprintKey with
  | some given => given
  | none =>
    computeFingerprintV2 outside finding.tool finding.ruleId finding.path finding.line
      (finding.content outside) finding.symbol ((present finding.symbol).or finding.logicalName)
      finding.occurrenceIndex

def locator : Str := ((present finding.symbol).or finding.logicalName).getD finding.path

def region : Option (Option Int × Option Int) :=
  finding.line.map fun start => (some start, some (finding.endLine.getD start))

end NormalizedFinding

def iterStrings : Option Property → List Str
  | some (.text value) => [value]
  | some (.list items) => items.filterMap id
  | _ => []

def cweCandidates (finding : NormalizedFinding) : List Str :=
  iterStrings (finding.ruleProperties "cwe".toList) ++
    iterStrings (finding.ruleProperties "tags".toList) ++ finding.references ++
    [finding.ruleId, finding.message]

def cweText (n : Nat) : Str := "CWE-".toList ++ digits n

def extractCwe (finding : NormalizedFinding) : Option Str :=
  match present finding.cwe with
  | some cwe => some (((cweNumber outside cwe).map cweText).getD (outside.upper cwe))
  | none => ((cweCandidates finding).findSome? (cweNumber outside)).map cweText

def correlationKey (finding : NormalizedFinding) :
    Str × Option (Option Int × Option Int) × Option Str :=
  (finding.locator, finding.region, extractCwe outside finding)

def placeKey (finding : NormalizedFinding) : Str × Int × Int :=
  let (file, startLine, lastLine) := parseLocation outside finding.location
  let start := (startLine.or finding.line).getD (-1)
  (outside.lower (orText file finding.path), start, (lastLine.or finding.endLine).getD start)

abbrev TotalKey := Str ×ₗ Int ×ₗ Int ×ₗ Str ×ₗ Str ×ₗ Str

def totalFindingKey (finding : NormalizedFinding) : TotalKey :=
  let (path, start, last) := placeKey outside finding
  toLex (path, toLex (start, toLex (last, toLex (finding.ruleId, toLex (finding.tool,
    finding.fingerprint outside)))))

theorem fingerprint_of_key {first second : NormalizedFinding}
    (same : totalFindingKey outside first = totalFindingKey outside second) :
    first.fingerprint outside = second.fingerprint outside := by
  simp only [totalFindingKey, toLex_inj, Prod.mk.injEq] at same
  exact same.2.2.2.2.2

end Findings
end DevopsCli.Security
