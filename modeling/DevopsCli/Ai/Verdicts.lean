import DevopsCli.Lib.PyStr

/- The verdicts on review findings, ai/review/verdicts.py, and the two session files that a person's
   verdict changes, ai/review/adjudication.py. Upper and lower case come from outside. -/
namespace DevopsCli.Ai.Review
open PyStr

inductive FindingState where
  | open_
  | suppressed
  | fixed
  | confirmed
  deriving DecidableEq, Repr

structure VerdictFields where
  status : Str := "UNVERIFIED".toList
  verified : Bool := false
  reportable : Bool := true
  mitigated : Bool := false
  verifiedBy : Option Str := none
  verifiedAt : Option Str := none
  invalidationReason : Option Str := none
  citationLine : Option Int := none
  mitigatingMechanism : Option Str := none
  state : FindingState := .open_
  confirmedBy : Option Str := none
  deriving DecidableEq

structure SavedFinding where
  fingerprint : Str
  location : Str
  title : Str
  fields : VerdictFields := {}
  -- The number of the candidate that a verdict moved into findings.json.
  movedFromCandidate : Option Int := none
  deriving DecidableEq

structure Verdict where
  status : Str
  reason : Str := []

inductive Refusal where
  | validation (field message : Str)
  | value (message : Str)
  | assertion (message : Str)
  | state (message : Str)
  deriving DecidableEq

structure Casing where
  lower : Str → Str
  upper : Str → Str

def human : Str := "human".toList

def blank (text : Option Str) : Bool := strip (text.getD []) = []

def isFingerprintV2 (value : Str) : Bool :=
  value.length = 64 && value.all fun c => ('0' ≤ c && c ≤ '9') || ('a' ≤ c && c ≤ 'f')

def validStatuses : List Str :=
  ["VERIFIED".toList, "INVALIDATED".toList, "MITIGATED".toList, "UNVERIFIED".toList]

def reportedVerdicts : List Str := ["VERIFIED".toList, "MITIGATED".toList]

def buildVerdictUpdates (status : Str) (by_ reason : Option Str) (now : Str)
    (citationLine : Option Int) (mitigatingMechanism : Option Str) (fields : VerdictFields) :
    Except Refusal VerdictFields :=
  if status = "INVALIDATED".toList then
    .ok { fields with
      status := status, verified := false, reportable := false, mitigated := false,
      verifiedBy := by_, verifiedAt := some now, invalidationReason := reason,
      citationLine := citationLine, mitigatingMechanism := mitigatingMechanism }
  else if status = "VERIFIED".toList then
    if blank by_ then
      .error (.value "VERIFIED status requires a non-empty verified_by adjudicator".toList)
    else
      .ok { fields with
        status := status, verified := true, reportable := true, mitigated := false,
        verifiedBy := by_, verifiedAt := some now, invalidationReason := none,
        citationLine := citationLine }
  else if status = "UNVERIFIED".toList then
    .ok { fields with
      status := status, verified := false, reportable := true, mitigated := false,
      verifiedBy := none, verifiedAt := none, invalidationReason := reason,
      citationLine := citationLine }
  else
    .ok { fields with
      status := "MITIGATED".toList, verified := false, reportable := true, mitigated := true,
      verifiedBy := by_, verifiedAt := some now, invalidationReason := reason,
      citationLine := citationLine, mitigatingMechanism := mitigatingMechanism }

def resolveFindingStateUpdates (fingerprint status : Str) (by_ : Option Str)
    (fields : VerdictFields) : VerdictFields :=
  if status ∈ reportedVerdicts ∧ by_ = some human ∧ isFingerprintV2 fingerprint then
    { fields with state := .confirmed, confirmedBy := some human }
  else if status = "UNVERIFIED".toList ∨ status = "INVALIDATED".toList then
    { fields with state := .open_, confirmedBy := none }
  else fields

def violated (message : String) (title : Str) : Except Refusal Unit :=
  .error (.assertion ("Invariant violation: ".toList ++ message.toList ++ ": ".toList ++ title))

def assertVerdictInvariants (casing : Casing) (finding : SavedFinding) : Except Refusal Unit :=
  let fields := finding.fields
  let status := strip (casing.upper fields.status)
  if status = "INVALIDATED".toList then
    if fields.reportable || fields.verified then
      violated "INVALIDATED finding must be neither reportable nor verified" finding.title
    else if fields.mitigated then
      violated "INVALIDATED finding cannot have mitigated=True" finding.title
    else .ok ()
  else if status = "VERIFIED".toList then
    if !fields.verified then violated "VERIFIED finding must have verified=True" finding.title
    else if fields.verifiedBy.getD [] = [] then
      violated "VERIFIED finding requires non-empty verified_by" finding.title
    else .ok ()
  else if status = "UNVERIFIED".toList then
    if fields.verified then violated "UNVERIFIED finding must have verified=False" finding.title
    else if fields.verifiedBy ≠ none then
      violated "UNVERIFIED finding must have verified_by=None" finding.title
    else .ok ()
  else if status = "MITIGATED".toList then
    if !fields.reportable then violated "MITIGATED finding must stay reportable" finding.title
    else .ok ()
  else .ok ()

/-- The checks of a state. A saved finding has no suppression reason and no inline marker. -/
def assertFindingStateInvariants (fields : VerdictFields) : Except Refusal Unit :=
  match fields.state with
  | .suppressed => .error (.state
      "SUPPRESSED finding must record a suppression reason or inline marker".toList)
  | .confirmed =>
    if blank fields.confirmedBy then
      .error (.state "CONFIRMED finding must record who confirmed it".toList)
    else .ok ()
  | .open_ =>
    if fields.confirmedBy.getD [] ≠ [] then
      .error (.state "OPEN finding cannot record confirmed_by".toList)
    else .ok ()
  | .fixed => .ok ()

def applyVerdict (casing : Casing) (finding : SavedFinding) (status : Str) (by_ reason : Option Str)
    (mitigatingMechanism : Option Str) (now : Str) : Except Refusal SavedFinding := do
  let normStatus := strip (casing.upper status)
  if normStatus ∉ validStatuses then
    throw (.value ("Invalid finding status: ".toList ++ status))
  let built ← buildVerdictUpdates normStatus by_ reason now none mitigatingMechanism finding.fields
  let updated := { finding with
    fields := resolveFindingStateUpdates finding.fingerprint normStatus by_ built }
  assertVerdictInvariants casing updated
  assertFindingStateInvariants updated.fields
  return updated

def verdictReason (fields : VerdictFields) (status reason : Str) : Str :=
  if reason ≠ [] then reason
  else if fields.invalidationReason.getD [] ≠ [] then fields.invalidationReason.getD []
  else if fields.mitigatingMechanism.getD [] ≠ [] then fields.mitigatingMechanism.getD []
  else if status = "MITIGATED".toList then "Mitigated".toList
  else []

def recordVerdict (casing : Casing) (finding : SavedFinding) (verdict : Verdict) (now : Str) :
    Except Refusal SavedFinding :=
  let reason := verdictReason finding.fields verdict.status verdict.reason
  applyVerdict casing finding verdict.status
    (if verdict.status = "UNVERIFIED".toList then none else some human) (some reason)
    (if verdict.status = "MITIGATED".toList then some reason else none) now

def numberedFinding (findings : List SavedFinding) (number : Int) (field : String) :
    Except Refusal SavedFinding :=
  match findings[(number - 1).toNat]? with
  | some finding => if 1 ≤ number then .ok finding else .error outOfBounds
  | none => .error outOfBounds
where
  outOfBounds : Refusal := .validation field.toList
    ("Index out of bounds (1-".toList ++ digits findings.length ++ ")".toList)

def identity (casing : Casing) (finding : SavedFinding) : Str × Str :=
  (casing.lower (strip finding.fingerprint), casing.lower (strip finding.location))

def candidatesOf (casing : Casing) (candidates : List SavedFinding) (finding : SavedFinding) :
    List Nat :=
  match finding.movedFromCandidate with
  | some moved => if 1 ≤ moved ∧ moved ≤ candidates.length then [moved.toNat] else []
  | none => (List.range' 1 candidates.length).filter fun n =>
      (candidates[n - 1]?).map (identity casing) = some (identity casing finding)

def copiesOf (casing : Casing) (candidates : List SavedFinding) (number : Nat)
    (reported : List SavedFinding) : List Nat :=
  (List.range reported.length).filter fun i =>
    ((reported[i]?).map fun f => decide (number ∈ candidatesOf casing candidates f)).getD false

def candidateCopyAmbiguous (number : Nat) (candidates : List Nat) : Refusal :=
  .validation "candidate".toList
    ("Finding #".toList ++ digits number ++ " in findings.json reports candidates ".toList ++
      join ", ".toList (candidates.map fun n => '#' :: digits n) ++
      ", which share a persona, title, location and description; give the verdict there with ".toList ++
      "--index ".toList ++ digits number ++ ", which records it on each.".toList)

def copyOf (casing : Casing) (candidates : List SavedFinding) (number : Nat)
    (reported : List SavedFinding) : Except Refusal (Option Nat) :=
  match copiesOf casing candidates number reported with
  | [] => .ok none
  | first :: rest =>
    let shared := ((first :: rest).flatMap fun i =>
      ((reported[i]?).map (candidatesOf casing candidates)).getD []).dedup.mergeSort
    if rest ≠ [] ∨ 1 < shared.length then .error (candidateCopyAmbiguous (first + 1) shared)
    else .ok (some first)

def mirrored (target judged : SavedFinding) : SavedFinding := { target with fields := judged.fields }

def mirrorAll (pool : List SavedFinding) (mirrors : List Nat) (judged : SavedFinding) :
    List SavedFinding :=
  mirrors.foldl (fun pool n => pool.modify (n - 1) fun target => mirrored target judged) pool

def judgeReported (casing : Casing) (reported : List SavedFinding)
    (candidates : Option (List SavedFinding)) (number : Int) (verdict : Verdict) (now : Str) :
    Except Refusal (List SavedFinding × Option (List SavedFinding)) := do
  let finding ← numberedFinding reported number "index"
  let mirrors := candidatesOf casing (candidates.getD []) finding
  let judged ← recordVerdict casing finding verdict now
  return (reported.set (number - 1).toNat judged,
    candidates.map fun pool => mirrorAll pool mirrors judged)

/-- The two files, and whether the candidate moved into findings.json. -/
def judgeCandidate (casing : Casing) (candidates reported : List SavedFinding) (number : Int)
    (verdict : Verdict) (now : Str) :
    Except Refusal (List SavedFinding × List SavedFinding × Bool) := do
  let candidate ← numberedFinding candidates number "candidate"
  let copyAt ← copyOf casing candidates number.toNat reported
  let judged ← recordVerdict casing candidate verdict now
  let candidates := candidates.set (number - 1).toNat judged
  match copyAt with
  | some i => return (candidates, reported.modify i fun target => mirrored target judged, false)
  | none =>
    if judged.fields.status ∉ reportedVerdicts then return (candidates, reported, false)
    else
      return (candidates, reported ++ [{ judged with movedFromCandidate := some number }], true)

end DevopsCli.Ai.Review
