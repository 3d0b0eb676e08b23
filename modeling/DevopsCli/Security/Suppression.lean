import DevopsCli.Lib.DepthFirst
import DevopsCli.Security.Findings

/- The suppression policies, security/suppression.py: the rules of one file, and the loading of a
   file with everything that it extends. The files, the parser of YAML, the dates and the patterns
   of paths come from outside. A date stands for its ordinal, a file for the text of its resolved
   path. -/
namespace DevopsCli.Security.Suppression
open PyStr

inductive Yaml where
  | null
  | scalar (text : Str) (truthy : Bool)
  | str (value : Str)
  | date (ordinal : Nat)
  | list (items : List Yaml)
  | dict (entries : List (Str × Yaml))

structure Files where
  readText : Str → Except Str Str
  safeLoad : Str → Except Str Yaml
  /-- str(value) of what is no text. -/
  text : Yaml → Str
  fromisoformat : Str → Option Nat
  fnmatch : Str → Str → Bool
  /-- (resolved.parent / parent).resolve() -/
  parentPath : Str → Str → Str

structure SuppressionPolicyError where
  message : Str
  deriving DecidableEq

structure SuppressionRule where
  rule : Str := ['*']
  paths : List Str := [['*']]
  tools : List Str := [['*']]
  fingerprint : Option Str := none
  reason : Str := []
  expires : Option Nat := none
  source : Str := []
  deriving DecidableEq

structure SuppressionPolicy where
  rules : List SuppressionRule := []
  sources : List Str := []
  deriving DecidableEq

def SuppressionPolicy.extend (policy inherited : SuppressionPolicy) : SuppressionPolicy where
  rules := policy.rules ++ inherited.rules
  sources := policy.sources ++ inherited.sources

def maxInheritanceDepth : Nat := 10

section Matching
variable (files : Files) (world : Outside)

def anyMatch (patterns : List Str) (value : Str) : Bool :=
  patterns.any fun pattern => files.fnmatch value pattern

def SuppressionRule.isExpired (rule : SuppressionRule) (today : Nat) : Bool :=
  match rule.expires with
  | none => false
  | some expires => expires < today

def SuppressionRule.hits (rule : SuppressionRule) (finding : NormalizedFinding) (today : Nat) : Bool :=
  if rule.isExpired today then false
  else
    match rule.fingerprint with
    | some fingerprint => fingerprint == finding.fingerprint world
    | none =>
      anyMatch files rule.tools finding.tool && anyMatch files [rule.rule] finding.ruleId &&
        anyMatch files rule.paths finding.path

def SuppressionPolicy.suppresses (policy : SuppressionPolicy) (finding : NormalizedFinding)
    (today : Nat) : Option SuppressionRule :=
  policy.rules.find? fun rule => rule.hits files world finding today

def SuppressionPolicy.apply (policy : SuppressionPolicy) (findings : List NormalizedFinding)
    (today : Nat) : List NormalizedFinding × List (NormalizedFinding × SuppressionRule) :=
  findings.foldl (fun (kept, suppressed) finding =>
    match policy.suppresses files world finding today with
    | none => (kept ++ [finding], suppressed)
    | some rule => (kept, suppressed ++ [(finding, rule)])) ([], [])

end Matching

section Parsing
variable (files : Files)

def pyText : Yaml → Str
  | .str value => value
  | value => files.text value

def getKey (entries : List (Str × Yaml)) (key : String) : Yaml := (entries.lookup key.toList).getD .null

def asTuple (value : Yaml) (default : List Str) : List Str :=
  match value with
  | .str value => [value]
  | .list items => items.map (pyText files)
  | _ => default

def dateMin : Nat := 1

def asDate : Yaml → Option Nat
  | .null => none
  | .date ordinal => some ordinal
  | value => some ((files.fromisoformat (strip (pyText files value))).getD dateMin)

def parseRule (source : Str) : Yaml → Except SuppressionPolicyError SuppressionRule
  | .dict entry =>
    .ok
      { rule := ((entry.lookup "rule".toList).map (pyText files)).getD ['*']
        paths := asTuple files (getKey entry "paths") [['*']]
        tools := asTuple files (getKey entry "tools") [['*']]
        fingerprint :=
          match getKey entry "fingerprint" with
          | .null => none
          | value => some (pyText files value)
        reason := ((entry.lookup "reason".toList).map (pyText files)).getD []
        expires := asDate files (getKey entry "expires")
        source }
  | _ => .error ⟨"'".toList ++ source ++ "': each suppression must be a mapping".toList⟩

def parseRules (document : List (Str × Yaml)) (source : Str) :
    Except SuppressionPolicyError (List SuppressionRule) :=
  match getKey document "suppressions" with
  | .null => .ok []
  | .list entries => entries.mapM (parseRule files source)
  | _ => .error ⟨"'".toList ++ source ++ "': 'suppressions' must be a list".toList⟩

/-- The document of a file. One that is false stands for no entries. -/
def loadDocument (path : Str) : Except SuppressionPolicyError (List (Str × Yaml)) :=
  match files.readText path with
  | .error reason =>
    .error ⟨"Cannot read suppression policy '".toList ++ path ++ "': ".toList ++ reason⟩
  | .ok raw =>
    match files.safeLoad raw with
    | .error reason => .error ⟨"'".toList ++ path ++ "' is not valid YAML: ".toList ++ reason⟩
    | .ok (.dict entries) => .ok entries
    | .ok .null | .ok (.scalar _ false) | .ok (.str []) | .ok (.list []) => .ok []
    | .ok _ => .error ⟨"'".toList ++ path ++ "': policy must be a mapping".toList⟩

def readPolicy (path : Str) : Except SuppressionPolicyError (List SuppressionRule × List Str) := do
  let document ← loadDocument files path
  let rules ← parseRules files document path
  pure (rules, (asTuple files (getKey document "extends") []).map (files.parentPath path))

/-- The loop over the parents of one file. A parent that is loaded is skipped. -/
def inherit (load : Str → List Str → Except SuppressionPolicyError (SuppressionPolicy × List Str)) :
    List Str → SuppressionPolicy → List Str →
      Except SuppressionPolicyError (SuppressionPolicy × List Str)
  | [], policy, loaded => .ok (policy, loaded)
  | parent :: rest, policy, loaded =>
    if parent ∈ loaded then inherit load rest policy loaded
    else
      match load parent loaded with
      | .error error => .error error
      | .ok (inherited, loaded) => inherit load rest (policy.extend inherited) loaded

/-- The first number counts the levels that are left, this file included. The files that are loaded
    stand in the order of their loading. -/
def loadPolicy : Nat → Str → List Str →
    Except SuppressionPolicyError (SuppressionPolicy × List Str)
  | 0, path, _ =>
    .error ⟨"Suppression policy inheritance exceeded ".toList ++ digits maxInheritanceDepth ++
      " levels at '".toList ++ path ++ "'".toList⟩
  | levels + 1, path, loaded =>
    match readPolicy files path with
    | .error error => .error error
    | .ok (rules, parents) =>
      inherit (loadPolicy levels) parents ⟨rules, [path]⟩ (loaded ++ [path])

end Parsing
end DevopsCli.Security.Suppression
