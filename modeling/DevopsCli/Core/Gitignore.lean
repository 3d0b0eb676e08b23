import DevopsCli.Lib.PyLines
import DevopsCli.Lib.PyPath
import DevopsCli.Lib.LastRule

/- The ignore rules of a repository without git, core/gitignore.py, with an index that is fresh. What
   a line of an ignore file means and how one pattern matches come from pathspec. Paths are their
   parts below the root of the repository, and a directory is told by a flag, not by a slash. -/
namespace DevopsCli.Core.Gitignore
open PyStr

/-- The library of patterns. It matches a pattern with all that git does and with all that is below,
    and it may refuse a line. -/
structure Pathspec (Pattern : Type*) where
  read : Str → Option Pattern
  refuses : Str → Bool
  negated : Pattern → Bool
  matchFile : Pattern → List Str → Bool → Bool
  /-- Whether git matches the pattern with a path, which is a directory or not. -/
  hits : Pattern → List Str → Bool → Bool
  below : ∀ pattern path isDir, matchFile pattern path isDir = true ↔
    hits pattern path isDir = true ∨
      ∃ above, above ≠ [] ∧ above <+: path ∧ above ≠ path ∧ hits pattern above true = true
  spaces : ∀ line, (∀ c ∈ line, c = ' ') → read line = none

structure Repo where
  exclude : Option Str
  ignoreFile : List Str → Option Str
  isDir : List Str → Bool

def universalNewlines : Str → Str
  | [] => []
  | '\r' :: '\n' :: rest => '\n' :: universalNewlines rest
  | c :: rest => (if c = '\r' then '\n' else c) :: universalNewlines rest

def loadPatterns (file : Option Str) : List Str :=
  match file with
  | none => []
  | some raw =>
    ((splitlines (universalNewlines raw)).map fun rawLine => rawLine.rdropWhile (· == '\n')).filter
      fun line => !(strip line).isEmpty

section Index
variable {Pattern : Type*} (pathspec : Pathspec Pattern)

def compile (patterns : List Str) : Option (List Pattern) :=
  if patterns = [] then none
  else if patterns.any pathspec.refuses = true then none
  else some (patterns.filterMap pathspec.read)

def freshSpec (file : Option Str) : Option (List Pattern) := compile pathspec (loadPatterns file)

def checkFile (spec : List Pattern) (candidate : List Str) (isDir : Bool) : Option Bool :=
  LastRule.decision (fun pattern => pathspec.matchFile pattern candidate isDir)
    (fun pattern => !pathspec.negated pattern) spec

def relativeTo (base target : List Str) : Option (List Str) :=
  if base.isPrefixOf target then some (target.drop base.length) else none

def matchSpec (spec : List Pattern) (target base : List Str) (isDir : Bool)
    (current : Option Bool) : Option Bool :=
  match relativeTo base target with
  | none => current
  | some [] => current
  | some (part :: rest) => (checkFile pathspec spec (part :: rest) isDir).or current

def verdict (scope : List (List Pattern × List Str)) (target : List Str) (isDir : Bool) :
    Option Bool :=
  scope.foldl (fun current entry => matchSpec pathspec entry.1 target entry.2 isDir current) none

/-- An ignore file in scope, if it has rules. -/
def inScope (file : Option Str) (base : List Str) : List (List Pattern × List Str) :=
  ((freshSpec pathspec file).map fun spec => (spec, base)).toList

def descend (repo : Repo) (isDir : Bool) (scope : List (List Pattern × List Str))
    (current : List Str) : List Str → Bool
  | [] => false
  | [leaf] => verdict pathspec scope (current ++ [leaf]) isDir == some true
  | part :: rest =>
    if verdict pathspec scope (current ++ [part]) true = some true then true
    else
      descend repo isDir
        (scope ++ inScope pathspec (repo.ignoreFile (current ++ [part])) (current ++ [part]))
        (current ++ [part]) rest

inductive Target where
  | absolute (parts : List Str)
  | relative (parts : List Str)

def Target.parts (root : List Str) : Target → List Str
  | absolute parts => parts
  | relative parts => root ++ parts

def relative (root target : List Str) : Option (List Str) :=
  relativeTo root (target.foldl (PyPath.normStep true) [])

def isIgnored (repo : Repo) (root : List Str) (target : Target) (isDir : Option Bool) : Bool :=
  match relative root (target.parts root) with
  | none => false
  | some parts =>
    descend pathspec repo (isDir.getD (repo.isDir parts))
      (inScope pathspec repo.exclude [] ++ inScope pathspec (repo.ignoreFile []) []) [] parts

end Index
end DevopsCli.Core.Gitignore
