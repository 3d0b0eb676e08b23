import DevopsCli.Lib.PyPath
import DevopsCli.Lib.LeastFirst
import DevopsCli.Implement.StageTasks
import DevopsCli.Implement.ShellPolicy

/- The paths of a plan against the files of the staged commit, roadmap/stage/stage_paths.py. The code
   spans that markdown-it reads in a text and the word characters and digits of Unicode come from
   outside. -/
namespace DevopsCli.Roadmap.StagePaths
open PyStr PyPath LeastFirst
open Implement.StageTasks (StageGroup changesDirectory)

structure Reading where
  codeSpans : Str → List Str
  isWord : Char → Bool
  isDigit : Char → Bool

inductive Place where
  | reads | changes | task | verify
  deriving DecidableEq

def Place.number : Place → Nat
  | .reads => 0
  | .changes => 1
  | .task => 2
  | .verify => 3

def Place.text : Place → Str
  | .reads => "`reads`".toList
  | .changes => "`changes`".toList
  | .task => "a task".toList
  | .verify => "`verify`".toList

def sameNameMax : Nat := 5

def rstripSlash (path : Str) : Str := path.rdropWhile (· == '/')

def changeFolderPaths (paths : List Str) : List Str :=
  paths.filter fun path => path == changesDirectory || (changesDirectory ++ ['/']).isPrefixOf path

structure StagedTree where
  files : List Str

namespace StagedTree
variable (tree : StagedTree)

def folders : List Str := tree.files.flatMap foldersOf
def suffixes : List Str := (tree.files.map suffix).filter (· ≠ [])
def tops : List Str := tree.files.map fun path => path.takeWhile (· != '/')

def withFiles (paths : List Str) : StagedTree := ⟨tree.files ++ paths⟩

/-- Whether the tree holds the file or the folder, or a file that a glob matches. -/
def has (path : Str) : Bool :=
  let path := rstripSlash path
  decide (path ∈ tree.files) || decide (path ∈ tree.folders) ||
    (hasMagic path && tree.files.any fun file => fnmatchcase file path)

def hasFolder (path : Str) : Bool := decide (rstripSlash path ∈ tree.folders)

def sameName (path : Str) : List Str :=
  ((sortBy id (noted [] tree.files)).filter fun file => name file == name path).take sameNameMax

variable (reading : Reading)

def cutLocation : Str → Str
  | [] => []
  | c :: rest =>
    if c = ':' ∧ (rest.head? = some ':' ∨ endsLocation rest) then [] else c :: cutLocation rest
where
  endsLocation (rest : Str) : Bool :=
    let first := rest.takeWhile reading.isDigit
    let after := rest.dropWhile reading.isDigit
    !first.isEmpty && match after with
      | [] => true
      | dash :: last => dash == '-' && !last.isEmpty && last.all reading.isDigit

def isWordPath (word : Str) : Bool :=
  let parts := word.splitOn '/'
  let parts := if parts.getLast? = some [] then parts.dropLast else parts
  !parts.isEmpty && parts.all fun part =>
    !part.isEmpty && part.all fun c => reading.isWord c || ".@+-".toList.contains c

def asPath (word : Str) : Option Str :=
  let word := cutLocation reading word
  if word.head? = some '-' ∨ isWordPath reading word = false then none
  else
    let path := normpath word
    if '/' ∉ path ∨ "../".toList.isPrefixOf path then none
    else if suffix path ∈ tree.suffixes ∨ path.takeWhile (· != '/') ∈ tree.tops then some path
    else none

def pathsIn (text : Str) : List Str := (words text).filterMap (tree.asPath reading)

def codeSpanPaths (text : Str) : List Str := (reading.codeSpans text).flatMap (tree.pathsIn reading)

end StagedTree

def keepSlash (path : Str) : Str := normpath path ++ if path.getLast? = some '/' then ['/'] else []

section Named
variable (reading : Reading) (tree : StagedTree)

def verifyPaths (verify : Str) : List Str :=
  match shlexSplit verify with
  | none => tree.pathsIn reading verify
  | some words =>
    if words.head? = some Implement.ShellPolicy.negativeSearchWord then
      match Implement.ShellPolicy.readNegativeSearch words with
      | .ok found => (found.paths.filter fun path => normpath path != ['.']).map keepSlash
      | .error _ => tree.pathsIn reading verify
    else tree.pathsIn reading verify

def named (group : StageGroup) : List (Place × Str) :=
  group.reads.map (Place.reads, ·) ++ group.changes.map (Place.changes, ·) ++
    ([group.test, some group.implementation, group.documentation, group.process].flatMap
      fun text => (tree.codeSpanPaths reading (text.getD [])).map (Place.task, ·)) ++
    (verifyPaths reading tree (group.verify.getD [])).map (Place.verify, ·)

/-- A sentence of the check: a path of the change folder, or a path that is missing, with the group
    and the place that name it, the later group that creates it and the files of its name. -/
inductive Problem where
  | changeFolder (path : Str)
  | missing (number : Nat) (place : Place) (path : Str) (later : Option Nat) (same : List Str)

def Problem.path : Problem → Str
  | .changeFolder path => path
  | .missing _ _ path _ _ => path

def Problem.text : Problem → Str
  | .changeFolder path =>
    ['`'] ++ path ++ ("` is the change folder or a path under it. A task group must not change or " ++
      "create `openspec/changes` or a path under it.").toList
  | .missing number place path (some later) _ =>
    "Group ".toList ++ digits number ++ " names `".toList ++ path ++ "` in ".toList ++ place.text ++
      ". The staged commit has no such file, and group ".toList ++ digits later ++
      " creates it after group ".toList ++ digits number ++ ". Move group ".toList ++ digits later ++
      " before group ".toList ++ digits number ++ ", or move the work that needs `".toList ++ path ++
      "` into group ".toList ++ digits later ++ " or a group after it.".toList
  | .missing number place path none same =>
    "Group ".toList ++ digits number ++ " names `".toList ++ path ++ "` in ".toList ++ place.text ++
      ". The staged commit has no such file, and no group up to group ".toList ++ digits number ++
      (" creates it. Name a file that exists. In a stage reply, make the group that creates it " ++
        "list it in `creates`. In a change folder, add the ` (new)` mark to the path on the " ++
        "`Changes:` line of `tasks.md`. ").toList ++
      if same = [] then "No file has this name.".toList
      else "These files have the same name: ".toList ++
        join ", ".toList (same.map fun name => ['`'] ++ name ++ ['`']) ++ ['.']

def setDefault (path : Str) (number : Nat) (first : List (Str × Nat)) : List (Str × Nat) :=
  if (first.lookup path).isSome then first else first ++ [(path, number)]

def firstCreators (groups : List StageGroup) : List (Str × Nat) :=
  (groups.zipIdx 1).foldl (fun first entry =>
    entry.1.creates.foldl (fun first path =>
      (path :: foldersOf path).foldl (fun first created => setDefault created entry.2 first) first)
      first) []

structure Check where
  created : List Str := []
  reported : List Str := []
  problems : List Problem := []

def checkWritten (check : Check) (written : Str) : Check :=
  if written ∈ check.reported then check
  else
    { check with
      reported := written :: check.reported
      problems := check.problems ++ [.changeFolder written] }

def holds (tree : StagedTree) (named : Str) : Bool :=
  let path := rstripSlash named
  if named.getLast? = some '/' then tree.hasFolder path else tree.has path

def checkNamed (creators : List (Str × Nat)) (number : Nat) (check : Check) (entry : Place × Str) :
    Check :=
  let path := rstripSlash entry.2
  if path ∈ check.reported ∨ path ∈ check.created ∨ holds tree entry.2 = true then check
  else
    { check with
      reported := path :: check.reported
      problems := check.problems ++
        [.missing number entry.1 path (creators.lookup path) (tree.sameName path)] }

def checkGroup (creators : List (Str × Nat)) (check : Check) (entry : StageGroup × Nat) : Check :=
  let (group, number) := entry
  let created := check.created ++ group.creates.flatMap fun path => path :: foldersOf path
  let check := (changeFolderPaths (group.changes ++ group.creates)).foldl checkWritten
    { check with created := created }
  (named reading tree group).foldl (checkNamed tree creators number) check

def pathProblems (groups : List StageGroup) : List Problem :=
  ((groups.zipIdx 1).foldl (checkGroup reading tree (firstCreators groups)) {}).problems

end Named
end DevopsCli.Roadmap.StagePaths
