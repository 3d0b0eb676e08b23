import DevopsCli.Core.ImportGraph
import DevopsCli.Lib.PyDict
import DevopsCli.Lib.Worklist
import Mathlib.Data.List.Sort

/- Which tests a change runs: core/test_selection.py from the imports of the modules under tests, and
   core/coverage_index.py from an index of what each test covers. A changed file is a path from the
   root of the repository. -/
namespace DevopsCli.Core.Selection
open PyStr PyPath ImportGraph

def conftestFilename : Str := "conftest.py".toList
def pytestFixtureName : Str := "fixture".toList
def pytestHookPrefix : Str := "pytest_".toList
def pythonFileSuffix : Str := ".py".toList
def sourceRootDir : Str := "src".toList
def testFilePrefix : Str := "test_".toList
def testsRootDir : Str := "tests".toList

def fullRunTriggerNames : List Str :=
  [conftestFilename, "pyproject.toml".toList, "uv.lock".toList, ".python-version".toList]

def fileName (path : Path) : Str := path.getLastD []

def isTestModule (path : Path) : Bool :=
  testFilePrefix.isPrefixOf (fileName path) && suffixOf (fileName path) == pythonFileSuffix

section Parsed

mutual

def walk : Stmt → List Stmt
  | .importing statement => [.importing statement]
  | .scope isFunction name uses body => .scope isFunction name uses body :: walkAll body
  | .branch test uses body orelse => .branch test uses body orelse :: (walkAll body ++ walkAll orelse)
  | .block uses children => .block uses children :: walkAll children

def walkAll : List Stmt → List Stmt
  | [] => []
  | node :: rest => walk node ++ walkAll rest

end

def aliasesOf : ImportStmt → List Alias
  | .names names => names
  | .from_ _ _ names => names

def bound : Stmt → List Str
  | .importing statement => (aliasesOf statement).map fun «alias» =>
      «alias».asname.getD ((partsOf «alias».name).headD [])
  | .scope _ name uses _ => name :: uses.stores
  | .branch _ uses _ _ => uses.stores
  | .block uses _ => uses.stores

def named : Stmt → List Str
  | .importing statement => (aliasesOf statement).map (·.name)
  | .scope _ _ uses _ => uses.attributes
  | .branch _ uses _ _ => uses.attributes
  | .block uses _ => uses.attributes

def boundNames (tree : Tree) : List Str := (walkAll tree.body).flatMap bound

def bindsPytestName (tree : Tree) : Bool :=
  (boundNames tree).any fun name => name == ['*'] || pytestHookPrefix.isPrefixOf name

def namesAFixtureOrHook (tree : Tree) : Bool :=
  bindsPytestName tree || ((walkAll tree.body).flatMap named).contains pytestFixtureName

def reachesEveryTestItself (relative : Path) (tree : Tree) : Bool :=
  if fileName relative = conftestFilename then true
  else if testFilePrefix.isPrefixOf (fileName relative) then false
  else namesAFixtureOrHook tree

end Parsed

/-- The Python files under the tests directory of a repository, in order, with what ast makes of
    each one that it can read; whether the text of a test module refers to a module of the sources;
    and which paths are files. The modules are named from the root: no folder has a dot in its name,
    and a name is that of one file. -/
structure Repo where
  files : List (Path × Option Tree)
  mentions : Path → Dotted → Bool
  isFile : Path → Bool
  under : ∀ row ∈ files, ∃ folders name, row.1 = testsRootDir :: (folders ++ [name])
  undotted : ∀ row ∈ files, ∀ folder ∈ row.1.dropLast, '.' ∉ folder
  distinct : (files.map fun row => moduleName row.1).Nodup
  present : ∀ row ∈ files, isFile row.1 = true

section Suite
variable (repo : Repo)

def helperModule (relative : Path) : Option Dotted :=
  if relative.head? ≠ some testsRootDir ∨ suffixOf (fileName relative) ≠ pythonFileSuffix then none
  else if testFilePrefix.isPrefixOf (fileName relative) ∨ fileName relative = conftestFilename then none
  else some (moduleName relative)

def packagesOf (module : Dotted) : List Dotted := module.inits.filter fun above => above ≠ [] ∧ above ≠ module

def Repo.trees : List (Path × Tree) := repo.files.filterMap fun row => row.2.map fun tree => (row.1, tree)

def Repo.modules : List Dotted := modulesOf repo.trees

def edges (module : Dotted) : List Dotted :=
  buildImportGraph repo.trees true module ++ (packagesOf module).filter (isKnown repo.modules)

def importers (module : Dotted) : List Dotted := repo.modules.filter fun other => isKnown (edges repo other) module

def wholeSuite : List Dotted :=
  Worklist.closure (edges repo) repo.modules
    ((repo.trees.filter fun row => reachesEveryTestItself row.1 row.2).map fun row => moduleName row.1)

def reachesEveryTest (relative : Path) : Bool :=
  match helperModule relative with
  | none => false
  | some module => !isKnown repo.modules module || isKnown (wholeSuite repo) module

def pathOf (module : Dotted) : Option Path :=
  (repo.trees.find? fun row => moduleName row.1 = module).map Prod.fst

def sorted (paths : List Path) : List Path := paths.dedup.insertionSort (· ≤ ·)

def importingTests (relative : Path) : List Path :=
  match helperModule relative with
  | none => []
  | some module =>
    sorted (((Worklist.closure (importers repo) repo.modules [module]).filterMap (pathOf repo)).filter
      isTestModule)

def forcesFullRun (path : Path) : Bool :=
  decide (fileName path ∈ fullRunTriggerNames) || reachesEveryTest repo path

end Suite

section Sources

inductive Selector where
  | direct
  | textBased
  deriving DecidableEq

structure TestSelection where
  testFiles : List Path := []
  mappedSources : Dict Path (List Path) := {}
  unmappedSources : List Path := []
  passthroughFiles : List Path := []
  sourceSelectors : Dict Path Selector := {}

variable (repo : Repo)

def modulePathForSource : Path → Option Dotted
  | [] => none
  | top :: relative =>
    if top ≠ sourceRootDir ∨ suffixOf (fileName relative) ≠ pythonFileSuffix then none
    else
      let parts :=
        if fileName relative = initFilename then relative.dropLast
        else relative.dropLast ++ [stemOf (fileName relative)]
      if parts = [] then none else some (parts.flatMap partsOf)

def conventionCandidates (modulePath : Dotted) : List Str :=
  let names : List Str :=
    match modulePath.tail.reverse with
    | [] => []
    | [leaf] => [leaf]
    | leaf :: above :: _ => [leaf, above ++ '_' :: leaf, above]
  names.map fun name => testFilePrefix ++ name ++ pythonFileSuffix

/-- A conftest that binds a hook, or that cannot be read. -/
def bindsHook (conftest : Path) : Bool :=
  match (repo.files.lookup conftest).join with
  | none => true
  | some tree => bindsPytestName tree

def triggersByName (relative : Path) : Bool :=
  if fileName relative = conftestFilename ∧ relative.dropLast ≠ [testsRootDir] ∧
      relative.head? = some testsRootDir then bindsHook repo relative
  else decide (fileName relative ∈ fullRunTriggerNames)

def firstReachingEveryTest (candidates : List Path) : Option Path :=
  (candidates.find? (triggersByName repo)).or (candidates.find? (reachesEveryTest repo))

def allTests : List Path := (repo.files.map Prod.fst).filter isTestModule

def holdsTests (directory : Path) : Bool := (allTests repo).any directory.isPrefixOf

def fixtureReach (relTestsPath : Path) : Option Path :=
  if fileName relTestsPath = conftestFilename then some relTestsPath.dropLast
  else if fileName relTestsPath = initFilename ∧ holdsTests repo relTestsPath.dropLast = true then
    some relTestsPath.dropLast
  else none

def direct (candidate : Path) : Option Path :=
  (fixtureReach repo candidate).or (if isTestModule candidate then some candidate else none)

def importing (candidate : Path) : List Path :=
  (importingTests repo candidate).filter fun path =>
    match direct repo candidate with
    | none => true
    | some own => !own.isPrefixOf path

def handleTestTreeEntry (candidate : Path) (selection : TestSelection) : TestSelection × List Path :=
  let selection := { selection with
    passthroughFiles := selection.passthroughFiles ++ (direct repo candidate).toList
    sourceSelectors := selection.sourceSelectors.set candidate
      (if direct repo candidate = none then .textBased else .direct) }
  let selection :=
    if importing repo candidate ≠ [] then
      { selection with mappedSources := selection.mappedSources.set candidate (importing repo candidate) }
    else if direct repo candidate = none then
      { selection with unmappedSources := selection.unmappedSources ++ [candidate] }
    else selection
  (selection, importing repo candidate)

def matched (modulePath : Dotted) : List Path :=
  (allTests repo).filter fun path =>
    decide (fileName path ∈ conventionCandidates modulePath) || repo.mentions path modulePath

def handleSource (candidate : Path) (modulePath : Dotted) (selection : TestSelection) :
    TestSelection × List Path :=
  let selection := { selection with
    sourceSelectors := selection.sourceSelectors.set candidate .textBased }
  let selection :=
    if matched repo modulePath ≠ [] then
      { selection with
        mappedSources := selection.mappedSources.set candidate (sorted (matched repo modulePath)) }
    else { selection with unmappedSources := selection.unmappedSources ++ [candidate] }
  (selection, matched repo modulePath)

def selectCandidate (selection : TestSelection) (candidate : Path) : TestSelection × List Path :=
  if candidate.head? = some testsRootDir then handleTestTreeEntry repo candidate selection
  else
    match modulePathForSource candidate with
    | none => (selection, [])
    | some modulePath => handleSource repo candidate modulePath selection

def selectAll : TestSelection × List Path → List Path → TestSelection × List Path
  | state, [] => state
  | (selection, selected), candidate :: rest =>
    let (selection, more) := selectCandidate repo selection candidate
    selectAll (selection, selected ++ more) rest

def selectTestsForSources (candidates : List Path) : TestSelection :=
  match firstReachingEveryTest repo candidates with
  | some wholeSuite =>
    { passthroughFiles := [[testsRootDir]]
      sourceSelectors := Dict.set {} wholeSuite .direct }
  | none =>
    let (selection, selected) := selectAll repo ({}, []) candidates
    { selection with testFiles := sorted selected }

def TestSelection.pytestTargets (selection : TestSelection) : List Path :=
  sorted (selection.passthroughFiles ++ selection.testFiles)

end Sources

section Index

def indexFormatVersion : Nat := 2

structure CoverageIndex where
  coveringTests : Dict Path (List Path) := {}
  version : Nat := indexFormatVersion

structure IndexedSelection where
  testFiles : List Path := []
  unindexedSources : List Path := []
  fullRunReason : Str := []

def IndexedSelection.needsFullRun (selection : IndexedSelection) : Bool :=
  selection.fullRunReason != [] || selection.unindexedSources != []

def pathText (path : Path) : Str := join ['/'] path

def stalenessReason (index : CoverageIndex) : Str :=
  if index.coveringTests.rows = [] then "no coverage index has been built".toList
  else if index.version ≠ indexFormatVersion then
    "coverage index format version ".toList ++ digits index.version ++ " is not supported".toList
  else []

variable (repo : Repo) (index : CoverageIndex)

def selectIndexed : List Path → List Path → List Path → IndexedSelection
  | selected, unindexed, [] =>
    { testFiles := sorted (selected.filter repo.isFile)
      unindexedSources := unindexed.insertionSort (· ≤ ·) }
  | selected, unindexed, path :: changed =>
    if forcesFullRun repo path then
      { fullRunReason :=
          pathText path ++ " can change the outcome of tests that never import it".toList }
    else if path.head? = some testsRootDir ∧ 1 < path.length then
      if isTestModule path then
        selectIndexed (if repo.isFile path then selected ++ [path] else selected) unindexed changed
      else if importingTests repo path ≠ [] then
        selectIndexed (selected ++ importingTests repo path) unindexed changed
      else selectIndexed selected (unindexed ++ [path]) changed
    else if ¬(path.head? = some sourceRootDir ∧ 1 < path.length) then
      { fullRunReason := pathText path ++ " is outside ".toList ++ sourceRootDir ++
          "/ and its effect is unmapped".toList }
    else
      match index.coveringTests.get path with
      | none => selectIndexed selected (unindexed ++ [path]) changed
      | some covering => selectIndexed (selected ++ covering) unindexed changed

def selectFromIndex (changed : List Path) : IndexedSelection :=
  if stalenessReason index ≠ [] then { fullRunReason := stalenessReason index }
  else selectIndexed repo index [] [] changed

end Index
end DevopsCli.Core.Selection
