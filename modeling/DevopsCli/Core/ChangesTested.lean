import DevopsCli.Core.SelectedTests

/- When every test that a changed helper can alter is run: exactly when each helper that a star import
   brings in through `__all__` is also reached by other imports. -/
namespace DevopsCli.Core.Selection
open PyStr PyPath ImportGraph

section Index
variable {repo : Repo} {index : CoverageIndex} {path : Path}

/-- The selection runs the test module, by itself or with a full run. -/
def Indexed (selection : IndexedSelection) (test : Path) : Prop :=
  selection.needsFullRun = true ∨ test ∈ selection.testFiles

def IndexedBy (repo : Repo) (index : CoverageIndex) (path test : Path) : Prop :=
  if forcesFullRun repo path then True
  else if path.head? = some testsRootDir ∧ 1 < path.length then
    if isTestModule path then repo.isFile path = true ∧ test = path
    else importingTests repo path = [] ∨ test ∈ importingTests repo path
  else if ¬(path.head? = some sourceRootDir ∧ 1 < path.length) then True
  else
    match index.coveringTests.get path with
    | none => True
    | some covering => test ∈ covering

theorem full_indexed {reason : Str} (some_ : reason ≠ []) (test : Path) :
    Indexed { fullRunReason := reason } test := by
  left
  simp [IndexedSelection.needsFullRun, some_]

theorem selectIndexed_nil (selected unindexed : List Path) {test : Path} (file : repo.isFile test = true) :
    Indexed (selectIndexed repo index selected unindexed []) test ↔ unindexed ≠ [] ∨ test ∈ selected := by
  unfold selectIndexed Indexed
  simp only [mem_sorted, List.mem_filter, file, and_true]
  apply or_congr_left
  unfold IndexedSelection.needsFullRun
  simp only [bne_self_eq_false, Bool.false_or, bne_iff_ne]
  rw [not_iff_not, ← List.length_eq_zero_iff, List.length_insertionSort, List.length_eq_zero_iff]

theorem selectIndexed_iff {test : Path} (file : repo.isFile test = true) (changed : List Path)
    (selected unindexed : List Path) :
    Indexed (selectIndexed repo index selected unindexed changed) test ↔
      unindexed ≠ [] ∨ test ∈ selected ∨ ∃ path ∈ changed, IndexedBy repo index path test := by
  induction changed generalizing selected unindexed with
  | nil =>
    rw [selectIndexed_nil selected unindexed file]
    simp
  | cons path changed ih =>
    rw [List.exists_mem_cons_iff]
    generalize (∃ path ∈ changed, IndexedBy repo index path test) = later at ih ⊢
    unfold selectIndexed IndexedBy
    have some_ (text : Str) (tail : Str) (solid : tail ≠ []) : text ++ tail ≠ [] :=
      List.append_ne_nil_of_right_ne_nil _ solid
    split
    · exact iff_of_true (full_indexed (some_ _ _ (by decide)) test) (.inr (.inr (.inl trivial)))
    split
    · split
      · rw [ih]
        split
        · next present =>
          simp only [present, true_and, List.mem_append, List.mem_singleton, or_assoc]
        · next missing => simp [missing]
      · split
        · next some_ =>
          rw [ih, List.mem_append]
          simp only [some_, false_or, or_assoc]
        · next none_ =>
          rw [not_not] at none_
          rw [ih]
          simp [none_]
    · split
      · exact iff_of_true (full_indexed (some_ _ _ (by decide)) test) (.inr (.inr (.inl trivial)))
      · cases index.coveringTests.get path with
        | none =>
          simp only
          rw [ih]
          simp
        | some covering =>
          simp only
          rw [ih, List.mem_append]
          simp only [or_assoc]

theorem selectFromIndex_iff {test : Path} (file : repo.isFile test = true) (changed : List Path) :
    Indexed (selectFromIndex repo index changed) test ↔
      stalenessReason index ≠ [] ∨ ∃ path ∈ changed, IndexedBy repo index path test := by
  unfold selectFromIndex
  split
  · next stale => exact iff_of_true (full_indexed stale test) (.inl stale)
  · next fresh =>
    rw [selectIndexed_iff file changed [] []]
    simp [fresh]

theorem TestModule.present (test : TestModule repo) : repo.isFile test.path = true :=
  repo.present _ test.file

theorem helper_indexed {helper : Helper} {test : TestModule repo}
    (reached : ReachedBy repo test.module helper) : IndexedBy repo index helper.path test.path := by
  obtain ⟨under, suffix, name, _, _⟩ := helper_name helper
  have long : 1 < helper.path.length := by
    obtain ⟨rest, whole⟩ := List.head?_eq_some_iff.mp under
    cases rest with
    | nil =>
      rw [whole] at suffix
      exact absurd suffix (by decide)
    | cons first rest =>
      rw [whole]
      simp only [List.length_cons]
      omega
  have other : isTestModule helper.path = false := by
    rw [Bool.eq_false_iff]
    exact fun module => name (isTestModule_iff.mp module).1
  unfold IndexedBy
  split
  · trivial
  · next narrow =>
    rw [if_pos ⟨under, long⟩, other, if_neg Bool.false_ne_true]
    right
    unfold forcesFullRun at narrow
    rw [Bool.or_eq_true, not_or, reachesEveryTest_iff, not_or] at narrow
    rcases reached with gone | root | chain
    · exact absurd gone narrow.2.1
    · exact absurd root narrow.2.2
    · exact (mem_importingTests helper).mpr ⟨test.tree, test.parsed, test.isTest, chain⟩

end Index

section Changes
variable (repo : Repo)

def Chain : Dotted → Dotted → Prop :=
  Relation.ReflTransGen fun other module => Runs repo other module ∨ Stars repo other module

/-- The tests that changed helpers can alter are run, and more changes do not take a test away. -/
structure ChangesTested (changed : List Helper) : Prop where
  sources : ∀ test : TestModule repo, ∀ helper ∈ changed, Chain repo test.module helper.module →
    Given (selectTestsForSources repo (changed.map (·.path))).pytestTargets test.path
  index : ∀ index, ∀ test : TestModule repo, ∀ helper ∈ changed,
    Chain repo test.module helper.module →
      Indexed (selectFromIndex repo index (changed.map (·.path))) test.path
  more : ∀ test : TestModule repo, ∀ paths : List Path, changed.map (·.path) ⊆ paths →
    Given (selectTestsForSources repo (changed.map (·.path))).pytestTargets test.path →
      Given (selectTestsForSources repo paths).pytestTargets test.path
  moreIndexed : ∀ index, ∀ test : TestModule repo, ∀ paths : List Path,
    changed.map (·.path) ⊆ paths →
      Indexed (selectFromIndex repo index (changed.map (·.path))) test.path →
        Indexed (selectFromIndex repo index paths) test.path

/-- Where a test module imports a changed helper after a star import that finds a module in `__all__`,
    one of the changed helpers is reached without it. -/
def StarsReached (changed : List Helper) : Prop :=
  ∀ test : TestModule repo, ∀ helper ∈ changed, ∀ other module, Chain repo test.module other →
    Stars repo other module → Relation.ReflTransGen (Runs repo) module helper.module →
      ∃ reached ∈ changed, ReachedBy repo test.module reached

variable {repo}

theorem chain_split {first last : Dotted} (chain : Chain repo first last) :
    Relation.ReflTransGen (Runs repo) first last ∨ ∃ other module, Chain repo first other ∧
      Stars repo other module ∧ Relation.ReflTransGen (Runs repo) module last := by
  induction chain with
  | refl => exact .inl .refl
  | tail before step ih =>
    rcases step with runs | stars
    · rcases ih with plain | ⟨other, module, start, star, rest⟩
      · exact .inl (plain.tail runs)
      · exact .inr ⟨other, module, start, star, rest.tail runs⟩
    · exact .inr ⟨_, _, before, stars, .refl⟩

theorem names_of_chain {first last : Dotted} (plain : Relation.ReflTransGen (Runs repo) first last) :
    Relation.ReflTransGen (Names repo) first last := by
  induction plain with
  | refl => exact .refl
  | tail _ runs ih => exact ih.tail (names_of_runs runs)

theorem chain_of_runs {first last : Dotted} (plain : Relation.ReflTransGen (Runs repo) first last) :
    Chain repo first last := by
  induction plain with
  | refl => exact .refl
  | tail _ runs ih => exact ih.tail (.inl runs)

theorem reached_of_chain {changed : List Helper} (stars : StarsReached repo changed)
    {test : TestModule repo} {helper : Helper} (inside : helper ∈ changed)
    (chain : Chain repo test.module helper.module) :
    ∃ reached ∈ changed, ReachedBy repo test.module reached := by
  rcases chain_split chain with plain | ⟨other, module, start, star, rest⟩
  · exact ⟨helper, inside, .inr (.inr (names_of_chain plain))⟩
  · exact stars test helper inside other module start star rest

theorem more_given (test : TestModule repo) {fewer paths : List Path} (part : fewer ⊆ paths)
    (given : Given (selectTestsForSources repo fewer).pytestTargets test.path) :
    Given (selectTestsForSources repo paths).pytestTargets test.path := by
  obtain ⟨path, member, runs⟩ := (given_iff test.file).mp given
  exact (given_iff test.file).mpr ⟨path, part member, runs⟩

theorem more_indexed (index : CoverageIndex) (test : TestModule repo) {fewer paths : List Path}
    (part : fewer ⊆ paths) (indexed : Indexed (selectFromIndex repo index fewer) test.path) :
    Indexed (selectFromIndex repo index paths) test.path := by
  rw [selectFromIndex_iff test.present] at indexed ⊢
  rcases indexed with stale | ⟨path, member, by_⟩
  · exact .inl stale
  · exact .inr ⟨path, part member, by_⟩

/-- Both selectors run every test that the imports of a changed helper reach exactly when no such
    test depends on a star import alone. -/
theorem changesTested_iff (repo : Repo) (changed : List Helper) :
    ChangesTested repo changed ↔ StarsReached repo changed := by
  constructor
  · intro tested test helper inside other module start star rest
    have chain : Chain repo test.module helper.module :=
      (start.tail (.inr star)).trans (chain_of_runs rest)
    exact (helpers_given changed test).mp (tested.sources test helper inside chain)
  · intro stars
    refine ⟨?_, ?_, fun test paths part => more_given test part,
      fun index test paths part => more_indexed index test part⟩
    · intro test helper inside chain
      exact (helpers_given changed test).mpr (reached_of_chain stars inside chain)
    · intro index test helper inside chain
      obtain ⟨reached, here, by_⟩ := reached_of_chain stars inside chain
      rw [selectFromIndex_iff test.present]
      exact .inr ⟨reached.path, List.mem_map_of_mem here, helper_indexed by_⟩

end Changes

section Star

def packageDir : Str := "pkg".toList

def packageFile : Path := [testsRootDir, packageDir, initFilename]
def helperFile : Path := [testsRootDir, packageDir, "helper.py".toList]
def starTest : Path := [testsRootDir, "test_a.py".toList]
def plainTest : Path := [testsRootDir, "test_b.py".toList]

def starImport : ImportStmt := .from_ (some "tests.pkg".toList) 0 [⟨['*'], none⟩]
def plainImport : ImportStmt := .names [⟨"tests.pkg.helper".toList, none⟩]

/-- A package whose `__all__` names its helper, a test module that imports `*` from the package, and
    another one that imports the helper. -/
def starFiles : List (Path × Option Tree) :=
  [(packageFile, some ⟨[], ["helper".toList]⟩), (helperFile, some ⟨[], []⟩),
    (starTest, some ⟨[.importing starImport], []⟩), (plainTest, some ⟨[.importing plainImport], []⟩)]

theorem starFiles_under : ∀ row ∈ starFiles, ∃ folders name, row.1 = testsRootDir :: (folders ++ [name]) := by
  intro row member
  simp only [starFiles, List.mem_cons, List.not_mem_nil, or_false] at member
  rcases member with rfl | rfl | rfl | rfl
  · exact ⟨[packageDir], _, rfl⟩
  · exact ⟨[packageDir], _, rfl⟩
  · exact ⟨[], _, rfl⟩
  · exact ⟨[], _, rfl⟩

theorem starFiles_undotted : ∀ row ∈ starFiles, ∀ folder ∈ row.1.dropLast, '.' ∉ folder := by
  have plain : ∀ path ∈ [packageFile, helperFile, starTest, plainTest],
      ∀ folder ∈ path.dropLast, '.' ∉ folder := by decide
  intro row member
  simp only [starFiles, List.mem_cons, List.not_mem_nil, or_false] at member
  rcases member with rfl | rfl | rfl | rfl
  · exact plain packageFile (by decide)
  · exact plain helperFile (by decide)
  · exact plain starTest (by decide)
  · exact plain plainTest (by decide)

theorem starFiles_distinct : (starFiles.map fun row => moduleName row.1).Nodup := by decide +kernel

def starSuite : Repo where
  files := starFiles
  mentions _ _ := false
  isFile _ := true
  under := starFiles_under
  undotted := starFiles_undotted
  distinct := starFiles_distinct
  present _ _ := rfl

theorem helperFile_helper : helperModule helperFile = some (moduleName helperFile) := by decide +kernel

theorem helperFile_undotted : ∀ folder ∈ helperFile.dropLast, '.' ∉ folder := by decide

def starredHelper : Helper where
  path := helperFile
  module := moduleName helperFile
  isHelper := helperFile_helper
  undotted := helperFile_undotted

/-- A change to the helper runs the test module that imports it, and not the one that imports `*`. -/
theorem star_test_missed : ¬ChangesTested starSuite [starredHelper] := by
  intro tested
  have parsed : (starTest, (⟨[.importing starImport], []⟩ : Tree)) ∈ starSuite.trees :=
    mem_trees.mpr (List.mem_cons_of_mem _ (List.mem_cons_of_mem _ List.mem_cons_self))
  have package : (packageFile, (⟨[], ["helper".toList]⟩ : Tree)) ∈ starSuite.trees :=
    mem_trees.mpr List.mem_cons_self
  have star : Stars starSuite (moduleName starTest) (moduleName helperFile) := by
    refine ⟨by decide +kernel, starTest, some "tests.pkg".toList, 0, [⟨['*'], none⟩],
      moduleName packageFile, _, packageFile, "helper".toList,
      ⟨_, parsed, rfl, _, List.mem_singleton_self _, .here⟩, ⟨_, List.mem_singleton_self _, rfl⟩,
      by decide +kernel, package, rfl, List.mem_singleton_self _, by decide +kernel⟩
  have given := tested.sources ⟨starTest, _, parsed, by decide +kernel⟩ starredHelper
    (List.mem_singleton_self _) (.single (.inr star))
  have missed : ¬∃ target ∈ (selectTestsForSources starSuite [helperFile]).pytestTargets,
      target <+: starTest := by decide +kernel
  exact missed given

end Star
end DevopsCli.Core.Selection
