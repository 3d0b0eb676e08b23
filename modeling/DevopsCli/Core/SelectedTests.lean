import DevopsCli.Core.ImportReach

/- That a changed helper runs the tests that it reaches: what the two selectors pick for any changes,
   and exactly when that covers every chain of imports. -/
namespace DevopsCli.Core.Selection
open PyStr PyPath ImportGraph

section Names
variable {repo : Repo}

structure TestModule (repo : Repo) where
  path : Path
  tree : Tree
  parsed : (path, tree) ∈ repo.trees
  isTest : isTestModule path = true

def TestModule.module (test : TestModule repo) : Dotted := moduleName test.path

structure Helper where
  path : Path
  module : Dotted
  isHelper : helperModule path = some module
  undotted : ∀ folder ∈ path.dropLast, '.' ∉ folder

theorem TestModule.file (test : TestModule repo) : (test.path, some test.tree) ∈ repo.files :=
  mem_trees.mp test.parsed

theorem dot_of_suffix {name : Str} (suffix : suffixOf name = pythonFileSuffix) : '.' ∈ name := by
  by_contra plain
  have all : name.reverse.takeWhile (· != '.') = name.reverse := by
    rw [List.takeWhile_eq_self_iff]
    intro c member
    rw [bne_iff_ne]
    rintro rfl
    exact plain (List.mem_reverse.mp member)
  simp [suffixOf, all, pythonFileSuffix] at suffix

theorem isTestModule_iff {path : Path} : isTestModule path = true ↔
    testFilePrefix <+: fileName path ∧ suffixOf (fileName path) = pythonFileSuffix := by
  simp [isTestModule]

theorem eq_of_front {path above : Path} {parsed : Option Tree} (file : (path, parsed) ∈ repo.files)
    (test : isTestModule above = true) (front : above <+: path) : above = path := by
  obtain ⟨rest, rfl⟩ := front
  by_contra other
  have some_ : rest ≠ [] := by
    rintro rfl
    exact other (List.append_nil _).symm
  have dotted := dot_of_suffix (isTestModule_iff.mp test).2
  have named : above ≠ [] := by
    rintro rfl
    exact absurd dotted List.not_mem_nil
  have last : fileName above ∈ (above ++ rest).dropLast := by
    rw [List.dropLast_append_of_ne_nil some_, fileName, List.getLastD_eq_getLast?,
      List.getLast?_eq_some_getLast named]
    exact List.mem_append_left _ (List.getLast_mem named)
  exact repo.undotted _ file _ last dotted

theorem helper_name (helper : Helper) : helper.path.head? = some testsRootDir ∧
    suffixOf (fileName helper.path) = pythonFileSuffix ∧
    ¬testFilePrefix <+: fileName helper.path ∧ fileName helper.path ≠ conftestFilename ∧
    helper.module = moduleName helper.path := by
  have found := helper.isHelper
  unfold helperModule at found
  split at found
  · exact nomatch found
  · next under =>
    split at found
    · exact nomatch found
    · next name =>
      rw [not_or, not_not, not_not] at under
      rw [not_or, List.isPrefixOf_iff_prefix] at name
      exact ⟨under.1, under.2, name.1, name.2, (Option.some.inj found).symm⟩

theorem package_module {helper : Helper} (file : fileName helper.path = initFilename) :
    helper.module = helper.path.dropLast.flatMap partsOf := by
  obtain ⟨under, _, _, _, name⟩ := helper_name helper
  rw [name]
  have folders : helper.path.dropLast ≠ [] := by
    intro none_
    obtain ⟨rest, path⟩ := List.head?_eq_some_iff.mp under
    rw [path] at none_ file
    cases rest with
    | nil => exact absurd file (by decide)
    | cons first rest => exact nomatch none_
  have stem : stemOf (helper.path.getLastD []) = "__init__".toList := by
    rw [show helper.path.getLastD [] = initFilename from file]
    decide
  have parts : 1 < (helper.path.dropLast ++ [stemOf (helper.path.getLastD [])]).length ∧
      (helper.path.dropLast ++ [stemOf (helper.path.getLastD [])]).getLast? =
        some "__init__".toList := by
    rw [stem]
    refine ⟨?_, List.getLast?_concat⟩
    have some_ := List.length_pos_of_ne_nil folders
    simp only [List.length_append, List.length_singleton]
    omega
  unfold moduleName
  simp only [if_pos parts, List.dropLast_concat]

theorem stem_test {name : Str} (test : testFilePrefix <+: name)
    (suffix : suffixOf name = pythonFileSuffix) : stemOf name ≠ "__init__".toList := by
  intro same
  obtain ⟨rest, rfl⟩ := test
  unfold stemOf at same
  rw [suffix] at same
  have long : 1 ≤ (testFilePrefix ++ rest).length - pythonFileSuffix.length := by
    have tests : testFilePrefix.length = 5 := rfl
    have suffix : pythonFileSuffix.length = 3 := rfl
    rw [List.length_append]
    omega
  obtain ⟨n, length⟩ := Nat.exists_eq_add_of_le long
  rw [length, Nat.add_comm] at same
  have first : some 't' = some '_' := congrArg List.head? same
  exact absurd first (by decide)

theorem names_package {helper : Helper} (test : TestModule repo) (known : helper.module ∈ repo.modules)
    (file : fileName helper.path = initFilename) (below : helper.path.dropLast <+: test.path) :
    Names repo test.module helper.module := by
  obtain ⟨name, suffix⟩ := isTestModule_iff.mp test.isTest
  obtain ⟨rest, whole⟩ := below
  have some_ : rest ≠ [] := by
    rintro rfl
    rw [List.append_nil] at whole
    have named : test.path ≠ [] := by
      intro none_
      rw [none_] at suffix
      exact absurd suffix (by decide)
    have last : fileName test.path ∈ helper.path.dropLast := by
      rw [whole, fileName, List.getLastD_eq_getLast?, List.getLast?_eq_some_getLast named]
      exact List.getLast_mem named
    exact helper.undotted _ last (dot_of_suffix suffix)
  have module : test.module = helper.module ++ (rest.dropLast ++ [stemOf (fileName test.path)]).flatMap
      partsOf := by
    have stem : stemOf (test.path.getLastD []) ≠ "__init__".toList := stem_test name suffix
    rw [package_module file]
    unfold TestModule.module moduleName
    have front : test.path.dropLast = helper.path.dropLast ++ rest.dropLast := by
      rw [← whole, List.dropLast_append_of_ne_nil some_]
    have last : ¬(1 < (test.path.dropLast ++ [stemOf (test.path.getLastD [])]).length ∧
        (test.path.dropLast ++ [stemOf (test.path.getLastD [])]).getLast? =
          some "__init__".toList) := by
      rw [List.getLast?_concat]
      rintro ⟨_, same⟩
      exact stem (Option.some.inj same)
    simp only [if_neg last]
    rw [front, List.append_assoc, List.flatMap_append]
    rfl
  refine ⟨known, .inl ⟨?_, ?_⟩⟩
  · rw [module]
    exact List.prefix_append _ _
  · rw [module]
    intro same
    have none_ : (rest.dropLast ++ [stemOf (fileName test.path)]).flatMap partsOf = [] :=
      List.self_eq_append_right.mp same
    rw [List.flatMap_append, List.flatMap_singleton] at none_
    exact partsOf_ne_nil _ (List.append_eq_nil_iff.mp none_).2

end Names

section Suite
variable {repo : Repo} {module other : Dotted}

theorem edges_known : ∀ node, ∀ x ∈ edges repo node, x ∈ repo.modules :=
  fun _ _ edge => (names_of_edge edge).1

theorem importers_known : ∀ node, ∀ x ∈ importers repo node, x ∈ repo.modules :=
  fun _ _ member => (List.mem_filter.mp member).1

theorem mem_importers : module ∈ importers repo other ↔
    module ∈ repo.modules ∧ other ∈ edges repo module := by
  simp [importers, isKnown]

theorem reaches_importers (known : other ∈ repo.modules) :
    Worklist.Reaches (importers repo) module other ↔ Worklist.Reaches (edges repo) other module := by
  constructor
  · intro leads
    clear known
    induction leads with
    | refl => exact .refl
    | tail _ step ih => exact .head (mem_importers.mp step).2 ih
  · intro leads
    induction leads using Relation.ReflTransGen.head_induction_on with
    | refl => exact .refl
    | head edge _ ih => exact (ih (edges_known _ _ edge)).tail (mem_importers.mpr ⟨known, edge⟩)

/-- A module of the suite that reaches every test by itself leads to the module. -/
def FromRoot (repo : Repo) (module : Dotted) : Prop :=
  ∃ path tree, (path, tree) ∈ repo.trees ∧ reachesEveryTestItself path tree = true ∧
    Relation.ReflTransGen (Names repo) (moduleName path) module

theorem mem_wholeSuite : module ∈ wholeSuite repo ↔ FromRoot repo module := by
  unfold wholeSuite
  rw [Worklist.mem_closure edges_known]
  constructor
  · rintro ⟨seed, here, leads⟩
    obtain ⟨⟨path, tree⟩, root, rfl⟩ := List.mem_map.mp here
    obtain ⟨inside, reaches⟩ := List.mem_filter.mp root
    exact ⟨path, tree, inside, reaches, reaches_iff.mp leads⟩
  · rintro ⟨path, tree, inside, reaches, chain⟩
    exact ⟨moduleName path, List.mem_map.mpr ⟨_, List.mem_filter.mpr ⟨inside, reaches⟩, rfl⟩,
      reaches_iff.mpr chain⟩

theorem reachesEveryTest_iff (helper : Helper) : reachesEveryTest repo helper.path = true ↔
    helper.module ∉ repo.modules ∨ FromRoot repo helper.module := by
  unfold reachesEveryTest
  rw [helper.isHelper]
  simp only [isKnown, Bool.or_eq_true, Bool.not_eq_true', decide_eq_false_iff_not,
    decide_eq_true_eq, mem_wholeSuite]

theorem tree_unique {path path' : Path} {tree tree' : Tree} (here : (path, tree) ∈ repo.trees)
    (there : (path', tree') ∈ repo.trees) (same : moduleName path = moduleName path') :
    path = path' := by
  have rows := List.inj_on_of_nodup_map repo.distinct (mem_trees.mp here) (mem_trees.mp there) same
  exact congrArg Prod.fst rows

theorem pathOf_some {path : Path} (found : pathOf repo module = some path) :
    ∃ tree, (path, tree) ∈ repo.trees ∧ moduleName path = module := by
  obtain ⟨⟨own, tree⟩, row, rfl⟩ := Option.map_eq_some_iff.mp found
  exact ⟨tree, List.mem_of_find?_eq_some row, by simpa using List.find?_some row⟩

theorem pathOf_module {path : Path} {tree : Tree} (here : (path, tree) ∈ repo.trees) :
    pathOf repo (moduleName path) = some path := by
  unfold pathOf
  cases found : repo.trees.find? fun row => moduleName row.1 = moduleName path with
  | none => exact absurd (decide_eq_true rfl) (List.find?_eq_none.mp found _ here)
  | some row =>
    obtain ⟨own, tree'⟩ := row
    have name : moduleName own = moduleName path := by simpa using List.find?_some found
    rw [Option.map_some, tree_unique (List.mem_of_find?_eq_some found) here name]

theorem mem_sorted {paths : List Path} {path : Path} : path ∈ sorted paths ↔ path ∈ paths := by
  rw [sorted, List.mem_insertionSort, List.mem_dedup]

theorem mem_importingTests (helper : Helper) {path : Path} :
    path ∈ importingTests repo helper.path ↔
      ∃ tree, (path, tree) ∈ repo.trees ∧ isTestModule path = true ∧
        Relation.ReflTransGen (Names repo) (moduleName path) helper.module := by
  unfold importingTests
  rw [helper.isHelper]
  simp only [mem_sorted, List.mem_filter, List.mem_filterMap]
  constructor
  · rintro ⟨⟨module, reached, found⟩, test⟩
    obtain ⟨tree, inside, rfl⟩ := pathOf_some found
    obtain ⟨seed, here, leads⟩ := (Worklist.mem_closure importers_known).mp reached
    obtain rfl := List.mem_singleton.mp here
    have known : moduleName path ∈ repo.modules := List.mem_map.mpr ⟨_, inside, rfl⟩
    exact ⟨tree, inside, test, reaches_iff.mp ((reaches_importers known).mp leads)⟩
  · rintro ⟨tree, inside, test, chain⟩
    have known : moduleName path ∈ repo.modules := List.mem_map.mpr ⟨_, inside, rfl⟩
    refine ⟨⟨moduleName path, ?_, pathOf_module inside⟩, test⟩
    exact (Worklist.mem_closure importers_known).mpr ⟨helper.module, List.mem_singleton_self _,
      (reaches_importers known).mpr (reaches_iff.mpr chain)⟩

end Suite

section Sources
variable {repo : Repo} {candidates : List Path} {candidate : Path}

def Given (targets : List Path) (path : Path) : Prop := ∃ target ∈ targets, target <+: path

def passesThrough (repo : Repo) (candidate : Path) : List Path :=
  if candidate.head? = some testsRootDir then (direct repo candidate).toList else []

def selects (repo : Repo) (candidate : Path) : List Path :=
  if candidate.head? = some testsRootDir then importing repo candidate
  else
    match modulePathForSource candidate with
    | none => []
    | some modulePath => matched repo modulePath

theorem selectCandidate_targets (repo : Repo) (candidate : Path) (selection : TestSelection) :
    (selectCandidate repo selection candidate).1.passthroughFiles =
        selection.passthroughFiles ++ passesThrough repo candidate ∧
      (selectCandidate repo selection candidate).2 = selects repo candidate := by
  unfold selectCandidate passesThrough selects
  by_cases under : candidate.head? = some testsRootDir
  · rw [if_pos under, if_pos under, if_pos under]
    unfold handleTestTreeEntry
    refine ⟨?_, rfl⟩
    simp only
    split
    · rfl
    · split <;> rfl
  · rw [if_neg under, if_neg under, if_neg under, List.append_nil]
    cases modulePathForSource candidate with
    | none => exact ⟨rfl, rfl⟩
    | some modulePath =>
      unfold handleSource
      refine ⟨?_, rfl⟩
      simp only
      split <;> rfl

theorem selectAll_targets (repo : Repo) (candidates : List Path) (selection : TestSelection) (selected : List Path) :
    (selectAll repo (selection, selected) candidates).1.passthroughFiles =
        selection.passthroughFiles ++ candidates.flatMap (passesThrough repo) ∧
      (selectAll repo (selection, selected) candidates).2 =
        selected ++ candidates.flatMap (selects repo) := by
  induction candidates generalizing selection selected with
  | nil => simp [selectAll]
  | cons candidate rest ih =>
    obtain ⟨passes, chosen⟩ := selectCandidate_targets repo candidate selection
    unfold selectAll
    simp only
    rw [(ih _ _).1, (ih _ _).2, passes, chosen]
    simp

theorem given_wholeSuite {row : Path × Option Tree} (file : row ∈ repo.files)
    (selectors : Dict Path Selector) :
    Given ({ passthroughFiles := [[testsRootDir]], sourceSelectors := selectors } :
      TestSelection).pytestTargets row.1 := by
  obtain ⟨folders, own, path⟩ := repo.under _ file
  exact ⟨[testsRootDir], mem_sorted.mpr List.mem_cons_self, path ▸ ⟨_, rfl⟩⟩

/-- What the candidates give pytest: everything when one of them reaches every test, and otherwise
    what each one passes through or selects. -/
theorem given_iff {row : Path × Option Tree} (file : row ∈ repo.files) :
    Given (selectTestsForSources repo candidates).pytestTargets row.1 ↔
      ∃ candidate ∈ candidates, triggersByName repo candidate = true ∨
        reachesEveryTest repo candidate = true ∨
        Given (passesThrough repo candidate ++ selects repo candidate) row.1 := by
  unfold selectTestsForSources firstReachingEveryTest
  cases name : candidates.find? (triggersByName repo) with
  | some whole =>
    simp only [Option.some_or]
    constructor
    · intro _
      exact ⟨whole, List.mem_of_find?_eq_some name, .inl (List.find?_some name)⟩
    · intro _
      exact given_wholeSuite file _
  | none =>
    cases imports : candidates.find? (reachesEveryTest repo) with
    | some whole =>
      simp only [Option.none_or]
      constructor
      · intro _
        exact ⟨whole, List.mem_of_find?_eq_some imports, .inr (.inl (List.find?_some imports))⟩
      · intro _
        exact given_wholeSuite file _
    | none =>
      obtain ⟨passes, chosen⟩ := selectAll_targets repo candidates {} []
      simp only [Option.none_or]
      constructor
      · rintro ⟨target, member, front⟩
        unfold TestSelection.pytestTargets at member
        rw [mem_sorted, List.mem_append, passes, mem_sorted, chosen, List.nil_append,
          List.nil_append, List.mem_flatMap, List.mem_flatMap] at member
        rcases member with ⟨candidate, inside, here⟩ | ⟨candidate, inside, here⟩
        · exact ⟨candidate, inside, .inr (.inr ⟨target, List.mem_append_left _ here, front⟩)⟩
        · exact ⟨candidate, inside, .inr (.inr ⟨target, List.mem_append_right _ here, front⟩)⟩
      · rintro ⟨candidate, inside, trigger | reaches | ⟨target, member, front⟩⟩
        · exact absurd trigger (List.find?_eq_none.mp name candidate inside)
        · exact absurd reaches (List.find?_eq_none.mp imports candidate inside)
        · refine ⟨target, ?_, front⟩
          unfold TestSelection.pytestTargets
          rw [mem_sorted, List.mem_append, passes, mem_sorted, chosen, List.nil_append,
            List.nil_append, List.mem_flatMap, List.mem_flatMap]
          rcases List.mem_append.mp member with here | here
          · exact .inl ⟨candidate, inside, here⟩
          · exact .inr ⟨candidate, inside, here⟩

def ReachedBy (repo : Repo) (test : Dotted) (helper : Helper) : Prop :=
  helper.module ∉ repo.modules ∨ FromRoot repo helper.module ∨
    Relation.ReflTransGen (Names repo) test helper.module

theorem helper_triggers (helper : Helper) : triggersByName repo helper.path = false := by
  obtain ⟨_, suffix, _, conftest, _⟩ := helper_name helper
  unfold triggersByName
  rw [if_neg fun nested => conftest nested.1, decide_eq_false_iff_not, fullRunTriggerNames]
  intro member
  simp only [List.mem_cons, List.not_mem_nil, or_false] at member
  rcases member with same | same | same | same
  · exact conftest same
  all_goals
    rw [same] at suffix
    exact absurd suffix (by decide)

theorem helper_direct {helper : Helper} {own : Path} (found : direct repo helper.path = some own) :
    fileName helper.path = initFilename ∧ own = helper.path.dropLast := by
  obtain ⟨_, _, test, conftest, _⟩ := helper_name helper
  have other : isTestModule helper.path = false := by
    rw [Bool.eq_false_iff]
    exact fun module => test (isTestModule_iff.mp module).1
  unfold direct fixtureReach at found
  rw [if_neg conftest, other] at found
  split at found
  · next package => exact ⟨package.1, (Option.some.inj found).symm⟩
  · exact nomatch found

theorem helper_given (helper : Helper) (known : helper.module ∈ repo.modules) (test : TestModule repo) :
    Given (passesThrough repo helper.path ++ selects repo helper.path) test.path ↔
      Relation.ReflTransGen (Names repo) test.module helper.module := by
  have under := (helper_name helper).1
  unfold passesThrough selects importing
  rw [if_pos under, if_pos under]
  have tests {path : Path} (member : path ∈ importingTests repo helper.path)
      (front : path <+: test.path) :
      Relation.ReflTransGen (Names repo) test.module helper.module := by
    obtain ⟨tree, _, isTest, chain⟩ := (mem_importingTests helper).mp member
    rw [eq_of_front test.file isTest front] at chain
    exact chain
  constructor
  · rintro ⟨target, member, front⟩
    rcases List.mem_append.mp member with own | selected
    · obtain ⟨package, rfl⟩ := helper_direct (Option.mem_toList.mp own)
      exact .single (names_package test known package front)
    · exact tests (List.mem_filter.mp selected).1 front
  · intro chain
    have member : test.path ∈ importingTests repo helper.path :=
      (mem_importingTests helper).mpr ⟨test.tree, test.parsed, test.isTest, chain⟩
    cases found : direct repo helper.path with
    | none =>
      exact ⟨test.path, List.mem_append_right _ (List.mem_filter.mpr ⟨member, rfl⟩),
        List.prefix_refl _⟩
    | some own =>
      by_cases below : own <+: test.path
      · exact ⟨own, List.mem_append_left _ (List.mem_singleton_self _), below⟩
      · have apart : own.isPrefixOf test.path = false := by
          rw [Bool.eq_false_iff]
          exact fun front => below (List.isPrefixOf_iff_prefix.mp front)
        refine ⟨test.path, List.mem_append_right _ (List.mem_filter.mpr ⟨member, ?_⟩),
          List.prefix_refl _⟩
        simpa using apart

theorem helpers_given (changed : List Helper) (test : TestModule repo) :
    Given (selectTestsForSources repo (changed.map (·.path))).pytestTargets test.path ↔
      ∃ helper ∈ changed, ReachedBy repo test.module helper := by
  rw [given_iff test.file]
  constructor
  · rintro ⟨path, member, runs⟩
    obtain ⟨helper, inside, rfl⟩ := List.mem_map.mp member
    refine ⟨helper, inside, ?_⟩
    by_cases known : helper.module ∈ repo.modules
    · rcases runs with trigger | reaches | given
      · rw [helper_triggers] at trigger
        exact nomatch trigger
      · exact ((reachesEveryTest_iff helper).mp reaches).imp_right .inl
      · exact .inr (.inr ((helper_given helper known test).mp given))
    · exact .inl known
  · rintro ⟨helper, inside, reached⟩
    refine ⟨helper.path, List.mem_map_of_mem inside, .inr ?_⟩
    rw [reachesEveryTest_iff]
    by_cases known : helper.module ∈ repo.modules
    · rcases reached with gone | root | chain
      · exact absurd known gone
      · exact .inl (.inr root)
      · exact .inr ((helper_given helper known test).mpr chain)
    · exact .inl (.inl known)

end Sources

end DevopsCli.Core.Selection
