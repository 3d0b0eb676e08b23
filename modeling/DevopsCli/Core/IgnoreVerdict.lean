import DevopsCli.Core.GitIgnores

/- When the index and git agree on a path. -/
namespace DevopsCli.Core.Gitignore
open PyStr LastRule

section Rules
variable {Pattern : Type*} {pathspec : Pathspec Pattern} {repo : Repo}

/-- The library lets a rule act on all that is below what git matches. -/
def ruleCovers (pathspec : Pathspec Pattern) (rule : List Str × Pattern) (path : List Str)
    (isDir : Bool) : Bool :=
  actsBelow rule.1 path fun relative => pathspec.matchFile rule.2 relative isDir

def positive (pathspec : Pathspec Pattern) (rule : List Str × Pattern) : Bool :=
  !pathspec.negated rule.2

def entryRules (entries : List (List Pattern × List Str)) : List (List Str × Pattern) :=
  entries.flatMap fun entry => entry.1.map fun pattern => (entry.2, pattern)

theorem matchSpec_decision (spec : List Pattern) (target base : List Str) (isDir : Bool)
    (current : Option Bool) : matchSpec pathspec spec target base isDir current =
      (decision (ruleCovers pathspec · target isDir) (positive pathspec)
        (spec.map fun pattern => (base, pattern))).or current := by
  rw [decision_map]
  cases found : relativeTo base target with
  | none =>
    rw [decision_none fun pattern _ => by simp [ruleCovers, actsBelow, found]]
    simp [matchSpec, found]
  | some relative =>
    cases relative with
    | nil =>
      rw [decision_none fun pattern _ => by simp [ruleCovers, actsBelow, found]]
      simp [matchSpec, found]
    | cons part rest => simp [matchSpec, found, checkFile, ruleCovers, actsBelow, positive]

theorem verdict_decision (scope : List (List Pattern × List Str)) (target : List Str)
    (isDir : Bool) : verdict pathspec scope target isDir =
      decision (ruleCovers pathspec · target isDir) (positive pathspec) (entryRules scope) := by
  have from_ : ∀ current : Option Bool, scope.foldl (fun current entry =>
      matchSpec pathspec entry.1 target entry.2 isDir current) current =
        (decision (ruleCovers pathspec · target isDir) (positive pathspec)
          (entryRules scope)).or current := by
    induction scope with
    | nil => exact fun current => rfl
    | cons entry scope ih =>
      intro current
      have split : entryRules (entry :: scope) =
          (entry.1.map fun pattern => (entry.2, pattern)) ++ entryRules scope := List.flatMap_cons
      rw [List.foldl_cons, ih, split, decision_append, matchSpec_decision, Option.or_assoc]
  rw [verdict, from_ none, Option.or_none]

theorem entryRules_append (scope more : List (List Pattern × List Str)) :
    entryRules (scope ++ more) = entryRules scope ++ entryRules more := List.flatMap_append

theorem entryRules_inScope {file : Option Str} (alike : ReadsAlike pathspec file)
    (base : List Str) : entryRules (inScope pathspec file base) = rulesOf pathspec file base := by
  have read := freshSpec_alike alike
  rw [inScope, rulesOf, ← read]
  cases freshSpec pathspec file <;> simp [entryRules]

theorem gitScope_concat (path : List Str) (part : Str) :
    gitScope pathspec repo (path ++ [part]) =
      gitScope pathspec repo path ++ rulesOf pathspec (repo.ignoreFile path) path := by
  have above : directoriesAbove (path ++ [part]) = directoriesAbove path ++ [path] := by
    rw [directoriesAbove, directoriesAbove, List.length_append, List.length_singleton,
      List.range_succ, List.map_append, List.map_singleton, List.take_left]
    congr 1
    refine List.map_congr_left fun n inside => ?_
    rw [List.take_append_of_le_length (Nat.le_of_lt (List.mem_range.mp inside))]
  rw [gitScope, gitScope, above, List.flatMap_append, List.append_assoc]
  simp

theorem relativeTo_append (base path : List Str) : relativeTo base (base ++ path) = some path := by
  rw [relativeTo, if_pos (by simp [List.isPrefixOf_iff_prefix]), List.drop_left]

theorem relativeTo_some {base target relative : List Str}
    (found : relativeTo base target = some relative) : target = base ++ relative := by
  rw [relativeTo] at found
  split at found
  · next isPrefix =>
    obtain ⟨rest, rfl⟩ := List.isPrefixOf_iff_prefix.mp isPrefix
    rw [List.drop_left] at found
    rw [Option.some.inj found]
  · cases found

theorem actsBelow_iff {base path : List Str} {acts : List Str → Bool} :
    actsBelow base path acts = true ↔
      ∃ relative, relative ≠ [] ∧ path = base ++ relative ∧ acts relative = true := by
  rw [actsBelow]
  split
  · next found =>
    constructor
    · exact fun false_ => absurd false_ Bool.false_ne_true
    · rintro ⟨relative, -, rfl, -⟩
      rw [relativeTo_append] at found
      cases found
  · next found =>
    constructor
    · exact fun false_ => absurd false_ Bool.false_ne_true
    · rintro ⟨relative, some_, rfl, -⟩
      rw [relativeTo_append] at found
      exact absurd (Option.some.inj found) some_
  · next part rest found =>
    constructor
    · exact fun acts_ => ⟨part :: rest, List.cons_ne_nil _ _, relativeTo_some found, acts_⟩
    · rintro ⟨relative, -, rfl, acts_⟩
      rw [relativeTo_append] at found
      rw [← Option.some.inj found]
      exact acts_

theorem levelIsDir_self (path : List Str) (isDir : Bool) : levelIsDir path isDir path = isDir := by
  rw [levelIsDir, bne_self_eq_false, Bool.false_or]

theorem levelIsDir_above {level path : List Str} (above : level ≠ path) (isDir : Bool) :
    levelIsDir path isDir level = true := by
  rw [levelIsDir, bne_iff_ne.mpr above, Bool.true_or]

theorem ruleCovers_iff {rule : List Str × Pattern} {path : List Str} {isDir : Bool} :
    ruleCovers pathspec rule path isDir = true ↔ ∃ level, IsLevel level path ∧
      ruleHits pathspec rule level (levelIsDir path isDir level) = true := by
  rw [ruleCovers, actsBelow_iff]
  constructor
  · rintro ⟨relative, some_, rfl, covers⟩
    rcases (pathspec.below _ _ _).mp covers with hit | ⟨above, nonempty, inside, proper, hit⟩
    · refine ⟨rule.1 ++ relative, ⟨by simp [some_], List.prefix_refl _⟩, ?_⟩
      rw [ruleHits, actsBelow_iff]
      exact ⟨relative, some_, rfl, by rwa [levelIsDir_self]⟩
    · refine ⟨rule.1 ++ above, ⟨by simp [nonempty], (List.prefix_append_right_inj _).mpr inside⟩, ?_⟩
      rw [ruleHits, actsBelow_iff]
      have apart : rule.1 ++ above ≠ rule.1 ++ relative :=
        fun same => proper (List.append_cancel_left same)
      exact ⟨above, nonempty, rfl, by rwa [levelIsDir_above apart]⟩
  · rintro ⟨level, ⟨-, inside⟩, hit⟩
    rw [ruleHits, actsBelow_iff] at hit
    obtain ⟨above, nonempty, rfl, hit⟩ := hit
    obtain ⟨rest, rfl⟩ := inside
    refine ⟨above ++ rest, by simp [nonempty], List.append_assoc .., ?_⟩
    rw [pathspec.below]
    by_cases whole : rest = []
    · subst whole
      rw [List.append_nil, levelIsDir_self] at hit
      rw [List.append_nil]
      exact Or.inl hit
    · have proper : above ≠ above ++ rest := by simpa using whole
      have apart : rule.1 ++ above ≠ rule.1 ++ above ++ rest := by simpa using whole
      rw [levelIsDir_above apart] at hit
      exact Or.inr ⟨above, nonempty, List.prefix_append _ _, proper, hit⟩

end Rules

section Levels
variable {Pattern : Type*} (pathspec : Pathspec Pattern) (repo : Repo) (path : List Str)
  (isDir : Bool)

/-- No level of the directory is ignored for good by the files above it: its own file is read. -/
def Walked (dir : List Str) : Prop :=
  ∀ level, IsLevel level dir →
    decision (ruleCovers pathspec · level true) (positive pathspec)
      (gitScope pathspec repo level) ≠ some true

theorem walked_root : Walked pathspec repo [] :=
  fun _ level => absurd (List.prefix_nil.mp level.2) level.1

def scopesOf : Scopes (List Str × Pattern) where
  scope i := gitScope pathspec repo (path.take (i + 1))
  hits rule i :=
    ruleHits pathspec rule (path.take (i + 1)) (levelIsDir path isDir (path.take (i + 1)))
  positive := positive pathspec
  grows i := by
    by_cases inside : i + 1 < path.length
    · refine ⟨rulesOf pathspec (repo.ignoreFile (path.take (i + 1))) (path.take (i + 1)), ?_, ?_⟩
      · rw [← gitScope_concat _ path[i + 1], List.take_concat_get']
      · intro rule mem j above
        obtain ⟨pattern, -, rfl⟩ := List.mem_map.mp mem
        rw [← Bool.not_eq_true, ruleHits, actsBelow_iff]
        rintro ⟨relative, some_, longer, -⟩
        have lengths := congrArg List.length longer
        rw [List.length_append, List.length_take, List.length_take] at lengths
        have := List.length_pos_iff.mpr some_
        omega
    · have same : path.take (i + 1 + 1) = path.take (i + 1) := by
        rw [List.take_of_length_le (by omega), List.take_of_length_le (by omega)]
      exact ⟨[], by rw [same, List.append_nil], fun _ mem => absurd mem List.not_mem_nil⟩

variable {pathspec repo path isDir}

theorem level_take {i : Nat} (inside : i < path.length) : IsLevel (path.take (i + 1)) path :=
  ⟨by rw [ne_eq, List.take_eq_nil_iff]; rintro (none | none) <;> simp_all, List.take_prefix _ _⟩

theorem exists_level {p : List Str → Prop} : (∃ level, IsLevel level path ∧ p level) ↔
    ∃ i < path.length, p (path.take (i + 1)) := by
  constructor
  · rintro ⟨level, ⟨some_, inside⟩, here⟩
    have positive_ := List.length_pos_iff.mpr some_
    have same : path.take (level.length - 1 + 1) = level := by
      rw [Nat.sub_add_cancel positive_]
      exact (List.prefix_iff_eq_take.mp inside).symm
    exact ⟨level.length - 1, by have := inside.length_le; omega, by rwa [same]⟩
  · rintro ⟨i, inside, here⟩
    exact ⟨_, level_take inside, here⟩

theorem levelIsDir_trans {above level : List Str} (below : above <+: level)
    (inside : level <+: path) :
    levelIsDir level (levelIsDir path isDir level) above = levelIsDir path isDir above := by
  by_cases same : above = level
  · rw [same, levelIsDir_self]
  · have apart : above ≠ path := by
      rintro rfl
      exact same (below.eq_of_length_le inside.length_le)
    rw [levelIsDir_above same, levelIsDir_above apart]

theorem covers_scopes (rule : List Str × Pattern) {i : Nat} (inside : i < path.length) :
    (scopesOf pathspec repo path isDir).covers rule i =
      ruleCovers pathspec rule (path.take (i + 1))
        (levelIsDir path isDir (path.take (i + 1))) := by
  have length : (path.take (i + 1)).length = i + 1 := by
    rw [List.length_take]
    omega
  rw [Bool.eq_iff_iff, Scopes.covers_iff, ruleCovers_iff, exists_level, length]
  refine exists_congr fun j => ?_
  rw [Nat.lt_succ_iff, List.take_take]
  refine and_congr_right fun above => ?_
  have shorter : path.take (j + 1) <+: path.take (i + 1) :=
    List.take_prefix_take_left (Nat.succ_le_succ above)
  rw [Nat.min_eq_left (Nat.succ_le_succ above), levelIsDir_trans shorter (List.take_prefix _ _)]
  rfl

theorem gitIgnores_decided : GitIgnores pathspec repo path isDir ↔
    (scopesOf pathspec repo path isDir).Decided path.length := exists_level

theorem level_decision {i : Nat} (inside : i < path.length) :
    decision ((scopesOf pathspec repo path isDir).covers · i) (positive pathspec)
        ((scopesOf pathspec repo path isDir).scope i) =
      decision (ruleCovers pathspec · (path.take (i + 1)) (levelIsDir path isDir (path.take (i + 1))))
        (positive pathspec) (gitScope pathspec repo (path.take (i + 1))) := by
  have same : (fun rule => (scopesOf pathspec repo path isDir).covers rule i) =
      fun rule => ruleCovers pathspec rule (path.take (i + 1))
        (levelIsDir path isDir (path.take (i + 1))) := funext fun rule => covers_scopes rule inside
  rw [same]
  rfl

theorem unmasked_scopes {i : Nat} (inside : i < path.length) :
    (scopesOf pathspec repo path isDir).Unmasked i ↔
      Unmasked pathspec repo path isDir (path.take (i + 1)) := by
  have covered : ∀ other, ((scopesOf pathspec repo path isDir).covers other i = true →
      positive pathspec other = true) ↔
      ∀ above, IsLevel above (path.take (i + 1)) →
        ruleHits pathspec other above (levelIsDir path isDir above) = true →
        pathspec.negated other.2 = false := by
    intro other
    rw [covers_scopes other inside, ruleCovers_iff, positive, Bool.not_eq_true']
    constructor
    · intro spared above level hit
      refine spared ⟨above, level, ?_⟩
      rwa [levelIsDir_trans level.2 (List.take_prefix _ _)]
    · rintro spared ⟨above, level, hit⟩
      rw [levelIsDir_trans level.2 (List.take_prefix _ _)] at hit
      exact spared above level hit
  constructor
  · rintro ⟨before, rule, after, split, hit, yes, later⟩
    exact ⟨before, rule, after, split, hit, (Bool.not_eq_true' _).mp yes,
      fun other mem => (covered other).mp (later other mem)⟩
  · rintro ⟨before, rule, after, split, hit, yes, later⟩
    exact ⟨before, rule, after, split, hit, (Bool.not_eq_true' _).mpr yes,
      fun other mem => (covered other).mpr (later other mem)⟩

theorem walked_concat {current : List Str} {part : Str} (walked : Walked pathspec repo current)
    (no : decision (ruleCovers pathspec · (current ++ [part]) true) (positive pathspec)
      (gitScope pathspec repo (current ++ [part])) ≠ some true) :
    Walked pathspec repo (current ++ [part]) := by
  rintro level ⟨some_, inside⟩
  rcases List.prefix_concat_iff.mp inside with rfl | above
  · exact no
  · exact walked level ⟨some_, above⟩

theorem descend_iff (alike : ∀ dir ∈ directoriesAbove path, Walked pathspec repo dir →
      ReadsAlike pathspec (repo.ignoreFile dir))
    {rest : List Str} (current : List Str) (split : path = current ++ rest)
    (walked : Walked pathspec repo current) {scope : List (List Pattern × List Str)}
    (rules : entryRules scope =
      gitScope pathspec repo current ++ rulesOf pathspec (repo.ignoreFile current) current) :
    descend pathspec repo isDir scope current rest = true ↔
      ∃ i, current.length ≤ i ∧ i < path.length ∧
        decision ((scopesOf pathspec repo path isDir).covers · i) (positive pathspec)
          ((scopesOf pathspec repo path isDir).scope i) = some true := by
  induction rest generalizing current scope with
  | nil =>
    have length : path.length = current.length := by rw [split, List.append_nil]
    constructor
    · exact fun false_ => absurd false_ Bool.false_ne_true
    · rintro ⟨i, from_, inside, -⟩
      omega
  | cons part rest ih =>
    have inside : current.length < path.length := by
      rw [split, List.length_append, List.length_cons]
      omega
    have level : path.take (current.length + 1) = current ++ [part] := by
      rw [split, List.take_append, List.take_of_length_le (Nat.le_succ _)]
      simp
    have here := @level_decision _ pathspec repo _ isDir _ inside
    rw [level, gitScope_concat, ← rules, ← verdict_decision] at here
    cases rest with
    | nil =>
      have length : path.length = current.length + 1 := by
        rw [split, List.length_append, List.length_singleton]
      have flag : levelIsDir path isDir (current ++ [part]) = isDir := by
        rw [← split, levelIsDir_self]
      rw [flag] at here
      rw [descend, beq_iff_eq, ← here]
      constructor
      · exact fun yes => ⟨current.length, Nat.le_refl _, inside, yes⟩
      · rintro ⟨i, from_, below, yes⟩
        have same : i = current.length := by omega
        rwa [same] at yes
    | cons next more =>
      have apart : current ++ [part] ≠ path := by
        rw [split]
        simp
      rw [levelIsDir_above apart] at here
      have verdict_here : decision (ruleCovers pathspec · (current ++ [part]) true)
          (positive pathspec) (gitScope pathspec repo (current ++ [part])) =
          decision ((scopesOf pathspec repo path isDir).covers · current.length) (positive pathspec)
            ((scopesOf pathspec repo path isDir).scope current.length) := by
        rw [here, gitScope_concat, ← rules, ← verdict_decision]
      have above : current ++ [part] ∈ directoriesAbove path := by
        refine List.mem_map.mpr ⟨current.length + 1, ?_, level⟩
        rw [List.mem_range, split]
        simp
      rw [descend, ← here]
      split
      · next yes =>
        exact ⟨fun _ => ⟨current.length, Nat.le_refl _, inside, yes⟩, fun _ => rfl⟩
      · next no =>
        have deeper : Walked pathspec repo (current ++ [part]) := walked_concat walked (verdict_here ▸ no)
        have grown : entryRules (scope ++ inScope pathspec (repo.ignoreFile (current ++ [part]))
            (current ++ [part])) = gitScope pathspec repo (current ++ [part]) ++
              rulesOf pathspec (repo.ignoreFile (current ++ [part])) (current ++ [part]) := by
          rw [entryRules_append, rules, entryRules_inScope (alike _ above deeper), gitScope_concat]
        rw [ih (current ++ [part]) (by rw [split, List.append_assoc]; rfl) deeper grown, List.length_append, List.length_singleton]
        constructor
        · rintro ⟨i, from_, below, yes⟩
          exact ⟨i, by omega, below, yes⟩
        · rintro ⟨i, from_, below, yes⟩
          have apart : i ≠ current.length := by
            rintro rfl
            exact no yes
          exact ⟨i, by omega, below, yes⟩
      · exact List.cons_ne_nil _ _

theorem isIgnored_covered {root : List Str} {target : Target} (flag : Option Bool)
    (inside : relative root (target.parts root) = some path)
    (exclude : ReadsAlike pathspec repo.exclude)
    (alike : ∀ dir ∈ directoriesAbove path, Walked pathspec repo dir →
      ReadsAlike pathspec (repo.ignoreFile dir)) :
    isIgnored pathspec repo root target flag = true ↔
      (scopesOf pathspec repo path (flag.getD (repo.isDir path))).Covered path.length := by
  rw [isIgnored, inside]
  cases path with
  | nil =>
    constructor
    · exact fun false_ => absurd false_ Bool.false_ne_true
    · rintro ⟨i, none, -⟩
      exact absurd none (Nat.not_lt_zero i)
  | cons part rest =>
    have rootAbove : [] ∈ directoriesAbove (part :: rest) :=
      List.mem_map.mpr ⟨0, List.mem_range.mpr (Nat.succ_pos _), rfl⟩
    have first : gitScope pathspec repo [] = rulesOf pathspec repo.exclude [] := List.append_nil _
    have rules : entryRules (inScope pathspec repo.exclude [] ++
        inScope pathspec (repo.ignoreFile []) []) =
        gitScope pathspec repo [] ++ rulesOf pathspec (repo.ignoreFile []) [] := by
      rw [entryRules_append, entryRules_inScope exclude, entryRules_inScope
        (alike _ rootAbove (walked_root pathspec repo)), first]
    refine (descend_iff alike [] rfl (walked_root pathspec repo) rules).trans ?_
    refine exists_congr fun i => ?_
    simp only [List.length_nil, Nat.zero_le, true_and]
    rfl

/-- The index says what git says when no pattern that decides is masked by a negated one that matches
    a directory above; otherwise it keeps a path that git ignores. -/
theorem isIgnored_git {root : List Str} {target : Target} (flag : Option Bool)
    (inside : relative root (target.parts root) = some path)
    (exclude : ReadsAlike pathspec repo.exclude)
    (alike : ∀ dir ∈ directoriesAbove path, Walked pathspec repo dir →
      ReadsAlike pathspec (repo.ignoreFile dir)) :
    (isIgnored pathspec repo root target flag = true ↔
      GitIgnores pathspec repo path (flag.getD (repo.isDir path))) ↔
    (GitIgnores pathspec repo path (flag.getD (repo.isDir path)) →
      ∃ level, IsLevel level path ∧
        Unmasked pathspec repo path (flag.getD (repo.isDir path)) level) := by
  have unmasked : (∃ level, IsLevel level path ∧
      Unmasked pathspec repo path (flag.getD (repo.isDir path)) level) ↔
      ∃ i < path.length,
        (scopesOf pathspec repo path (flag.getD (repo.isDir path))).Unmasked i := by
    rw [exists_level]
    refine exists_congr fun i => and_congr_right fun below => ?_
    exact (unmasked_scopes below).symm
  rw [isIgnored_covered flag inside exclude alike, gitIgnores_decided, unmasked]
  exact Scopes.covered_iff_decided path.length

end Levels

section Names

structure NamePattern where
  negated : Bool
  anchored : Bool
  directory : Bool
  name : Str

def readName (line : Str) : Option NamePattern :=
  if line.all (· == ' ') = true ∨ line.head? = some '#' then none
  else
    let negated := line.head? == some '!'
    let rest := if negated = true then line.tail else line
    let anchored := rest.head? == some '/'
    let rest := if anchored = true then rest.tail else rest
    let directory := rest.getLast? == some '/'
    some ⟨negated, anchored, directory, if directory = true then rest.dropLast else rest⟩

def NamePattern.hits (pattern : NamePattern) (path : List Str) (isDir : Bool) : Bool :=
  (!pattern.directory || isDir) &&
    if pattern.anchored = true then path == [pattern.name] else path.getLast? == some pattern.name

def names : Pathspec NamePattern where
  read := readName
  refuses _ := false
  negated := NamePattern.negated
  matchFile pattern path isDir := pattern.hits path isDir ||
    path.inits.any fun above => above != [] && (above != path && pattern.hits above true)
  hits := NamePattern.hits
  below := by
    intro pattern path isDir
    simp only [Bool.or_eq_true, List.any_eq_true, List.mem_inits, Bool.and_eq_true, bne_iff_ne,
      ne_eq]
    exact or_congr_right (exists_congr fun above => and_left_comm)
  spaces := by
    intro line spaces
    rw [readName, if_pos]
    exact Or.inl (List.all_eq_true.mpr fun c mem => beq_iff_eq.mpr (spaces c mem))

def rootFile (text : Str) : Repo where
  exclude := none
  ignoreFile dir := if dir = [] then some text else none
  isDir _ := false

theorem readsAlike_none : ReadsAlike names none where
  unmarked := by
    intro _ none
    cases none
  whole := by
    intro _ none
    cases none
  spaces := by
    intro _ none
    cases none
  accepted := by
    intro _ none
    cases none

theorem readsAlike_directory : ReadsAlike names (some "a/\n".toList) where
  unmarked := by
    rintro _ ⟨⟩
    decide
  whole := by
    rintro _ ⟨⟩ line mem c inLine
    have all : ("a/\n".toList.splitOn '\n').all fun line => (chomp line).all fun c => !isBreak c := by
      decide
    have := List.all_eq_true.mp (List.all_eq_true.mp all line mem) c inLine
    exact (Bool.not_eq_true' _).mp this
  spaces := by
    rintro _ ⟨⟩ line mem blank c inLine
    have all : ("a/\n".toList.splitOn '\n').all fun line =>
        (strip (chomp line)).isEmpty == (chomp line).isEmpty := by decide
    have same := beq_iff_eq.mp (List.all_eq_true.mp all line mem)
    rw [strip_eq_nil_iff.mpr blank] at same
    rw [List.isEmpty_iff.mp same.symm] at inLine
    cases inLine
  accepted _ _ _ _ _ := rfl

def ignoredDirectory : Repo where
  exclude := none
  ignoreFile dir :=
    if dir = [] then some "a/\n".toList
    else if dir = ["a".toList] then some ('\uFEFF' :: "x\n".toList)
    else none
  isDir _ := false

theorem isIgnored_git_directory :
    isIgnored names ignoredDirectory ["r".toList] (.relative ["a".toList, "b".toList])
      (some false) = true ↔
    GitIgnores names ignoredDirectory ["a".toList, "b".toList] false := by
  have alike : ∀ dir ∈ directoriesAbove ["a".toList, "b".toList], Walked names ignoredDirectory dir →
      ReadsAlike names (ignoredDirectory.ignoreFile dir) := by
    intro dir mem walked
    rcases List.mem_pair.mp mem with rfl | rfl
    · exact readsAlike_directory
    · exact absurd (by decide) (walked ["a".toList] ⟨by decide, List.prefix_refl _⟩)
  refine (isIgnored_git (some false) (by decide) readsAlike_none alike).mpr fun _ => ?_
  refine ⟨["a".toList], ⟨by decide, List.prefix_append _ _⟩,
    [], ([], ⟨false, false, true, "a".toList⟩), [], rfl, by decide, rfl, ?_⟩
  exact fun _ mem => absurd mem List.not_mem_nil

/-- A negated directory pattern takes back what it does not match: the file below the directory. -/
theorem isIgnored_masked :
    ¬(isIgnored names (rootFile "b\n!/a/\n".toList) ["r".toList]
        (.relative ["a".toList, "b".toList]) (some false) = true ↔
      GitIgnores names (rootFile "b\n!/a/\n".toList) ["a".toList, "b".toList] false) := by
  intro same
  have kept : isIgnored names (rootFile "b\n!/a/\n".toList) ["r".toList]
      (.relative ["a".toList, "b".toList]) (some false) = false := by decide
  have ignored : GitIgnores names (rootFile "b\n!/a/\n".toList) ["a".toList, "b".toList] false :=
    ⟨["a".toList, "b".toList], ⟨by decide, List.prefix_refl _⟩, by decide⟩
  rw [same.mpr ignored] at kept
  cases kept

end Names
end DevopsCli.Core.Gitignore
