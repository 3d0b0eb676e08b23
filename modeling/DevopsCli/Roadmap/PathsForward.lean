import DevopsCli.Roadmap.StagePaths

/- The plan run forward: a tree that grows by what the groups create, and what each group names of
   it. The check of the paths is compared with that run. -/
namespace DevopsCli.Roadmap.StagePaths
open PyStr PyPath LeastFirst
open Implement.StageTasks (StageGroup Printable Accepted validate fits noChangeFolderWrites
  changesDirectory)

structure Naming where
  number : Nat
  place : Place
  named : Str
  creates : List Str

def Naming.path (naming : Naming) : Str := rstripSlash naming.named

def Naming.spot (naming : Naming) : ℕ ×ₗ ℕ := toLex (naming.number, naming.place.number)

section Forward
variable (reading : Reading) (tree : StagedTree)

def groupNamings (creates : List Str) (entry : StageGroup × Nat) : List Naming :=
  (named reading tree entry.1).map fun found => ⟨entry.2, found.1, found.2, creates⟩

def namingsFrom (creates : List Str) : List (StageGroup × Nat) → List Naming
  | [] => []
  | entry :: rest =>
    groupNamings reading tree (creates ++ entry.1.creates) entry ++
      namingsFrom (creates ++ entry.1.creates) rest

def namings (groups : List StageGroup) : List Naming := namingsFrom reading tree [] (groups.zipIdx 1)

/-- The tree with the files of the groups up to the naming does not hold the path. -/
def missing (naming : Naming) : Bool := !holds (tree.withFiles naming.creates) naming.named

def closure (creates : List Str) : List Str := creates.flatMap fun path => path :: foldersOf path

/-- The path is no file or folder that the groups create, and the commit does not hold it. -/
def judged (naming : Naming) : Bool :=
  decide (naming.path ∉ closure naming.creates) && !holds tree naming.named

/-- The first naming of a path that a judge takes: its group and its place. -/
def First (judge : Naming → Bool) (namings : List Naming) (number : Nat) (place : Place)
    (path : Str) : Prop :=
  ∃ naming ∈ namings, judge naming = true ∧ naming.number = number ∧ naming.place = place ∧
    naming.path = path ∧
    ∀ other ∈ namings, judge other = true → other.path = path → naming.spot ≤ other.spot

def changeFolderParts : List Str := ["openspec".toList, "changes".toList]

def InChangeFolder (path : Str) : Prop := changeFolderParts <+: parts path

structure Forward (groups : List StageGroup) : Prop where
  reported : ∀ path, path ∈ (pathProblems reading tree groups).map Problem.path ↔
    (∃ group ∈ groups, ∃ written ∈ group.changes ++ group.creates,
      rstripSlash written = path ∧ InChangeFolder written) ∨
    ∃ naming ∈ namings reading tree groups, naming.path = path ∧ missing tree naming = true
  first : ∀ number place path, (∃ later same,
      .missing number place path later same ∈ pathProblems reading tree groups) ↔
    First (missing tree) (namings reading tree groups) number place path
  once : ((pathProblems reading tree groups).map Problem.path).Nodup
  none : pathProblems reading tree groups = [] ↔
    (∀ group ∈ groups, ∀ written ∈ group.changes ++ group.creates, ¬InChangeFolder written) ∧
    ∀ naming ∈ namings reading tree groups, missing tree naming = false

structure Globbed (naming : Naming) : Prop where
  file : naming.named.getLast? ≠ some '/'
  notCreated : naming.path ∉ closure naming.creates
  absent : tree.has naming.path = false
  glob : hasMagic naming.path = true
  matched : ∃ file ∈ naming.creates, fnmatchcase file naming.path = true

structure Slashed (naming : Naming) : Prop where
  folder : naming.named.getLast? = some '/'
  created : naming.path ∈ naming.creates
  absent : tree.hasFolder naming.path = false
  none : naming.path ∉ naming.creates.flatMap foldersOf

/-- Each glob that only a created file matches and each created file that is named as a folder is at
    or behind a spot where its path is missing by both rules, and each path written in the change
    folder is missing somewhere. -/
structure Agrees (groups : List StageGroup) : Prop where
  apart : ∀ naming ∈ namings reading tree groups,
    Globbed tree naming ∨ Slashed tree naming →
    ∃ first ∈ namings reading tree groups, ∃ second ∈ namings reading tree groups,
      first.path = naming.path ∧ second.path = naming.path ∧ first.spot = second.spot ∧
      first.spot ≤ naming.spot ∧ judged tree first = true ∧ missing tree second = true
  written : ∀ group ∈ groups, ∀ written ∈ group.changes ++ group.creates, InChangeFolder written →
    ∃ naming ∈ namings reading tree groups,
      naming.path = rstripSlash written ∧ missing tree naming = true

end Forward

section Rules
variable {tree : StagedTree}

theorem mem_closure {creates : List Str} {path : Str} :
    path ∈ closure creates ↔ path ∈ creates ∨ path ∈ creates.flatMap foldersOf := by
  simp only [closure, List.mem_flatMap, List.mem_cons]
  constructor
  · rintro ⟨created, mem, rfl | above⟩
    · exact Or.inl mem
    · exact Or.inr ⟨created, mem, above⟩
  · rintro (mem | ⟨created, mem, above⟩)
    · exact ⟨path, mem, Or.inl rfl⟩
    · exact ⟨created, mem, Or.inr above⟩

theorem rstripSlash_again (path : Str) : rstripSlash (rstripSlash path) = rstripSlash path :=
  List.rdropWhile_idempotent _ path

theorem mem_folders (creates : List Str) {path : Str} :
    path ∈ (tree.withFiles creates).folders ↔
      path ∈ tree.folders ∨ path ∈ creates.flatMap foldersOf := by
  simp [StagedTree.folders, StagedTree.withFiles, List.flatMap_append]

theorem hasFolder_withFiles (creates : List Str) {path : Str} :
    (tree.withFiles creates).hasFolder path = true ↔
      tree.hasFolder path = true ∨ rstripSlash path ∈ creates.flatMap foldersOf := by
  simp only [StagedTree.hasFolder, decide_eq_true_eq, mem_folders]

theorem has_withFiles (creates : List Str) {path : Str} :
    (tree.withFiles creates).has path = true ↔
      tree.has path = true ∨ rstripSlash path ∈ closure creates ∨
        hasMagic (rstripSlash path) = true ∧
          ∃ file ∈ creates, fnmatchcase file (rstripSlash path) = true := by
  simp only [StagedTree.has, Bool.or_eq_true, decide_eq_true_eq, Bool.and_eq_true, mem_folders,
    List.any_eq_true, mem_closure]
  simp only [StagedTree.withFiles, List.mem_append]
  constructor
  · rintro ((file | folder) | ⟨magic, file, mem, fits⟩)
    · tauto
    · tauto
    · rcases mem with mem | mem
      · exact Or.inl (Or.inr ⟨magic, file, mem, fits⟩)
      · exact Or.inr (Or.inr ⟨magic, file, mem, fits⟩)
  · rintro (((file | folder) | ⟨magic, file, mem, fits⟩) | created | ⟨magic, file, mem, fits⟩)
    · tauto
    · tauto
    · exact Or.inr ⟨magic, file, Or.inl mem, fits⟩
    · tauto
    · exact Or.inr ⟨magic, file, Or.inr mem, fits⟩

theorem path_stripped (naming : Naming) : rstripSlash naming.path = naming.path :=
  rstripSlash_again naming.named

theorem judged_iff (naming : Naming) :
    judged tree naming = true ↔ naming.path ∉ closure naming.creates ∧
      ¬holds tree naming.named = true := by
  simp [judged]

theorem missing_iff (naming : Naming) :
    missing tree naming = true ↔ ¬holds (tree.withFiles naming.creates) naming.named = true := by
  simp [missing]

theorem apart_folder {naming : Naming} (slash : naming.named.getLast? = some '/') :
    judged tree naming ≠ missing tree naming ↔ Slashed tree naming := by
  have own : holds tree naming.named = tree.hasFolder naming.path := if_pos slash
  have grown : holds (tree.withFiles naming.creates) naming.named =
      (tree.withFiles naming.creates).hasFolder naming.path := if_pos slash
  rw [Ne, Bool.eq_iff_iff, judged_iff, missing_iff, own, grown, hasFolder_withFiles, mem_closure,
    path_stripped]
  constructor
  · intro differ
    by_cases folder : tree.hasFolder naming.path = true
    · exact absurd (by simp [folder]) differ
    · by_cases above : naming.path ∈ naming.creates.flatMap foldersOf
      · exact absurd (by simp [above]) differ
      · by_cases created : naming.path ∈ naming.creates
        · exact ⟨slash, created, by simpa using folder, above⟩
        · exact absurd (by simp only [folder, above, created]; simp) differ
  · rintro ⟨-, created, folder, above⟩
    simp only [created, folder, above]
    simp

theorem apart_file {naming : Naming} (file : naming.named.getLast? ≠ some '/') :
    judged tree naming ≠ missing tree naming ↔ Globbed tree naming := by
  have own : holds tree naming.named = tree.has naming.path := if_neg file
  have grown : holds (tree.withFiles naming.creates) naming.named =
      (tree.withFiles naming.creates).has naming.path := if_neg file
  rw [Ne, Bool.eq_iff_iff, judged_iff, missing_iff, own, grown, has_withFiles, path_stripped]
  constructor
  · intro differ
    by_cases has : tree.has naming.path = true
    · exact absurd (by simp [has]) differ
    · by_cases created : naming.path ∈ closure naming.creates
      · exact absurd (by simp [created]) differ
      · by_cases glob : hasMagic naming.path = true ∧
            ∃ file ∈ naming.creates, fnmatchcase file naming.path = true
        · exact ⟨file, created, by simpa using has, glob.1, glob.2⟩
        · exact absurd (by simp only [has, created, glob]; simp) differ
  · rintro ⟨-, created, has, glob, matched⟩
    simp only [created, has, glob, matched]
    simp

theorem apart_iff (naming : Naming) :
    judged tree naming ≠ missing tree naming ↔ Globbed tree naming ∨ Slashed tree naming := by
  by_cases slash : naming.named.getLast? = some '/'
  · rw [apart_folder slash]
    exact ⟨Or.inr, fun either => either.resolve_left fun globbed => globbed.file slash⟩
  · rw [apart_file slash]
    exact ⟨Or.inl, fun either => either.resolve_right fun slashed => slash slashed.folder⟩

end Rules
section Loop
variable (reading : Reading) (tree : StagedTree) (creators : List (Str × Nat))

def checkNaming (state : List Str × List Problem) (naming : Naming) : List Str × List Problem :=
  if naming.path ∈ state.1 ∨ judged tree naming = false then state
  else (naming.path :: state.1, state.2 ++ [.missing naming.number naming.place naming.path
    (creators.lookup naming.path) (tree.sameName naming.path)])

def Check.state (check : Check) : List Str × List Problem := (check.reported, check.problems)

def problemOf (naming : Naming) : Problem :=
  .missing naming.number naming.place naming.path (creators.lookup naming.path)
    (tree.sameName naming.path)

theorem checkNamed_eq (number : Nat) {creates : List Str} {check : Check} (created : check.created = closure creates) (entry : Place × Str) :
    (checkNamed tree creators number check entry).created = closure creates ∧
      (checkNamed tree creators number check entry).state =
        checkNaming tree creators check.state ⟨number, entry.1, entry.2, creates⟩ := by
  have rule : judged tree ⟨number, entry.1, entry.2, creates⟩ = false ↔
      rstripSlash entry.2 ∈ closure creates ∨ holds tree entry.2 = true := by
    rw [← Bool.not_eq_true, judged_iff, not_and_or, not_not, not_not]
    rfl
  simp only [checkNamed, checkNaming, rule, created, Naming.path, Check.state]
  split
  · exact ⟨created, rfl⟩
  · exact ⟨rfl, rfl⟩

theorem checkNamed_foldl (number : Nat) (entries : List (Place × Str)) {creates : List Str}
    {check : Check} (created : check.created = closure creates) :
    (entries.foldl (checkNamed tree creators number) check).created = closure creates ∧
      (entries.foldl (checkNamed tree creators number) check).state =
        (entries.map fun entry => (⟨number, entry.1, entry.2, creates⟩ : Naming)).foldl
          (checkNaming tree creators) check.state := by
  induction entries generalizing check with
  | nil => exact ⟨created, rfl⟩
  | cons entry entries ih =>
    have ⟨kept, step⟩ := checkNamed_eq tree creators number created entry
    have ⟨last, run⟩ := ih kept
    refine ⟨last, ?_⟩
    rw [List.foldl_cons, List.map_cons, List.foldl_cons, ← step]
    exact run

theorem checkGroup_eq {creates : List Str} {check : Check}
    (created : check.created = closure creates) {entry : StageGroup × Nat}
    (quiet : changeFolderPaths (entry.1.changes ++ entry.1.creates) = []) :
    (checkGroup reading tree creators check entry).created =
        closure (creates ++ entry.1.creates) ∧
      (checkGroup reading tree creators check entry).state =
        (groupNamings reading tree (creates ++ entry.1.creates) entry).foldl
          (checkNaming tree creators) check.state := by
  have grown : check.created ++ (entry.1.creates.flatMap fun path => path :: foldersOf path) =
      closure (creates ++ entry.1.creates) := by
    rw [created, closure, closure, List.flatMap_append]
  simp only [checkGroup, quiet, List.foldl_nil]
  exact checkNamed_foldl tree creators entry.2 (named reading tree entry.1) grown

theorem checkGroups_eq (entries : List (StageGroup × Nat))
    {creates : List Str} {check : Check} (created : check.created = closure creates)
    (quiet : ∀ entry ∈ entries, changeFolderPaths (entry.1.changes ++ entry.1.creates) = []) :
    (entries.foldl (checkGroup reading tree creators) check).state =
      (namingsFrom reading tree creates entries).foldl (checkNaming tree creators) check.state := by
  induction entries generalizing creates check with
  | nil => rfl
  | cons entry rest ih =>
    have ⟨grown, step⟩ := checkGroup_eq reading tree creators created
      (quiet entry List.mem_cons_self)
    rw [List.foldl_cons, ih grown fun later mem => quiet later (List.mem_cons_of_mem _ mem), step,
      namingsFrom, List.foldl_append]

theorem checkNaming_foldl (namings : List Naming)
    (reported : List Str) (problems : List Problem) :
    (namings.foldl (checkNaming tree creators) (reported, problems)).2 =
      problems ++ (keepFirst Naming.path reported (namings.filter (judged tree))).map
        (problemOf tree creators) := by
  induction namings generalizing reported problems with
  | nil => simp [keepFirst]
  | cons naming rest ih =>
    rw [List.foldl_cons]
    cases rule : judged tree naming with
    | false =>
      rw [checkNaming, if_pos (Or.inr rule), ih, List.filter_cons_of_neg (by simp [rule])]
    | true =>
      rw [List.filter_cons_of_pos rule, keepFirst]
      by_cases known : naming.path ∈ reported
      · rw [checkNaming, if_pos (Or.inl known), if_pos known, ih]
      · rw [checkNaming, if_neg (by simp [known, rule]), if_neg known, ih, List.map_cons,
          List.append_assoc]
        rfl

theorem accepted_quiet {printable : Printable} {group : StageGroup}
    (accepted : Accepted printable group) :
    changeFolderPaths (group.changes ++ group.creates) = [] := by
  obtain ⟨raw, valid⟩ := accepted
  simp only [validate, Option.bind_eq_bind, Option.bind_eq_some_iff] at valid
  obtain ⟨_, -, _, -, _, -, _, -, _, -, _, -, _, -, _, -, _, -, _, -, made⟩ := valid
  split at made
  · next fine =>
    cases made
    have outside : noChangeFolderWrites _ = true := (Bool.and_eq_true _ _ ▸ fine.2).2
    rw [changeFolderPaths, List.filter_eq_nil_iff]
    intro path mem
    have := List.all_eq_true.mp outside path mem
    rw [Bool.and_eq_true, bne_iff_ne, Bool.not_eq_true'] at this
    rw [Bool.or_eq_true, beq_iff_eq, this.2]
    simpa using this.1
  · cases made

end Loop

section Spots
variable {reading : Reading} {tree : StagedTree}

theorem pathProblems_eq {printable : Printable} {groups : List StageGroup}
    (accepted : ∀ group ∈ groups, Accepted printable group) :
    pathProblems reading tree groups =
      (keepFirst Naming.path [] ((namings reading tree groups).filter (judged tree))).map
        (problemOf tree (firstCreators groups)) := by
  have quiet : ∀ entry ∈ groups.zipIdx 1,
      changeFolderPaths (entry.1.changes ++ entry.1.creates) = [] := by
    intro entry mem
    exact accepted_quiet (accepted entry.1 (List.fst_mem_of_mem_zipIdx mem))
  have start : ({} : Check).created = closure [] := rfl
  have run := checkGroups_eq reading tree (firstCreators groups) (groups.zipIdx 1) start quiet
  have problems := congrArg Prod.snd run
  rw [show (Check.state {}) = ([], []) from rfl, checkNaming_foldl, List.nil_append] at problems
  exact problems

theorem named_ordered (group : StageGroup) :
    (named reading tree group).Pairwise fun first second =>
      first.1.number ≤ second.1.number := by
  have level : ∀ (place : Place) (paths : List Str),
      (paths.map (place, ·)).Pairwise fun first second => first.1.number ≤ second.1.number := by
    intro place paths
    rw [List.pairwise_map]
    exact List.pairwise_of_forall fun _ _ => le_refl _
  have placed : ∀ {place : Place} {paths : List Str} {entry : Place × Str},
      entry ∈ paths.map (place, ·) → entry.1 = place := by
    intro place paths entry mem
    obtain ⟨path, -, rfl⟩ := List.mem_map.mp mem
    rfl
  unfold named
  rw [← List.map_flatMap]
  refine List.pairwise_append.mpr ⟨List.pairwise_append.mpr ⟨List.pairwise_append.mpr
    ⟨level _ _, level _ _, ?_⟩, level _ _, ?_⟩, level _ _, ?_⟩
  · intro first one second two
    rw [placed one, placed two]
    decide
  · intro first one second two
    rw [placed two]
    rcases List.mem_append.mp one with one | one <;> rw [placed one] <;> decide
  · intro first one second two
    rw [placed two]
    rcases List.mem_append.mp one with one | one
    · rcases List.mem_append.mp one with one | one <;> rw [placed one] <;> decide
    · rw [placed one]
      decide

theorem namingsFrom_number (groups : List StageGroup) (creates : List Str) (start : Nat) :
    ∀ naming ∈ namingsFrom reading tree creates (groups.zipIdx start), start ≤ naming.number := by
  induction groups generalizing creates start with
  | nil => simp [namingsFrom]
  | cons group rest ih =>
    intro naming mem
    rw [List.zipIdx_cons, namingsFrom] at mem
    rcases List.mem_append.mp mem with own | later
    · obtain ⟨found, -, rfl⟩ := List.mem_map.mp own
      exact le_refl _
    · have := ih _ _ naming later
      omega

theorem namingsFrom_ordered (groups : List StageGroup) (creates : List Str) (start : Nat) :
    (namingsFrom reading tree creates (groups.zipIdx start)).Pairwise fun first second =>
      first.spot ≤ second.spot := by
  induction groups generalizing creates start with
  | nil => exact List.Pairwise.nil
  | cons group rest ih =>
    rw [List.zipIdx_cons, namingsFrom]
    refine List.pairwise_append.mpr ⟨?_, ih _ _, ?_⟩
    · rw [groupNamings, List.pairwise_map]
      refine (named_ordered group).imp ?_
      intro first second level
      exact Prod.Lex.toLex_le_toLex.mpr (Or.inr ⟨rfl, level⟩)
    · intro first own second later
      obtain ⟨found, -, rfl⟩ := List.mem_map.mp own
      have := namingsFrom_number rest _ _ second later
      exact Prod.Lex.toLex_le_toLex.mpr (Or.inl (by simpa [Nat.succ_le_iff] using this))

theorem namings_ordered (groups : List StageGroup) :
    (namings reading tree groups).Pairwise fun first second => first.spot ≤ second.spot :=
  namingsFrom_ordered groups [] 1

theorem spot_eq {first second : Naming} (same : first.spot = second.spot) :
    first.number = second.number ∧ first.place = second.place := by
  simp only [Naming.spot, toLex_inj, Prod.mk.injEq] at same
  refine ⟨same.1, ?_⟩
  have places := same.2
  cases one : first.place <;> cases two : second.place <;> simp_all [Place.number]

variable {judge : Naming → Bool} {all : List Naming}

theorem kept_first (ordered : all.Pairwise fun first second => first.spot ≤ second.spot)
    {naming : Naming} (kept : naming ∈ keepFirst Naming.path [] (all.filter judge)) :
    naming ∈ all ∧ judge naming = true ∧
      ∀ other ∈ all, judge other = true → other.path = naming.path →
        naming.spot ≤ other.spot := by
  have ⟨mem, taken⟩ := List.mem_filter.mp ((keepFirst_sublist [] _).mem kept)
  refine ⟨mem, taken, ?_⟩
  intro other other_mem other_taken same
  rcases keepFirst_first (ordered.filter judge) kept
    (List.mem_filter.mpr ⟨other_mem, other_taken⟩) same with rfl | level
  · exact le_refl _
  · exact level

theorem kept_of {naming : Naming} (mem : naming ∈ all) (taken : judge naming = true) :
    ∃ kept ∈ keepFirst Naming.path [] (all.filter judge), kept.path = naming.path :=
  keepFirst_covers (List.mem_filter.mpr ⟨mem, taken⟩) (by simp)

theorem first_iff (ordered : all.Pairwise fun first second => first.spot ≤ second.spot)
    {number : Nat} {place : Place} {path : Str} :
    First judge all number place path ↔
      ∃ naming ∈ keepFirst Naming.path [] (all.filter judge),
        naming.number = number ∧ naming.place = place ∧ naming.path = path := by
  constructor
  · rintro ⟨naming, mem, taken, rfl, rfl, rfl, first⟩
    obtain ⟨kept, kept_mem, same⟩ := kept_of mem taken
    obtain ⟨all_mem, kept_taken, kept_least⟩ := kept_first ordered kept_mem
    have spot := spot_eq (le_antisymm (kept_least naming mem taken same.symm)
      (first kept all_mem kept_taken same))
    exact ⟨kept, kept_mem, spot.1, spot.2, same⟩
  · rintro ⟨naming, kept, rfl, rfl, rfl⟩
    obtain ⟨mem, taken, first⟩ := kept_first ordered kept
    exact ⟨naming, mem, taken, rfl, rfl, rfl, first⟩

theorem first_exists (ordered : all.Pairwise fun first second => first.spot ≤ second.spot)
    {naming : Naming} (mem : naming ∈ all) (taken : judge naming = true) :
    ∃ first ∈ all, judge first = true ∧ first.path = naming.path ∧ first.spot ≤ naming.spot ∧
      First judge all first.number first.place naming.path := by
  obtain ⟨kept, kept_mem, same⟩ := kept_of mem taken
  obtain ⟨all_mem, kept_taken, least⟩ := kept_first ordered kept_mem
  exact ⟨kept, all_mem, kept_taken, same, least naming mem taken same.symm,
    (first_iff ordered).mpr ⟨kept, kept_mem, rfl, rfl, same⟩⟩

/-- Each naming on which two judges differ is at or behind a spot of its path that both take. -/
def Meet (judge other : Naming → Bool) (all : List Naming) : Prop :=
  ∀ naming ∈ all, judge naming ≠ other naming → ∃ first ∈ all, ∃ second ∈ all,
    first.path = naming.path ∧ second.path = naming.path ∧ first.spot = second.spot ∧
    first.spot ≤ naming.spot ∧ judge first = true ∧ other second = true

theorem meet_symm {other : Naming → Bool} (meet : Meet judge other all) : Meet other judge all := by
  intro naming mem differ
  obtain ⟨first, first_mem, second, second_mem, one, two, spot, level, taken, also⟩ :=
    meet naming mem differ.symm
  exact ⟨second, second_mem, first, first_mem, two, one, spot.symm, spot ▸ level, also, taken⟩

theorem meet_before {other : Naming → Bool} (meet : Meet judge other all) {naming : Naming}
    (mem : naming ∈ all) (taken : judge naming = true) :
    ∃ second ∈ all, other second = true ∧ second.path = naming.path ∧
      second.spot ≤ naming.spot := by
  by_cases equal : judge naming = other naming
  · exact ⟨naming, mem, equal ▸ taken, rfl, le_refl _⟩
  · obtain ⟨first, -, second, second_mem, -, path, spot, level, -, also⟩ := meet naming mem equal
    exact ⟨second, second_mem, also, path, spot ▸ level⟩

theorem first_of_meet {other : Naming → Bool}
    (ordered : all.Pairwise fun first second => first.spot ≤ second.spot)
    (meet : Meet judge other all) {number : Nat} {place : Place} {path : Str}
    (first : First judge all number place path) : First other all number place path := by
  obtain ⟨naming, mem, taken, rfl, rfl, rfl, least⟩ := first
  obtain ⟨second, second_mem, also, path, level⟩ := meet_before meet mem taken
  obtain ⟨start, start_mem, start_taken, start_path, start_level, isFirst⟩ :=
    first_exists ordered second_mem also
  obtain ⟨back, back_mem, back_taken, back_path, back_level⟩ :=
    meet_before (meet_symm meet) start_mem start_taken
  have spot := spot_eq (le_antisymm (start_level.trans level)
    ((least back back_mem back_taken ((back_path.trans start_path).trans path)).trans back_level))
  rw [← spot.1, ← spot.2, ← path]
  exact isFirst

theorem meet_of_first {other : Naming → Bool}
    (ordered : all.Pairwise fun first second => first.spot ≤ second.spot)
    (same : ∀ number place path,
      First judge all number place path ↔ First other all number place path) :
    Meet judge other all := by
  intro naming mem differ
  cases taken : judge naming with
  | true =>
    obtain ⟨first, first_mem, first_taken, path, level, isFirst⟩ := first_exists ordered mem taken
    obtain ⟨second, second_mem, second_taken, number, place, second_path, -⟩ :=
      (same _ _ _).mp isFirst
    exact ⟨first, first_mem, second, second_mem, path, second_path,
      by simp only [Naming.spot, number, place], level, first_taken, second_taken⟩
  | false =>
    have also : other naming = true := by
      rw [taken] at differ
      exact (Bool.not_eq_false _).mp (Ne.symm differ)
    obtain ⟨second, second_mem, second_taken, path, level, isFirst⟩ := first_exists ordered mem also
    obtain ⟨first, first_mem, first_taken, number, place, first_path, -⟩ :=
      (same _ _ _).mpr isFirst
    have spot : first.spot = second.spot := by simp only [Naming.spot, number, place]
    exact ⟨first, first_mem, second, second_mem, first_path, path, spot, spot ▸ level,
      first_taken, second_taken⟩

end Spots

section Compared
variable {reading : Reading} {tree : StagedTree} {groups : List StageGroup} {printable : Printable}

theorem reported_first (accepted : ∀ group ∈ groups, Accepted printable group) (number : Nat)
    (place : Place) (path : Str) :
    (∃ later same, .missing number place path later same ∈ pathProblems reading tree groups) ↔
      First (judged tree) (namings reading tree groups) number place path := by
  rw [pathProblems_eq accepted, first_iff (namings_ordered groups)]
  constructor
  · rintro ⟨later, same, mem⟩
    obtain ⟨naming, kept, made⟩ := List.mem_map.mp mem
    simp only [problemOf, Problem.missing.injEq] at made
    exact ⟨naming, kept, made.1, made.2.1, made.2.2.1⟩
  · rintro ⟨naming, kept, rfl, rfl, rfl⟩
    exact ⟨_, _, List.mem_map.mpr ⟨naming, kept, rfl⟩⟩

theorem reported_path (accepted : ∀ group ∈ groups, Accepted printable group) (path : Str) :
    path ∈ (pathProblems reading tree groups).map Problem.path ↔
      ∃ naming ∈ namings reading tree groups, naming.path = path ∧ judged tree naming = true := by
  rw [pathProblems_eq accepted, List.map_map]
  constructor
  · intro mem
    obtain ⟨naming, kept, rfl⟩ := List.mem_map.mp mem
    obtain ⟨all_mem, taken, -⟩ := kept_first (namings_ordered groups) kept
    exact ⟨naming, all_mem, rfl, taken⟩
  · rintro ⟨naming, mem, rfl, taken⟩
    obtain ⟨kept, kept_mem, same⟩ := kept_of mem taken
    exact List.mem_map.mpr ⟨kept, kept_mem, same⟩

theorem reported_once (accepted : ∀ group ∈ groups, Accepted printable group) :
    ((pathProblems reading tree groups).map Problem.path).Nodup := by
  rw [pathProblems_eq accepted, List.map_map]
  exact keepFirst_nodup [] _

/-- The check is the plan run forward exactly when the plan agrees with it. -/
theorem forward_iff_agrees (reading : Reading) (tree : StagedTree) (printable : Printable)
    (groups : List StageGroup) (accepted : ∀ group ∈ groups, Accepted printable group) :
    Forward reading tree groups ↔ Agrees reading tree groups := by
  have ordered : (namings reading tree groups).Pairwise fun first second =>
      first.spot ≤ second.spot := namings_ordered groups
  have apart : (∀ number place path,
      First (judged tree) (namings reading tree groups) number place path ↔
        First (missing tree) (namings reading tree groups) number place path) ↔
      Meet (judged tree) (missing tree) (namings reading tree groups) :=
    ⟨meet_of_first ordered, fun meet number place path =>
      ⟨first_of_meet ordered meet, first_of_meet ordered (meet_symm meet)⟩⟩
  constructor
  · intro forward
    have meet := apart.mp fun number place path =>
      (reported_first accepted number place path).symm.trans (forward.first number place path)
    refine ⟨fun naming mem differ => meet naming mem ((apart_iff naming).mpr differ), ?_⟩
    intro group group_mem written written_mem inside
    have reported := (forward.reported (rstripSlash written)).mpr
      (Or.inl ⟨group, group_mem, written, written_mem, rfl, inside⟩)
    obtain ⟨naming, mem, path, taken⟩ := (reported_path accepted _).mp reported
    obtain ⟨second, second_mem, also, same, -⟩ := meet_before meet mem taken
    exact ⟨second, second_mem, same.trans path, also⟩
  · intro agrees
    have meet : Meet (judged tree) (missing tree) (namings reading tree groups) :=
      fun naming mem differ => agrees.apart naming mem ((apart_iff naming).mp differ)
    have reported : ∀ path, path ∈ (pathProblems reading tree groups).map Problem.path ↔
        (∃ group ∈ groups, ∃ written ∈ group.changes ++ group.creates,
          rstripSlash written = path ∧ InChangeFolder written) ∨
        ∃ naming ∈ namings reading tree groups, naming.path = path ∧ missing tree naming = true := by
      intro path
      rw [reported_path accepted]
      constructor
      · rintro ⟨naming, mem, rfl, taken⟩
        obtain ⟨second, second_mem, also, same, -⟩ := meet_before meet mem taken
        exact Or.inr ⟨second, second_mem, same, also⟩
      · intro either
        have lacking : ∃ naming ∈ namings reading tree groups, naming.path = path ∧
            missing tree naming = true := by
          rcases either with ⟨group, group_mem, written, written_mem, rfl, inside⟩ | lacking
          · exact agrees.written group group_mem written written_mem inside
          · exact lacking
        obtain ⟨naming, mem, rfl, taken⟩ := lacking
        obtain ⟨first, first_mem, also, same, -⟩ := meet_before (meet_symm meet) mem taken
        exact ⟨first, first_mem, same, also⟩
    refine ⟨reported, fun number place path => (reported_first accepted number place path).trans
      (apart.mpr meet number place path), reported_once accepted, ?_⟩
    constructor
    · intro empty
      rw [empty] at reported
      constructor
      · intro group group_mem written written_mem inside
        have := (reported (rstripSlash written)).mpr
          (Or.inl ⟨group, group_mem, written, written_mem, rfl, inside⟩)
        cases this
      · intro naming mem
        by_contra lacking
        have := (reported naming.path).mpr
          (Or.inr ⟨naming, mem, rfl, (Bool.not_eq_false _).mp lacking⟩)
        cases this
    · rintro ⟨outside, held⟩
      cases found : pathProblems reading tree groups with
      | nil => rfl
      | cons problem rest =>
        have listed := (reported problem.path).mp (by rw [found]; simp)
        rcases listed with ⟨group, group_mem, written, written_mem, -, inside⟩ | ⟨naming, mem, -, lacking⟩
        · exact absurd inside (outside group group_mem written written_mem)
        · rw [held naming mem] at lacking
          cases lacking

end Compared

def asciiPrintable : Printable where
  holds c := decide (32 ≤ c.toNat)
  line_feed := rfl
  carriage_return := rfl

def asciiReading : Reading where
  codeSpans _ := []
  isWord c := c.isAlphanum || c == '_'
  isDigit := Char.isDigit

def pageGroup : StageGroup where
  title := "Add the page".toList
  kind := .other
  changes := ["docs/new.md".toList]
  creates := ["docs/new.md".toList]
  createsLines := [("docs/new.md".toList, 3)]
  implementation := "Write the page".toList
  verify := some "! git grep -n legacy -- docs/*.md".toList

theorem pageGroup_accepted : Accepted asciiPrintable pageGroup := ⟨pageGroup, rfl⟩

theorem forward_iff_agrees_page :
    Forward asciiReading ⟨["README.md".toList]⟩ [pageGroup] ↔
      Agrees asciiReading ⟨["README.md".toList]⟩ [pageGroup] :=
  forward_iff_agrees asciiReading ⟨["README.md".toList]⟩ asciiPrintable [pageGroup]
    fun _ mem => List.mem_singleton.mp mem ▸ pageGroup_accepted

/-- The search finds the page that the group adds, and the check reports its glob as missing. -/
theorem created_glob_reported : Accepted asciiPrintable pageGroup ∧
    ¬Forward asciiReading ⟨["README.md".toList]⟩ [pageGroup] := by
  refine ⟨pageGroup_accepted, ?_⟩
  intro forward
  have reported : "docs/*.md".toList ∈
      (pathProblems asciiReading ⟨["README.md".toList]⟩ [pageGroup]).map Problem.path := by decide
  have held : ∀ naming ∈ namings asciiReading ⟨["README.md".toList]⟩ [pageGroup],
      missing ⟨["README.md".toList]⟩ naming = false := by decide
  have written : ∀ group ∈ [pageGroup], ∀ written ∈ group.changes ++ group.creates,
      rstripSlash written ≠ "docs/*.md".toList := by decide
  rcases (forward.reported _).mp reported with ⟨group, mem, path, path_mem, same, -⟩ | ⟨naming, mem, -, lacking⟩
  · exact written group mem path path_mem same
  · rw [held naming mem] at lacking
    cases lacking

end DevopsCli.Roadmap.StagePaths
