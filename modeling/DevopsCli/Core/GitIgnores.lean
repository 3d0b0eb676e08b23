import DevopsCli.Lib.LineEnds
import DevopsCli.Core.Gitignore

/- What git ignores by its ignore files, and the files that both readers take alike. -/
namespace DevopsCli.Core.Gitignore
open PyStr

section Git
variable {Pattern : Type*} (pathspec : Pathspec Pattern) (repo : Repo)

/-- The lines of an ignore file for git: a byte order mark is skipped, lines end at line feeds. -/
def gitLines (text : Str) : List Str :=
  ((if text.head? = some '\uFEFF' then text.tail else text).splitOn '\n').map chomp

def gitPatterns (file : Option Str) : List Pattern :=
  match file with
  | none => []
  | some text => (gitLines text).filterMap pathspec.read

def rulesOf (file : Option Str) (base : List Str) : List (List Str × Pattern) :=
  (gitPatterns pathspec file).map fun pattern => (base, pattern)

def directoriesAbove (path : List Str) : List (List Str) := (List.range path.length).map path.take

/-- The rules for a path: the exclude file first, deeper files behind shallower ones. -/
def gitScope (path : List Str) : List (List Str × Pattern) :=
  rulesOf pathspec repo.exclude [] ++
    (directoriesAbove path).flatMap fun dir => rulesOf pathspec (repo.ignoreFile dir) dir

def actsBelow (base path : List Str) (acts : List Str → Bool) : Bool :=
  match relativeTo base path with
  | none => false
  | some [] => false
  | some (part :: rest) => acts (part :: rest)

def ruleHits (rule : List Str × Pattern) (path : List Str) (isDir : Bool) : Bool :=
  actsBelow rule.1 path fun relative => pathspec.hits rule.2 relative isDir

def lastMatch (path : List Str) (isDir : Bool) : Option Bool :=
  LastRule.decision (fun rule => ruleHits pathspec rule path isDir)
    (fun rule => !pathspec.negated rule.2) (gitScope pathspec repo path)

def IsLevel (level path : List Str) : Prop := level ≠ [] ∧ level <+: path

def levelIsDir (path : List Str) (isDir : Bool) (level : List Str) : Bool := level != path || isDir

/-- The last pattern that matches the path or a directory above it is not negated. -/
def GitIgnores (path : List Str) (isDir : Bool) : Prop :=
  ∃ level, IsLevel level path ∧
    lastMatch pathspec repo level (levelIsDir path isDir level) = some true

/-- A pattern that is not negated matches the level, and no negated one behind it matches the level or
    a directory above it. -/
def Unmasked (path : List Str) (isDir : Bool) (level : List Str) : Prop :=
  ∃ before rule after, gitScope pathspec repo level = before ++ rule :: after ∧
    ruleHits pathspec rule level (levelIsDir path isDir level) = true ∧
    pathspec.negated rule.2 = false ∧
    ∀ other ∈ after, ∀ above, IsLevel above level →
      ruleHits pathspec other above (levelIsDir path isDir above) = true →
      pathspec.negated other.2 = false

/-- An ignore file that both readers take alike: no byte order mark, no line break but line feeds, no
    blank line but of spaces, and no line that the library refuses. -/
structure ReadsAlike (file : Option Str) : Prop where
  unmarked : ∀ text, file = some text → text.head? ≠ some '\uFEFF'
  whole : ∀ text, file = some text → ∀ line ∈ text.splitOn '\n', ReadsWhole line
  spaces : ∀ text, file = some text → ∀ line ∈ text.splitOn '\n',
    Blank (chomp line) → ∀ c ∈ chomp line, c = ' '
  accepted : ∀ text, file = some text → ∀ line ∈ text.splitOn '\n',
    ¬Blank (chomp line) → pathspec.refuses (chomp line) = false

end Git

section Reading
variable {Pattern : Type*} {pathspec : Pathspec Pattern}

theorem splitlines_universal (text : Str) :
    splitlines (universalNewlines text) = splitlines text := by
  have from_ : ∀ before, splitlinesFrom before (universalNewlines text) =
      splitlinesFrom before text := by
    fun_induction universalNewlines text with
    | case1 => exact fun _ => rfl
    | case2 rest ih =>
      intro before
      rw [splitlinesFrom, splitlinesFrom, ih]
      · rfl
      · intro _ same
        cases same
    | case3 c rest other ih =>
      intro before
      by_cases return_ : c = '\r'
      · subst return_
        rw [if_pos rfl, splitlinesFrom, splitlinesFrom, ih]
        · rfl
        · intro later same
          exact other later same
        · intro _ same
          cases same
      · rw [if_neg return_, splitlinesFrom, splitlinesFrom, ih, ih]
        · exact fun _ same => absurd same return_
        · exact fun _ same => absurd same return_
  exact from_ []

def isRule (line : Str) : Bool := !(strip line).isEmpty

theorem isRule_iff {line : Str} : isRule line = true ↔ ¬Blank line := by
  rw [isRule, Bool.not_eq_true', List.isEmpty_eq_false_iff, ne_eq, strip_eq_nil_iff]

theorem filter_last {line : Str} (whole : ReadsWhole line) :
    (splitlines line).filter isRule = [chomp line].filter isRule := by
  have unbroken : Unbroken (chomp line) := whole
  have empty : isRule [] = false := rfl
  by_cases last : line.getLast? = some '\r'
  · obtain ⟨front, rfl⟩ := List.getLast?_eq_some_iff.mp last
    have cut : chomp (front ++ ['\r']) = front := by rw [chomp, if_pos last, List.dropLast_concat]
    rw [cut] at unbroken ⊢
    have split : splitlines (front ++ ['\r']) = [front] := by
      rw [splitlines, splitlinesFrom_unbroken unbroken]
      rfl
    rw [split]
  · have same : chomp line = line := if_neg last
    rw [same] at unbroken ⊢
    rw [splitlines_line unbroken]
    split
    · next none =>
      rw [none, List.filter_cons_of_neg (by simp [empty])]
    · rfl

theorem filter_lines {lines : List Str} (whole : ∀ line ∈ lines, ReadsWhole line) :
    (splitlines (join ['\n'] lines)).filter isRule = (lines.map chomp).filter isRule := by
  induction lines with
  | nil => rfl
  | cons first rest ih =>
    obtain ⟨here, later⟩ := List.forall_mem_cons.mp whole
    cases rest with
    | nil =>
      have one : join ['\n'] [first] = first := by simp [join]
      rw [one, filter_last here, List.map_cons, List.map_nil]
    | cons second rest =>
      rw [join_cons_cons, splitlines_chomp here, List.map_cons, List.filter_cons, List.filter_cons,
        ih later]

theorem loadPatterns_alike {text : Str} (whole : ∀ line ∈ text.splitOn '\n', ReadsWhole line) :
    loadPatterns (some text) = ((text.splitOn '\n').map chomp).filter isRule := by
  have kept : (splitlines text).map (fun rawLine => rawLine.rdropWhile (· == '\n')) =
      splitlines text := by
    conv_rhs => rw [← List.map_id (splitlines text)]
    refine List.map_congr_left fun line mem => ?_
    rw [id, List.rdropWhile_eq_self_iff]
    intro some_ last
    have plain := splitlines_unbroken text line mem _ (List.getLast_mem some_)
    rw [beq_iff_eq.mp last] at plain
    exact absurd plain (by decide)
  have joined : join ['\n'] (text.splitOn '\n') = text := List.intercalate_splitOn '\n'
  rw [loadPatterns, splitlines_universal, kept]
  conv_lhs => rw [← joined]
  exact filter_lines whole

theorem freshSpec_alike {file : Option Str} (alike : ReadsAlike pathspec file) :
    (freshSpec pathspec file).getD [] = gitPatterns pathspec file := by
  cases file with
  | none => rfl
  | some text =>
    have rules : ((text.splitOn '\n').map chomp).filterMap pathspec.read =
        (((text.splitOn '\n').map chomp).filter isRule).filterMap pathspec.read := by
      rw [List.filterMap_filter]
      refine List.filterMap_congr fun line mem => ?_
      obtain ⟨raw, raw_mem, rfl⟩ := List.mem_map.mp mem
      by_cases rule : isRule (chomp raw) = true
      · rw [if_pos rule]
      · rw [if_neg rule]
        have blank : Blank (chomp raw) := not_not.mp fun other => rule (isRule_iff.mpr other)
        exact pathspec.spaces _ (alike.spaces text rfl raw raw_mem blank)
    have accepted : ¬(((text.splitOn '\n').map chomp).filter isRule).any pathspec.refuses = true := by
      intro refused
      obtain ⟨line, mem, refuses⟩ := List.any_eq_true.mp refused
      obtain ⟨listed, rule⟩ := List.mem_filter.mp mem
      obtain ⟨raw, raw_mem, rfl⟩ := List.mem_map.mp listed
      rw [alike.accepted text rfl raw raw_mem (isRule_iff.mp rule)] at refuses
      cases refuses
    rw [freshSpec, loadPatterns_alike (alike.whole text rfl), compile, gitPatterns, gitLines,
      if_neg (alike.unmarked text rfl), rules, if_neg accepted]
    split
    · next empty => rw [empty]; rfl
    · rfl

end Reading
end DevopsCli.Core.Gitignore
