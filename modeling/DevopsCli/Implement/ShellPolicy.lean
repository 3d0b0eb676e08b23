import DevopsCli.Lib.PyStr

/- The negative search that a step runs, implement/implement_shell_policy.py, and the words of its
   command as git grep reads them. -/
namespace DevopsCli.Implement.ShellPolicy
open PyStr

def binGit : Str := "git".toList
def grep : Str := "grep".toList
def negativeSearchWord : Str := ['!']
def negativeSearchStart : List Str := [negativeSearchWord, binGit, grep]
def negativeSearchOptionLetters : Str := "nIFiwlcq".toList
def eOption : Str := ['-', 'e']
def pathsMark : Str := ['-', '-']

def isWordChar (c : Char) : Bool := c.isAlphanum || c == '_'

def startsDash (word : Str) : Bool := word.head? == some '-'

def isOption (word : Str) : Bool :=
  startsDash word && word.length != 1 && word.tail.all negativeSearchOptionLetters.contains

def isLiteral (word : Str) : Bool :=
  !word.isEmpty && word.all fun c => isWordChar c || " .:/=@+,#%~-".toList.contains c

def isPath (word : Str) : Bool :=
  (!word.isEmpty && word.all fun c => isWordChar c || ".+@~*/-".toList.contains c) &&
    !(startsDash word || word.head? == some '/') && !(word.splitOn '/').contains ['.', '.']

structure NegativeSearch where
  options : List Str
  literals : List Str
  paths : List Str
  byE : Bool := false
  deriving DecidableEq

namespace NegativeSearch
variable (search : NegativeSearch)

def patterns : List Str :=
  if search.byE = true then search.literals.flatMap fun literal => [eOption, literal]
  else search.literals

def argv : List Str :=
  [binGit, grep] ++ search.options ++ search.patterns ++ [pathsMark] ++ search.paths

end NegativeSearch

inductive Refusal where
  | start
  | option (word : Str)
  | noText
  | literal (word : Str)
  | eValue
  | eDash (word : Str)
  | eForms (word : Str)
  | noPath
  | path (word : Str)
  deriving DecidableEq

def readPaths (options literals : List Str) (byE : Bool) (paths : List Str) :
    Except Refusal NegativeSearch :=
  if paths = [] then .error .noPath
  else
    match paths.find? fun word => !isPath word with
    | some bad => .error (.path bad)
    | none => .ok ⟨options, literals, paths, byE⟩

def readELiterals (options literals : List Str) : List Str → Except Refusal NegativeSearch
  | [] => .error .noPath
  | word :: rest =>
    if word = eOption then
      match rest with
      | [] => .error .eValue
      | value :: rest =>
        if value = pathsMark then .error .eValue
        else if startsDash value = true then .error (.eDash value)
        else if isLiteral value = false then .error (.literal value)
        else readELiterals options (literals ++ [value]) rest
    else if word ≠ pathsMark then .error (.eForms word)
    else readPaths options literals true rest

def readOptions (options : List Str) : List Str → Except Refusal NegativeSearch
  | [] => .error .noText
  | word :: rest =>
    if startsDash word = true ∧ word ≠ eOption then
      if isOption word = true then readOptions (options ++ [word]) rest else .error (.option word)
    else if word = eOption then readELiterals options [] (word :: rest)
    else if isLiteral word = false then .error (.literal word)
    else readPaths options [word] false (if rest.head? = some pathsMark then rest.tail else rest)

def readNegativeSearch (words : List Str) : Except Refusal NegativeSearch :=
  if words.take 3 = negativeSearchStart then readOptions [] (words.drop 3) else .error .start

/-- The arguments of git grep by what they are to git. -/
structure GrepCall where
  options : List Str
  patterns : List Str
  /-- Words before the mark of the paths, which git tries as revisions first. -/
  revisions : List Str
  paths : List Str
  deriving DecidableEq

/-- How git grep reads its words. An option starts with a dash, and -e takes the next word. The
    first other word ends the options, and it is the pattern where no -e gave one. The mark of the
    paths ends what may be an option or a revision. -/
def readGrep (options patterns : List Str) : List Str → Option GrepCall
  | word :: value :: rest =>
    if word = eOption then readGrep options (patterns ++ [value]) rest
    else if startsDash word = true ∧ word ≠ pathsMark then
      readGrep (options ++ [word]) patterns (value :: rest)
    else if patterns = [] then
      if word = pathsMark then none
      else
        some ⟨options, [word], (value :: rest).takeWhile (· != pathsMark),
          ((value :: rest).dropWhile (· != pathsMark)).tail⟩
    else
      some ⟨options, patterns, (word :: value :: rest).takeWhile (· != pathsMark),
        ((word :: value :: rest).dropWhile (· != pathsMark)).tail⟩
  | _ => none

/-- What is behind the options is plain literals and relative paths. -/
structure SafeParts (search : NegativeSearch) : Prop where
  some_literal : search.literals ≠ []
  literals : ∀ literal ∈ search.literals, isLiteral literal = true ∧ startsDash literal = false
  one : search.byE = false → search.literals.length = 1
  some_path : search.paths ≠ []
  paths : ∀ path ∈ search.paths, isPath path = true

structure Safe (search : NegativeSearch) : Prop extends SafeParts search where
  options : ∀ option ∈ search.options, isOption option = true

def HoldsParts (words : List Str) (search : NegativeSearch) : Prop :=
  ∃ mark, (mark = [pathsMark] ∨ mark = [] ∧ search.byE = false) ∧
    words = search.patterns ++ (mark ++ search.paths)

section Reading
variable {options literals paths words : List Str} {search : NegativeSearch}

theorem startsDash_of_isOption {word : Str} (option : isOption word = true) :
    startsDash word = true := by
  simp only [isOption, Bool.and_eq_true] at option
  exact option.1.1

theorem isOption_ne_eOption {word : Str} (option : isOption word = true) : word ≠ eOption := by
  rintro rfl
  exact absurd option (by decide)

theorem isOption_ne_pathsMark {word : Str} (option : isOption word = true) : word ≠ pathsMark := by
  rintro rfl
  exact absurd option (by decide)

theorem isPath_ne_pathsMark {word : Str} (path : isPath word = true) : word ≠ pathsMark := by
  rintro rfl
  simp [isPath, startsDash, pathsMark] at path

theorem plain_word {word : Str} (plain : startsDash word = false) :
    word ≠ eOption ∧ word ≠ pathsMark := by
  constructor <;> rintro rfl <;> exact absurd plain (by decide)

theorem readPaths_ok (byE : Bool) :
    readPaths options literals byE paths = .ok search ↔
      (paths ≠ [] ∧ ∀ path ∈ paths, isPath path = true) ∧
        search = ⟨options, literals, paths, byE⟩ := by
  unfold readPaths
  by_cases none_ : paths = []
  · simp [none_]
  · rw [if_neg none_]
    cases found : paths.find? fun word => !isPath word with
    | some bad =>
      have wrong := List.find?_some found
      have held := List.mem_of_find?_eq_some found
      constructor
      · intro same
        cases same
      · rintro ⟨⟨-, all⟩, -⟩
        simp [all bad held] at wrong
    | none =>
      have all : ∀ path ∈ paths, isPath path = true := by
        simpa using List.find?_eq_none.mp found
      simp only [Except.ok.injEq, eq_comm (a := search)]
      exact ⟨fun same => ⟨⟨none_, all⟩, same⟩, fun held => held.2⟩

theorem readELiterals_ok :
    readELiterals options literals words = .ok search ↔
      ∃ values paths, words = (values.flatMap fun value => [eOption, value]) ++ pathsMark :: paths ∧
        (∀ value ∈ values, isLiteral value = true ∧ startsDash value = false) ∧
        (paths ≠ [] ∧ ∀ path ∈ paths, isPath path = true) ∧
        search = ⟨options, literals ++ values, paths, true⟩ := by
  constructor
  · intro read
    induction literals, words using readELiterals.induct with
    | case1 literals => cases read
    | case2 literals => simp [readELiterals] at read
    | case3 literals rest => simp [readELiterals] at read
    | case4 literals value rest mark dash => simp [readELiterals, mark, dash] at read
    | case5 literals value rest mark dash other => simp [readELiterals, mark, dash, other] at read
    | case6 literals value rest mark plain literal ih =>
      rw [readELiterals, if_pos rfl] at read
      simp only [mark, plain, literal, if_false] at read
      obtain ⟨values, paths, rfl, all, rest_, same⟩ := ih read
      refine ⟨value :: values, paths, rfl, ?_, rest_, by rw [same]; simp⟩
      simpa using ⟨⟨by simpa using literal, by simpa using plain⟩, all⟩
    | case7 literals word rest value mark =>
      rw [readELiterals.eq_def] at read
      simp [value, mark] at read
    | case8 literals word rest value mark =>
      rw [readELiterals.eq_def] at read
      simp only [if_neg value, if_neg mark] at read
      obtain ⟨some_, same⟩ := (readPaths_ok true).mp read
      exact ⟨[], rest, by simp [not_not.mp mark], by simp, some_, by simpa using same⟩
  · rintro ⟨values, paths, rfl, all, some_, rfl⟩
    induction values generalizing literals with
    | nil =>
      rw [List.flatMap_nil, List.nil_append, readELiterals.eq_def]
      exact (readPaths_ok true).mpr ⟨some_, by simp⟩
    | cons value values ih =>
      obtain ⟨⟨literal, plain⟩, all⟩ := List.forall_mem_cons.mp all
      have again := @ih (literals ++ [value]) all
      rw [List.append_assoc, List.singleton_append] at again
      simp only [List.flatMap_cons, List.cons_append, List.nil_append]
      rw [readELiterals, if_pos rfl]
      simp only [plain_word plain, plain, literal, if_false, Bool.true_eq_false,
        Bool.false_eq_true]
      exact again

theorem readParts_ok {first : Str} {rest : List Str}
    (ended : ¬(startsDash first = true ∧ first ≠ eOption)) :
    readOptions options (first :: rest) = .ok search ↔
      search.options = options ∧ SafeParts search ∧ HoldsParts (first :: rest) search := by
  rw [readOptions, if_neg ended]
  by_cases byE : first = eOption
  · rw [if_pos byE, readELiterals_ok]
    constructor
    · rintro ⟨values, paths, words, all, some_, rfl⟩
      have literal : values ≠ [] := by
        rintro rfl
        rw [List.flatMap_nil, List.nil_append, List.cons.injEq, byE] at words
        exact absurd words.1 (by decide)
      refine ⟨rfl, ⟨by simpa using literal, by simpa using all, by simp, some_.1, some_.2⟩, ?_⟩
      exact ⟨[pathsMark], .inl rfl, by simpa [NegativeSearch.patterns] using words⟩
    · rintro ⟨same, safe, mark, marks, words⟩
      obtain ⟨own, literals, paths, byE_⟩ := search
      obtain rfl : own = options := same
      cases byE_ with
      | false =>
        obtain ⟨literal, one⟩ := List.length_eq_one_iff.mp (safe.one rfl)
        obtain rfl : literals = [literal] := one
        rw [NegativeSearch.patterns, if_neg (by simp), List.singleton_append, byE,
          List.cons.injEq] at words
        have plain := (safe.literals literal List.mem_cons_self).2
        exact absurd words.1.symm (plain_word plain).1
      | true =>
        obtain rfl : mark = [pathsMark] := by simpa using marks
        refine ⟨literals, paths, ?_, safe.literals, ⟨safe.some_path, safe.paths⟩, rfl⟩
        simpa [NegativeSearch.patterns] using words
  · have plain : startsDash first = false := by
      rw [Bool.eq_false_iff]
      exact fun dash => ended ⟨dash, byE⟩
    rw [if_neg byE]
    constructor
    · intro read
      split at read
      · cases read
      · rename_i literal
        obtain ⟨some_, rfl⟩ := (readPaths_ok false).mp read
        refine ⟨rfl, ⟨by simp, by simpa using ⟨by simpa using literal, plain⟩, by simp, some_.1,
          some_.2⟩, ?_⟩
        by_cases marked : rest.head? = some pathsMark
        · refine ⟨[pathsMark], .inl rfl, ?_⟩
          obtain ⟨tail, rfl⟩ := List.head?_eq_some_iff.mp marked
          simp [NegativeSearch.patterns]
        · exact ⟨[], .inr ⟨rfl, rfl⟩, by simp [NegativeSearch.patterns, marked]⟩
    · rintro ⟨same, safe, mark, marks, words⟩
      obtain ⟨own, literals, paths, byE_⟩ := search
      obtain rfl : own = options := same
      cases byE_ with
      | true =>
        obtain ⟨literal, literals, rfl⟩ := List.exists_cons_of_ne_nil safe.some_literal
        rw [NegativeSearch.patterns, if_pos rfl] at words
        simp only [List.flatMap_cons, List.cons_append, List.cons.injEq] at words
        exact absurd words.1 byE
      | false =>
        obtain ⟨literal, one⟩ := List.length_eq_one_iff.mp (safe.one rfl)
        obtain rfl : literals = [literal] := one
        rw [NegativeSearch.patterns, if_neg (by simp), List.singleton_append,
          List.cons.injEq] at words
        obtain ⟨rfl, rfl⟩ := words
        have accepted := (safe.literals _ List.mem_cons_self).1
        rw [if_neg (by simp [accepted]), readPaths_ok]
        rcases marks with rfl | ⟨rfl, -⟩
        · exact ⟨⟨safe.some_path, safe.paths⟩, by simp⟩
        · obtain ⟨path, more, rfl⟩ := List.exists_cons_of_ne_nil safe.some_path
          have unmarked := isPath_ne_pathsMark (safe.paths path List.mem_cons_self)
          rw [if_neg (by simpa using unmarked)]
          exact ⟨⟨safe.some_path, safe.paths⟩, rfl⟩

theorem readOptions_ok :
    readOptions options words = .ok search ↔
      ∃ flags parts, words = flags ++ parts ∧ (∀ flag ∈ flags, isOption flag = true) ∧
        search.options = options ++ flags ∧ SafeParts search ∧ HoldsParts parts search := by
  constructor
  · intro read
    induction words generalizing options with
    | nil => cases read
    | cons word rest ih =>
      by_cases more : startsDash word = true ∧ word ≠ eOption
      · rw [readOptions, if_pos more] at read
        split at read
        · rename_i option
          obtain ⟨flags, parts, rfl, all, same, safe, holds⟩ := ih read
          refine ⟨word :: flags, parts, rfl, ?_, by simp [same], safe, holds⟩
          exact List.forall_mem_cons.mpr ⟨option, all⟩
        · cases read
      · obtain ⟨same, safe, holds⟩ := (readParts_ok more).mp read
        exact ⟨[], word :: rest, rfl, by simp, by simpa using same, safe, holds⟩
  · rintro ⟨flags, parts, rfl, all, same, safe, holds⟩
    induction flags generalizing options with
    | nil =>
      have first : ∃ word rest, parts = word :: rest ∧ ¬(startsDash word = true ∧ word ≠ eOption) := by
        obtain ⟨mark, -, rfl⟩ := holds
        obtain ⟨literal, literals, some_⟩ := List.exists_cons_of_ne_nil safe.some_literal
        rw [NegativeSearch.patterns, some_]
        split
        · exact ⟨eOption, _, rfl, by simp⟩
        · have plain := (safe.literals literal (by simp [some_])).2
          exact ⟨literal, _, rfl, by simp [plain]⟩
      obtain ⟨word, rest, rfl, ended⟩ := first
      exact (readParts_ok ended).mpr ⟨by simpa using same, safe, holds⟩
    | cons flag flags ih =>
      obtain ⟨option, all⟩ := List.forall_mem_cons.mp all
      rw [List.cons_append, readOptions,
        if_pos ⟨startsDash_of_isOption option, isOption_ne_eOption option⟩, if_pos option]
      exact ih all (by simp [same])

end Reading

section Grep
variable {options patterns words : List Str} {search : NegativeSearch}

theorem readGrep_options {flags : List Str} (all : ∀ flag ∈ flags, isOption flag = true)
    (more : words ≠ []) :
    readGrep options patterns (flags ++ words) = readGrep (options ++ flags) patterns words := by
  induction flags generalizing options with
  | nil => simp
  | cons flag flags ih =>
    obtain ⟨option, all⟩ := List.forall_mem_cons.mp all
    obtain ⟨value, rest, next⟩ : ∃ value rest, flags ++ words = value :: rest :=
      List.exists_cons_of_ne_nil (by simp [more])
    rw [List.cons_append, next, readGrep, if_neg (isOption_ne_eOption option),
      if_pos ⟨startsDash_of_isOption option, isOption_ne_pathsMark option⟩, ← next, ih all]
    simp

theorem readGrep_values {values : List Str} :
    readGrep options patterns ((values.flatMap fun value => [eOption, value]) ++ words) =
      readGrep options (patterns ++ values) words := by
  induction values generalizing patterns with
  | nil => simp
  | cons value values ih =>
    simp only [List.flatMap_cons, List.cons_append, List.nil_append]
    rw [readGrep, if_pos rfl, ih, List.append_assoc, List.singleton_append]

/-- To git, the options of the command are options, its literals patterns and its paths paths. -/
theorem readGrep_argv (safe : Safe search) :
    readGrep [] [] (search.argv.drop 2) =
      some ⟨search.options, search.literals, [], search.paths⟩ := by
  obtain ⟨path, more, some_⟩ := List.exists_cons_of_ne_nil safe.some_path
  have rest : search.argv.drop 2 =
      search.options ++ (search.patterns ++ pathsMark :: path :: more) := by
    simp [NegativeSearch.argv, some_]
  rw [rest, readGrep_options safe.options (by simp), List.nil_append, NegativeSearch.patterns, some_]
  split
  · rw [readGrep_values, List.nil_append, readGrep, if_neg (by decide), if_neg (by simp),
      if_neg safe.some_literal]
    simp
  · rename_i bare
    obtain ⟨literal, one⟩ := List.length_eq_one_iff.mp (safe.one (by simpa using bare))
    have plain := (safe.literals literal (by simp [one])).2
    obtain ⟨not_e, not_mark⟩ := plain_word plain
    rw [one, List.singleton_append, readGrep, if_neg not_e, if_neg (by simp [plain]), if_pos rfl,
      if_neg not_mark]
    simp

end Grep

/-- The command of a search is the search that its words were read as. -/
structure RunsAsRead (words : List Str) (search : NegativeSearch) : Prop where
  safe : Safe search
  held : ∃ parts, words = negativeSearchStart ++ search.options ++ parts ∧ HoldsParts parts search
  program : search.argv.take 2 = [binGit, grep]
  as_git_reads : readGrep [] [] (search.argv.drop 2) =
    some ⟨search.options, search.literals, [], search.paths⟩
  again : readNegativeSearch (negativeSearchWord :: search.argv) = .ok search

theorem argv_again {search : NegativeSearch} (safe : Safe search) :
    readNegativeSearch (negativeSearchWord :: search.argv) = .ok search := by
  have whole : negativeSearchWord :: search.argv =
      negativeSearchStart ++ (search.options ++ (search.patterns ++ ([pathsMark] ++ search.paths))) := by
    simp [NegativeSearch.argv, negativeSearchStart]
  have three : negativeSearchStart.length = 3 := rfl
  rw [whole, readNegativeSearch, ← three, List.take_left, if_pos rfl, List.drop_left,
    readOptions_ok]
  exact ⟨search.options, _, rfl, safe.options, rfl, safe.toSafeParts, [pathsMark], .inl rfl, rfl⟩

theorem search_runs_as_read (words : List Str) (search : NegativeSearch)
    (read : readNegativeSearch words = .ok search) : RunsAsRead words search := by
  unfold readNegativeSearch at read
  split at read
  · rename_i start
    obtain ⟨flags, parts, rest, all, same, parts_safe, holds⟩ := readOptions_ok.mp read
    rw [List.nil_append] at same
    have safe : Safe search := ⟨parts_safe, same ▸ all⟩
    refine ⟨safe, ⟨parts, ?_, holds⟩, rfl, readGrep_argv safe, argv_again safe⟩
    rw [← List.take_append_drop 3 words, start, rest, same, List.append_assoc]
  · cases read

theorem search_runs_as_read_two_literals :
    RunsAsRead
      (["!", "git", "grep", "-nF", "-e", "old name", "-e", "was", "--", "src/", "tests/*.py"].map
        String.toList)
      ⟨["-nF".toList], ["old name".toList, "was".toList], ["src/".toList, "tests/*.py".toList],
        true⟩ :=
  search_runs_as_read _ _ (by decide)
end DevopsCli.Implement.ShellPolicy
