import DevopsCli.Lib.PyWords

/- The authors of the commits of a pushed branch, git/branch_authors.py, and the check that they
   are the App, git/worktree_add.py. What git merge-tree answers comes from outside. -/
namespace DevopsCli.BranchAuthors
open PyStr

def fieldSeparator : Char := '\x1f'

def isHexDigit (c : Char) : Bool := ('0' ≤ c && c ≤ '9') || ('a' ≤ c && c ≤ 'f')

abbrev Hash := { text : Str // text ≠ [] ∧ ∀ c ∈ text, isHexDigit c = true }

structure Commit where
  author : Str
  parents : List Hash
  tree : Hash
  named : ∀ c ∈ author, c ≠ '\n' ∧ c ≠ '<' ∧ c ≠ '>'

def Commit.record (c : Commit) : Str :=
  c.author ++ fieldSeparator :: (join [' '] (c.parents.map (·.1)) ++ fieldSeparator :: c.tree.1)

def logText (commits : List Commit) : Str := commits.flatMap fun c => c.record ++ ['\n']

structure Proc where
  returncode : Int
  stdout : Str

inductive ValueError where
  | notEnoughValues (got : Nat)
  | tooManyValues
  deriving DecidableEq

inductive Refusal where
  | heldNoCommits
  | heldNoApp
  | heldByAuthor (author bot : Str)
  deriving DecidableEq

def checkAuthors (bot : Option Str) (authors : List Str) : Except Refusal Unit :=
  if authors = [] then .error .heldNoCommits
  else
    match bot with
    | none => .error .heldNoApp
    | some bot =>
      match authors.find? (· ≠ bot) with
      | some other => .error (.heldByAuthor other bot)
      | none => .ok ()

section Reading
variable (mergeTree : Str → Str → Proc)

def isCleanMerge (parents : List Str) (tree : Str) : Bool :=
  match parents with
  | [first, second] =>
    let proc := mergeTree first second
    proc.returncode == 0 && (words proc.stdout).take 1 == [tree]
  | _ => false

def readAuthors (authors : List Str) : List Str → Except ValueError (List Str)
  | [] => .ok authors
  | line :: rest =>
    match line.splitOn fieldSeparator with
    | [author, parents, tree] =>
      if isCleanMerge mergeTree (words parents) tree then readAuthors authors rest
      else readAuthors (authors ++ [author]) rest
    | parts => .error (if parts.length < 3 then .notEnoughValues parts.length else .tooManyValues)

def personAuthors (log : Str) : Except ValueError (List Str) :=
  readAuthors mergeTree [] (splitlines log)

def Commit.cleanMerge (c : Commit) : Bool :=
  isCleanMerge mergeTree (c.parents.map (·.1)) c.tree.1

def persons (commits : List Commit) : List Commit := commits.filter fun c => !c.cleanMerge mergeTree

/-- The authors that are read are those of the commits, and a branch is taken over only when it has
    such a commit and the App wrote each one. -/
structure OneAuthorEach (commits : List Commit) : Prop where
  read : personAuthors mergeTree (logText commits) =
    .ok ((persons mergeTree commits).map Commit.author)
  accepted : ∀ bot authors, personAuthors mergeTree (logText commits) = .ok authors →
    checkAuthors bot authors = .ok () →
    persons mergeTree commits ≠ [] ∧ ∀ c ∈ persons mergeTree commits, some c.author = bot

/-- A line that is read as a clean merge. -/
def CleanLine (line : Str) : Prop :=
  ∃ author parents tree, line.splitOn fieldSeparator = [author, parents, tree] ∧
    isCleanMerge mergeTree (words parents) tree = true

def Uncut (name : Str) : Prop := ∀ c ∈ name, isBreak c = false ∧ c ≠ fieldSeparator

/-- The names of the commits are uncut. Only in a clean merge one may be cut, into lines that are
    all clean merges again. -/
def NamesUncut (commits : List Commit) : Prop :=
  ∀ c ∈ commits, Uncut c.author ∨
    c.cleanMerge mergeTree = true ∧ ∀ line ∈ splitlines c.record, CleanLine mergeTree line

end Reading

section Records
variable {c : Commit} {name : Str}

theorem solid_of_hex {d : Char} (hex : isHexDigit d = true) : isSpace d = false := by
  simp only [isHexDigit, Bool.or_eq_true, Bool.and_eq_true, decide_eq_true_eq, Char.le_def,
    UInt32.le_iff_toNat_le] at hex
  have low : 48 ≤ d.toNat ∧ d.toNat ≤ 102 := by
    rcases hex with ⟨above, below⟩ | ⟨above, below⟩
    · exact ⟨above, Nat.le_trans below (by decide)⟩
    · exact ⟨Nat.le_trans (by decide) above, below⟩
  simp only [isSpace, Bool.or_eq_false_iff, Bool.and_eq_false_iff, decide_eq_false_iff_not,
    beq_eq_false_iff_ne]
  omega

theorem Hash.isWord (hash : Hash) : IsWord hash.1 :=
  ⟨hash.2.1, fun d mem => solid_of_hex (hash.2.2 d mem)⟩

theorem unbroken_of_solid {d : Char} (solid : isSpace d = false) : isBreak d = false := by
  by_contra break_
  rw [Bool.not_eq_false] at break_
  rw [space_of_break break_] at solid
  cases solid

theorem uncut_hash (hash : Hash) : Uncut hash.1 := by
  intro d mem
  have solid := hash.isWord.2 d mem
  refine ⟨unbroken_of_solid solid, ?_⟩
  rintro rfl
  exact absurd solid (by decide)

theorem uncut_parents (parents : List Hash) : Uncut (join [' '] (parents.map (·.1))) := by
  induction parents with
  | nil => exact fun _ mem => absurd mem List.not_mem_nil
  | cons first rest ih =>
    cases rest with
    | nil =>
      rw [List.map_singleton, join, List.intercalate_singleton]
      exact uncut_hash first
    | cons second rest =>
      rw [List.map_cons, List.map_cons, join, List.intercalate_cons_cons]
      rw [List.map_cons, join] at ih
      intro d mem
      rcases List.mem_append.mp mem with front | later
      · rcases List.mem_append.mp front with hash | blank
        · exact uncut_hash first d hash
        · rw [List.mem_singleton.mp blank]
          exact ⟨rfl, by decide⟩
      · exact ih d later

theorem fields_record (c : Commit) (uncut : Uncut c.author) :
    c.record.splitOn fieldSeparator =
      [c.author, join [' '] (c.parents.map (·.1)), c.tree.1] := by
  have whole : c.record = List.intercalate [fieldSeparator]
      [c.author, join [' '] (c.parents.map (·.1)), c.tree.1] := by
    simp [Commit.record, List.intercalate_cons_cons]
  rw [whole]
  apply List.splitOn_intercalate fieldSeparator
  · intro part mem
    simp only [List.mem_cons, List.not_mem_nil, or_false] at mem
    rcases mem with rfl | rfl | rfl
    · exact fun mem => (uncut _ mem).2 rfl
    · exact fun mem => (uncut_parents c.parents _ mem).2 rfl
    · exact fun mem => (uncut_hash c.tree _ mem).2 rfl
  · exact List.cons_ne_nil _ _

theorem splitlines_logText (commits : List Commit) :
    splitlines (logText commits) = commits.flatMap fun c => splitlines c.record := by
  induction commits with
  | nil => rfl
  | cons c rest ih =>
    obtain ⟨front, last, tree⟩ := List.eq_nil_or_concat c.tree.1 |>.resolve_left c.tree.2.1
    have plain : isBreak last = false := by
      apply unbroken_of_solid
      apply c.tree.isWord.2
      rw [tree, List.concat_eq_append]
      exact List.mem_concat_self
    obtain ⟨text, record⟩ : ∃ text, c.record = text ++ [last] := by
      refine ⟨c.author ++ fieldSeparator ::
        (join [' '] (c.parents.map (·.1)) ++ fieldSeparator :: front), ?_⟩
      rw [Commit.record, tree]
      simp
    have closed := splitlinesFrom_closed plain [] text (logText rest)
    rw [logText, List.flatMap_cons, List.flatMap_cons, record]
    rw [logText] at ih closed
    rw [← ih]
    simpa [splitlines] using closed

theorem splitlines_record (uncut : Uncut c.author) : splitlines c.record = [c.record] := by
  have unbroken : Unbroken c.record := by
    intro d mem
    rcases List.mem_append.mp mem with name | mem
    · exact (uncut d name).1
    rcases List.mem_cons.mp mem with rfl | mem
    · rfl
    rcases List.mem_append.mp mem with parent | mem
    · exact (uncut_parents c.parents d parent).1
    rcases List.mem_cons.mp mem with rfl | tree
    · rfl
    · exact (uncut_hash c.tree d tree).1
  rw [splitlines_line unbroken, if_neg]
  intro none_
  have some_ : c.author ++ fieldSeparator :: (join [' '] (c.parents.map (·.1)) ++
      fieldSeparator :: c.tree.1) ≠ [] := by simp
  exact some_ none_

theorem words_parents (parents : List Hash) :
    words (join [' '] (parents.map (·.1))) = parents.map (·.1) := by
  apply words_join
  intro word mem
  obtain ⟨hash, _, rfl⟩ := List.mem_map.mp mem
  exact hash.isWord

end Records

section Loop
variable (mergeTree : Str → Str → Proc)

def authorOf (line : Str) : List Str :=
  match line.splitOn fieldSeparator with
  | [author, parents, tree] =>
    if isCleanMerge mergeTree (words parents) tree then [] else [author]
  | _ => []

def Readable (line : Str) : Prop := (line.splitOn fieldSeparator).length = 3

variable {mergeTree}

theorem readAuthors_ok (authors lines out : List Str) :
    readAuthors mergeTree authors lines = .ok out ↔
      (∀ line ∈ lines, Readable line) ∧ out = authors ++ lines.flatMap (authorOf mergeTree) := by
  induction lines generalizing authors with
  | nil => simp [readAuthors, eq_comm]
  | cons line rest ih =>
    rw [readAuthors, List.forall_mem_cons, List.flatMap_cons, Readable, authorOf]
    split
    · next author parents tree fields =>
      split
      · next clean => simp [ih, fields]
      · next other => simp [ih, fields]
    · next parts other =>
      constructor
      · rintro ⟨⟩
      · rintro ⟨⟨three, _⟩, _⟩
        obtain ⟨a, b, c, whole⟩ := List.length_eq_three.mp three
        exact absurd whole (other a b c)

theorem cleanLine_iff (line : Str) :
    CleanLine mergeTree line ↔ Readable line ∧ authorOf mergeTree line = [] := by
  unfold CleanLine Readable authorOf
  constructor
  · rintro ⟨author, parents, tree, fields, clean⟩
    simp [fields, clean]
  · rintro ⟨three, nothing⟩
    obtain ⟨author, parents, tree, fields⟩ := List.length_eq_three.mp three
    simp only [fields] at nothing
    refine ⟨author, parents, tree, fields, ?_⟩
    by_contra other
    rw [if_neg other] at nothing
    cases nothing

theorem uncut_of_mem {line author : Str} (unbroken : Unbroken line)
    (mem : author ∈ authorOf mergeTree line) : Uncut author := by
  unfold authorOf at mem
  split at mem
  · next first parents tree fields =>
    split at mem
    · cases mem
    rw [List.mem_singleton] at mem
    subst mem
    have part : author ∈ line.splitOn fieldSeparator := by
      rw [fields]
      exact List.mem_cons_self
    intro d inside
    refine ⟨unbroken d ?_, ?_⟩
    · have whole : List.intercalate [fieldSeparator] (line.splitOn fieldSeparator) = line :=
        List.intercalate_splitOn fieldSeparator
      rw [← whole, fields]
      simp [List.intercalate_cons_cons, inside]
    · rintro rfl
      exact mem_splitOn_clear part inside
  · cases mem

theorem authorOf_record (mergeTree : Str → Str → Proc) {c : Commit} (uncut : Uncut c.author) :
    Readable c.record ∧
      authorOf mergeTree c.record = if c.cleanMerge mergeTree then [] else [c.author] := by
  unfold Readable authorOf Commit.cleanMerge
  rw [fields_record c uncut]
  exact ⟨rfl, by simp only [words_parents]⟩

theorem others_silent {kept : Commit → Bool} {read : Commit → List Str} {commits : List Commit}
    (own : ∀ c ∈ commits, kept c = true → read c = [c.author])
    (same : commits.flatMap read = (commits.filter kept).map Commit.author) :
    ∀ c ∈ commits, kept c = false → read c = [] := by
  have bound (commits : List Commit) (own : ∀ c ∈ commits, kept c = true → read c = [c.author]) :
      ((commits.filter kept).map Commit.author).length ≤ (commits.flatMap read).length := by
    induction commits with
    | nil => exact Nat.le_refl 0
    | cons c rest ih =>
      obtain ⟨here, later⟩ := List.forall_mem_cons.mp own
      have short := ih later
      rw [List.flatMap_cons, List.length_append, List.filter_cons]
      by_cases person : kept c = true
      · rw [if_pos person, here person, List.map_cons, List.length_cons, List.length_singleton]
        omega
      · rw [if_neg person]
        omega
  induction commits with
  | nil => exact List.forall_mem_nil _
  | cons c rest ih =>
    obtain ⟨here, later⟩ := List.forall_mem_cons.mp own
    rw [List.flatMap_cons, List.filter_cons] at same
    by_cases person : kept c = true
    · rw [if_pos person, here person, List.map_cons, List.singleton_append, List.cons.injEq] at same
      refine List.forall_mem_cons.mpr ⟨fun other => ?_, ih later same.2⟩
      rw [person] at other
      cases other
    · rw [if_neg person] at same
      have short := bound rest later
      have lengths := congrArg List.length same
      rw [List.length_append] at lengths
      have nothing : read c = [] := List.eq_nil_of_length_eq_zero (by omega)
      rw [nothing, List.nil_append] at same
      exact List.forall_mem_cons.mpr ⟨fun _ => nothing, ih later same⟩

end Loop

section Law
variable {mergeTree : Str → Str → Proc} {commits : List Commit}

theorem checkAuthors_ok {bot : Option Str} {authors : List Str} :
    checkAuthors bot authors = .ok () ↔ authors ≠ [] ∧ ∃ login, bot = some login ∧
      ∀ author ∈ authors, author = login := by
  unfold checkAuthors
  split
  · next none_ => simp [none_]
  · next some_ =>
    cases bot with
    | none => simp
    | some login =>
      simp only [some_, ne_eq, not_false_eq_true, true_and, Option.some.injEq, exists_eq_left']
      split
      · next other found =>
        simp only [reduceCtorEq, false_iff]
        intro all
        have differs := List.find?_some found
        rw [decide_eq_true_eq] at differs
        exact differs (all other (List.mem_of_find?_eq_some found))
      · next none_ =>
        simpa using none_

theorem personAuthors_ok (out : List Str) :
    personAuthors mergeTree (logText commits) = .ok out ↔
      (∀ c ∈ commits, ∀ line ∈ splitlines c.record, Readable line) ∧
      out = commits.flatMap fun c => (splitlines c.record).flatMap (authorOf mergeTree) := by
  unfold personAuthors
  rw [readAuthors_ok, splitlines_logText, List.nil_append, List.flatMap_assoc]
  refine and_congr_left fun _ => ?_
  simp only [List.mem_flatMap]
  exact ⟨fun all c mem line inside => all line ⟨c, mem, inside⟩,
    fun all line ⟨c, mem, inside⟩ => all c mem line inside⟩

theorem accepted_of_read (read : personAuthors mergeTree (logText commits) =
    .ok ((persons mergeTree commits).map Commit.author)) : OneAuthorEach mergeTree commits where
  read := read
  accepted := by
    intro bot authors given accepted
    rw [read] at given
    obtain rfl := Except.ok.inj given
    obtain ⟨some_, login, rfl, all⟩ := checkAuthors_ok.mp accepted
    refine ⟨fun none_ => some_ (by rw [none_, List.map_nil]), fun c mem => ?_⟩
    exact congrArg some (all c.author (List.mem_map_of_mem mem))

theorem flatMap_persons {read : Commit → List Str}
    (each : ∀ c ∈ commits, read c = if c.cleanMerge mergeTree then [] else [c.author]) :
    commits.flatMap read = (persons mergeTree commits).map Commit.author := by
  induction commits with
  | nil => rfl
  | cons c rest ih =>
    obtain ⟨here, later⟩ := List.forall_mem_cons.mp each
    have others := ih later
    unfold persons at others ⊢
    rw [List.flatMap_cons, here, others, List.filter_cons]
    cases c.cleanMerge mergeTree <;> rfl

theorem read_of_uncut (uncut : NamesUncut mergeTree commits) :
    personAuthors mergeTree (logText commits) =
      .ok ((persons mergeTree commits).map Commit.author) := by
  have each : ∀ c ∈ commits, (∀ line ∈ splitlines c.record, Readable line) ∧
      (splitlines c.record).flatMap (authorOf mergeTree) =
        if c.cleanMerge mergeTree then [] else [c.author] := by
    intro c mem
    rcases uncut c mem with name | ⟨clean, lines⟩
    · obtain ⟨readable, author⟩ := authorOf_record mergeTree name
      rw [splitlines_record name, List.flatMap_singleton]
      exact ⟨List.forall_mem_singleton.mpr readable, author⟩
    · rw [if_pos clean, List.flatMap_eq_nil_iff]
      exact ⟨fun line inside => ((cleanLine_iff line).mp (lines line inside)).1,
        fun line inside => ((cleanLine_iff line).mp (lines line inside)).2⟩
  rw [personAuthors_ok]
  exact ⟨fun c mem => (each c mem).1, (flatMap_persons fun c mem => (each c mem).2).symm⟩

theorem uncut_of_read (read : personAuthors mergeTree (logText commits) =
    .ok ((persons mergeTree commits).map Commit.author)) : NamesUncut mergeTree commits := by
  obtain ⟨readable, same⟩ := (personAuthors_ok _).mp read
  have names : ∀ c ∈ commits, c.cleanMerge mergeTree = false → Uncut c.author := by
    intro c mem person
    have kept : c ∈ persons mergeTree commits := List.mem_filter.mpr ⟨mem, by rw [person]; rfl⟩
    have there : c.author ∈ (persons mergeTree commits).map Commit.author :=
      List.mem_map_of_mem kept
    rw [same, List.mem_flatMap] at there
    obtain ⟨other, _, there⟩ := there
    obtain ⟨line, inside, there⟩ := List.mem_flatMap.mp there
    exact uncut_of_mem (splitlines_unbroken other.record line inside) there
  intro c mem
  cases clean : c.cleanMerge mergeTree with
  | false => exact .inl (names c mem clean)
  | true =>
    refine .inr ⟨rfl, fun line inside => (cleanLine_iff line).mpr ⟨readable c mem line inside, ?_⟩⟩
    have own : ∀ c ∈ commits, (!c.cleanMerge mergeTree) = true →
        (splitlines c.record).flatMap (authorOf mergeTree) = [c.author] := by
      intro c mem person
      rw [Bool.not_eq_true'] at person
      have uncut := names c mem person
      rw [splitlines_record uncut, List.flatMap_singleton, (authorOf_record mergeTree uncut).2, person]
      rfl
    have nothing := others_silent own same.symm c mem (by rw [clean]; rfl)
    exact List.flatMap_eq_nil_iff.mp nothing line inside

end Law

/-- Exactly the authors of the persons are read, where names are uncut. -/
theorem oneAuthorEach_iff (mergeTree : Str → Str → Proc) (commits : List Commit) :
    OneAuthorEach mergeTree commits ↔ NamesUncut mergeTree commits :=
  ⟨fun law => uncut_of_read law.read, fun uncut => accepted_of_read (read_of_uncut uncut)⟩

def hash (c : Char) (hex : isHexDigit c = true) : Hash :=
  ⟨[c], List.cons_ne_nil _ _, List.forall_mem_singleton.mpr hex⟩

def mallory : Commit where
  author := "bot\x1fp\x1ft\x0bbot".toList
  parents := [hash 'a' rfl]
  tree := hash 'b' rfl
  named := List.all_iff_forall_prop.mp (by decide)

def noMergeTree (_ _ : Str) : Proc := ⟨1, []⟩

/-- A commit of another author is read as two of the bot, and the branch is accepted. -/
theorem forged_author :
    personAuthors noMergeTree (logText [mallory]) = .ok ["bot".toList, "bot".toList] ∧
    checkAuthors (some "bot".toList) ["bot".toList, "bot".toList] = .ok () ∧
    ¬OneAuthorEach noMergeTree [mallory] := by
  refine ⟨by decide +kernel, by decide, fun law => ?_⟩
  have read := law.read
  revert read
  decide +kernel

end DevopsCli.BranchAuthors
