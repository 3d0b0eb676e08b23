import DevopsCli.Implement.PlanBlocks
import DevopsCli.Implement.WipKeeper

/- What it is for the tasks.md of a staged change to be read back, and the titles of groups: one is read
   back unless the syntax of a heading takes a part of it. -/
namespace DevopsCli.Implement.PlanTitles
open PyStr Markdown CodeSpans StepFiles StageTasks PlanText GroupTexts PlanBlocks TaskTokens

section Statement

def taskLinesOf (index : Nat) (group : StageGroup) : List Str :=
  ((taskTexts group).zipIdx 1).map fun entry => taskMark index entry.2 ++ entry.1.takeWhile (· != '\n')

def commandsOf (group : StageGroup) : List Str :=
  fromkeys (group.verify.toList ++ if group.documentation.isSome then [ciDocs] else [])

/-- A group of a tasks.md is the group that was written under a number. -/
structure ReadBack (index : Nat) (group : StageGroup) (read : TaskGroup) : Prop where
  number : read.number = index
  title : read.title = group.title
  tasks : read.tasks.map (·.text) = taskLinesOf index group
  unticked : ∀ task ∈ read.tasks, task.ticked = false
  commands : WipKeeper.verificationCommands read = commandsOf group

def Kept (reader : Reader) (groups : List StageGroup) (criteria : List StageCriterion) : Prop :=
  ∃ read, parseTaskGroups reader (tasksFile groups criteria) = some read ∧
    List.Forall₂ (fun entry group => ReadBack entry.2 entry.1 group) (groups.zipIdx 1) read

def Clear (text : Str) : Prop := ∀ c ∈ text, c.toNat ≠ 0

def InSpan (command : Str) : Prop := command.getLast? ≠ some '`' ∧ ¬HasRun 1 command

/-- A group whose texts the file can hold. -/
structure Written (group : StageGroup) : Prop where
  title : group.title ≠ [] ∧ closing group.title = false ∧ Clear group.title
  test : ∀ text ∈ group.test, Clear text
  implementation : Clear group.implementation
  documentation : ∀ text ∈ group.documentation, Clear text
  process : ∀ text ∈ group.process, text ≠ [] ∧ Clear text
  verify : ∀ command ∈ group.verify, InSpan command ∧ Clear command

def AsciiDigits (reader : Reader) : Prop :=
  ∀ c, c.isDigit = true → reader.digit c = some (some (c.toNat - 48))

end Statement

section Titles
variable {title : Str}

theorem withoutNul_clear {text : Str} (clear : Clear text) : withoutNul text = text := by
  unfold withoutNul
  conv_rhs => rw [← List.map_id text]
  exact List.map_congr_left fun c member => if_neg (clear c member)

theorem withoutNul_eq {text : Str} (same : withoutNul text = text) : Clear text := by
  intro c member zero
  unfold withoutNul at same
  have kept := List.map_eq_map_iff.mp (same.trans (List.map_id text).symm) c member
  rw [if_pos zero] at kept
  rw [← (show Char.ofNat 0xfffd = c from kept)] at zero
  exact absurd zero (by decide)

theorem digits_clear (n : Nat) : Clear (digits n) := by
  intro c member zero
  have digit : c.isDigit = true := Nat.isDigit_of_mem_toDigits (by decide) (by decide) member
  have same : c = Char.ofNat 0 := by rw [← zero, Char.ofNat_toNat]
  rw [same] at digit
  exact absurd digit (by decide)

theorem partition_digits (n : Nat) (rest : Str) :
    partition ". ".toList (digits n ++ rest) =
      (partition ". ".toList rest).map fun parts => (digits n ++ parts.1, parts.2) := by
  have plain : ∀ c ∈ digits n, c ≠ '.' := fun c member => (digit_plain c member).2.2.1
  generalize digits n = front at plain
  induction front with
  | nil => simp
  | cons c more ih =>
    obtain ⟨other, later⟩ := List.forall_mem_cons.mp plain
    have none_ : ". ".toList.isPrefixOf (c :: (more ++ rest)) = false := by
      simp [List.isPrefixOf, Ne.symm other]
    rw [List.cons_append, StepFiles.partition, none_, if_neg Bool.false_ne_true, ih later, Option.map_map]
    rfl

theorem partition_title (n : Nat) (title : Str) :
    partition ". ".toList (digits n ++ '.' :: ' ' :: title) = some (digits n, title) := by
  rw [partition_digits]
  simp [StepFiles.partition, List.isPrefixOf]

theorem partition_stop (n : Nat) : partition ". ".toList (digits n ++ ['.']) = none := by
  rw [partition_digits]
  simp [StepFiles.partition, List.isPrefixOf]

theorem int_digits {reader : Reader} (ascii : AsciiDigits reader) (n : Nat) :
    int reader (digits n) = if n < 10 ^ maxDigits then some n else none := by
  have value : ∀ (run : Str) (start : Nat), (∀ c ∈ run, c.isDigit = true) →
      (run.mapM fun c => (reader.digit c).join).map (List.foldl (10 * · + ·) start) =
        some (Nat.ofDigitChars 10 run start) := by
    intro run
    induction run with
    | nil => exact fun _ _ => rfl
    | cons c run ih =>
      intro start all
      obtain ⟨first, later⟩ := List.forall_mem_cons.mp all
      have rest := ih (10 * start + (c.toNat - 48)) later
      rw [List.mapM_cons, ascii c first, Nat.ofDigitChars_cons]
      cases more : run.mapM fun c => (reader.digit c).join with
      | none =>
        rw [more] at rest
        cases rest
      | some values =>
        rw [more] at rest
        exact rest
  have digit : ∀ c ∈ digits n, c.isDigit = true := fun c member =>
    Nat.isDigit_of_mem_toDigits (by decide) (by decide) member
  have long : (digits n).length ≤ maxDigits ↔ n < 10 ^ maxDigits :=
    Nat.length_toDigits_le_iff (by decide) (by decide)
  unfold int
  rw [value _ 0 digit]
  by_cases short : n < 10 ^ maxDigits
  · rw [if_neg (Nat.not_lt.mpr (long.mpr short)), if_pos short]
    exact congrArg some Nat.ofDigitChars_ten_toDigits
  · rw [if_pos (Nat.not_le.mp fun inside => short (long.mp inside)), if_neg short]

theorem isdigit_digits {reader : Reader} (ascii : AsciiDigits reader) (n : Nat) :
    isdigit reader (digits n) = true := by
  unfold isdigit
  rw [Bool.and_eq_true, List.all_eq_true]
  refine ⟨decide_eq_true Nat.toDigits_ne_nil, ?_⟩
  intro c member
  rw [ascii c (Nat.isDigit_of_mem_toDigits (by decide) (by decide) member)]
  rfl

theorem withoutNul_title (n : Nat) (title : Str) :
    withoutNul (digits n ++ '.' :: ' ' :: title) = digits n ++ '.' :: ' ' :: withoutNul title := by
  rw [withoutNul_append, withoutNul_clear (digits_clear n)]
  rfl

theorem digits_trimmed (n : Nat) (rest : Str) (c : Char) (first : c ∈ (digits n ++ rest).head?) :
    isSpace c = false := by
  have some_ : digits n ≠ [] := Nat.toDigits_ne_nil
  rw [List.head?_append_of_ne_nil _ some_] at first
  exact (digit_plain c (List.mem_of_mem_head? first)).2.2.2

theorem strip_digits (n : Nat) (rest : Str) : strip (digits n ++ rest) = rstrip (digits n ++ rest) := by
  have lead : (digits n ++ rest).dropWhile isSpace = digits n ++ rest := by
    rw [List.dropWhile_eq_self_iff]
    intro long
    have first := digits_trimmed n rest ((digits n ++ rest)[0]) (by simp [List.head?_eq_getElem?, List.getElem?_eq_getElem long])
    simp [first]
  unfold strip
  rw [lead]

theorem rstrip_solid {text : Str} (last : ∀ c ∈ text.getLast?, isSpace c = false) : rstrip text = text := by
  unfold rstrip
  rw [List.rdropWhile_eq_self_iff]
  intro some_ space
  rw [last _ (List.getLast?_eq_some_getLast some_)] at space
  cases space

theorem titleText_kept (folded : Folded title) (some_ : title ≠ []) (open_ : closing title = false) (n : Nat) :
    titleText (digits n ++ '.' :: ' ' :: title) = digits n ++ '.' :: ' ' :: withoutNul title := by
  have whole : digits n ++ '.' :: ' ' :: title = (digits n ++ ['.', ' ']) ++ title := by simp
  have last : ∀ c ∈ (digits n ++ '.' :: ' ' :: title).getLast?, isSpace c = false := by
    rw [whole, List.getLast?_append_of_ne_nil _ some_]
    exact Sentence.last ⟨folded, some_⟩
  have kept : title.rdropWhile (· == '#') ≠ [] := by
    intro none_
    unfold closing at open_
    simp only [none_, Bool.and_eq_false_iff, bne_eq_false_iff_eq] at open_
    rcases open_ with same | other
    · exact some_ same.symm
    · simp at other
  have same : closing (digits n ++ '.' :: ' ' :: title) = closing title := by
    unfold closing
    have front : (digits n ++ '.' :: ' ' :: title).rdropWhile (· == '#') =
        (digits n ++ ['.', ' ']) ++ title.rdropWhile (· == '#') := by
      rw [whole, rdropWhile_append kept]
    have long : (digits n ++ ['.', ' ']) ++ title.rdropWhile (· == '#') ≠ [] :=
      List.append_ne_nil_of_right_ne_nil _ kept
    simp only [front, List.getLast?_append_of_ne_nil _ kept]
    rw [whole]
    have differ : ((digits n ++ ['.', ' ']) ++ title.rdropWhile (· == '#') != (digits n ++ ['.', ' ']) ++ title) =
        (title.rdropWhile (· == '#') != title) := by
      rw [Bool.eq_iff_iff, bne_iff_ne, bne_iff_ne, ne_eq, List.append_cancel_left_eq]
    rw [differ, beq_false_of_ne long, beq_false_of_ne kept]
  unfold titleText headingText withoutClosing
  rw [trimEnd_solid last, same, open_, if_neg Bool.false_ne_true, strip_digits, rstrip_solid last,
    withoutNul_title]

/-- A title that the syntax of a heading takes as its own is not read back. -/
theorem titleText_lost (folded : Folded title) (lost : title = [] ∨ closing title = true) (n : Nat) :
    titleText (digits n ++ '.' :: ' ' :: title) = digits n ++ ['.'] ∨
      ∃ less, less.length < title.length ∧
        titleText (digits n ++ '.' :: ' ' :: title) = digits n ++ '.' :: ' ' :: less := by
  have stop : ∀ c ∈ (digits n ++ ['.']).getLast?, isSpace c = false := by
    simp
    decide
  have bare : withoutNul (digits n ++ ['.']) = digits n ++ ['.'] := by
    rw [withoutNul_append, withoutNul_clear (digits_clear n)]
    rfl
  have space : (digits n ++ ['.', ' ']) = (digits n ++ ['.']) ++ [' '] := by simp
  rcases lost with rfl | closed
  · left
    have trimmed : trimEnd (digits n ++ ['.', ' ']) = digits n ++ ['.'] := by
      unfold trimEnd
      rw [space, List.rdropWhile_concat_pos _ _ _ rfl]
      exact trimEnd_solid stop
    have open_ : closing (digits n ++ ['.']) = false := by
      unfold closing
      rw [List.rdropWhile_concat_neg _ _ _ (by decide)]
      simp
    unfold titleText headingText withoutClosing
    rw [trimmed, open_, if_neg Bool.false_ne_true, strip_digits, rstrip_solid stop, bare]
  · have whole : digits n ++ '.' :: ' ' :: title = (digits n ++ ['.', ' ']) ++ title := by simp
    unfold closing at closed
    simp only [Bool.and_eq_true, bne_iff_ne, Bool.or_eq_true, beq_iff_eq] at closed
    obtain ⟨shorter, blank⟩ := closed
    have some_ : title ≠ [] := by
      rintro rfl
      exact shorter rfl
    have last : ∀ c ∈ (digits n ++ '.' :: ' ' :: title).getLast?, isSpace c = false := by
      rw [whole, List.getLast?_append_of_ne_nil _ some_]
      exact Sentence.last ⟨folded, some_⟩
    have ended {rest : Str} (front : (digits n ++ '.' :: ' ' :: title).rdropWhile (· == '#') = digits n ++ rest)
        (closed : closing (digits n ++ '.' :: ' ' :: title) = true) :
        titleText (digits n ++ '.' :: ' ' :: title) = withoutNul (rstrip (digits n ++ rest)) := by
      unfold titleText headingText withoutClosing
      rw [trimEnd_solid last, closed, if_pos rfl, front, strip_digits]
    rcases blank with none_ | end_
    · left
      have sharps := List.rdropWhile_eq_nil_iff.mp none_
      have front : (digits n ++ '.' :: ' ' :: title).rdropWhile (· == '#') = digits n ++ ['.', ' '] := by
        rw [whole]
        unfold List.rdropWhile
        rw [List.reverse_append, List.dropWhile_append_of_pos fun c member => sharps c (List.mem_reverse.mp member)]
        simp
      have closed : closing (digits n ++ '.' :: ' ' :: title) = true := by
        unfold closing
        simp only [front]
        rw [whole]
        simp [some_]
      rw [ended front closed, space]
      unfold rstrip
      rw [List.rdropWhile_concat_pos _ _ _ (by decide)]
      exact (congrArg withoutNul (rstrip_solid stop)).trans bare
    · right
      have kept : title.rdropWhile (· == '#') ≠ [] := by
        intro none_
        rw [none_] at end_
        cases end_
      have front : (digits n ++ '.' :: ' ' :: title).rdropWhile (· == '#') =
          (digits n ++ ['.', ' ']) ++ title.rdropWhile (· == '#') := by
        rw [whole, rdropWhile_append kept]
      have closed : closing (digits n ++ '.' :: ' ' :: title) = true := by
        unfold closing
        simp only [front]
        rw [whole, List.getLast?_append_of_ne_nil _ kept, end_]
        simp [shorter]
      obtain ⟨rest, split⟩ := List.rdropWhile_prefix (· == '#') title
      have text : ¬Blank (title.rdropWhile (· == '#')) := by
        intro blank
        obtain ⟨c, more, start⟩ := List.exists_cons_of_ne_nil kept
        have first : title.head? = some c := by
          rw [← split, start]
          rfl
        have plain := folded.trimmed.1 c first
        exact plain (blank c (by rw [start]; exact List.mem_cons_self))
      refine ⟨withoutNul (rstrip (title.rdropWhile (· == '#'))), ?_, ?_⟩
      · rw [withoutNul_length]
        have first := (List.rdropWhile_prefix isSpace (title.rdropWhile (· == '#'))).length_le
        have second := (List.rdropWhile_prefix (· == '#') title).length_le
        have differ : (title.rdropWhile (· == '#')).length ≠ title.length := fun same =>
          shorter ((List.rdropWhile_prefix (· == '#') title).eq_of_length same)
        unfold rstrip
        omega
      · rw [List.append_assoc] at front
        rw [ended front closed, ← List.append_assoc, rstrip_append text, ← withoutNul_title]
        simp

end Titles
end DevopsCli.Implement.PlanTitles
