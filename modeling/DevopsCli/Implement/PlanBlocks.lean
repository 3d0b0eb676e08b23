import DevopsCli.Implement.GroupTexts

/- The blocks of a tasks.md stand apart: each line of a group and of a criterion starts a paragraph of
   one line, and an empty line is behind each block. -/
namespace DevopsCli.Implement.PlanBlocks
open PyStr Markdown CodeSpans StageTasks PlanText GroupTexts

section Lines
variable {group : StageGroup}

theorem digit_plain {n : Nat} : ∀ c ∈ digits n, c ≠ '\n' ∧ c ≠ '\r' ∧ c ≠ '.' ∧ isSpace c = false := by
  intro c member
  have digit : c.isDigit = true := Nat.isDigit_of_mem_toDigits (by decide) (by decide) member
  refine ⟨?_, ?_, ?_, ?_⟩
  · rintro rfl
    cases digit
  · rintro rfl
    cases digit
  · rintro rfl
    cases digit
  · rw [Bool.eq_false_iff]
    intro space
    simp only [Char.isDigit, Bool.and_eq_true, decide_eq_true_eq, UInt32.le_iff_toNat_le] at digit
    simp only [isSpace, Bool.or_eq_true, Bool.and_eq_true, decide_eq_true_eq, beq_iff_eq] at space
    have value : c.toNat = c.val.toNat := rfl
    have first : '0'.val.toNat = 48 := rfl
    have last : '9'.val.toNat = 57 := rfl
    omega

theorem digits_oneLine (n : Nat) : OneLine (digits n) :=
  fun c member => ⟨(digit_plain c member).1, (digit_plain c member).2.1⟩

theorem taskMark_eq (index number : Nat) :
    taskMark index number = "[ ] ".toList ++ digits index ++ ['.'] ++ digits number ++ [' '] := rfl

theorem textLine_task {work : Str} (one : OneLine work) (solid : Solid work) (index number : Nat) :
    TextLine (taskMark index number ++ work) where
  starts := by simp [taskMark_eq, startsText]
  one := by
    rw [taskMark_eq]
    exact oneLine_append (oneLine_append (oneLine_append (oneLine_append (oneLine_append (by decide)
      (digits_oneLine index)) (by decide)) (digits_oneLine number)) (by decide)) one
  ends := (solid_append solid _).2

theorem textLine_letter {line : Str} {c : Char} (letter : c.isAlpha = true) (first : line.head? = some c)
    (one : OneLine line) (solid : Solid line) : TextLine line where
  starts := by
    cases line with
    | nil => cases first
    | cons d more =>
      cases first
      unfold startsText
      split
      · rfl
      · next same =>
        cases same
        exact letter
      · next none_ => cases none_
  one := one
  ends := solid.2

theorem results_plain {result : Str} (known : result ∈ results) :
    OneLine result ∧ (∀ c ∈ result, c.isAlphanum = true ∨ c = ' ' ∨ c = ':') ∧ result ≠ [] ∧
      ∀ c ∈ result.getLast?, isSpace c = false := by
  unfold results at known
  simp only [List.mem_cons, List.not_mem_nil, or_false] at known
  rcases known with rfl | rfl
  · exact ⟨by simp [OneLine], by simp, by simp, by simp [isSpace]⟩
  · exact ⟨by simp [OneLine], by simp, by simp, by simp [isSpace]⟩

theorem textLine_check {command result : Str} (one : OneLine command) (known : result ∈ results) :
    TextLine (checkText command result) := by
  obtain ⟨line, -, some_, last⟩ := results_plain known
  have whole : checkText command result =
      (checkStart ++ ['`'] ++ ("$ ".toList ++ command) ++ ['`'] ++ [' ']) ++ result := by
    unfold checkText oneSpan
    simp only [List.append_assoc, List.cons_append, List.nil_append]
  have start : OneLine checkStart := by
    unfold checkStart
    simp [OneLine]
  rw [whole]
  apply textLine_letter (c := 'V') (by decide)
  · unfold checkStart
    simp
  · refine oneLine_append (oneLine_append (oneLine_append (oneLine_append (oneLine_append start ?_) ?_) ?_) ?_) line
    · decide
    · exact oneLine_append (by simp [OneLine]) one
    · decide
    · decide
  · exact (Ends.append ⟨some_, last⟩ _).solid

theorem oneLine_join {separator : Str} {parts : List Str} (first : OneLine separator)
    (all : ∀ part ∈ parts, OneLine part) : OneLine (join separator parts) := by
  unfold join
  induction parts with
  | nil => exact List.forall_mem_nil _
  | cons part parts ih =>
    obtain ⟨own, later⟩ := List.forall_mem_cons.mp all
    cases parts with
    | nil => simpa using own
    | cons second parts =>
      rw [List.intercalate_cons_cons]
      exact oneLine_append (oneLine_append own first) (ih later)

theorem paths_oneLine {names : List Str} (created : List Str) (all : ∀ name ∈ names, OneLine name) :
    OneLine (paths names created) := by
  apply oneLine_join (by simp [OneLine])
  intro part member
  obtain ⟨name, inside, rfl⟩ := List.mem_map.mp member
  have mark : OneLine (if created.contains name then " (new)".toList else []) := by
    split
    · simp [OneLine]
    · exact List.forall_mem_nil _
  exact List.forall_mem_cons.mpr ⟨by decide, oneLine_append (oneLine_append (all name inside) (by decide)) mark⟩

theorem textLine_files (texts : Texts group) : TextLine (groupFiles group) := by
  have reads : OneLine (if group.reads = [] then "none".toList else paths group.reads []) := by
    split
    · simp [OneLine]
    · exact paths_oneLine [] texts.reads
  unfold groupFiles
  apply textLine_letter (c := 'R') (by decide)
  · simp
  · exact oneLine_append (oneLine_append (oneLine_append (oneLine_append (by simp [OneLine]) reads)
      (by simp [OneLine])) (paths_oneLine _ texts.changes)) (by decide)
  · exact solid_append (by simp [Solid, trimEnd, List.rdropWhile, isSpace]) _

theorem strip_letter {line : Str} {c : Char} (letter : c.isAlpha = true) (first : line.head? = some c) :
    (strip line).head? = some c ∧ Solid (strip line) := by
  have plain : isSpace c = false := by
    rw [Bool.eq_false_iff]
    intro space
    simp only [Char.isAlpha, Char.isUpper, Char.isLower, Bool.or_eq_true, Bool.and_eq_true,
      decide_eq_true_eq, UInt32.le_iff_toNat_le, ge_iff_le] at letter
    simp only [isSpace, Bool.or_eq_true, Bool.and_eq_true, decide_eq_true_eq, beq_iff_eq] at space
    have value : c.toNat = c.val.toNat := rfl
    have bounds : 'A'.val.toNat = 65 ∧ 'Z'.val.toNat = 90 ∧ 'a'.val.toNat = 97 ∧ 'z'.val.toNat = 122 :=
      ⟨rfl, rfl, rfl, rfl⟩
    omega
  have lead : line.dropWhile isSpace = line := by
    cases line with
    | nil => rfl
    | cons d more =>
      cases first
      rw [List.dropWhile_cons_of_neg (by simp [plain])]
  have solid : ¬Blank line := by
    intro blank
    rw [blank c (List.mem_of_mem_head? first)] at plain
    cases plain
  have some_ : strip line ≠ [] := fun none_ => solid (strip_eq_nil_iff.mp none_)
  have trimmed := trimmed_strip line
  refine ⟨?_, Ends.solid ⟨some_, fun d last => Bool.eq_false_iff.mpr (trimmed.2 d last)⟩⟩
  obtain ⟨rest, whole⟩ : strip line <+: line := by
    unfold strip
    rw [lead]
    exact List.rdropWhile_prefix isSpace line
  rw [← whole, List.head?_append_of_ne_nil _ some_] at first
  exact first

theorem textLine_criterion (entry : StageCriterion) : TextLine (strip (criterionLine entry)) := by
  have one (text : Str) : OneLine (StageTasks.oneLine text) := (folded_words _).no_break
  have line : ∃ c, c.isAlpha = true ∧ (criterionLine entry).head? = some c ∧ OneLine (criterionLine entry) := by
    unfold criterionLine
    cases entry.group with
    | pendingPerson =>
      exact ⟨'P', by decide, by simp, oneLine_append (oneLine_append (oneLine_append (by simp [OneLine])
        (one _)) (by simp [OneLine])) (one _)⟩
    | number n =>
      exact ⟨'G', by decide, by simp, oneLine_append (oneLine_append (oneLine_append (by simp [OneLine])
        (digits_oneLine n)) (by simp [OneLine])) (one _)⟩
  obtain ⟨c, letter, first, whole⟩ := line
  obtain ⟨head, solid⟩ := strip_letter letter first
  exact textLine_letter letter head (fun d member => whole d ((strip_within _).subset member)) solid

theorem headingLine_group (texts : Texts group) (index : Nat) : HeadingLine (groupHeading index group) := by
  rw [groupHeading_eq]
  intro c member space
  rcases List.mem_append.mp member with digit | member
  · rw [(digit_plain c digit).2.2.2] at space
    cases space
  · rcases List.mem_cons.mp member with rfl | member
    · exact absurd space (by decide)
    · rcases List.mem_cons.mp member with rfl | inside
      · rfl
      · exact texts.title.spaces c inside space

theorem taskParts_ne_nil (texts : Texts group) : taskParts group ≠ [] := by
  rcases taskParts_cases texts with ⟨_, _, -, -, -, parts⟩ | ⟨_, -, -, -, parts⟩ | ⟨_, -, -, -, parts⟩
  all_goals
    rw [parts]
    exact List.cons_ne_nil _ _

theorem groupBlocks_plain (texts : Texts group) (index blanks : Nat) :
    ∀ entry ∈ groupBlocks index group blanks, entry.1.Plain := by
  have items : ∀ item ∈ groupItems index group, item.Plain := by
    intro item member
    obtain ⟨⟨part, number⟩, inside, rfl⟩ := List.mem_map.mp member
    have fine := taskParts_fine texts part (List.fst_mem_of_mem_zipIdx inside)
    refine ⟨textLine_task fine.work.1 fine.work.2 _ _, ?_⟩
    intro line nested
    obtain ⟨check, here, rfl⟩ := List.mem_map.mp nested
    obtain ⟨one, known⟩ := fine.check check (Option.mem_toList.mp here)
    exact textLine_check one known
  have some_ : groupItems index group ≠ [] := by
    simpa [groupItems] using taskParts_ne_nil texts
  unfold groupBlocks
  rw [List.forall_mem_cons, List.forall_mem_cons, List.forall_mem_singleton]
  exact ⟨⟨by decide, by decide, headingLine_group texts index⟩, textLine_files texts, some_, items⟩

end Lines

section Document
variable {groups : List StageGroup} {criteria : List StageCriterion} {doc more : List (Block × Nat)}

theorem open_group (index : Nat) (group : StageGroup) : Open (groupBlocks index group 1) where
  apart := by
    refine .cons_cons ⟨Nat.one_pos, ?_⟩ (.cons_cons ⟨Nat.one_pos, ?_⟩ (.singleton _))
    · rintro ⟨list, -⟩
      cases list
    · rintro ⟨list, -⟩
      cases list
  first := by simp [groupBlocks, Block.isList]
  blanks := by simp [groupBlocks]

theorem bodyDoc_plain (texts : ∀ group ∈ groups, Texts group) : Plain (bodyDoc groups criteria) where
  blocks := by
    have title : HeadingLine "Tasks".toList := by
      unfold HeadingLine
      simp [isSpace]
    have criteriaTitle : HeadingLine "Criteria".toList := by
      unfold HeadingLine
      simp [isSpace]
    have followUpTitle : HeadingLine "Workflow follow-up".toList := by
      unfold HeadingLine
      simp [isSpace]
    have review : TextLine pendingReview := by
      unfold pendingReview
      exact textLine_letter (c := 'P') (by decide) (by simp) (by simp [OneLine])
        (by simp [Solid, trimEnd, List.rdropWhile, isSpace])
    unfold bodyDoc
    rw [List.forall_mem_append, List.forall_mem_append, List.forall_mem_cons]
    refine ⟨⟨⟨⟨by decide, by decide, title⟩, ?_⟩, ?_⟩, ?_⟩
    · intro entry member
      obtain ⟨⟨group, index⟩, inside, here⟩ := List.mem_flatMap.mp member
      exact groupBlocks_plain (texts group (List.fst_mem_of_mem_zipIdx inside)) index 1 entry here
    · unfold criteriaDoc
      split
      · exact List.forall_mem_nil _
      · next some_ =>
        rw [List.forall_mem_cons, List.forall_mem_singleton]
        refine ⟨⟨by decide, by decide, criteriaTitle⟩, by simpa using some_, ?_⟩
        intro item member
        obtain ⟨entry, _, rfl⟩ := List.mem_map.mp member
        exact ⟨textLine_criterion entry, List.forall_mem_nil _⟩
    · unfold followUpDoc
      split
      · rw [List.forall_mem_cons, List.forall_mem_singleton]
        refine ⟨⟨by decide, by decide, followUpTitle⟩, List.cons_ne_nil _ _, ?_⟩
        rw [List.forall_mem_singleton]
        exact ⟨review, List.forall_mem_nil _⟩
      · exact List.forall_mem_nil _
  apart := by
    have title : Open [(Block.heading 1 "Tasks".toList, if groups = [] then 2 else 1)] := by
      refine ⟨.singleton _, by simp [Block.isList], ?_⟩
      rw [List.forall_mem_singleton]
      split <;> decide
    have sections_ : Open (groupsDoc 1 groups) := open_flatMap fun entry _ => open_group entry.2 entry.1
    have criteria_ : Open (criteriaDoc criteria) := by
      unfold criteriaDoc
      split
      · exact open_nil
      · exact open_section rfl 0 0
    have last : (followUpDoc groups).IsChain Apart := by
      unfold followUpDoc
      split
      · refine .cons_cons ⟨Nat.one_pos, ?_⟩ (.singleton _)
        rintro ⟨list, -⟩
        cases list
      · exact .nil
    have first : ∀ entry ∈ (followUpDoc groups).head?, entry.1.isList = false := by
      unfold followUpDoc
      split
      · simp [Block.isList]
      · simp
    unfold bodyDoc
    exact chain_append (open_append (open_append title sections_) criteria_) last first

theorem planDoc_plain (texts : ∀ group ∈ groups, Texts group) : Plain (planDoc groups criteria) :=
  withoutLast_plain (bodyDoc_plain texts)

theorem tasksFile_doc (texts : ∀ group ∈ groups, Texts group) :
    tasksFile groups criteria = docText (planDoc groups criteria) := by
  have body : "# Tasks\n\n".toList ++
      join ['\n'] ((groups.zipIdx 1).map fun entry => groupText entry.2 entry.1) ++ ['\n'] ++
        criteriaSection criteria ++ followUpSection groups = docText (bodyDoc groups criteria) := by
    unfold bodyDoc
    rw [docText_append, docText_append, ← criteriaSection_doc, ← followUpSection_doc]
    congr 2
    cases groups with
    | nil => simp [join, groupsDoc, docText, docLines, Block.lines, unlines]
    | cons group groups =>
      have title : docText [(Block.heading 1 "Tasks".toList, 1)] = "# Tasks\n\n".toList := by
        simp [docText, docLines, Block.lines, unlines]
      rw [List.append_assoc, sections_doc _ (List.cons_ne_nil _ _), if_neg (List.cons_ne_nil _ _), ← title]
      exact (docText_append [_] _).symm
  have trimmed := @docText_trimmed (bodyDoc groups criteria) (by simp [bodyDoc])
    (bodyDoc_plain texts).blocks
  unfold tasksFile planDoc
  rw [← trimmed, ← body]

end Document
end DevopsCli.Implement.PlanBlocks
