import DevopsCli.Implement.PlanTitles

/- The tasks of a group and their commands, as they are read: a task loses a character only at its end
   or for a U+0000, and a command is read where its code span holds it. -/
namespace DevopsCli.Implement.PlanTasks
open PyStr Markdown CodeSpans StepFiles StageTasks PlanText GroupTexts PlanBlocks TaskTokens PlanTitles

section Tasks
variable {inline_ : Str → List Span} {reader : Reader} {command result : Str}

def commandsIn (inline_ : Str → List Span) (line : Str) : List Str :=
  ((codes inline_ line).filter commandMark.isPrefixOf).map (·.drop commandMark.length)

theorem commandMark_append (command : Str) : "$ ".toList ++ command = '$' :: ' ' :: command := by simp

theorem hasRun_mark : HasRun 1 ("$ ".toList ++ command) ↔ HasRun 1 command := by
  rw [commandMark_append]
  constructor
  · rintro ⟨before, after, split, first, last⟩
    rcases before with _ | ⟨c, _ | ⟨d, before⟩⟩
    · exact absurd (List.cons_eq_cons.mp split).1 (by decide)
    · exact absurd (List.cons_eq_cons.mp (List.cons_eq_cons.mp split).2).1 (by decide)
    · refine ⟨before, after, (List.cons_eq_cons.mp (List.cons_eq_cons.mp split).2).2, ?_, last⟩
      intro tick
      cases before with
      | nil => cases tick
      | cons e before =>
        apply first
        rw [List.getLast?_cons_cons, List.getLast?_cons_cons, tick]
  · rintro ⟨before, after, rfl, first, last⟩
    refine ⟨'$' :: ' ' :: before, after, rfl, ?_, last⟩
    intro tick
    cases before with
    | nil => exact absurd tick (by decide)
    | cons c before =>
      apply first
      rwa [List.getLast?_cons_cons, List.getLast?_cons_cons] at tick

theorem getLast?_mark : ("$ ".toList ++ command).getLast? = some '`' ↔ command.getLast? = some '`' := by
  rw [commandMark_append]
  cases command with
  | nil => simp
  | cons c command => rw [List.getLast?_cons_cons, List.getLast?_cons_cons]

theorem checkStart_plain : ∀ c ∈ checkStart, c.isAlphanum = true ∨ c = ' ' ∨ c = ':' := by
  unfold checkStart
  simp

theorem check_oneSpan (fits : InSpan command) (known : result ∈ results) :
    OneSpan checkStart ("$ ".toList ++ command) (' ' :: result) where
  before := checkStart_plain
  after := List.forall_mem_cons.mpr ⟨by simp, (results_plain known).2.1⟩
  first := by simp
  some_ := by simp
  last := fun tick => fits.1 (getLast?_mark.mp tick)
  run := fun run => fits.2 (hasRun_mark.mp run)

theorem unbroken_mark (one : OneLine command) : unbroken ("$ ".toList ++ command) = "$ ".toList ++ command := by
  have whole : OneLine ("$ ".toList ++ command) := oneLine_append (by simp [OneLine]) one
  generalize "$ ".toList ++ command = text at whole
  unfold unbroken
  conv_rhs => rw [← List.map_id text]
  exact List.map_congr_left fun c member => if_neg (whole c member).1

theorem commandsIn_kept (commonMark : CommonMark inline_ reader) (one : OneLine command)
    (fits : InSpan command) (known : result ∈ results) :
    commandsIn inline_ (checkText command result) = [command] := by
  unfold commandsIn checkText
  rw [commonMark.oneSpan (check_oneSpan fits known), unbroken_mark one]
  have mark : commandMark.isPrefixOf ("$ ".toList ++ command) = true :=
    List.isPrefixOf_iff_prefix.mpr (List.prefix_append _ _)
  rw [List.filter_cons_of_pos mark, List.filter_nil, List.map_singleton]
  exact congrArg (fun text => [text]) (List.drop_left ..)

theorem withoutNul_oneLine (one : OneLine command) : OneLine (withoutNul command) := by
  intro c member
  obtain ⟨d, inside, rfl⟩ := List.mem_map.mp member
  split
  · decide
  · exact one d inside

theorem of_mem_commandsIn (commonMark : CommonMark inline_ reader) (one : OneLine command)
    (known : result ∈ results)
    (read : command ∈ commandsIn inline_ (checkText (withoutNul command) result)) :
    InSpan command ∧ Clear command := by
  obtain ⟨code, inside, rest⟩ := List.mem_map.mp read
  obtain ⟨found, mark⟩ := List.mem_filter.mp inside
  obtain ⟨own, rfl⟩ := List.isPrefixOf_iff_prefix.mp mark
  obtain rfl : own = command := (List.drop_left ..).symm.trans rest
  have plain {line : Str} (words : ∀ c ∈ line, c.isAlphanum = true ∨ c = ' ' ∨ c = ':') :
      ∀ c ∈ line, c ≠ '`' := by
    rintro c member rfl
    exact absurd (words _ member) (by decide)
  obtain ⟨same, last, run⟩ := (commonMark.spans _ _ found).whole (plain checkStart_plain)
    (plain (List.forall_mem_cons.mpr ⟨by simp, (results_plain known).2.1⟩))
    (by simp [withoutNul_length, commandMark])
  rw [unbroken_mark (withoutNul_oneLine one)] at same
  have clear := List.append_cancel_left same
  rw [← clear] at last run
  exact ⟨⟨fun tick => last (getLast?_mark.mpr tick), fun inside => run (hasRun_mark.mpr inside)⟩,
    withoutNul_eq clear.symm⟩

theorem taskMark_clear (index number : Nat) : Clear (taskMark index number) := by
  rw [taskMark_eq]
  have all {text more : Str} (first : Clear text) (last : Clear more) : Clear (text ++ more) :=
    List.forall_mem_append.mpr ⟨first, last⟩
  have box_ : Clear "[ ] ".toList := by simp [Clear]
  have dot : Clear ['.'] := by simp [Clear]
  have space : Clear [' '] := by simp [Clear]
  exact all (all (all (all box_ (digits_clear index)) dot) (digits_clear number)) space

theorem lineText_task {work : Str} (solid : Solid work) (index number : Nat) :
    lineText (taskMark index number ++ work) = taskMark index number ++ withoutNul (trimEnd work) := by
  unfold lineText
  rw [trimEnd_append solid.1, withoutNul_append, withoutNul_clear (taskMark_clear index number)]

theorem words_clear {line : Str} (words : ∀ c ∈ line, c.isAlphanum = true ∨ c = ' ' ∨ c = ':') :
    Clear line := by
  intro c member zero
  have same : c = Char.ofNat 0 := by rw [← zero, Char.ofNat_toNat]
  have word := words c member
  rw [same] at word
  exact absurd word (by decide)

theorem lineText_check (known : result ∈ results) :
    lineText (checkText command result) = checkText (withoutNul command) result := by
  obtain ⟨-, words, some_, last⟩ := results_plain known
  have ends : ∀ c ∈ (checkText command result).getLast?, isSpace c = false := by
    have whole : checkText command result =
        (checkStart ++ ['`'] ++ ("$ ".toList ++ command) ++ ['`'] ++ [' ']) ++ result := by
      unfold checkText oneSpan
      simp only [List.append_assoc, List.cons_append, List.nil_append]
    rwa [whole, List.getLast?_append_of_ne_nil _ some_]
  have behind : withoutNul (' ' :: result) = ' ' :: result :=
    withoutNul_clear (List.forall_mem_cons.mpr ⟨by decide, words_clear words⟩)
  have mark : withoutNul "$ ".toList = "$ ".toList := withoutNul_clear (by simp [Clear])
  have tick : withoutNul ['`'] = ['`'] := rfl
  unfold lineText
  rw [trimEnd_solid ends]
  unfold checkText oneSpan
  rw [withoutNul_append, withoutNul_append, withoutNul_append, withoutNul_append, withoutNul_append,
    behind, mark, tick, withoutNul_clear (words_clear checkStart_plain)]

def readPart (inline_ : Str → List Span) (index number : Nat) (part : TaskPart) : TaskView where
  text := taskMark index number ++ withoutNul (trimEnd part.work)
  ticked := false
  verification := part.check.toList.flatMap fun check =>
    commandsIn inline_ (checkText (withoutNul check.1) check.2)

theorem itemTask_part {part : TaskPart} (fine : Fine part) (index number : Nat) :
    itemTask inline_ (part.item index number) = some (readPart inline_ index number part) := by
  have text := lineText_task fine.work.2 index number
  have front : (taskMark index number ++ withoutNul (trimEnd part.work)).take 3 = box := by
    rw [taskMark_eq]
    simp [box]
  have lines : ((part.item index number).nested.map lineText).filter verificationMark.isPrefixOf =
      part.check.toList.map fun check => checkText (withoutNul check.1) check.2 := by
    unfold TaskPart.item
    cases checked : part.check with
    | none => rfl
    | some check =>
      obtain ⟨-, known⟩ := fine.check check checked
      have mark : verificationMark.isPrefixOf (checkText (withoutNul check.1) check.2) = true := by
        rw [List.isPrefixOf_iff_prefix]
        refine ⟨' ' :: '`' :: ("$ ".toList ++ withoutNul check.1) ++ ['`'] ++ ' ' :: check.2, ?_⟩
        unfold checkText oneSpan checkStart verificationMark
        simp
      simp only [Option.toList_some, List.map_cons, List.map_nil]
      rw [lineText_check known, List.filter_cons_of_pos mark, List.filter_nil]
  unfold itemTask readPart
  have line : (part.item index number).line = taskMark index number ++ part.work := rfl
  simp only [line, text, front, lines]
  rw [if_neg (by simp [checkboxes])]
  simp only [ne_eq, not_true_eq_false, decide_false, commandsIn, List.flatMap_map, List.filter_flatMap,
    List.map_flatMap]

theorem tasks_read {group : StageGroup} (texts : Texts group) (index : Nat) :
    (groupItems index group).filterMap (itemTask inline_) =
      ((taskParts group).zipIdx 1).map fun entry => readPart inline_ index entry.2 entry.1 := by
  unfold groupItems
  rw [List.filterMap_map, ← List.filterMap_eq_map]
  apply List.filterMap_congr
  rintro ⟨part, number⟩ member
  exact itemTask_part (taskParts_fine texts part (List.fst_mem_of_mem_zipIdx member)) index number

theorem takeWhile_text {part : TaskPart} (fine : Fine part) : part.text.takeWhile (· != '\n') = part.work := by
  have one : ∀ c ∈ part.work, (c != '\n') = true := fun c member => bne_iff_ne.mpr (fine.work.1 c member).1
  unfold TaskPart.text
  cases part.check with
  | none =>
    simp only [List.append_nil]
    exact List.takeWhile_eq_self_iff.mpr one
  | some check =>
    simp only [verificationLine_eq]
    rw [List.takeWhile_append_of_pos one]
    simp

theorem work_read {work : Str} : withoutNul (trimEnd work) = work ↔ trimEnd work = work ∧ Clear work := by
  constructor
  · intro same
    have long : (trimEnd work).length = work.length := by rw [← withoutNul_length, same]
    have whole : trimEnd work = work := (List.rdropWhile_prefix _ work).eq_of_length long
    rw [whole] at same
    exact ⟨whole, withoutNul_eq same⟩
  · rintro ⟨whole, clear⟩
    rw [whole, withoutNul_clear clear]

/-- The lines of the tasks are read as they are where no work loses a character. -/
theorem lines_read {group : StageGroup} (texts : Texts group) (index : Nat) :
    (((taskParts group).zipIdx 1).map fun entry => readPart inline_ index entry.2 entry.1).map (·.text) =
        taskLinesOf index group ↔
      ∀ part ∈ taskParts group, trimEnd part.work = part.work ∧ Clear part.work := by
  have written : taskLinesOf index group =
      ((taskParts group).zipIdx 1).map fun entry => taskMark index entry.2 ++ entry.1.work := by
    unfold taskLinesOf
    rw [taskTexts_parts, List.zipIdx_map, List.map_map]
    apply List.map_congr_left
    rintro ⟨part, number⟩ member
    have work := takeWhile_text (taskParts_fine texts part (List.fst_mem_of_mem_zipIdx member))
    exact congrArg (taskMark index number ++ ·) work
  rw [written, List.map_map, List.map_inj_left]
  constructor
  · intro same part member
    obtain ⟨i, inside, rfl⟩ := List.mem_iff_getElem.mp member
    have here : ((taskParts group)[i], 1 + i) ∈ (taskParts group).zipIdx 1 := by
      rw [List.mk_mem_zipIdx_iff_le_and_getElem?_sub]
      exact ⟨Nat.le_add_right .., by rw [Nat.add_sub_cancel_left, List.getElem?_eq_getElem inside]⟩
    exact work_read.mp (List.append_cancel_left (same _ here))
  · rintro all ⟨part, number⟩ member
    exact congrArg (taskMark index number ++ ·)
      (work_read.mpr (all part (List.fst_mem_of_mem_zipIdx member)))

theorem clear_append {text more : Str} : Clear (text ++ more) ↔ Clear text ∧ Clear more :=
  List.forall_mem_append

theorem documentWork_clear {text : Str} : Clear (documentWork text) ↔ Clear text := by
  constructor
  · intro clear c member zero
    have other : c ≠ '`' := by
      rintro rfl
      exact absurd zero (by decide)
    exact clear c (documentWork_mem other member) zero
  · intro clear c member
    rcases mem_documentWork member with inside | mark
    · exact clear c inside
    · have edit : Clear "Edit `".toList := by simp [Clear]
      exact edit c mark

theorem regenerateDocuments_clear : Clear regenerateDocuments := by
  unfold regenerateDocuments
  simp [Clear]

theorem documentsWork_clear {text : Str} (changes : List Str) :
    Clear (documentsWork text changes) ↔ Clear text := by
  have run : Clear ", and run `".toList := by simp [Clear]
  have tick : Clear ['`'] := by simp [Clear]
  unfold documentsWork
  split
  · rw [clear_append, clear_append, clear_append, documentWork_clear]
    simp only [run, regenerateDocuments_clear, tick, and_true]
  · exact documentWork_clear

theorem processWork_read {work process : Str} (folded : Folded process) :
    trimEnd (processWork work process) = processWork work process ∧ Clear (processWork work process) ↔
      Clear work ∧ process ≠ [] ∧ Clear process := by
  have mark : Clear ", and run this check by hand: ".toList := by simp [Clear]
  have clear : Clear (processWork work process) ↔ Clear work ∧ Clear process := by
    unfold processWork
    rw [clear_append, clear_append]
    simp only [mark, and_true]
  rw [clear]
  by_cases none_ : process = []
  · have cut : trimEnd (processWork work process) ≠ processWork work process := by
      have whole : processWork work process = (work ++ ", and run this check by hand:".toList) ++ [' '] := by
        unfold processWork
        rw [none_]
        simp
      intro same
      rw [whole] at same
      unfold trimEnd at same
      rw [List.rdropWhile_concat_pos _ _ _ rfl] at same
      have shorter := (List.rdropWhile_prefix (· == ' ') (work ++ ", and run this check by hand:".toList)).length_le
      rw [same, List.length_append] at shorter
      exact absurd shorter (by simp)
    exact iff_of_false (fun read => cut read.1) fun written => written.2.1 none_
  · have whole : trimEnd (processWork work process) = processWork work process := by
      unfold processWork
      exact trimEnd_solid ((Sentence.ends ⟨folded, none_⟩).append _).2
    simp only [whole, none_, ne_eq, not_false_eq_true, true_and]

theorem sentence_read {text : Str} (sentence : Sentence text) :
    trimEnd text = text ∧ Clear text ↔ Clear text :=
  and_iff_right (trimEnd_solid sentence.ends.2)

theorem works_read {group : StageGroup} (texts : Texts group) :
    (∀ part ∈ taskParts group, trimEnd part.work = part.work ∧ Clear part.work) ↔
      (∀ text ∈ group.test, Clear text) ∧ Clear group.implementation ∧
        (∀ text ∈ group.documentation, Clear text) ∧ ∀ text ∈ group.process, text ≠ [] ∧ Clear text := by
  have documents : (∀ part ∈ documentsParts group, trimEnd part.work = part.work ∧ Clear part.work) ↔
      ∀ text ∈ group.documentation, Clear text := by
    unfold documentsParts
    cases documentation : group.documentation with
    | none => simp
    | some text =>
      have sentence := texts.documentation text documentation
      have whole := trimEnd_solid (documentsWork_ends sentence group.changes).2
      rw [List.forall_mem_singleton]
      simp only [whole, documentsWork_clear, true_and, Option.mem_some_iff, forall_eq']
  have implementation := sentence_read texts.implementation
  rcases taskParts_cases texts with ⟨test, verify, test_, -, process_, parts⟩ |
    ⟨process, test_, -, process_, parts⟩ | ⟨verify, test_, -, process_, parts⟩
  · have sentence := sentence_read (texts.test test test_)
    rw [parts, List.forall_mem_append, List.forall_mem_cons, List.forall_mem_singleton, documents, test_,
      process_, implementation, sentence]
    simp [and_assoc]
  · have read := @processWork_read group.implementation _ (texts.process process process_)
    rw [parts, List.forall_mem_append, List.forall_mem_singleton, documents, test_, process_, read]
    simp only [Option.not_mem_none, IsEmpty.forall_iff, implies_true, true_and, Option.mem_some_iff,
      forall_eq']
    tauto
  · rw [parts, List.forall_mem_append, List.forall_mem_singleton, documents, test_, process_, implementation]
    simp

theorem mem_fromkeys {names : List Str} {name : Str} : name ∈ fromkeys names ↔ name ∈ names := by
  have kept : ∀ seen : List Str, name ∈ names.foldl (fun seen name => if name ∈ seen then seen else seen ++ [name]) seen ↔
      name ∈ seen ∨ name ∈ names := by
    induction names with
    | nil => simp
    | cons first rest ih =>
      intro seen
      rw [List.foldl_cons, ih]
      split
      · next there =>
        rw [List.mem_cons]
        constructor
        · tauto
        · rintro (inside | rfl | later)
          · exact .inl inside
          · exact .inl there
          · exact .inr later
      · simp [or_assoc]
  simpa [fromkeys] using kept []

theorem fromkeys_again (name : Str) (names : List Str) : fromkeys (name :: name :: names) = fromkeys (name :: names) := by
  simp [fromkeys]

theorem no_run {text : Str} (plain : '`' ∉ text) : InSpan text := by
  refine ⟨fun last => plain (List.mem_of_getLast? last), ?_⟩
  rintro ⟨before, after, rfl, -, -⟩
  exact plain (by simp [ticks])

theorem ciDocs_written : InSpan ciDocs ∧ Clear ciDocs := by
  have plain : '`' ∉ ciDocs := by
    unfold ciDocs
    simp
  refine ⟨no_run plain, ?_⟩
  unfold ciDocs
  simp [Clear]

def commandsRead (inline_ : Str → List Span) (part : TaskPart) : List Str :=
  part.check.toList.flatMap fun check => commandsIn inline_ (checkText (withoutNul check.1) check.2)

theorem commandsRead_kept (commonMark : CommonMark inline_ reader) (work : Str) (one : OneLine command)
    (written : InSpan command ∧ Clear command) (known : result ∈ results) :
    commandsRead inline_ ⟨work, some (command, result)⟩ = [command] := by
  unfold commandsRead
  simp only [Option.toList_some, List.flatMap_cons, List.flatMap_nil, List.append_nil,
    withoutNul_clear written.2]
  exact commandsIn_kept commonMark one written.1 known

theorem of_mem_commandsRead (commonMark : CommonMark inline_ reader) {work : Str} (one : OneLine command)
    (known : result ∈ results) (read : command ∈ commandsRead inline_ ⟨work, some (command, result)⟩) :
    InSpan command ∧ Clear command := by
  unfold commandsRead at read
  simp only [Option.toList_some, List.flatMap_cons, List.flatMap_nil, List.append_nil] at read
  exact of_mem_commandsIn commonMark one known read

theorem documents_read (commonMark : CommonMark inline_ reader) (group : StageGroup) :
    (documentsParts group).flatMap (commandsRead inline_) =
      if group.documentation.isSome then [ciDocs] else [] := by
  unfold documentsParts
  cases group.documentation with
  | none => rfl
  | some text =>
    have read := commandsRead_kept commonMark (documentsWork text group.changes) ciDocs_oneLine
      ciDocs_written (List.mem_cons_of_mem _ List.mem_cons_self)
    rw [List.flatMap_singleton, read]
    rfl

theorem commands_read (commonMark : CommonMark inline_ reader) {group : StageGroup} (texts : Texts group) :
    fromkeys ((taskParts group).flatMap (commandsRead inline_)) = commandsOf group ↔
      ∀ command ∈ group.verify, InSpan command ∧ Clear command := by
  have documents := documents_read commonMark group
  have fails : "fails on the base".toList ∈ results := List.mem_cons_self
  have passes : "passes".toList ∈ results := List.mem_cons_of_mem _ List.mem_cons_self
  have fixed {verify : Str} (inside : verify ∈ if group.documentation.isSome then [ciDocs] else []) :
      InSpan verify ∧ Clear verify := by
    split at inside
    · rw [List.mem_singleton.mp inside]
      exact ciDocs_written
    · cases inside
  unfold commandsOf
  rcases taskParts_cases texts with ⟨test, verify, -, verify_, -, parts⟩ |
    ⟨process, -, verify_, -, parts⟩ | ⟨verify, -, verify_, -, parts⟩
  · have one := texts.verify verify verify_
    rw [parts, verify_, List.flatMap_append, List.flatMap_cons, List.flatMap_singleton, documents]
    simp only [Option.toList_some, Option.mem_some_iff, forall_eq']
    constructor
    · intro same
      have there : verify ∈ fromkeys ([verify] ++ if group.documentation.isSome then [ciDocs] else []) :=
        mem_fromkeys.mpr (List.mem_append_left _ List.mem_cons_self)
      rw [← same, mem_fromkeys, List.mem_append, List.mem_append] at there
      rcases there with (first | second) | last
      · exact of_mem_commandsRead commonMark one fails first
      · exact of_mem_commandsRead commonMark one passes second
      · exact fixed last
    · intro written
      rw [commandsRead_kept commonMark _ one written fails, commandsRead_kept commonMark _ one written passes]
      exact fromkeys_again _ _
  · rw [parts, verify_, List.flatMap_append, List.flatMap_singleton, documents]
    simp [commandsRead]
  · have one := texts.verify verify verify_
    rw [parts, verify_, List.flatMap_append, List.flatMap_singleton, documents]
    simp only [Option.toList_some, Option.mem_some_iff, forall_eq']
    constructor
    · intro same
      have there : verify ∈ fromkeys ([verify] ++ if group.documentation.isSome then [ciDocs] else []) :=
        mem_fromkeys.mpr (List.mem_append_left _ List.mem_cons_self)
      rw [← same, mem_fromkeys, List.mem_append] at there
      rcases there with first | last
      · exact of_mem_commandsRead commonMark one passes first
      · exact fixed last
    · intro written
      rw [commandsRead_kept commonMark _ one written passes]

end Tasks
end DevopsCli.Implement.PlanTasks
