import DevopsCli.Lib.OptionLists
import DevopsCli.Implement.PlanText

/- What the schema of a staged change promises of the texts of a group, and what is left of it in the
   tasks that are written from them: each is one line, and ends in no blank. -/
namespace DevopsCli.Implement.GroupTexts
open PyStr Markdown CodeSpans StageTasks PlanText

section Fields
variable {printable : Printable} {group : StageGroup}

def OneLine (text : Str) : Prop := ∀ c ∈ text, c ≠ '\n' ∧ c ≠ '\r'

instance (text : Str) : Decidable (OneLine text) :=
  List.decidableBAll (fun c => c ≠ '\n' ∧ c ≠ '\r') text

theorem oneLine_append {text more : Str} (first : OneLine text) (last : OneLine more) :
    OneLine (text ++ more) := List.forall_mem_append.mpr ⟨first, last⟩

def Sentence (text : Str) : Prop := Folded text ∧ text ≠ []

theorem sentence_kept {raw kept : Str} (found : sentence raw = some kept) : Sentence kept := by
  unfold sentence at found
  simp only [Option.ite_none_left_eq_some, Option.some.injEq] at found
  obtain ⟨some_, rfl⟩ := found
  exact ⟨(folded_words _).rdropWhile sentenceEnd (by decide), some_⟩

theorem atLeastOne_folded {raw kept : Str} (found : atLeastOne StageTasks.oneLine raw = some kept) :
    Folded kept := by
  unfold atLeastOne at found
  simp only [Option.ite_none_left_eq_some, Option.some.injEq] at found
  obtain ⟨_, rfl⟩ := found
  exact folded_words _

theorem joinLines_oneLine (text : Str) : OneLine (joinLines text) := by
  intro c member
  have inside := (strip_within _).subset member
  have plain : isBreak c = false := by
    generalize parts : splitlines (jsSpace text) = lines at inside
    have unbroken : ∀ line ∈ lines, Unbroken line := parts ▸ splitlines_unbroken _
    clear parts member
    unfold join at inside
    induction lines with
    | nil => cases inside
    | cons line lines ih =>
      obtain ⟨first, later⟩ := List.forall_mem_cons.mp unbroken
      cases lines with
      | nil => exact first c (by simpa using inside)
      | cons second lines =>
        rw [List.intercalate_cons_cons, List.append_assoc, List.mem_append, List.mem_append] at inside
        rcases inside with here | space | rest
        · exact first c here
        · rw [List.mem_singleton.mp space]
          rfl
        · exact ih rest later
  constructor
  · rintro rfl
    exact absurd plain (by decide)
  · rintro rfl
    exact absurd plain (by decide)

theorem command_oneLine {raw kept : Str} (found : command raw = some kept) : OneLine kept := by
  unfold command atLeastOne at found
  simp only [Option.ite_none_left_eq_some, Option.some.injEq] at found
  obtain ⟨_, rfl⟩ := found
  exact joinLines_oneLine _

theorem repositoryPath_oneLine {raw path : Str} (found : repositoryPath printable raw = some path) :
    OneLine path := by
  unfold repositoryPath at found
  simp only [Option.ite_none_left_eq_some, Option.some.injEq, not_or, Bool.not_eq_false] at found
  obtain ⟨⟨_, _, _, plain⟩, rfl⟩ := found
  unfold isPlain at plain
  rw [Bool.and_eq_true, List.all_eq_true] at plain
  intro c member
  have shown_ := plain.2 c member
  constructor
  · rintro rfl
    rw [printable.line_feed] at shown_
    cases shown_
  · rintro rfl
    rw [printable.carriage_return] at shown_
    cases shown_

theorem optional_kept {check : Str → Option Str} {raw kept : Option Str}
    (found : optional check raw = some kept) : ∀ text ∈ kept, ∃ raw, check raw = some text := by
  intro text member
  cases raw with
  | none =>
    cases found
    cases member
  | some raw =>
    obtain ⟨own, made, rfl⟩ := Option.map_eq_some_iff.mp found
    exact ⟨raw, by rw [made, Option.mem_some_iff.mp member]⟩

/-- What the schema promises of the texts of a group. -/
structure Texts (group : StageGroup) : Prop where
  title : Folded group.title
  test : ∀ text ∈ group.test, Sentence text
  implementation : Sentence group.implementation
  documentation : ∀ text ∈ group.documentation, Sentence text
  process : ∀ text ∈ group.process, Folded text
  verify : ∀ command ∈ group.verify, OneLine command
  reads : ∀ path ∈ group.reads, OneLine path
  changes : ∀ path ∈ group.changes, OneLine path
  rules : kindRules group = true

theorem accepted_texts (accepted : Accepted printable group) : Texts group := by
  obtain ⟨raw, valid⟩ := accepted
  simp only [validate, Option.bind_eq_bind, Option.bind_eq_some_iff] at valid
  obtain ⟨title, title_, reads, reads_, changes, changes_, creates, -, lines, -, test, test_,
    implementation, implementation_, documentation, documentation_, verify, verify_, process,
    process_, made⟩ := valid
  split at made
  · next fine =>
    cases made
    have rules : kindRules _ = true :=
      (Bool.and_eq_true _ _ ▸ (Bool.and_eq_true _ _ ▸ fine.2).1).2
    refine ⟨atLeastOne_folded title_, ?_, sentence_kept implementation_, ?_, ?_, ?_, ?_, ?_, rules⟩
    · intro text member
      obtain ⟨raw, found⟩ := optional_kept test_ text member
      exact sentence_kept found
    · intro text member
      obtain ⟨raw, found⟩ := optional_kept documentation_ text member
      exact sentence_kept found
    · intro text member
      obtain ⟨raw, found⟩ := optional_kept process_ text member
      exact atLeastOne_folded found
    · intro text member
      obtain ⟨raw, found⟩ := optional_kept verify_ text member
      exact command_oneLine found
    · intro path member
      obtain ⟨raw, _, found⟩ := (OptionLists.mem_mapM reads_ path).mp member
      exact repositoryPath_oneLine found
    · intro path member
      obtain ⟨raw, _, found⟩ := (OptionLists.mem_mapM changes_ path).mp member
      exact repositoryPath_oneLine found
  · cases made

end Fields

section Works
variable {group : StageGroup} {text front : Str}

theorem Sentence.last (sentence : Sentence text) : ∀ c ∈ text.getLast?, isSpace c = false :=
  fun c member => Bool.eq_false_iff.mpr (sentence.1.trimmed.2 c member)

theorem Sentence.ends (sentence : Sentence text) : Ends text := ⟨sentence.2, sentence.last⟩

theorem partition_space {text before after : Str} (found : StepFiles.partition [' '] text = some (before, after)) :
    text = before ++ ' ' :: after := by
  induction text generalizing before with
  | nil => cases found
  | cons c rest ih =>
    unfold StepFiles.partition at found
    split at found
    · next here =>
      cases found
      rw [← (List.cons_prefix_cons.mp (List.isPrefixOf_iff_prefix.mp here)).1]
      rfl
    · obtain ⟨⟨front, back⟩, later, same⟩ := Option.map_eq_some_iff.mp found
      cases same
      rw [ih later]
      rfl

theorem documentWork_parts (text : Str) : ∃ path name tail, text = path ++ tail ∧
    name = (path.dropWhile (· == '`')).rdropWhile (· == '`') ∧
    (documentWork text = text ∨ documentWork text = "Edit `".toList ++ name ++ ['`'] ++ tail) := by
  obtain ⟨word, rest, whole, first, later⟩ : ∃ word rest, text = word ++ rest ∧
      (((StepFiles.partition [' '] text).map fun found => (found.1, ' ' :: found.2)).map (·.1)).getD text =
        word ∧
      (((StepFiles.partition [' '] text).map fun found => (found.1, ' ' :: found.2)).map (·.2)).getD [] =
        rest := by
    cases found : StepFiles.partition [' '] text with
    | none => exact ⟨text, [], by simp, rfl, rfl⟩
    | some parts => exact ⟨parts.1, ' ' :: parts.2, partition_space found, rfl, rfl⟩
  obtain ⟨end_, split_⟩ := List.rdropWhile_prefix ".,;:".toList.contains word
  refine ⟨word.rdropWhile ".,;:".toList.contains, _, end_ ++ rest, ?_, rfl, ?_⟩
  · rw [← List.append_assoc, split_, whole]
  · have behind : word.drop (word.rdropWhile ".,;:".toList.contains).length = end_ := by
      generalize word.rdropWhile ".,;:".toList.contains = path at split_ ⊢
      rw [← split_, List.drop_left]
    unfold documentWork
    simp only [first, later, behind]
    split
    · exact .inl rfl
    · exact .inr rfl

theorem documentWork_ends (sentence : Sentence text) : Ends (documentWork text) := by
  obtain ⟨path, name, tail, whole, -, same | edit⟩ := documentWork_parts text
  · rw [same]
    exact sentence.ends
  · rw [edit]
    rcases tail with _ | ⟨c, more⟩
    · rw [List.append_nil]
      exact Ends.append ⟨by simp, by simp; decide⟩ _
    · refine Ends.append ⟨List.cons_ne_nil _ _, ?_⟩ _
      have last := sentence.last
      rwa [whole, List.getLast?_append_of_ne_nil _ (List.cons_ne_nil _ _)] at last

theorem mem_documentWork {c : Char} (inside : c ∈ documentWork text) :
    c ∈ text ∨ c ∈ "Edit `".toList := by
  obtain ⟨path, name, tail, whole, stripped, same | edit⟩ := documentWork_parts text
  · rw [same] at inside
    exact .inl inside
  · rw [edit] at inside
    rw [whole, List.mem_append]
    simp only [List.mem_append, List.mem_singleton] at inside
    rcases inside with ((mark | own) | tick) | behind
    · exact .inr mark
    · rw [stripped] at own
      exact .inl (.inl ((List.dropWhile_sublist _).subset ((List.rdropWhile_prefix _ _).subset own)))
    · exact .inr (by rw [tick]; decide)
    · exact .inl (.inr behind)

theorem documentWork_mem {c : Char} (other : c ≠ '`') (inside : c ∈ text) : c ∈ documentWork text := by
  obtain ⟨path, name, tail, whole, stripped, same | edit⟩ := documentWork_parts text
  · rw [same]
    exact inside
  · rw [whole, List.mem_append] at inside
    rw [edit]
    simp only [List.mem_append, List.mem_singleton]
    rcases inside with own | behind
    · have kept : c ∈ path.dropWhile (· == '`') := by
        rw [← List.takeWhile_append_dropWhile (p := (· == '`')) (l := path), List.mem_append] at own
        refine own.resolve_left fun front => ?_
        have tick := List.mem_takeWhile_imp front
        exact other (beq_iff_eq.mp tick)
      rw [← List.rdropWhile_append_rtakeWhile (p := (· == '`')) (l := path.dropWhile (· == '`')),
        List.mem_append, ← stripped] at kept
      rcases kept with here | back
      · exact .inl (.inl (.inr here))
      · have tick := List.mem_rtakeWhile_imp back
        exact absurd (beq_iff_eq.mp tick) other
    · exact .inr behind

theorem documentsWork_ends (sentence : Sentence text) (changes : List Str) :
    Ends (documentsWork text changes) := by
  unfold documentsWork
  split
  · exact Ends.append ⟨by simp, by simp; decide⟩ _
  · exact documentWork_ends sentence

theorem processWork_solid {process : Str} (folded : Folded process) (work : Str) :
    Solid (processWork work process) := by
  unfold processWork
  by_cases none_ : process = []
  · rw [none_, List.append_nil]
    exact solid_append (by simp [Solid, trimEnd, List.rdropWhile, isSpace]) _
  · exact (Ends.append (Sentence.ends ⟨folded, none_⟩) _).solid

theorem Sentence.oneLine (sentence : Sentence text) : OneLine text := sentence.1.no_break

theorem regenerateDocuments_oneLine : OneLine regenerateDocuments := by
  unfold regenerateDocuments
  simp [OneLine]

theorem ciDocs_oneLine : OneLine ciDocs := by
  unfold ciDocs
  simp [OneLine]

theorem documentsWork_oneLine (sentence : Sentence text) (changes : List Str) :
    OneLine (documentsWork text changes) := by
  have work : OneLine (documentWork text) := by
    intro c member
    rcases mem_documentWork member with inside | mark
    · exact sentence.oneLine c inside
    · have edit : OneLine "Edit `".toList := by simp [OneLine]
      exact edit c mark
  unfold documentsWork
  split
  · exact oneLine_append (oneLine_append (oneLine_append work (by simp [OneLine]))
      regenerateDocuments_oneLine) (by simp [OneLine])
  · exact work

theorem taskParts_cases (texts : Texts group) :
    (∃ test verify, group.test = some test ∧ group.verify = some verify ∧ group.process = none ∧
      taskParts group = [⟨test, some (verify, "fails on the base".toList)⟩,
        ⟨group.implementation, some (verify, "passes".toList)⟩] ++ documentsParts group) ∨
    (∃ process, group.test = none ∧ group.verify = none ∧ group.process = some process ∧
      taskParts group = [⟨processWork group.implementation process, none⟩] ++ documentsParts group) ∨
    ∃ verify, group.test = none ∧ group.verify = some verify ∧ group.process = none ∧
      taskParts group = [⟨group.implementation, some (verify, "passes".toList)⟩] ++
        documentsParts group := by
  have rules := texts.rules
  unfold kindRules at rules
  unfold taskParts
  split at rules
  · next behavior =>
    unfold behaviorRules at rules
    simp only [Bool.and_eq_true, Option.isSome_iff_exists, Option.isNone_iff_eq_none] at rules
    obtain ⟨⟨⟨⟨test, test_⟩, ⟨verify, verify_⟩⟩, process⟩, -⟩ := rules
    refine .inl ⟨test, verify, test_, verify_, process, ?_⟩
    rw [if_pos behavior, test_, verify_]
    rfl
  · next other =>
    rw [if_neg other]
    unfold otherRules at rules
    cases process : group.process with
    | some steps =>
      cases verify : group.verify with
      | some command => simp [process, verify] at rules
      | none =>
        simp only [process, verify, Bool.and_eq_true, Option.isNone_iff_eq_none] at rules
        exact .inr (.inl ⟨steps, rules.1.1, rfl, rfl, rfl⟩)
    | none =>
      cases verify : group.verify with
      | none => simp [process, verify] at rules
      | some command =>
        simp only [process, verify, Bool.and_eq_true, Option.isNone_iff_eq_none] at rules
        exact .inr (.inr ⟨command, rules.1.1, rfl, rfl, rfl⟩)

def results : List Str := ["fails on the base".toList, "passes".toList]

structure Fine (part : TaskPart) : Prop where
  work : OneLine part.work ∧ Solid part.work
  check : ∀ check ∈ part.check, OneLine check.1 ∧ check.2 ∈ results

theorem taskParts_fine (texts : Texts group) : ∀ part ∈ taskParts group, Fine part := by
  have implementation : OneLine group.implementation ∧ Solid group.implementation :=
    ⟨texts.implementation.oneLine, texts.implementation.ends.solid⟩
  have checked {work command result : Str} (work_ : OneLine work ∧ Solid work) (one : OneLine command)
      (known : result ∈ results) : Fine ⟨work, some (command, result)⟩ := by
    refine ⟨work_, ?_⟩
    intro check same
    cases same
    exact ⟨one, known⟩
  have documents : ∀ part ∈ documentsParts group, Fine part := by
    unfold documentsParts
    cases documentation : group.documentation with
    | none => exact List.forall_mem_nil _
    | some text =>
      have sentence := texts.documentation text documentation
      rw [List.forall_mem_singleton]
      exact checked ⟨documentsWork_oneLine sentence _, (documentsWork_ends sentence _).solid⟩
        ciDocs_oneLine (by simp [results])
  have fails : "fails on the base".toList ∈ results := List.mem_cons_self
  have passes : "passes".toList ∈ results := List.mem_cons_of_mem _ List.mem_cons_self
  rcases taskParts_cases texts with ⟨test, verify, test_, verify_, -, parts⟩ |
    ⟨process, -, -, process_, parts⟩ | ⟨verify, -, verify_, -, parts⟩
  · have sentence := texts.test test test_
    have one := texts.verify verify verify_
    rw [parts, List.forall_mem_append, List.forall_mem_cons, List.forall_mem_singleton]
    exact ⟨⟨checked ⟨sentence.oneLine, sentence.ends.solid⟩ one fails, checked implementation one passes⟩,
      documents⟩
  · have folded := texts.process process process_
    rw [parts, List.forall_mem_append, List.forall_mem_singleton]
    refine ⟨⟨⟨?_, processWork_solid folded _⟩, by simp⟩, documents⟩
    exact oneLine_append (oneLine_append implementation.1 (by simp [OneLine])) folded.no_break
  · rw [parts, List.forall_mem_append, List.forall_mem_singleton]
    exact ⟨checked implementation (texts.verify verify verify_) passes, documents⟩

end Works
end DevopsCli.Implement.GroupTexts
