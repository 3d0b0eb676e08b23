import DevopsCli.Implement.PlainReader
import DevopsCli.Implement.PlanTasks

/- When the tasks.md of a staged change is read back as it was written: exactly when no title is eaten
   by the syntax of a heading, no process is empty once it is folded, no command ends its own code
   span, and no text has a U+0000. -/
namespace DevopsCli.Implement.PlanKept
open PyStr Markdown CodeSpans StepFiles StageTasks PlanText GroupTexts PlanBlocks TaskTokens PlanTitles PlanTasks

section Groups
variable {inline_ : Str → List Span} {reader : Reader}

def viewOf (inline_ : Str → List Span) (index : Nat) (title : Str) (group : StageGroup) : GroupView where
  number := index
  title := title
  tasks := ((taskParts group).zipIdx 1).map fun entry => readPart inline_ index entry.2 entry.1

structure ViewBack (index : Nat) (group : StageGroup) (view : GroupView) : Prop where
  number : view.number = index
  title : view.title = group.title
  tasks : view.tasks.map (·.text) = taskLinesOf index group
  unticked : ∀ task ∈ view.tasks, task.ticked = false
  commands : fromkeys (view.tasks.flatMap (·.verification)) = commandsOf group

theorem readBack_view {index : Nat} {group : StageGroup} {read : TaskGroup} :
    ReadBack index group read ↔ ViewBack index group (groupView read) := by
  have lines : (groupView read).tasks.map (·.text) = read.tasks.map (·.text) := by
    rw [groupView, List.map_map]
    rfl
  have ticks : (∀ task ∈ (groupView read).tasks, task.ticked = false) ↔
      ∀ task ∈ read.tasks, task.ticked = false := by
    simp [groupView, taskView]
  have commands : (groupView read).tasks.flatMap (·.verification) = read.tasks.flatMap (·.verification) := by
    rw [groupView, List.flatMap_map]
    rfl
  constructor
  · rintro ⟨number, title, tasks, unticked, found⟩
    exact ⟨number, title, lines.trans tasks, ticks.mpr unticked, by rw [commands]; exact found⟩
  · rintro ⟨number, title, tasks, unticked, found⟩
    exact ⟨number, title, lines.symm.trans tasks, ticks.mp unticked, by rw [commands] at found; exact found⟩

theorem viewBack_iff (commonMark : CommonMark inline_ reader) {group : StageGroup} (texts : Texts group)
    (index : Nat) (title : Str) :
    ViewBack index group (viewOf inline_ index title group) ↔ title = group.title ∧
      ((∀ text ∈ group.test, Clear text) ∧ Clear group.implementation ∧
        (∀ text ∈ group.documentation, Clear text) ∧ ∀ text ∈ group.process, text ≠ [] ∧ Clear text) ∧
      ∀ command ∈ group.verify, InSpan command ∧ Clear command := by
  have found : (viewOf inline_ index title group).tasks.flatMap (·.verification) =
      (taskParts group).flatMap (commandsRead inline_) := by
    rw [viewOf, List.flatMap_map, ← List.zipIdx_map_fst 1 (taskParts group), List.flatMap_map]
    simp only [List.zipIdx_map_fst]
    rfl
  rw [← works_read texts, ← @lines_read inline_ group texts index, ← commands_read commonMark texts,
    ← found]
  constructor
  · rintro ⟨-, title, tasks, -, commands⟩
    exact ⟨title, tasks, commands⟩
  · rintro ⟨title, tasks, commands⟩
    refine ⟨rfl, title, tasks, ?_, commands⟩
    intro task member
    obtain ⟨entry, -, rfl⟩ := List.mem_map.mp member
    rfl

def groupSection (index : Nat) (group : StageGroup) : Str × List Block :=
  (titleText (groupHeading index group), [.paragraph (groupFiles group), .bullets (groupItems index group)])

theorem groupsIn_length {sections_ : List (Str × List Block)} {views : List GroupView}
    (read : groupsIn inline_ reader sections_ = some views) : views.length ≤ sections_.length := by
  induction sections_ generalizing views with
  | nil =>
    cases read
    exact Nat.le_refl _
  | cons entry later ih =>
    obtain ⟨heading, blocks⟩ := entry
    unfold groupsIn at read
    split at read
    · exact (ih read).trans (Nat.le_succ _)
    · split at read
      · exact (ih read).trans (Nat.le_succ _)
      · obtain ⟨n, -, made⟩ := Option.bind_eq_some_iff.mp read
        obtain ⟨groups, rest, rfl⟩ := Option.map_eq_some_iff.mp made
        exact Nat.succ_le_succ (ih rest)

theorem groupsIn_append {sections_ more : List (Str × List Block)}
    (other : ∀ entry ∈ more, partition ". ".toList entry.1 = none) :
    groupsIn inline_ reader (sections_ ++ more) = groupsIn inline_ reader sections_ := by
  induction sections_ with
  | nil =>
    induction more with
    | nil => rfl
    | cons entry more ih =>
      obtain ⟨heading, blocks⟩ := entry
      obtain ⟨first, later⟩ := List.forall_mem_cons.mp other
      have skip : groupsIn inline_ reader ((heading, blocks) :: more) = groupsIn inline_ reader more := by
        simp only at first
        rw [groupsIn, first]
      rw [List.nil_append, skip]
      exact ih later
  | cons entry sections_ ih =>
    obtain ⟨heading, blocks⟩ := entry
    rw [List.cons_append, groupsIn, groupsIn, ih]

theorem groupsIn_group (ascii : AsciiDigits reader) {group : StageGroup} (texts : Texts group) {k : Nat}
    {title : Str} (parts : partition ". ".toList (groupSection k group).1 = some (digits k, title))
    (later : List (Str × List Block)) :
    groupsIn inline_ reader (groupSection k group :: later) =
      if k < 10 ^ maxDigits then (groupsIn inline_ reader later).map (viewOf inline_ k title group :: ·)
      else none := by
  have tasks := @tasks_read inline_ group texts k
  have items : (groupSection k group).2.flatMap itemsOf = groupItems k group := by
    simp [groupSection, itemsOf]
  rw [show groupSection k group = ((groupSection k group).1, (groupSection k group).2) from rfl, groupsIn,
    parts]
  simp only
  rw [isdigit_digits ascii, if_neg Bool.false_ne_true.symm, int_digits ascii, items, tasks]
  split
  · rfl
  · rfl

theorem forall₂_cons {reads : Option (List GroupView)} {view : GroupView} {group : StageGroup} {k n : Nat}
    {entries : List (StageGroup × Nat)} :
    (∃ views, (if k < n then reads.map (view :: ·) else none) = some views ∧
      List.Forall₂ (fun entry view => ViewBack entry.2 entry.1 view) ((group, k) :: entries) views) ↔
      k < n ∧ ViewBack k group view ∧ ∃ views, reads = some views ∧
        List.Forall₂ (fun entry view => ViewBack entry.2 entry.1 view) entries views := by
  constructor
  · rintro ⟨views, read, all⟩
    split at read
    · next inside =>
      obtain ⟨rest, same, rfl⟩ := Option.map_eq_some_iff.mp read
      obtain ⟨own, later⟩ := List.forall₂_cons.mp all
      exact ⟨inside, own, rest, same, later⟩
    · cases read
  · rintro ⟨inside, own, rest, same, later⟩
    exact ⟨view :: rest, by rw [if_pos inside, same]; rfl, List.forall₂_cons.mpr ⟨own, later⟩⟩

/-- The sections of the groups are read as the groups exactly where each of them is written so. -/
theorem sections_iff (commonMark : CommonMark inline_ reader) (ascii : AsciiDigits reader)
    {groups : List StageGroup} (texts : ∀ group ∈ groups, Texts group) (k : Nat) :
    (∃ views, groupsIn inline_ reader ((groups.zipIdx k).map fun entry => groupSection entry.2 entry.1) =
        some views ∧
      List.Forall₂ (fun entry view => ViewBack entry.2 entry.1 view) (groups.zipIdx k) views) ↔
      (∀ group ∈ groups, Written group) ∧ (groups ≠ [] → k + groups.length ≤ 10 ^ maxDigits) := by
  induction groups generalizing k with
  | nil => simp [groupsIn]
  | cons group groups ih =>
    obtain ⟨own, later⟩ := List.forall_mem_cons.mp texts
    have rest := ih later (k + 1)
    have heading : (groupSection k group).1 = titleText (digits k ++ '.' :: ' ' :: group.title) := by
      rw [groupSection, groupHeading_eq]
    have bound : (k < 10 ^ maxDigits ∧ (groups ≠ [] → k + 1 + groups.length ≤ 10 ^ maxDigits)) ↔
        (group :: groups ≠ [] → k + (group :: groups).length ≤ 10 ^ maxDigits) := by
      generalize 10 ^ maxDigits = most
      cases groups with
      | nil =>
        constructor
        · rintro ⟨inside, -⟩ _
          exact inside
        · intro last
          exact ⟨last (List.cons_ne_nil _ _), fun some_ => absurd rfl some_⟩
      | cons second groups =>
        simp only [ne_eq, reduceCtorEq, not_false_eq_true, forall_const, List.length_cons]
        omega
    rw [List.zipIdx_cons, List.map_cons, List.forall_mem_cons]
    simp only
    by_cases kept : group.title ≠ [] ∧ closing group.title = false
    · have title := titleText_kept own.title kept.1 kept.2 k
      have view := viewBack_iff commonMark own k (withoutNul group.title)
      rw [groupsIn_group ascii own (by rw [heading, title]; exact partition_title k _), forall₂_cons, view,
        rest, ← bound]
      have clear : withoutNul group.title = group.title ↔ Clear group.title :=
        ⟨withoutNul_eq, withoutNul_clear⟩
      rw [clear]
      constructor
      · rintro ⟨inside, ⟨title, ⟨test, implementation, documentation, process⟩, verify⟩, others, more⟩
        exact ⟨⟨⟨⟨kept.1, kept.2, title⟩, test, implementation, documentation, process, verify⟩, others⟩,
          inside, more⟩
      · rintro ⟨⟨⟨⟨-, -, title⟩, test, implementation, documentation, process, verify⟩, others⟩, inside, more⟩
        exact ⟨inside, ⟨title, ⟨test, implementation, documentation, process⟩, verify⟩, others, more⟩
    · have lost : group.title = [] ∨ closing group.title = true := by
        by_cases none_ : group.title = []
        · exact .inl none_
        · exact .inr (by simpa [none_] using kept)
      refine iff_of_false ?_ fun written => kept ⟨written.1.1.title.1, written.1.1.title.2.1⟩
      rcases titleText_lost own.title lost k with stop | ⟨less, shorter, title⟩
      · have none_ : partition ". ".toList (groupSection k group).1 = none := by
          rw [heading, stop, partition_stop]
        rintro ⟨views, read, all⟩
        rw [show groupSection k group = ((groupSection k group).1, (groupSection k group).2) from rfl,
          groupsIn, none_] at read
        have most := groupsIn_length read
        have all_ := all.length_eq
        simp only [List.length_map, List.length_zipIdx, List.length_cons] at most all_
        omega
      · rw [groupsIn_group ascii own (by rw [heading, title]; exact partition_title k _), forall₂_cons,
          viewBack_iff commonMark own]
        rintro ⟨-, ⟨same, -⟩, -⟩
        rw [same] at shorter
        exact absurd shorter (Nat.lt_irrefl _)

theorem sectionsOf_section {body rest : List Block} (raw : Str) (plain : ∀ block ∈ body, isSection block = false)
    (next : ∀ block ∈ rest.head?, isSection block = true) :
    sectionsOf (.heading 2 raw :: (body ++ rest)) = (titleText raw, body) :: sectionsOf rest := by
  have own : (body ++ rest).takeWhile (!isSection ·) = body := by
    rw [List.takeWhile_append_of_pos fun block member => by rw [plain block member]; rfl]
    cases rest with
    | nil => simp
    | cons block rest =>
      rw [List.takeWhile_cons_of_neg (by simp [next block rfl]), List.append_nil]
  have later : sectionsOf (body ++ rest) = sectionsOf rest := by
    clear own
    induction body with
    | nil => rfl
    | cons block body ih =>
      obtain ⟨first, others⟩ := List.forall_mem_cons.mp plain
      rw [List.cons_append, sectionsOf_skip first]
      exact ih others
  rw [sectionsOf, own, later]

theorem sectionsOf_groups (groups : List StageGroup) (k : Nat) {rest : List Block}
    (next : ∀ block ∈ rest.head?, isSection block = true) :
    sectionsOf ((groupsDoc k groups).map Prod.fst ++ rest) =
      ((groups.zipIdx k).map fun entry => groupSection entry.2 entry.1) ++ sectionsOf rest := by
  induction groups generalizing k with
  | nil => rfl
  | cons group groups ih =>
    have later := ih (k + 1)
    have starts : ∀ block ∈ ((groupsDoc (k + 1) groups).map Prod.fst ++ rest).head?, isSection block = true := by
      cases groups with
      | nil => exact next
      | cons second groups =>
        intro block member
        cases member
        rfl
    have blocks : (groupsDoc k (group :: groups)).map Prod.fst ++ rest =
        .heading 2 (groupHeading k group) :: ([.paragraph (groupFiles group), .bullets (groupItems k group)] ++
          ((groupsDoc (k + 1) groups).map Prod.fst ++ rest)) := by
      simp [groupsDoc, groupBlocks]
    rw [blocks, sectionsOf_section _ (by simp [isSection]) starts, later]
    rfl

theorem mem_sectionsOf {blocks : List Block} {entry : Str × List Block} (member : entry ∈ sectionsOf blocks) :
    ∃ raw, .heading 2 raw ∈ blocks ∧ entry.1 = titleText raw := by
  induction blocks with
  | nil => cases member
  | cons block blocks ih =>
    cases kind : isSection block with
    | false =>
      rw [sectionsOf_skip kind] at member
      obtain ⟨raw, inside, same⟩ := ih member
      exact ⟨raw, List.mem_cons_of_mem _ inside, same⟩
    | true =>
      obtain ⟨raw, rfl⟩ := isSection_iff.mp kind
      rw [sectionsOf] at member
      rcases List.mem_cons.mp member with rfl | later
      · exact ⟨raw, List.mem_cons_self, rfl⟩
      · obtain ⟨raw, inside, same⟩ := ih later
        exact ⟨raw, List.mem_cons_of_mem _ inside, same⟩

def blocksBehind (groups : List StageGroup) (criteria : List StageCriterion) : List Block :=
  (criteriaDoc criteria).map Prod.fst ++ (followUpDoc groups).map Prod.fst

theorem sectionsOf_behind (groups : List StageGroup) (criteria : List StageCriterion) :
    (∀ block ∈ (blocksBehind groups criteria).head?, isSection block = true) ∧
      ∀ entry ∈ sectionsOf (blocksBehind groups criteria), partition ". ".toList entry.1 = none := by
  have criteria_ : (criteriaDoc criteria).map Prod.fst = [] ∨
      ∃ raw more, (criteriaDoc criteria).map Prod.fst = .heading 2 raw :: more := by
    unfold criteriaDoc
    split
    · exact .inl rfl
    · exact .inr ⟨_, _, rfl⟩
  have followUp : (followUpDoc groups).map Prod.fst = [] ∨
      ∃ raw more, (followUpDoc groups).map Prod.fst = .heading 2 raw :: more := by
    unfold followUpDoc
    split
    · exact .inr ⟨_, _, rfl⟩
    · exact .inl rfl
  have first : ∀ block ∈ (blocksBehind groups criteria).head?, isSection block = true := by
    intro block member
    unfold blocksBehind at member
    rcases criteria_ with none_ | ⟨raw, more, some_⟩
    · rw [none_, List.nil_append] at member
      rcases followUp with none_ | ⟨raw, more, some_⟩
      · rw [none_] at member
        cases member
      · rw [some_] at member
        cases member
        rfl
    · rw [some_] at member
      cases member
      rfl
  refine ⟨first, ?_⟩
  intro entry member
  obtain ⟨raw, inside, same⟩ := mem_sectionsOf member
  have known : raw = "Criteria".toList ∨ raw = "Workflow follow-up".toList := by
    unfold blocksBehind at inside
    rcases List.mem_append.mp inside with here | here
    · left
      unfold criteriaDoc at here
      split at here
      · cases here
      · simpa using here
    · right
      unfold followUpDoc at here
      split at here
      · simpa using here
      · cases here
  rw [same]
  rcases known with rfl | rfl
  · decide
  · decide

/-- The plan is kept exactly where the sections of its groups are read as the groups. -/
theorem kept_iff_sections (commonMark : CommonMark inline_ reader) {groups : List StageGroup}
    (texts : ∀ group ∈ groups, Texts group) (criteria : List StageCriterion) :
    Kept reader groups criteria ↔
      ∃ views, groupsIn inline_ reader ((groups.zipIdx 1).map fun entry => groupSection entry.2 entry.1) =
          some views ∧
        List.Forall₂ (fun entry view => ViewBack entry.2 entry.1 view) (groups.zipIdx 1) views := by
  have read := parseTaskGroups_docText commonMark (@planDoc_plain groups criteria texts)
  obtain ⟨next, behind⟩ := sectionsOf_behind groups criteria
  have blocks : (bodyDoc groups criteria).map Prod.fst = .heading 1 "Tasks".toList ::
      ((groupsDoc 1 groups).map Prod.fst ++ blocksBehind groups criteria) := by
    simp [bodyDoc, blocksBehind]
  rw [← tasksFile_doc texts, planDoc, withoutLast_fst, blocks, sectionsOf_skip rfl, sectionsOf_groups _ _ next,
    groupsIn_append behind] at read
  rw [← read]
  constructor
  · rintro ⟨found, parsed, all⟩
    refine ⟨found.map groupView, by rw [parsed]; rfl, ?_⟩
    exact List.forall₂_map_right_iff.mpr (all.imp fun _ _ back => readBack_view.mp back)
  · rintro ⟨views, read, all⟩
    obtain ⟨found, parsed, rfl⟩ := Option.map_eq_some_iff.mp read
    exact ⟨found, parsed, (List.forall₂_map_right_iff.mp all).imp fun _ _ back => readBack_view.mpr back⟩

/-- The tasks.md of a staged change is read back as it was written exactly when each group is
    written so, and int reads the number of each. -/
theorem tasks_kept_iff (printable : Printable) (inline_ : Str → List Span) (reader : Reader)
    (commonMark : CommonMark inline_ reader) (ascii : AsciiDigits reader) (groups : List StageGroup)
    (accepted : ∀ group ∈ groups, Accepted printable group) (criteria : List StageCriterion) :
    Kept reader groups criteria ↔ (∀ group ∈ groups, Written group) ∧ groups.length < 10 ^ maxDigits := by
  have texts : ∀ group ∈ groups, Texts group := fun group member => accepted_texts (accepted group member)
  have long : (groups ≠ [] → 1 + groups.length ≤ 10 ^ maxDigits) ↔ groups.length < 10 ^ maxDigits := by
    generalize most : 10 ^ maxDigits = bound
    have positive : 0 < bound := by
      rw [← most]
      exact Nat.pow_pos (by decide)
    cases groups with
    | nil => simpa using positive
    | cons group groups =>
      rw [Nat.add_comm]
      exact ⟨fun inside => inside (List.cons_ne_nil _ _), fun inside _ => inside⟩
  rw [kept_iff_sections commonMark texts, sections_iff commonMark ascii texts, long]

end Groups

section Pages

def shown (c : Char) : Bool := decide (32 ≤ c.toNat)

theorem line_feed_hidden : shown '\n' = false := rfl
theorem carriage_return_hidden : shown '\r' = false := rfl

def visible : Printable where
  holds := shown
  line_feed := line_feed_hidden
  carriage_return := carriage_return_hidden

def pageUnder (title : Str) : StageGroup where
  title := title
  kind := .other
  changes := ["docs/a.md".toList]
  implementation := "Write the page".toList
  verify := some "uv run devops ci docs".toList

theorem plainReader_ascii : AsciiDigits PlainReader.plainReader := fun _ digit => if_pos digit

theorem page_accepted : Accepted visible (pageUnder "Add the page".toList) := ⟨pageUnder "Add the page".toList, rfl⟩

theorem page_written : Written (pageUnder "Add the page".toList) where
  title := by
    refine ⟨by simp [pageUnder], by decide, ?_⟩
    simp [Clear, pageUnder]
  test := by simp [pageUnder]
  implementation := by simp [Clear, pageUnder]
  documentation := by simp [pageUnder]
  process := by simp [pageUnder]
  verify := by
    intro command same
    cases same
    exact ciDocs_written

theorem page_kept : Kept PlainReader.plainReader [pageUnder "Add the page".toList] [] :=
  (tasks_kept_iff visible PlainReader.plainSpans PlainReader.plainReader PlainReader.plainReader_commonMark
    plainReader_ascii [pageUnder "Add the page".toList]
    (List.forall_mem_singleton.mpr page_accepted) []).mpr
    ⟨List.forall_mem_singleton.mpr page_written, Nat.one_lt_pow (by decide) (by decide)⟩

end Pages
end DevopsCli.Implement.PlanKept
