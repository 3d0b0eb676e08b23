import DevopsCli.Implement.StageTasks
import DevopsCli.Implement.TaskTokens

/- The tasks.md of a staged change as a document whose blocks stand apart: a title, a section for each
   group with its files and its tasks, the criteria and the follow-up. -/
namespace DevopsCli.Implement.PlanText
open PyStr Markdown CodeSpans StageTasks

structure TaskPart where
  work : Str
  check : Option (Str × Str) := none

def TaskPart.text (part : TaskPart) : Str :=
  part.work ++ match part.check with
    | none => []
    | some (command, result) => verificationLine command result

def processWork (work process : Str) : Str := work ++ ", and run this check by hand: ".toList ++ process

def documentsWork (documentation : Str) (changes : List Str) : Str :=
  if changes.any fun path => regeneratePrefixes.any (·.isPrefixOf path) then
    documentWork documentation ++ ", and run `".toList ++ regenerateDocuments ++ ['`']
  else documentWork documentation

def documentsParts (group : StageGroup) : List TaskPart :=
  match group.documentation with
  | none => []
  | some documentation =>
    [⟨documentsWork documentation group.changes, some (ciDocs, "passes".toList)⟩]

def taskParts (group : StageGroup) : List TaskPart :=
  (if group.kind = .behavior then
      [⟨shown group.test, some (shown group.verify, "fails on the base".toList)⟩,
        ⟨group.implementation, some (shown group.verify, "passes".toList)⟩]
    else if group.process.isSome then [⟨processWork group.implementation (shown group.process), none⟩]
    else [⟨group.implementation, some (shown group.verify, "passes".toList)⟩]) ++
  documentsParts group

theorem taskTexts_parts (group : StageGroup) : taskTexts group = (taskParts group).map TaskPart.text := by
  unfold taskTexts taskParts documentsParts
  rw [List.map_append]
  congr 1
  · split
    · rfl
    split
    · simp [TaskPart.text, processTask, processWork]
    · rfl
  · cases group.documentation with
    | none => rfl
    | some documentation => rfl

def checkStart : Str := "Verification: ".toList

def checkText (command result : Str) : Str := oneSpan checkStart ("$ ".toList ++ command) (' ' :: result)

theorem verificationLine_eq (command result : Str) :
    verificationLine command result = '\n' :: (nestedBullet ++ checkText command result) := by
  have first : "\n  - Verification: `$ ".toList =
      '\n' :: (nestedBullet ++ (checkStart ++ ['`'] ++ "$ ".toList)) := rfl
  have last : "` ".toList = ['`', ' '] := rfl
  unfold verificationLine checkText oneSpan
  rw [first, last]
  simp only [List.append_assoc, List.cons_append, List.nil_append]

def TaskPart.item (index number : Nat) (part : TaskPart) : Item where
  line := taskMark index number ++ part.work
  nested := part.check.toList.map fun check => checkText check.1 check.2

def groupItems (index : Nat) (group : StageGroup) : List Item :=
  ((taskParts group).zipIdx 1).map fun entry => entry.1.item index entry.2

def groupHeading (index : Nat) (group : StageGroup) : Str := digits index ++ ". ".toList ++ group.title

theorem groupHeading_eq (index : Nat) (group : StageGroup) :
    groupHeading index group = digits index ++ '.' :: ' ' :: group.title := by
  unfold groupHeading
  simp

def groupBlocks (index : Nat) (group : StageGroup) (blanks : Nat) : List (Block × Nat) :=
  [(.heading 2 (groupHeading index group), 1), (.paragraph (groupFiles group), 1),
    (.bullets (groupItems index group), blanks)]

theorem part_lines (index number : Nat) (part : TaskPart) :
    unlines (part.item index number).lines =
      "- ".toList ++ taskMark index number ++ part.text ++ ['\n'] := by
  obtain ⟨work, check⟩ := part
  cases check with
  | none => simp [TaskPart.item, TaskPart.text, Item.lines, unlines, bullet]
  | some check =>
    obtain ⟨command, result⟩ := check
    simp [TaskPart.item, TaskPart.text, Item.lines, unlines, bullet, verificationLine_eq]

theorem taskLines_items (index : Nat) (group : StageGroup) :
    taskLines index group = unlines ((groupItems index group).flatMap Item.lines) := by
  unfold taskLines groupItems
  rw [taskTexts_parts]
  generalize taskParts group = parts
  generalize 1 = k
  induction parts generalizing k with
  | nil => rfl
  | cons part parts ih =>
    rw [List.map_cons, List.zipIdx_cons, List.zipIdx_cons, List.map_cons, List.flatMap_cons,
      List.flatMap_cons, unlines_append, ih, part_lines]

theorem groupText_doc (index : Nat) (group : StageGroup) :
    groupText index group = docText (groupBlocks index group 0) := by
  unfold groupText groupBlocks
  rw [taskLines_items]
  simp [docText, docLines, groupHeading_eq, Block.lines, unlines]

def groupsDoc (k : Nat) (groups : List StageGroup) : List (Block × Nat) :=
  (groups.zipIdx k).flatMap fun entry => groupBlocks entry.2 entry.1 1

theorem sections_doc (groups : List StageGroup) (some_ : groups ≠ []) (k : Nat) :
    join ['\n'] ((groups.zipIdx k).map fun entry => groupText entry.2 entry.1) ++ ['\n'] =
      docText (groupsDoc k groups) := by
  have one (index : Nat) (group : StageGroup) :
      groupText index group ++ ['\n'] = docText (groupBlocks index group 1) := by
    rw [groupText_doc]
    simp [docText, docLines, groupBlocks, unlines]
  induction groups generalizing k with
  | nil => exact absurd rfl some_
  | cons group groups ih =>
    unfold groupsDoc at ih ⊢
    rw [List.zipIdx_cons, List.map_cons, List.flatMap_cons, docText_append, ← one]
    cases groups with
    | nil => simp [join, docText, docLines, unlines]
    | cons second groups =>
      have rest := ih (List.cons_ne_nil _ _) (k + 1)
      rw [← rest, List.zipIdx_cons, List.map_cons, join_cons_cons]
      simp

def criterionItem (entry : StageCriterion) : Item := ⟨strip (criterionLine entry), []⟩

def criteriaDoc (criteria : List StageCriterion) : List (Block × Nat) :=
  if criteria = [] then []
  else [(.heading 2 "Criteria".toList, 1), (.bullets (criteria.map criterionItem), 1)]

theorem bullets_lines (lines : List Str) (some_ : lines ≠ []) :
    StageTasks.bullets lines ++ ['\n'] =
      unlines ((lines.map fun line => (⟨strip line, []⟩ : Item)).flatMap Item.lines) := by
  unfold StageTasks.bullets
  induction lines with
  | nil => exact absurd rfl some_
  | cons line lines ih =>
    cases lines with
    | nil => simp [join, unlines, Item.lines, bullet]
    | cons second lines =>
      have rest := ih (List.cons_ne_nil _ _)
      rw [List.map_cons, List.map_cons, join_cons_cons, List.map_cons, List.flatMap_cons, unlines_append,
        ← rest]
      simp [unlines, Item.lines, bullet]

theorem criteriaSection_doc (criteria : List StageCriterion) :
    criteriaSection criteria = docText (criteriaDoc criteria) := by
  unfold criteriaSection criteriaDoc
  split
  · rfl
  · next some_ =>
    have lines := bullets_lines (criteria.map criterionLine) (by simpa using some_)
    rw [List.map_map] at lines
    have text : "## Criteria\n\n".toList ++ StageTasks.bullets (criteria.map criterionLine) ++ "\n\n".toList =
        "## Criteria\n\n".toList ++ (StageTasks.bullets (criteria.map criterionLine) ++ ['\n']) ++ ['\n'] := by
      simp
    rw [text, lines]
    simp [docText, docLines, Block.lines, unlines]
    rfl

def followUpDoc (groups : List StageGroup) : List (Block × Nat) :=
  if groups.any fun group => group.changes.any sourceDirectory.isPrefixOf then
    [(.heading 2 "Workflow follow-up".toList, 1), (.bullets [⟨pendingReview, []⟩], 0)]
  else []

theorem followUpSection_doc (groups : List StageGroup) :
    followUpSection groups = docText (followUpDoc groups) := by
  unfold followUpSection followUpDoc
  split
  · simp [docText, docLines, Block.lines, unlines, Item.lines, bullet]
  · rfl

def bodyDoc (groups : List StageGroup) (criteria : List StageCriterion) : List (Block × Nat) :=
  (.heading 1 "Tasks".toList, if groups = [] then 2 else 1) :: groupsDoc 1 groups ++
    criteriaDoc criteria ++ followUpDoc groups

def planDoc (groups : List StageGroup) (criteria : List StageCriterion) : List (Block × Nat) :=
  withoutLast (bodyDoc groups criteria)

end DevopsCli.Implement.PlanText
