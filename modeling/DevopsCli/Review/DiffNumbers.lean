import DevopsCli.Review.DiffText

/- The line numbers that number_diff_lines writes into a git diff, and how strip_line_numbers takes
   them away. -/
namespace DevopsCli.Review.Diff
open PyStr

section Headers
variable (decimals : Decimals)

theorem hunkHeader_other {line : Str} (other : line.head? ≠ some '@') :
    hunkHeader decimals line = none := by
  rw [hunkHeader, after_other (c := '@') rfl other]
  rfl

theorem leading_count (n count : Nat) (one : Bool) (rest : Str) :
    decimals.leading (digits n ++ (countText count one ++ ' ' :: rest)) =
      some (n, countText count one ++ ' ' :: rest) := by
  unfold countText
  split
  · exact decimals.leading_digits (decimals.not_digit (by decide) (by decide))
  · exact decimals.leading_digits (decimals.not_digit (by decide) (by decide))

theorem hunkCount_count (count : Nat) (one : Bool) (rest : Str) :
    ∃ read : Option Nat, hunkCount decimals (countText count one ++ ' ' :: rest) =
      (read, ' ' :: rest) ∧ read.getD 1 = count := by
  unfold countText
  split
  · next single => exact ⟨none, rfl, single.1.symm⟩
  · refine ⟨some count, ?_, rfl⟩
    have read : decimals.leading (digits count ++ ' ' :: rest) = some (count, ' ' :: rest) :=
      decimals.leading_digits (decimals.not_digit (by decide) (by decide))
    simp only [List.cons_append, hunkCount, read]

theorem hunkHeader_read (oldStart old newStart new : Nat) (oldOne newOne : Bool) (rest : Str) :
    ∃ header, hunkHeader decimals ("@@ -".toList ++ (digits oldStart ++ (countText old oldOne ++
      (" +".toList ++ (digits newStart ++ (countText new newOne ++ (" @@".toList ++ rest))))))) =
        some header ∧
      header.oldCount.getD 1 = old ∧ header.newStart = newStart ∧
      header.newCount.getD 1 = new := by
  obtain ⟨readOld, hasOld, oldSame⟩ := hunkCount_count decimals old oldOne
    ('+' :: (digits newStart ++ (countText new newOne ++ (" @@".toList ++ rest))))
  obtain ⟨readNew, hasNew, newSame⟩ := hunkCount_count decimals new newOne ("@@".toList ++ rest)
  refine ⟨⟨readOld, newStart, readNew⟩, ?_, oldSame, rfl, newSame⟩
  have first := leading_count decimals oldStart old oldOne
    ('+' :: (digits newStart ++ (countText new newOne ++ (" @@".toList ++ rest))))
  have second := leading_count decimals newStart new newOne ("@@".toList ++ rest)
  have plus : after " +".toList (' ' :: '+' ::
      (digits newStart ++ (countText new newOne ++ (" @@".toList ++ rest)))) =
      some (digits newStart ++ (countText new newOne ++ (" @@".toList ++ rest))) :=
    after_append " +".toList _
  have close : after " @@".toList (' ' :: ("@@".toList ++ rest)) = some rest :=
    after_append " @@".toList _
  rw [hunkHeader, after_append, Option.bind_some]
  erw [first]
  rw [Option.bind_some]
  simp only
  erw [hasOld]
  simp only [plus, Option.bind_some]
  erw [second]
  rw [Option.bind_some]
  simp only
  erw [hasNew]
  simp only [close, Option.map_some]

def Hunk.headerWith (hunk : Hunk) (heading : Str) : Str :=
  "@@ -".toList ++ (digits hunk.oldStart ++ (countText (oldCount hunk.lines) hunk.oldOne ++
    (" +".toList ++ (digits hunk.newStart ++ (countText (newCount hunk.lines) hunk.newOne ++
      (" @@".toList ++ heading))))))

theorem headerWith_append (hunk : Hunk) (heading more : Str) :
    hunk.headerWith heading ++ more = hunk.headerWith (heading ++ more) := by
  simp only [Hunk.headerWith, List.append_assoc]

theorem headerWith_head (hunk : Hunk) (heading : Str) :
    (hunk.headerWith heading).head? = some '@' := rfl

end Headers

section Columns
variable {decimals : Decimals}

/-- Nothing, or a number column: a tab behind a number or behind nothing. -/
def IsColumn (column : Str) : Prop :=
  column = [] ∨ ∃ run, (run = [] ∨ ∃ n, run = digits n) ∧ column = run ++ ['\t']

theorem run_digits {run : Str} (isRun : run = [] ∨ ∃ n, run = digits n) :
    ∀ c ∈ run, decimals.isDigit c = true := by
  rcases isRun with rfl | ⟨n, rfl⟩
  · exact fun c mem => absurd mem List.not_mem_nil
  · exact decimals.digits_isDigit n

theorem numberLine_column (counters : Counters) (line : Str) :
    ∃ column, IsColumn column ∧ (numberLine decimals counters line).2 = column ++ line := by
  have tab : IsColumn ['\t'] := Or.inr ⟨[], Or.inl rfl, rfl⟩
  unfold numberLine
  split
  · split
    · exact ⟨['\t'], tab, rfl⟩
    · split
      · exact ⟨['\t'], tab, rfl⟩
      · refine ⟨digits counters.newNo ++ ['\t'], Or.inr ⟨_, Or.inr ⟨_, rfl⟩, rfl⟩, ?_⟩
        rw [List.append_assoc]
        rfl
  · split
    · exact ⟨[], Or.inl rfl, rfl⟩
    · exact ⟨[], Or.inl rfl, rfl⟩

theorem not_digit_tab : decimals.isDigit '\t' = false := decimals.not_digit (by decide) (by decide)

theorem numberColumn_run {run : Str} (all : ∀ c ∈ run, decimals.isDigit c = true) (rest : Str) :
    numberColumn decimals (run ++ '\t' :: rest) = some (run, rest) := by
  rw [numberColumn, List.dropWhile_append_of_pos all, List.takeWhile_append_of_pos all,
    List.dropWhile_cons_of_neg (by simp [not_digit_tab]),
    List.takeWhile_cons_of_neg (by simp [not_digit_tab]), List.append_nil]
  rfl

theorem numberColumn_none {c : Char} {rest : Str} (other : decimals.isDigit c = false)
    (tab : c ≠ '\t') : numberColumn decimals (c :: rest) = none := by
  rw [numberColumn, List.dropWhile_cons_of_neg (by simp [other])]
  split
  · next same => exact absurd (List.cons.inj same).1 tab
  · rfl

theorem stripColumn_column {column line : Str} (isColumn : IsColumn column)
    (none : numberColumn decimals line = none) : stripColumn decimals (column ++ line) = line := by
  rcases isColumn with rfl | ⟨run, isRun, rfl⟩
  · rw [List.nil_append, stripColumn, none]
    rfl
  · rw [stripColumn, List.append_assoc, List.singleton_append, numberColumn_run (run_digits isRun)]
    rfl

/-- The numbering sees the end of a line no other way than the line. -/
def Steady (decimals : Decimals) (line : Str) : Prop :=
  ∀ counters, numberLine decimals counters (line ++ ['\n']) =
    ((numberLine decimals counters line).1, (numberLine decimals counters line).2 ++ ['\n'])

theorem steady_empty : Steady decimals [] := by
  intro counters
  have plain : hunkHeader decimals [] = none := rfl
  have ended : hunkHeader decimals ([] ++ ['\n']) = none := hunkHeader_other decimals (by decide)
  have marker : ([] ++ ['\n'] : Str).head?.any isMarker = false := rfl
  have empty : ([] : Str).head?.any isMarker = false := rfl
  rw [numberLine, numberLine, ended, plain, marker, empty, if_neg (by simp), if_neg (by simp)]

theorem steady_other {line : Str} {c : Char} (head : line.head? = some c) (other : c ≠ '@') :
    Steady decimals line := by
  intro counters
  obtain ⟨line, rfl⟩ := List.head?_eq_some_iff.mp head
  have apart : some c ≠ some '@' := fun same => other (Option.some.inj same)
  have ended : hunkHeader decimals (c :: line ++ ['\n']) = none := hunkHeader_other decimals apart
  have plain : hunkHeader decimals (c :: line) = none := hunkHeader_other decimals apart
  rw [numberLine, numberLine, ended, plain, List.cons_append, List.head?_cons, List.head?_cons]
  split
  · split
    · rfl
    · split
      · rfl
      · rw [List.append_assoc]
        rfl
  · rfl

theorem steady_header (hunk : Hunk) : Steady decimals hunk.header := by
  intro counters
  have ended := headerWith_append hunk hunk.heading.text ['\n']
  have marker : (some '@').any isMarker = false := rfl
  have same : hunk.header = hunk.headerWith hunk.heading.text := rfl
  obtain ⟨first, read, old, start, new⟩ := hunkHeader_read decimals hunk.oldStart
    (oldCount hunk.lines) hunk.newStart (newCount hunk.lines) hunk.oldOne hunk.newOne
    hunk.heading.text
  obtain ⟨second, readEnded, oldEnded, startEnded, newEnded⟩ := hunkHeader_read decimals
    hunk.oldStart (oldCount hunk.lines) hunk.newStart (newCount hunk.lines) hunk.oldOne hunk.newOne
    (hunk.heading.text ++ ['\n'])
  change hunkHeader decimals (hunk.headerWith _) = _ at read readEnded
  rw [same, ended, numberLine, numberLine, headerWith_head, headerWith_head, marker, read, readEnded]
  simp only [Bool.false_eq_true, and_false, ↓reduceIte, old, start, new, oldEnded, startEnded,
    newEnded, ended]

theorem numberLines_ends {lines : List Str} (steady : ∀ line ∈ lines, Steady decimals line)
    (counters : Counters) :
    numberLines decimals counters (lines.map (· ++ ['\n'])) =
      (numberLines decimals counters lines).map (· ++ ['\n']) := by
  induction lines generalizing counters with
  | nil => rfl
  | cons line lines ih =>
    obtain ⟨first, later⟩ := List.forall_mem_cons.mp steady
    rw [List.map_cons, numberLines, first counters, ih later, numberLines, List.map_cons]

theorem numberLines_columns (lines : List Str) (counters : Counters) :
    List.Forall₂ (fun line out => ∃ column, IsColumn column ∧ out = column ++ line) lines
      (numberLines decimals counters lines) := by
  induction lines generalizing counters with
  | nil => exact List.Forall₂.nil
  | cons line lines ih => exact List.Forall₂.cons (numberLine_column counters line) (ih _)

end Columns

section Diff
variable {decimals : Decimals}

theorem head_plain {line : Str} (listed : line.head?.all fun c =>
    decide (c.toNat < 128) && !c.isDigit && c != '\t') (rest : Str) :
    numberColumn decimals (line ++ '\n' :: rest) = none := by
  cases line with
  | nil => exact numberColumn_none (decimals.not_digit (by decide) (by decide)) (by decide)
  | cons c line =>
    simp only [List.head?_cons, Option.all_some, Bool.and_eq_true, decide_eq_true_eq,
      Bool.not_eq_true', bne_iff_ne, ne_eq] at listed
    exact numberColumn_none (decimals.not_digit listed.1.1 listed.1.2) listed.2

theorem diff_heads (diff : List FileDiff) : ∀ line ∈ diffLines diff, line.head?.all fun c =>
    decide (c.toNat < 128) && !c.isDigit && c != '\t' := by
  intro line mem
  obtain ⟨file, -, mem⟩ := List.mem_flatMap.mp mem
  rw [FileDiff.texts] at mem
  rcases List.mem_append.mp mem with front | back
  · rcases List.mem_cons.mp front with rfl | listed
    · rfl
    · obtain ⟨header, -, rfl⟩ := List.mem_map.mp listed
      cases header.key <;> rfl
  · split at back
    · cases back
    · rcases List.mem_cons.mp back with rfl | back
      · rfl
      · rcases List.mem_cons.mp back with rfl | back
        · rfl
        · obtain ⟨hunk, -, mem⟩ := List.mem_flatMap.mp back
          rcases List.mem_cons.mp mem with rfl | mem
          · rfl
          · obtain ⟨entry, -, mem⟩ := List.mem_flatMap.mp mem
            rcases List.mem_cons.mp mem with rfl | mark
            · cases entry.line <;> rfl
            · split at mark
              · rw [List.mem_singleton.mp mark]
                rfl
              · cases mark

theorem diff_steady (diff : List FileDiff) : ∀ line ∈ diffLines diff, Steady decimals line := by
  intro line mem
  obtain ⟨file, -, mem⟩ := List.mem_flatMap.mp mem
  rw [FileDiff.texts] at mem
  rcases List.mem_append.mp mem with front | back
  · rcases List.mem_cons.mp front with rfl | listed
    · exact steady_other (c := 'd') rfl (by decide)
    · obtain ⟨header, -, rfl⟩ := List.mem_map.mp listed
      cases header.key <;> exact steady_other rfl (by decide)
  · split at back
    · cases back
    · rcases List.mem_cons.mp back with rfl | back
      · exact steady_other (c := '-') rfl (by decide)
      · rcases List.mem_cons.mp back with rfl | back
        · exact steady_other (c := '+') rfl (by decide)
        · obtain ⟨hunk, -, mem⟩ := List.mem_flatMap.mp back
          rcases List.mem_cons.mp mem with rfl | mem
          · exact steady_header hunk
          · obtain ⟨entry, -, mem⟩ := List.mem_flatMap.mp mem
            rcases List.mem_cons.mp mem with rfl | mark
            · cases entry.line with
              | blank => exact steady_empty
              | _ => exact steady_other rfl (by decide)
            · split at mark
              · rw [List.mem_singleton.mp mark]
                exact steady_other (c := '\\') rfl (by decide)
              · cases mark

variable (decimals)

def numbered (diff : List FileDiff) : List Str := numberLines decimals {} (diffLines diff)

theorem numberDiffLines_text (diff : List FileDiff) :
    numberDiffLines decimals (diffText diff) = textOfLines (numbered decimals diff) := by
  rw [numberDiffLines, diffText, linesWithEnds_text (diff_one diff),
    numberLines_ends (diff_steady diff), textOfLines_flatten, numbered]

theorem column_one {column : Str} (isColumn : IsColumn column) : '\n' ∉ column := by
  rcases isColumn with rfl | ⟨run, isRun, rfl⟩
  · exact List.not_mem_nil
  · refine append_one ?_ (by decide)
    rcases isRun with rfl | ⟨n, rfl⟩
    · exact List.not_mem_nil
    · exact digits_one n

theorem strip_columns {lines outs : List Str} (columns : List.Forall₂ (fun line out =>
      ∃ column, IsColumn column ∧ out = column ++ line) lines outs)
    (one : ∀ line ∈ lines, '\n' ∉ line)
    (none : ∀ line ∈ lines, numberColumn decimals (line ++ ['\n']) = none) :
    stripLineNumbers decimals (textOfLines outs) = textOfLines lines := by
  have outs_one : ∀ out ∈ outs, '\n' ∉ out := by
    intro out mem
    obtain ⟨place, rfl⟩ := List.mem_iff_get.mp mem
    obtain ⟨same, all⟩ := List.forall₂_iff_get.mp columns
    obtain ⟨column, isColumn, out⟩ := all place (by rw [same]; exact place.isLt) place.isLt
    rw [List.get_eq_getElem] at out ⊢
    rw [out]
    exact append_one (column_one isColumn) (one _ (List.getElem_mem _))
  rw [stripLineNumbers, linesWithEnds_text outs_one]
  clear outs_one
  induction columns with
  | nil => rfl
  | cons head tail ih =>
    obtain ⟨column, isColumn, rfl⟩ := head
    obtain ⟨first_one, later_one⟩ := List.forall_mem_cons.mp one
    obtain ⟨first_none, later_none⟩ := List.forall_mem_cons.mp none
    rw [List.map_cons, List.flatMap_cons, ih later_one later_none, List.append_assoc,
      stripColumn_column isColumn first_none]
    rfl

theorem strip_number (diff : List FileDiff) :
    stripLineNumbers decimals (numberDiffLines decimals (diffText diff)) = diffText diff := by
  rw [numberDiffLines_text]
  exact strip_columns decimals (numberLines_columns _ _) (diff_one diff)
    fun line mem => head_plain (diff_heads diff line mem) []

end Diff
end DevopsCli.Review.Diff
