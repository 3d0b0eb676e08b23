import DevopsCli.Review.AddedLines

/- A git diff and its numbered form, file by file: the added lines that both give. -/
namespace DevopsCli.Review.Diff
open PyStr

section Numbering
variable {decimals : Decimals} {counters : Counters}

def Counters.Idle (counters : Counters) : Prop := counters.oldLeft = 0 ∧ counters.newLeft = 0

def Counters.Busy (counters : Counters) : Prop := 0 < counters.oldLeft ∨ 0 < counters.newLeft

theorem number_context (busy : counters.Busy) (text : Str) :
    numberLine decimals counters (' ' :: text) =
      ({ newNo := counters.newNo + 1
         oldLeft := counters.oldLeft - 1
         newLeft := counters.newLeft - 1 }, digits counters.newNo ++ '\t' :: ' ' :: text) := by
  rw [numberLine, if_pos ⟨busy, rfl⟩]
  simp

theorem number_removed (busy : counters.Busy) (text : Str) :
    numberLine decimals counters ('-' :: text) =
      ({ counters with oldLeft := counters.oldLeft - 1 }, '\t' :: '-' :: text) := by
  rw [numberLine, if_pos ⟨busy, rfl⟩]
  simp

theorem number_added (busy : counters.Busy) (text : Str) :
    numberLine decimals counters ('+' :: text) =
      ({ counters with newNo := counters.newNo + 1, newLeft := counters.newLeft - 1 },
        digits counters.newNo ++ '\t' :: '+' :: text) := by
  rw [numberLine, if_pos ⟨busy, rfl⟩]
  simp

theorem number_idle (idle : counters.Idle) {line : Str} (other : line.head? ≠ some '@') :
    numberLine decimals counters line = (counters, line) := by
  have done : ¬((0 < counters.oldLeft ∨ 0 < counters.newLeft) ∧
      line.head?.any isMarker = true) := by
    rw [idle.1, idle.2]
    exact fun left => absurd left.1 (by decide)
  rw [numberLine, if_neg done, hunkHeader_other decimals other]

theorem number_header (hunk : Hunk) : numberLine decimals counters hunk.header =
    ({ newNo := hunk.newStart
       oldLeft := oldCount hunk.lines
       newLeft := newCount hunk.lines }, hunk.header) := by
  obtain ⟨header, found, old, start, new⟩ := hunkHeader_read decimals hunk.oldStart
    (oldCount hunk.lines) hunk.newStart (newCount hunk.lines) hunk.oldOne hunk.newOne
    hunk.heading.text
  change hunkHeader decimals hunk.header = _ at found
  have marker : hunk.header.head?.any isMarker = false := rfl
  rw [numberLine, marker, if_neg (by simp), found]
  simp only [old, start, new]

theorem number_mark (decimals : Decimals) (counters : Counters) :
    (numberLine decimals counters noNewlineMark).1 = counters ∧
    ∀ state, readLine decimals state (chomp (numberLine decimals counters noNewlineMark).2) =
      state := by
  have other : hunkHeader decimals noNewlineMark = none := hunkHeader_other decimals (by decide)
  unfold numberLine
  split
  · exact ⟨rfl, fun state => column_quiet [] (Or.inl rfl) (by decide) (by decide) _⟩
  · rw [other]
    exact ⟨rfl, fun state => mark_reads⟩

theorem number_texts (decimals : Decimals) (counters : Counters) (line : HunkLine)
    (rest : List Str) : ∃ marks,
    numberLines decimals counters (line.texts ++ rest) =
      (numberLine decimals counters line.line.text).2 :: (marks ++
        numberLines decimals (numberLine decimals counters line.line.text).1 rest) ∧
    ∀ state, read decimals state marks = state := by
  rw [HunkLine.texts]
  split
  · obtain ⟨same, quiet⟩ := number_mark decimals (numberLine decimals counters line.line.text).1
    refine ⟨[_], ?_, quiet⟩
    rw [List.cons_append, numberLines, List.singleton_append, numberLines, same]
    rfl
  · exact ⟨[], rfl, fun _ => rfl⟩

theorem busy_of_line {line : HunkLine} {lines : List HunkLine}
    (old : counters.oldLeft = oldCount (line :: lines))
    (new : counters.newLeft = newCount (line :: lines)) : counters.Busy := by
  have oldCount := oldCount_cons line lines
  have newCount := newCount_cons line lines
  rw [Counters.Busy]
  cases kind : line.line <;> rw [kind] at oldCount newCount <;>
    simp only [DiffLine.inOld, DiffLine.inNew, ↓reduceIte, Bool.false_eq_true] at oldCount newCount <;>
    omega

end Numbering

section Numbered
variable {decimals : Decimals}

theorem numbered_body {lines : List HunkLine} (plain : ∀ line ∈ lines, PlainLine line)
    (counters : Counters) (old : counters.oldLeft = oldCount lines)
    (new : counters.newLeft = newCount lines) (rest : List Str) : ∃ outs later,
    numberLines decimals counters (lines.flatMap HunkLine.texts ++ rest) =
      outs ++ numberLines decimals later rest ∧
    later.Idle ∧
    ∀ state, read decimals state outs = { state with
      added := state.added ++ coords state.path (addedNumbers counters.newNo lines) } := by
  induction lines generalizing counters with
  | nil =>
    refine ⟨[], counters, rfl, ⟨old, new⟩, fun state => ?_⟩
    rw [addedNumbers, coords, List.filterMap_nil, List.append_nil]
    rfl
  | cons line lines ih =>
    obtain ⟨first, others⟩ := List.forall_mem_cons.mp plain
    have busy := busy_of_line old new
    have oldNow := oldCount_cons line lines
    have newNow := newCount_cons line lines
    obtain ⟨marks, written, quiet⟩ := number_texts decimals counters line
      (lines.flatMap HunkLine.texts ++ rest)
    rw [List.flatMap_cons, List.append_assoc, written, addedNumbers]
    cases kind : line.line with
    | blank => exact absurd kind first.spaced
    | context text =>
      simp only [kind, DiffLine.inOld, DiffLine.inNew, DiffLine.isNew, ↓reduceIte,
        Bool.false_eq_true] at oldNow newNow ⊢
      rw [DiffLine.text, number_context busy]
      obtain ⟨outs, later, same, idle, reads⟩ := ih others
        ⟨counters.newNo + 1, counters.oldLeft - 1, counters.newLeft - 1⟩
        (by simp only; omega) (by simp only; omega)
      refine ⟨(digits counters.newNo ++ '\t' :: ' ' :: text.text) :: (marks ++ outs), later, ?_, idle, fun state => ?_⟩
      · rw [same, List.cons_append, List.append_assoc marks]
      · rw [read_cons, column_quiet _ (Or.inr ⟨_, rfl⟩) (by decide) (by decide), read_append, quiet,
          reads]
    | removed text =>
      simp only [kind, DiffLine.inOld, DiffLine.inNew, DiffLine.isNew, ↓reduceIte,
        Bool.false_eq_true] at oldNow newNow ⊢
      rw [DiffLine.text, number_removed busy]
      obtain ⟨outs, later, same, idle, reads⟩ := ih others
        ⟨counters.newNo, counters.oldLeft - 1, counters.newLeft⟩
        (by simp only; omega) (by simp only; omega)
      refine ⟨('\t' :: '-' :: text.text) :: (marks ++ outs), later, ?_, idle, fun state => ?_⟩
      · rw [same, List.cons_append, List.append_assoc marks]
      · have still : readLine decimals state (chomp ('\t' :: '-' :: text.text)) = state :=
          column_quiet [] (Or.inl rfl) (by decide) (by decide) text.text
        rw [read_cons, still, read_append, quiet, reads]
    | added text =>
      simp only [kind, DiffLine.inOld, DiffLine.inNew, DiffLine.isNew, ↓reduceIte,
        Bool.false_eq_true] at oldNow newNow ⊢
      rw [DiffLine.text, number_added busy]
      obtain ⟨outs, later, same, idle, reads⟩ := ih others
        ⟨counters.newNo + 1, counters.oldLeft, counters.newLeft - 1⟩
        (by simp only; omega) (by simp only; omega)
      refine ⟨(digits counters.newNo ++ '\t' :: '+' :: text.text) :: (marks ++ outs), later, ?_, idle, fun state => ?_⟩
      · rw [same, List.cons_append, List.append_assoc marks]
      · rw [read_cons, numbered_added (first.content text kind), read_append, quiet, reads,
          coords_cons, List.append_assoc]

end Numbered

section Hunks
variable {decimals : Decimals}

def Hunk.numbers (hunk : Hunk) : List Nat := addedNumbers hunk.newStart hunk.lines

def Emits (decimals : Decimals) (outs : List Str) (numbers : List Nat) : Prop :=
  ∀ state, (read decimals state outs).path = state.path ∧
    (read decimals state outs).added = state.added ++ coords state.path numbers

theorem emits_nil : Emits decimals [] [] := fun _ => ⟨rfl, (List.append_nil _).symm⟩

theorem Emits.append {front back : List Str} {first last : List Nat}
    (before : Emits decimals front first) (after : Emits decimals back last) :
    Emits decimals (front ++ back) (first ++ last) := by
  intro state
  obtain ⟨path, added⟩ := before state
  obtain ⟨laterPath, laterAdded⟩ := after (read decimals state front)
  rw [read_append]
  refine ⟨laterPath.trans path, ?_⟩
  rw [laterAdded, added, path, coords_append, List.append_assoc]

theorem hunk_emits {hunk : Hunk} (plain : ∀ line ∈ hunk.lines, PlainLine line) :
    Emits decimals hunk.texts hunk.numbers := by
  intro state
  rw [Hunk.texts, read_cons, header_reads, body_reads plain hunk.counted]
  exact ⟨rfl, rfl⟩

theorem hunks_emit {hunks : List Hunk}
    (plain : ∀ hunk ∈ hunks, ∀ line ∈ hunk.lines, PlainLine line) :
    Emits decimals (hunks.flatMap Hunk.texts) (hunks.flatMap Hunk.numbers) := by
  induction hunks with
  | nil => exact emits_nil
  | cons hunk hunks ih =>
    obtain ⟨first, later⟩ := List.forall_mem_cons.mp plain
    rw [List.flatMap_cons, List.flatMap_cons]
    exact (hunk_emits first).append (ih later)

theorem numbered_hunk (decimals : Decimals) {hunk : Hunk} (plain : ∀ line ∈ hunk.lines, PlainLine line)
    (counters : Counters) (rest : List Str) : ∃ outs later,
    numberLines decimals counters (hunk.texts ++ rest) = outs ++ numberLines decimals later rest ∧
      later.Idle ∧ Emits decimals outs hunk.numbers := by
  obtain ⟨outs, later, written, idle, reads⟩ := numbered_body plain
    ⟨hunk.newStart, oldCount hunk.lines, newCount hunk.lines⟩ rfl rfl rest
  refine ⟨hunk.header :: outs, later, ?_, idle, fun state => ?_⟩
  · rw [Hunk.texts, List.cons_append, numberLines, number_header, written, List.cons_append]
  · rw [read_cons, header_reads, reads]
    exact ⟨rfl, rfl⟩

theorem numbered_hunks (decimals : Decimals) {hunks : List Hunk}
    (plain : ∀ hunk ∈ hunks, ∀ line ∈ hunk.lines, PlainLine line) {counters : Counters}
    (idle : counters.Idle) (rest : List Str) : ∃ outs later,
    numberLines decimals counters (hunks.flatMap Hunk.texts ++ rest) =
      outs ++ numberLines decimals later rest ∧
      later.Idle ∧ Emits decimals outs (hunks.flatMap Hunk.numbers) := by
  induction hunks generalizing counters with
  | nil => exact ⟨[], counters, rfl, idle, emits_nil⟩
  | cons hunk hunks ih =>
    obtain ⟨first, others⟩ := List.forall_mem_cons.mp plain
    obtain ⟨front, middle, writtenFront, middleIdle, emitsFront⟩ := numbered_hunk decimals first
      counters (hunks.flatMap Hunk.texts ++ rest)
    obtain ⟨back, later, writtenBack, laterIdle, emitsBack⟩ := ih others middleIdle
    refine ⟨front ++ back, later, ?_, laterIdle, ?_⟩
    · rw [List.flatMap_cons, List.append_assoc, writtenFront, writtenBack, List.append_assoc]
    · rw [List.flatMap_cons]
      exact emitsFront.append emitsBack

end Hunks

section Files
variable {decimals : Decimals} {file : FileDiff}

def FileDiff.front (file : FileDiff) : List Str :=
  file.first :: (file.headers.map fun header => header.key.text ++ header.value.text) ++
    if file.hunks = [] then [] else [file.oldHeader, file.newHeader]

theorem file_split (file : FileDiff) :
    file.texts = file.front ++ file.hunks.flatMap Hunk.texts := by
  rw [FileDiff.texts, FileDiff.front, List.append_assoc]
  split
  · next empty => rw [empty, List.flatMap_nil, List.append_nil, List.append_nil, List.append_nil]
  · rfl

theorem file_added (file : FileDiff) :
    file.added = (file.hunks.flatMap Hunk.numbers).map (file.newName, ·) := by
  rw [FileDiff.added, List.map_flatMap]
  rfl

theorem extended_reads (header : ExtendedHeader) (state : Extraction) :
    readLine decimals state (chomp (header.key.text ++ header.value.text)) = state := by
  have noDiff : "diff --git ".toList.isPrefixOf (header.key.text ++ header.value.text) = false := by
    cases header.key <;> rfl
  have head : ∃ c rest, header.key.text ++ header.value.text = c :: rest ∧ quietHead c = true := by
    cases header.key <;> exact ⟨_, _, rfl, by decide⟩
  obtain ⟨c, rest, same, quiet⟩ := head
  rw [same] at noDiff ⊢
  exact quiet_chomp quiet fun fits => by
    rw [List.isPrefixOf_iff_prefix.mpr fits] at noDiff
    cases noDiff

theorem extended_all (headers : List ExtendedHeader) (state : Extraction) :
    read decimals state (headers.map fun header => header.key.text ++ header.value.text) = state := by
  induction headers with
  | nil => rfl
  | cons header headers ih => rw [List.map_cons, read_cons, extended_reads, ih]

theorem old_reads (file : FileDiff) (state : Extraction) :
    readLine decimals state (chomp file.oldHeader) = state :=
  quiet_chomp (c := '-') (by decide) (not_prefix_head rfl (by decide))

theorem front_added (file : FileDiff) (state : Extraction) :
    (read decimals state file.front).added = state.added := by
  have first : ∀ state, (readLine decimals state (chomp file.first)).added = state.added := by
    intro state
    have cut : chomp file.first = 'd' :: chomp (file.first.drop 1) :=
      chomp_cons (by decide) (file.first.drop 1)
    rw [cut]
    exact readLine_added (parse_other (decimals.not_digit (by decide) (by decide)) (by decide))
      (isAdded_other (by decide))
  have new : ∀ state, (readLine decimals state (chomp file.newHeader)).added = state.added := by
    intro state
    have cut : chomp file.newHeader = '+' :: '+' :: '+' :: ' ' :: chomp (file.newHeader.drop 4) :=
      chomp_append "+++".toList (by decide) (file.newHeader.drop 4)
    rw [cut]
    exact readLine_added (parse_other (decimals.not_digit (by decide) (by decide)) (by decide)) rfl
  rw [FileDiff.front, read_append, read_cons, extended_all]
  split
  · exact first state
  · rw [read_cons, old_reads, read_cons]
    exact (new _).trans (first state)

theorem strip_tab {tab : Str} (isTab : tab = [] ∨ tab = ['\t']) (name : Str) :
    strip (name ++ tab) = strip name := by
  refine strip_blank_right ?_ name
  rcases isTab with rfl | rfl
  · exact fun c mem => absurd mem List.not_mem_nil
  · decide

theorem withTab_eq (label : Str) : ∃ tab, (tab = [] ∨ tab = ['\t']) ∧ withTab label = label ++ tab := by
  unfold withTab
  split
  · exact ⟨['\t'], .inr rfl, rfl⟩
  · exact ⟨[], .inl rfl, (List.append_nil _).symm⟩

theorem new_path (plain : PlainName file.newName) (exists_ : file.newExists = true)
    (path : Option Str) : resolveDiffPath (chomp file.newHeader) path = some file.newName := by
  obtain ⟨tab, isTab, labelled⟩ := withTab_eq (sideLabel file.newExists "b/".toList file.newName)
  have written : file.newHeader = "+++ b/".toList ++ (file.newName ++ tab) := by
    rw [FileDiff.newHeader, labelled, sideLabel, if_pos exists_, quoteName, plain.unquoted]
    simp only [Bool.false_eq_true, ↓reduceIte, List.append_assoc]
    rfl
  have noReturn : '\r' ∉ file.newHeader := by
    rw [written]
    intro mem
    rcases List.mem_append.mp mem with start | mem
    · exact absurd start (by decide)
    · rcases List.mem_append.mp mem with inName | inTab
      · have quoted : file.newName.any needsQuote = true :=
          List.any_eq_true.mpr ⟨'\r', inName, by decide⟩
        rw [plain.unquoted] at quoted
        cases quoted
      · rcases isTab with rfl | rfl
        · cases inTab
        · exact absurd inTab (by decide)
  have noName : headerFilename file.newHeader = none :=
    headerFilename_other (not_prefix_head (c := '+') rfl (by decide)) (head_ne (c := '+') (by decide))
  rw [chomp_plain noReturn, resolveDiffPath, noName, written, after_append]
  simp only [strip_tab isTab, plain.trimmed]

theorem front_path (plain : PlainName file.newName) (exists_ : file.newExists = true)
    (some_ : file.hunks ≠ []) (state : Extraction) :
    (read decimals state file.front).path = some file.newName := by
  rw [FileDiff.front, if_neg some_, read_append, read_cons, read_cons, read, List.foldl_nil,
    readLine_path, new_path plain exists_]

theorem numbers_nil {lines : List HunkLine} (none : newCount lines = 0) (number : Nat) :
    addedNumbers number lines = [] := by
  induction lines generalizing number with
  | nil => rfl
  | cons line lines ih =>
    have count := newCount_cons line lines
    rw [addedNumbers]
    cases kind : line.line with
    | removed text =>
      rw [kind] at count
      simp only [DiffLine.inNew, DiffLine.isNew, Bool.false_eq_true, ↓reduceIte] at count ⊢
      exact ih (by omega) number
    | _ =>
      rw [kind] at count
      simp only [DiffLine.inNew, ↓reduceIte] at count
      omega

theorem deleted_added (gone : file.newExists = false) : file.hunks.flatMap Hunk.numbers = [] := by
  rw [List.flatMap_eq_nil_iff]
  exact fun hunk mem => numbers_nil (file.deleted gone hunk mem) _

theorem coords_name {name : Str} (named : name ≠ []) (numbers : List Nat) :
    coords (some name) numbers = numbers.map (name, ·) := by
  have true_ : truthy (some name) = some name := by
    rw [truthy, Option.filter_some, if_pos (by simp [named])]
  rw [coords, true_, ← List.filterMap_eq_map]
  rfl

/-- Whatever form the hunks have, what they give is read under the name of the file. -/
theorem file_reads (names : file.added ≠ [] → PlainName file.newName) {outs : List Str}
    (emits : Emits decimals outs (file.hunks.flatMap Hunk.numbers)) (state : Extraction) :
    (read decimals state (file.front ++ outs)).added = state.added ++ file.added := by
  rw [read_append, (emits _).2, front_added, file_added]
  by_cases none : file.hunks.flatMap Hunk.numbers = []
  · rw [none]
    rfl
  · have added : file.added ≠ [] := by
      rw [file_added]
      exact fun empty => none (List.map_eq_nil_iff.mp empty)
    have exists_ : file.newExists = true := by
      by_contra gone
      exact none (deleted_added (Bool.eq_false_iff.mpr gone))
    have some_ : file.hunks ≠ [] := by
      intro empty
      rw [empty] at none
      exact none rfl
    rw [front_path (names added) exists_ some_, coords_name file.named]

theorem front_idle (file : FileDiff) : ∀ line ∈ file.front, line.head? ≠ some '@' := by
  intro line mem
  rcases List.mem_append.mp mem with front | back
  · rcases List.mem_cons.mp front with rfl | listed
    · exact head_ne (c := 'd') (by decide)
    · obtain ⟨header, -, rfl⟩ := List.mem_map.mp listed
      cases header.key <;> exact head_ne (by decide)
  · split at back
    · cases back
    · rcases List.mem_pair.mp back with rfl | rfl
      · exact head_ne (c := '-') (by decide)
      · exact head_ne (c := '+') (by decide)

theorem number_front {counters : Counters} (idle : counters.Idle) {front : List Str}
    (other : ∀ line ∈ front, line.head? ≠ some '@') (rest : List Str) :
    numberLines decimals counters (front ++ rest) =
      front ++ numberLines decimals counters rest := by
  induction front with
  | nil => rfl
  | cons line front ih =>
    obtain ⟨first, later⟩ := List.forall_mem_cons.mp other
    rw [List.cons_append, numberLines, number_idle idle first, ih later, List.cons_append]

end Files

section Both
variable {decimals : Decimals}

structure PlainFile (file : FileDiff) : Prop where
  lines : ∀ hunk ∈ file.hunks, ∀ line ∈ hunk.lines, PlainLine line
  names : file.added ≠ [] → PlainName file.newName

theorem addedLines_cons (file : FileDiff) (diff : List FileDiff) :
    addedLines (file :: diff) = file.added ++ addedLines diff := List.flatMap_cons

theorem raw_reads {diff : List FileDiff} (plain : ∀ file ∈ diff, PlainFile file)
    (state : Extraction) :
    (read decimals state (diffLines diff)).added = state.added ++ addedLines diff := by
  induction diff generalizing state with
  | nil => exact (List.append_nil _).symm
  | cons file diff ih =>
    obtain ⟨first, later⟩ := List.forall_mem_cons.mp plain
    rw [diffLines, List.flatMap_cons, file_split, read_append, ← diffLines, ih later,
      file_reads first.names (hunks_emit first.lines), addedLines_cons, List.append_assoc]

theorem numbered_reads {diff : List FileDiff} (plain : ∀ file ∈ diff, PlainFile file)
    {counters : Counters} (idle : counters.Idle) (state : Extraction) :
    (read decimals state (numberLines decimals counters (diffLines diff))).added =
      state.added ++ addedLines diff := by
  induction diff generalizing state counters with
  | nil => exact (List.append_nil _).symm
  | cons file diff ih =>
    obtain ⟨first, others⟩ := List.forall_mem_cons.mp plain
    obtain ⟨outs, later, written, laterIdle, emits⟩ := numbered_hunks decimals first.lines
      idle (diffLines diff)
    rw [diffLines, List.flatMap_cons, file_split, List.append_assoc,
      number_front idle (front_idle file), ← diffLines, written, ← List.append_assoc, read_append,
      ih others laterIdle, file_reads first.names emits, addedLines_cons, List.append_assoc]

theorem digit_unbroken {c : Char} (digit : c.isDigit = true) : isBreak c = false := by
  by_contra break_
  have space := Bool.not_eq_false _ ▸ break_
  simp only [Char.isDigit, Bool.and_eq_true, decide_eq_true_eq, UInt32.le_iff_toNat_le] at digit
  have value : c.toNat = c.val.toNat := rfl
  have zero : '0'.val.toNat = 48 := rfl
  have nine : '9'.val.toNat = 57 := rfl
  simp only [isBreak, Bool.or_eq_true, Bool.and_eq_true, decide_eq_true_eq, beq_iff_eq] at space
  omega

theorem column_whole {column line : Str} (isColumn : IsColumn column) (whole : ReadsWhole line) :
    ReadsWhole (column ++ line) := by
  rcases isColumn with rfl | ⟨run, isRun, rfl⟩
  · exact whole
  · rw [ReadsWhole, List.append_assoc, List.singleton_append, chomp_append run (by decide)]
    intro c mem
    rcases List.mem_append.mp mem with number | mem
    · rcases isRun with rfl | ⟨n, rfl⟩
      · cases number
      · exact digit_unbroken (Nat.isDigit_of_mem_toDigits (by decide) (by decide) number)
    · rcases List.mem_cons.mp mem with rfl | text
      · rfl
      · exact whole c text

theorem columns_whole {lines outs : List Str} (columns : List.Forall₂ (fun line out =>
      ∃ column, IsColumn column ∧ out = column ++ line) lines outs)
    (whole : ∀ line ∈ lines, ReadsWhole line) : ∀ out ∈ outs, ReadsWhole out := by
  induction columns with
  | nil => exact fun out mem => absurd mem List.not_mem_nil
  | cons head tail ih =>
    obtain ⟨column, isColumn, rfl⟩ := head
    obtain ⟨first, later⟩ := List.forall_mem_cons.mp whole
    exact List.forall_mem_cons.mpr ⟨column_whole isColumn first, ih later⟩

theorem Readable.plain {diff : List FileDiff} (readable : Readable diff) :
    ∀ file ∈ diff, PlainFile file := fun file mem =>
  { lines := fun hunk hunk_mem line line_mem =>
      { content := readable.content file mem hunk hunk_mem line line_mem
        spaced := readable.spaced file mem hunk hunk_mem line line_mem }
    names := readable.names file mem }

end Both

section Examples

def asciiDecimals : Decimals where
  digit c := if c.isDigit then some (c.toNat - 48) else none
  ascii _ _ := rfl

def hunkOf (lines : List HunkLine) : Hunk where
  oldStart := 1
  newStart := 1
  heading := ⟨[], by decide⟩
  lines := lines
  counted _ := Nat.one_pos

def diffOf (lines : List HunkLine) : List FileDiff :=
  [{ oldName := "a.c".toList
     newName := "a.c".toList
     hunks := [hunkOf lines]
     named := by decide
     deleted := fun gone => absurd gone (by decide) }]

def oneAdded : List FileDiff :=
  diffOf [⟨.context ⟨"x;".toList, by decide⟩, false⟩, ⟨.added ⟨"y;".toList, by decide⟩, false⟩]

theorem readable_oneAdded : Readable oneAdded where
  whole := by
    have all : (diffLines oneAdded).all fun line => (chomp line).all fun c => !isBreak c := by decide
    intro line mem c inLine
    have := List.all_eq_true.mp (List.all_eq_true.mp all line mem) c inLine
    exact (Bool.not_eq_true' _).mp this
  content := by
    intro file file_mem hunk hunk_mem line line_mem text added
    rw [List.mem_singleton.mp file_mem] at hunk_mem
    rw [List.mem_singleton.mp hunk_mem] at line_mem
    rcases List.mem_pair.mp line_mem with rfl | rfl
    · cases added
    · cases added
      decide
  spaced := by
    intro file file_mem hunk hunk_mem line line_mem blank
    rw [List.mem_singleton.mp file_mem] at hunk_mem
    rw [List.mem_singleton.mp hunk_mem] at line_mem
    rcases List.mem_pair.mp line_mem with rfl | rfl <;> cases blank
  names := by
    intro file mem _
    rw [List.mem_singleton.mp mem]
    exact ⟨by decide, by decide⟩

/-- An added line that starts with two plus signs is taken for a header of a file. -/
def increment : List FileDiff :=
  diffOf [⟨.added ⟨"++i;".toList, by decide⟩, false⟩, ⟨.added ⟨"y;".toList, by decide⟩, false⟩]

end Examples
end DevopsCli.Review.Diff
