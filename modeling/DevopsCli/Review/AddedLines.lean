import DevopsCli.Review.DiffNumbers

/- The added lines that extract_added_diff_lines reads from a git diff and from its numbered form. -/
namespace DevopsCli.Review.Diff
open PyStr

section Reading
variable (decimals : Decimals)

def readLine (state : Extraction) (line : Str) : Extraction :=
  if resolveDiffPath line state.path ≠ state.path then
    { state with path := resolveDiffPath line state.path, current := 0 }
  else
    match parseNumberedDiffLine decimals line state.path with
    | some coord => { state with added := state.added ++ [coord] }
    | none =>
      let step := stepRawDiffLine decimals line state.path state.current
      { state with current := step.1, added := state.added ++ step.2.toList }

def read (state : Extraction) (lines : List Str) : Extraction :=
  lines.foldl (fun state line => readLine decimals state (chomp line)) state

theorem read_append (state : Extraction) (front back : List Str) :
    read decimals state (front ++ back) = read decimals (read decimals state front) back := by
  rw [read, List.foldl_append, ← read, ← read]

theorem read_cons (state : Extraction) (line : Str) (rest : List Str) :
    read decimals state (line :: rest) = read decimals (readLine decimals state (chomp line)) rest :=
  rfl

theorem extract_text {lines : List Str} (whole : ∀ line ∈ lines, ReadsWhole line)
    (path : Option Str) : extractAddedDiffLines decimals (textOfLines lines) path =
      (read decimals { path := path } lines).added := by
  have same : ∀ state, (lines.map chomp).foldl (extractLine decimals) state =
      read decimals state lines := by
    intro state
    induction lines generalizing state with
    | nil => rfl
    | cons line lines ih =>
      obtain ⟨first, later⟩ := List.forall_mem_cons.mp whole
      rw [List.map_cons, List.foldl_cons, ih later, read_cons]
      congr 1
      change readLine decimals state (stripReturns (chomp line)) = _
      rw [stripReturns_unbroken first]
  rw [extractAddedDiffLines, splitlines_text whole, same]

end Reading

section Lines
variable {decimals : Decimals} {state : Extraction} {c : Char} {line : Str} {path : Option Str}

theorem head_ne {other : Char} (apart : c ≠ other) : (c :: line).head? ≠ some other :=
  fun same => apart (Option.some.inj same)

theorem after_none {start text : Str} (other : ¬start <+: text) : after start text = none := by
  rw [after, if_neg]
  exact fun fits => other (List.isPrefixOf_iff_prefix.mp fits)

theorem headerFilename_other (noDiff : ¬"diff --git ".toList <+: line)
    (noFile : line.head? ≠ some '#') : headerFilename line = none := by
  rw [headerFilename, if_neg (fun fits => noDiff (List.isPrefixOf_iff_prefix.mp fits)),
    after_other (c := '#') rfl noFile]

theorem resolve_other (noDiff : ¬"diff --git ".toList <+: line) (noFile : line.head? ≠ some '#')
    (noNew : ¬"+++ b/".toList <+: line) : resolveDiffPath line path = path := by
  rw [resolveDiffPath, headerFilename_other noDiff noFile, after_none noNew]

theorem not_prefix_head {start : Str} {first : Char} (head : start.head? = some first)
    (other : c ≠ first) : ¬start <+: c :: line := by
  intro fits
  cases start with
  | nil => cases head
  | cons next start =>
    obtain ⟨same, -⟩ := List.cons_prefix_cons.mp fits
    exact other (same.symm.trans (Option.some.inj head))

/-- A first character that no reader of added lines acts on. -/
def quietHead (c : Char) : Bool :=
  decide (c.toNat < 128) && !c.isDigit && !(['\t', '+', ' ', '@', '#', '\r'].contains c)

theorem isAdded_other (other : c ≠ '+') : isAdded (c :: line) = false := by
  rw [isAdded, List.isPrefixOf_cons_cons, beq_false_of_ne other.symm]
  rfl

theorem parse_other (other : decimals.isDigit c = false) (tab : c ≠ '\t') :
    parseNumberedDiffLine decimals (c :: line) path = none := by
  rw [parseNumberedDiffLine, numberColumn_none other tab]

theorem step_other (added : isAdded line = false) (noHunk : line.head? ≠ some '@')
    (noSpace : line.head? ≠ some ' ') (some_ : line ≠ []) (current : Nat) :
    stepRawDiffLine decimals line path current = (current, none) := by
  rw [stepRawDiffLine, hunkHeader_other decimals noHunk]
  simp only [added, Bool.false_eq_true, ↓reduceIte, noSpace, some_, or_self]

theorem readLine_kept (same : resolveDiffPath line state.path = state.path)
    (unnumbered : parseNumberedDiffLine decimals line state.path = none)
    (still : stepRawDiffLine decimals line state.path state.current = (state.current, none)) :
    readLine decimals state line = state := by
  rw [readLine, if_neg (fun other => other same), unnumbered]
  simp only [still, Option.toList_none, List.append_nil]

theorem quiet_reads (quiet : quietHead c = true) (noDiff : ¬"diff --git ".toList <+: c :: line) :
    readLine decimals state (c :: line) = state := by
  simp only [quietHead, Bool.and_eq_true, decide_eq_true_eq, Bool.not_eq_true',
    List.contains_eq_mem, decide_eq_false_iff_not, List.mem_cons, List.not_mem_nil, or_false,
    not_or] at quiet
  obtain ⟨⟨below, noDigit⟩, tab, plus, space, hunk, file, -⟩ := quiet
  exact readLine_kept (resolve_other noDiff (head_ne file) (not_prefix_head rfl plus))
    (parse_other (decimals.not_digit below noDigit) tab)
    (step_other (isAdded_other plus) (head_ne hunk) (head_ne space) (List.cons_ne_nil _ _) _)

theorem quiet_chomp (quiet : quietHead c = true) (noDiff : ¬"diff --git ".toList <+: c :: line) :
    readLine decimals state (chomp (c :: line)) = state := by
  have plain : c ≠ '\r' := by
    rintro rfl
    exact absurd quiet (by decide)
  have kept : chomp (c :: line) = c :: chomp line := chomp_cons plain line
  have shorter := chomp_begins (c :: line)
  rw [kept] at shorter ⊢
  exact quiet_reads quiet fun fits => noDiff (fits.trans shorter)

theorem readLine_path : (readLine decimals state line).path = resolveDiffPath line state.path := by
  rw [readLine]
  split
  · rfl
  · next same =>
    have same := not_ne_iff.mp same
    split
    · exact same.symm
    · exact same.symm

theorem readLine_added (unnumbered : parseNumberedDiffLine decimals line state.path = none)
    (noAdded : isAdded line = false) :
    (readLine decimals state line).added = state.added := by
  rw [readLine]
  split
  · rfl
  · rw [unnumbered]
    simp only [stepRawDiffLine, noAdded]
    cases hunkHeader decimals line <;> simp

end Lines

section Hunks
variable {decimals : Decimals} {state : Extraction}

/-- The pairs that the numbers give with a path. -/
def coords (path : Option Str) (numbers : List Nat) : List (Str × Nat) :=
  numbers.filterMap fun number => (truthy path).map fun name => (name, number)

theorem coords_cons (path : Option Str) (number : Nat) (rest : List Nat) :
    coords path (number :: rest) =
      ((truthy path).map fun name => (name, number)).toList ++ coords path rest := by
  rw [coords, List.filterMap_cons]
  cases (truthy path).map fun name => (name, number) <;> rfl

theorem coords_append (path : Option Str) (front back : List Nat) :
    coords path (front ++ back) = coords path front ++ coords path back :=
  List.filterMap_append

structure PlainLine (line : HunkLine) : Prop where
  content : ∀ text, line.line = .added text → ¬['+', '+'] <+: text.text
  spaced : line.line ≠ .blank

theorem added_content {text : Str} (content : ¬['+', '+'] <+: text) :
    ¬['+', '+', '+'] <+: '+' :: chomp text := by
  intro fits
  exact content ((List.cons_prefix_cons.mp fits).2.trans (chomp_begins text))

theorem added_isAdded {text : Str} (content : ¬['+', '+'] <+: text) :
    isAdded ('+' :: chomp text) = true := by
  have other : "+++".toList.isPrefixOf ('+' :: chomp text) = false := by
    rw [← Bool.not_eq_true, List.isPrefixOf_iff_prefix]
    exact added_content content
  rw [isAdded, other]
  rfl

theorem added_resolve {text : Str} (content : ¬['+', '+'] <+: text) (path : Option Str) :
    resolveDiffPath ('+' :: chomp text) path = path := by
  refine resolve_other (not_prefix_head rfl (by decide)) (head_ne (by decide)) ?_
  intro fits
  exact added_content content ((by decide : ['+', '+', '+'] <+: "+++ b/".toList).trans fits)

theorem mark_reads : readLine decimals state (chomp noNewlineMark) = state :=
  quiet_chomp (c := '\\') (by decide) (not_prefix_head rfl (by decide))

theorem removed_reads (text : Str) : readLine decimals state (chomp ('-' :: text)) = state :=
  quiet_chomp (by decide) (not_prefix_head rfl (by decide))

theorem context_reads (text : Str) : readLine decimals state (chomp (' ' :: text)) =
    { state with current := state.current + 1 } := by
  have same : resolveDiffPath (' ' :: chomp text) state.path = state.path :=
    resolve_other (not_prefix_head rfl (by decide)) (head_ne (by decide))
      (not_prefix_head rfl (by decide))
  have unnumbered : parseNumberedDiffLine decimals (' ' :: chomp text) state.path = none :=
    parse_other (decimals.not_digit (by decide) (by decide)) (by decide)
  have noHunk : hunkHeader decimals (' ' :: chomp text) = none :=
    hunkHeader_other decimals (head_ne (by decide))
  rw [chomp_cons (by decide), readLine, if_neg (fun other => other same), unnumbered]
  simp only [stepRawDiffLine, noHunk, isAdded_other (by decide : ' ' ≠ '+'), List.head?_cons]
  simp

theorem added_reads {text : Str} (content : ¬['+', '+'] <+: text) (positive : 0 < state.current) :
    readLine decimals state (chomp ('+' :: text)) =
      { state with
        current := state.current + 1
        added := state.added ++
          ((truthy state.path).map fun name => (name, state.current)).toList } := by
  have unnumbered : parseNumberedDiffLine decimals ('+' :: chomp text) state.path = none :=
    parse_other (decimals.not_digit (by decide) (by decide)) (by decide)
  have noHunk : hunkHeader decimals ('+' :: chomp text) = none :=
    hunkHeader_other decimals (head_ne (by decide))
  rw [chomp_cons (by decide), readLine,
    if_neg (fun other => other (added_resolve content state.path)), unnumbered]
  simp only [stepRawDiffLine, noHunk, added_isAdded content, positive, ↓reduceIte]

theorem header_chomp (hunk : Hunk) :
    chomp hunk.header = hunk.headerWith (chomp hunk.heading.text) := by
  let front := "@@ -".toList ++ (digits hunk.oldStart ++ (countText (oldCount hunk.lines)
    hunk.oldOne ++ (" +".toList ++ (digits hunk.newStart ++ (countText (newCount hunk.lines)
      hunk.newOne ++ " @".toList)))))
  have split : ∀ heading, hunk.headerWith heading = front ++ '@' :: heading := by
    intro heading
    simp only [Hunk.headerWith, front, List.append_assoc]
    rfl
  change chomp (hunk.headerWith hunk.heading.text) = _
  rw [split, split, chomp_append front (by decide)]

theorem header_reads (hunk : Hunk) : readLine decimals state (chomp hunk.header) =
    { state with current := hunk.newStart } := by
  have same : resolveDiffPath (hunk.headerWith (chomp hunk.heading.text)) state.path = state.path :=
    resolve_other (not_prefix_head rfl (by decide)) (by rw [headerWith_head]; decide)
      (not_prefix_head rfl (by decide))
  have unnumbered : parseNumberedDiffLine decimals (hunk.headerWith (chomp hunk.heading.text))
      state.path = none := parse_other (decimals.not_digit (by decide) (by decide)) (by decide)
  obtain ⟨header, found, -, start, -⟩ := hunkHeader_read decimals hunk.oldStart
    (oldCount hunk.lines) hunk.newStart (newCount hunk.lines) hunk.oldOne hunk.newOne
    (chomp hunk.heading.text)
  change hunkHeader decimals (hunk.headerWith _) = _ at found
  rw [header_chomp, readLine, if_neg (fun other => other same), unnumbered]
  simp only [stepRawDiffLine, found, start, Option.toList_none, List.append_nil]

end Hunks

section Bodies
variable {decimals : Decimals} {state : Extraction}

theorem read_texts (line : HunkLine) (rest : List Str) :
    read decimals state (line.texts ++ rest) =
      read decimals (readLine decimals state (chomp line.line.text)) rest := by
  rw [HunkLine.texts]
  split
  · rw [List.cons_append, read_cons, List.singleton_append, read_cons, mark_reads]
  · rfl

theorem newCount_cons (line : HunkLine) (lines : List HunkLine) :
    newCount (line :: lines) = newCount lines + if line.line.inNew = true then 1 else 0 :=
  List.countP_cons

theorem oldCount_cons (line : HunkLine) (lines : List HunkLine) :
    oldCount (line :: lines) = oldCount lines + if line.line.inOld = true then 1 else 0 :=
  List.countP_cons

theorem body_reads {lines : List HunkLine} (plain : ∀ line ∈ lines, PlainLine line)
    (positive : 0 < newCount lines → 0 < state.current) :
    read decimals state (lines.flatMap HunkLine.texts) =
      { state with
        current := state.current + newCount lines
        added := state.added ++ coords state.path (addedNumbers state.current lines) } := by
  induction lines generalizing state with
  | nil =>
    rw [addedNumbers, coords, List.filterMap_nil, List.append_nil]
    rfl
  | cons line lines ih =>
    obtain ⟨first, later⟩ := List.forall_mem_cons.mp plain
    rw [List.flatMap_cons, read_texts]
    have count := newCount_cons line lines
    rw [addedNumbers]
    cases kind : line.line with
    | blank => exact absurd kind first.spaced
    | context text =>
      simp only [kind, DiffLine.inNew, DiffLine.isNew, ↓reduceIte, Bool.false_eq_true] at count ⊢
      rw [DiffLine.text, context_reads, ih later (fun _ => Nat.succ_pos _), count]
      simp only [Extraction.mk.injEq, and_true, true_and]
      omega
    | removed text =>
      simp only [kind, DiffLine.inNew, DiffLine.isNew, ↓reduceIte, Bool.false_eq_true] at count ⊢
      rw [DiffLine.text, removed_reads, ih later (fun some_ => positive (count ▸ some_)), count,
        Nat.add_zero]
    | added text =>
      simp only [kind, DiffLine.inNew, DiffLine.isNew, ↓reduceIte] at count ⊢
      have current : 0 < state.current := positive (by omega)
      rw [DiffLine.text, added_reads (first.content text kind) current,
        ih later (fun _ => Nat.succ_pos _), count, coords_cons, List.append_assoc]
      simp only [Extraction.mk.injEq, and_true, true_and]
      omega

end Bodies

section NumberedBodies
variable {decimals : Decimals} {state : Extraction} {run : Str} {path : Option Str}

theorem column_head (isRun : run = [] ∨ ∃ n, run = digits n) (content : Str) :
    ∃ c rest, run ++ '\t' :: content = c :: rest ∧ (c = '\t' ∨ c.isDigit = true) := by
  rcases isRun with rfl | ⟨n, rfl⟩
  · exact ⟨'\t', content, rfl, Or.inl rfl⟩
  · obtain ⟨c, rest, same⟩ := List.exists_cons_of_ne_nil (Decimals.digits_ne_nil n)
    refine ⟨c, rest ++ '\t' :: content, by rw [same, List.cons_append], Or.inr ?_⟩
    refine Nat.isDigit_of_mem_toDigits (b := 10) (n := n) (by decide) (by decide) ?_
    change c ∈ digits n
    rw [same]
    exact List.mem_cons_self

theorem column_apart {c : Char} (head : c = '\t' ∨ c.isDigit = true) (other : Char) (tab : other ≠ '\t')
    (noDigit : other.isDigit = false) : c ≠ other := by
  rintro rfl
  rcases head with same | digit
  · exact tab same
  · rw [noDigit] at digit
    cases digit

theorem column_parse (isRun : run = [] ∨ ∃ n, run = digits n) (content : Str) :
    parseNumberedDiffLine decimals (run ++ '\t' :: content) path =
      if run ≠ [] ∧ isAdded content = true then
        (truthy path).map fun name => (name, decimals.number run)
      else none := by
  rw [parseNumberedDiffLine, numberColumn_run (run_digits isRun)]

theorem column_kept (isRun : run = [] ∨ ∃ n, run = digits n) (content : Str)
    (unnumbered : parseNumberedDiffLine decimals (run ++ '\t' :: content) state.path = none) :
    readLine decimals state (run ++ '\t' :: content) = state := by
  obtain ⟨c, rest, same, head⟩ := column_head isRun content
  rw [same] at unnumbered ⊢
  have apart : ∀ other, other ≠ '\t' → other.isDigit = false → c ≠ other :=
    column_apart head
  exact readLine_kept
    (resolve_other (not_prefix_head rfl (apart 'd' (by decide) rfl))
      (head_ne (apart '#' (by decide) rfl)) (not_prefix_head rfl (apart '+' (by decide) rfl)))
    unnumbered
    (step_other (isAdded_other (apart '+' (by decide) rfl)) (head_ne (apart '@' (by decide) rfl))
      (head_ne (apart ' ' (by decide) rfl)) (List.cons_ne_nil _ _) _)

theorem column_chomp (run : Str) {c : Char} (plain : c ≠ '\r') (text : Str) :
    chomp (run ++ '\t' :: c :: text) = run ++ '\t' :: c :: chomp text := by
  rw [chomp_append run (by decide), chomp_cons plain]

theorem column_quiet (run : Str) (isRun : run = [] ∨ ∃ n, run = digits n) {c : Char} (plain : c ≠ '\r')
    (other : c ≠ '+') (text : Str) :
    readLine decimals state (chomp (run ++ '\t' :: c :: text)) = state := by
  rw [column_chomp run plain]
  refine column_kept isRun _ ?_
  rw [column_parse isRun, isAdded_other other, if_neg (by simp)]

theorem numbered_added {text : Str} (content : ¬['+', '+'] <+: text) (n : Nat) :
    readLine decimals state (chomp (digits n ++ '\t' :: '+' :: text)) =
      { state with
        added := state.added ++ ((truthy state.path).map fun name => (name, n)).toList } := by
  have isRun : digits n = [] ∨ ∃ m, digits n = digits m := Or.inr ⟨n, rfl⟩
  have parsed : parseNumberedDiffLine decimals (digits n ++ '\t' :: '+' :: chomp text) state.path =
      (truthy state.path).map fun name => (name, n) := by
    rw [column_parse isRun, if_pos ⟨Decimals.digits_ne_nil n, added_isAdded content⟩,
      decimals.number_digits]
  rw [column_chomp _ (by decide)]
  cases name : truthy state.path with
  | none =>
    rw [name] at parsed
    rw [column_kept isRun _ parsed, Option.map_none, Option.toList_none, List.append_nil]
  | some found =>
    rw [name] at parsed
    obtain ⟨c, rest, same, head⟩ := column_head isRun ('+' :: chomp text)
    rw [same] at parsed ⊢
    have kept : resolveDiffPath (c :: rest) state.path = state.path :=
      resolve_other (not_prefix_head rfl (column_apart head 'd' (by decide) rfl))
        (head_ne (column_apart head '#' (by decide) rfl))
        (not_prefix_head rfl (column_apart head '+' (by decide) rfl))
    rw [readLine, if_neg (fun other => other kept), parsed]
    rfl

end NumberedBodies
end DevopsCli.Review.Diff
