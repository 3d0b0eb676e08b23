import DevopsCli.Lib.PyStr

/- Lines of a text. A text without the blank space at its ends has the lines of the text, each at
   its place, when the first line is not blank. -/
namespace DevopsCli.PyStr

def Blank (text : Str) : Prop := ∀ c ∈ text, isSpace c = true

instance (text : Str) : Decidable (Blank text) :=
  List.decidableBAll (fun c => isSpace c = true) text

def textOf (lines : List Str) : Str := strip (join ['\n'] lines)

def universalLinesFrom (line : Str) : Str → List Str
  | [] => if line = [] then [] else [line]
  | '\r' :: '\n' :: rest => line :: universalLinesFrom [] rest
  | c :: rest =>
    if c = '\n' ∨ c = '\r' then line :: universalLinesFrom [] rest
    else universalLinesFrom (line ++ [c]) rest

def universalLines (text : Str) : List Str := universalLinesFrom [] text

section Steps
variable {α : Type} {n : Nat}

theorem flatten_steps (n k : Nat) (xs : List α) :
    ((List.range k).map fun j => (xs.drop (j * n)).take n).flatten = xs.take (k * n) := by
  induction k with
  | zero => simp
  | succ k ih =>
    rw [List.range_succ, List.map_append, List.flatten_append, ih, List.map_singleton,
      List.flatten_singleton, Nat.succ_mul, List.take_add]

theorem flatten_starts (positive : 0 < n) (xs : List α) :
    ((starts xs.length n).map fun i => (xs.drop i).take n).flatten = xs := by
  have all : xs.length ≤ (xs.length + n - 1) / n * n := by
    have whole := Nat.div_add_mod (xs.length + n - 1) n
    have rest := Nat.mod_lt (xs.length + n - 1) positive
    rw [Nat.mul_comm] at whole
    omega
  rw [starts, List.map_map]
  exact (flatten_steps n _ xs).trans (List.take_of_length_le all)

end Steps

section Strip
variable {text blank : Str}

theorem rstrip_blank (spaces : Blank blank) (text : Str) : rstrip (text ++ blank) = rstrip text := by
  rw [rstrip, List.rdropWhile, List.reverse_append, List.dropWhile_append_of_pos]
  · rfl
  · intro c member
    exact spaces c (List.mem_reverse.mp member)

theorem rstrip_eq_nil_iff : rstrip text = [] ↔ Blank text := by
  rw [rstrip, List.rdropWhile_eq_nil_iff, Blank]

theorem rdropWhile_append {p : Char → Bool} (some_ : text.rdropWhile p ≠ []) (before : Str) :
    (before ++ text).rdropWhile p = before ++ text.rdropWhile p := by
  unfold List.rdropWhile at some_ ⊢
  have kept : (text.reverse.dropWhile p).isEmpty = false := by
    rw [List.isEmpty_eq_false_iff]
    exact fun none => some_ (by rw [none, List.reverse_nil])
  rw [List.reverse_append, List.dropWhile_append, kept]
  simp

theorem rstrip_append (text_ : ¬Blank text) (before : Str) :
    rstrip (before ++ text) = before ++ rstrip text :=
  rdropWhile_append (fun none => text_ (rstrip_eq_nil_iff.mp none)) before

theorem rstrip_split (text : Str) : ∃ blank, Blank blank ∧ text = rstrip text ++ blank :=
  ⟨text.rtakeWhile isSpace, fun _ => List.mem_rtakeWhile_imp,
    (List.rdropWhile_append_rtakeWhile ..).symm⟩

theorem strip_eq_nil_iff : strip text = [] ↔ Blank text := by
  rw [strip, rstrip, List.rdropWhile_eq_nil_iff, Blank]
  constructor
  · intro rest c member
    rw [← List.takeWhile_append_dropWhile (p := isSpace) (l := text), List.mem_append] at member
    rcases member with first | later
    · exact List.mem_takeWhile_imp first
    · exact rest c later
  · intro spaces c member
    exact spaces c (List.dropWhile_sublist _ |>.mem member)

theorem strip_blank_left (spaces : Blank blank) (text : Str) : strip (blank ++ text) = strip text := by
  rw [strip, List.dropWhile_append_of_pos spaces, strip]

theorem strip_blank_right (spaces : Blank blank) (text : Str) :
    strip (text ++ blank) = strip text := by
  by_cases empty : Blank text
  · rw [strip_eq_nil_iff.mpr empty, strip_eq_nil_iff]
    exact List.forall_mem_append.mpr ⟨empty, spaces⟩
  · have some_ : (text.dropWhile isSpace).isEmpty = false := by
      rw [List.isEmpty_eq_false_iff, ne_eq, List.dropWhile_eq_nil_iff]
      exact empty
    rw [strip, List.dropWhile_append, some_]
    exact rstrip_blank spaces _

theorem strip_split (text : Str) :
    ∃ before after, Blank before ∧ Blank after ∧ text = before ++ strip text ++ after := by
  refine ⟨text.takeWhile isSpace, (text.dropWhile isSpace).rtakeWhile isSpace,
    fun c => List.mem_takeWhile_imp, fun c => List.mem_rtakeWhile_imp, ?_⟩
  rw [List.append_assoc, strip, rstrip, List.rdropWhile_append_rtakeWhile,
    List.takeWhile_append_dropWhile]

theorem strip_within (text : Str) : strip text <:+: text := by
  obtain ⟨before, after, _, _, split⟩ := strip_split text
  exact ⟨before, after, split.symm⟩

theorem strip_strip (text : Str) : strip (strip text) = strip text := by
  obtain ⟨before, after, first, last, split⟩ := strip_split text
  conv_rhs => rw [split, strip_blank_right last, strip_blank_left first]

theorem blank_strip_iff : Blank (strip text) ↔ Blank text := by
  rw [← strip_eq_nil_iff, strip_strip, strip_eq_nil_iff]

theorem space_of_break {c : Char} (break_ : isBreak c = true) : isSpace c = true := by
  simp only [isBreak, isSpace, Bool.or_eq_true, Bool.and_eq_true, decide_eq_true_eq,
    beq_iff_eq] at break_ ⊢
  omega

end Strip
section Join
variable {lines : List Str} {line blank : Str}

theorem join_cons_cons (first second : Str) (rest : List Str) :
    join ['\n'] (first :: second :: rest) = first ++ '\n' :: join ['\n'] (second :: rest) := rfl

theorem join_append_head (before first : Str) (rest : List Str) :
    join ['\n'] ((before ++ first) :: rest) = before ++ join ['\n'] (first :: rest) := by
  cases rest with
  | nil => simp [join]
  | cons second rest => rw [join_cons_cons, join_cons_cons, List.append_assoc]

theorem join_concat (some_ : lines ≠ []) (last : Str) :
    join ['\n'] (lines ++ [last]) = join ['\n'] lines ++ '\n' :: last := by
  induction lines with
  | nil => exact absurd rfl some_
  | cons first rest ih =>
    cases rest with
    | nil => simp [join]
    | cons second rest =>
      rw [List.cons_append, List.cons_append, join_cons_cons, ← List.cons_append,
        ih (List.cons_ne_nil _ _), join_cons_cons]
      simp

theorem blank_newline (spaces : Blank blank) : Blank ('\n' :: blank) :=
  List.forall_mem_cons.mpr ⟨rfl, spaces⟩

theorem mem_join {c : Char} (here : line ∈ lines) (member : c ∈ line) : c ∈ join ['\n'] lines := by
  induction lines with
  | nil => exact absurd here List.not_mem_nil
  | cons first rest ih =>
    cases rest with
    | nil =>
      obtain rfl := List.mem_singleton.mp here
      simpa [join] using member
    | cons second rest =>
      rw [join_cons_cons, List.mem_append, List.mem_cons]
      rcases List.mem_cons.mp here with rfl | later
      · exact Or.inl member
      · exact Or.inr (Or.inr (ih later))

theorem textOf_nil : textOf [] = [] := rfl

theorem textOf_singleton (line : Str) : textOf [line] = strip line := by
  simp [textOf, join]

theorem blank_of_textOf (empty : textOf lines = []) (here : line ∈ lines) : Blank line := by
  intro c member
  exact strip_eq_nil_iff.mp empty c (mem_join here member)

theorem textOf_blank_head (spaces : Blank blank) (first : Str) (rest : List Str) :
    textOf ((blank ++ first) :: rest) = textOf (first :: rest) := by
  rw [textOf, join_append_head, strip_blank_left spaces, textOf]

theorem textOf_blank_end (spaces : Blank blank) (lines : List Str) (last : Str) :
    textOf (lines ++ [last ++ blank]) = textOf (lines ++ [last]) := by
  by_cases none : lines = []
  · rw [none, List.nil_append, List.nil_append, textOf_singleton, textOf_singleton,
      strip_blank_right spaces]
  · rw [textOf, textOf, join_concat none, join_concat none, ← List.cons_append, ← List.append_assoc,
      strip_blank_right spaces]

theorem textOf_blank_last (spaces : Blank blank) (lines : List Str) :
    textOf (lines ++ [blank]) = textOf lines := by
  by_cases none : lines = []
  · rw [none, List.nil_append, textOf_singleton, strip_eq_nil_iff.mpr spaces]
    rfl
  · rw [textOf, join_concat none, strip_blank_right (blank_newline spaces), textOf]

theorem textOf_blank (spaces : ∀ line ∈ lines, Blank line) : textOf lines = [] := by
  induction lines using List.reverseRecOn with
  | nil => rfl
  | append_singleton lines last ih =>
    obtain ⟨first, later⟩ := List.forall_mem_append.mp spaces
    rw [textOf_blank_last (later last (List.mem_singleton_self last)), ih first]

end Join

/-- Lines that are kept of others: a range of them has the text of the range of the others, and
    each is a piece of the line in its place. -/
structure Kept (kept lines : List Str) : Prop where
  texts : ∀ i n, textOf ((kept.drop i).take n) = textOf ((lines.drop i).take n)
  pieces : ∀ (i : Nat) (line : Str), kept[i]? = some line →
    ∃ whole, lines[i]? = some whole ∧ line <:+: whole

section Kept
variable {kept lines between : List Str} {line blank : Str}

theorem Kept.refl (lines : List Str) : Kept lines lines :=
  ⟨fun _ _ => rfl, fun _ line here => ⟨line, here, List.infix_rfl⟩⟩

theorem Kept.trans (inner : Kept kept between) (outer : Kept between lines) : Kept kept lines where
  texts i n := (inner.texts i n).trans (outer.texts i n)
  pieces i line here := by
    obtain ⟨middle, there, piece⟩ := inner.pieces i line here
    obtain ⟨whole, last, part⟩ := outer.pieces i middle there
    exact ⟨whole, last, piece.trans part⟩

theorem Kept.strip_line (kept_ : Kept kept lines) {i : Nat} {whole : Str}
    (here : lines[i]? = some whole) (text : ¬Blank whole) :
    ∃ line, kept[i]? = some line ∧ strip line = strip whole := by
  have one (xs : List Str) {x : Str} (at_ : xs[i]? = some x) : (xs.drop i).take 1 = [x] := by
    rw [List.take_one, List.head?_drop, at_]
    rfl
  have same := kept_.texts i 1
  rw [one lines here, textOf_singleton] at same
  cases at_ : kept[i]? with
  | none =>
    rw [List.drop_eq_nil_of_le (List.getElem?_eq_none_iff.mp at_)] at same
    exact absurd (strip_eq_nil_iff.mp same.symm) text
  | some line =>
    rw [one kept at_, textOf_singleton] at same
    exact ⟨line, rfl, same⟩

theorem kept_first_stripped (spaces : Blank blank) (first : Str) (rest : List Str) :
    Kept (first :: rest) ((blank ++ first) :: rest) where
  texts i n := by
    cases i with
    | zero =>
      cases n with
      | zero => rfl
      | succ n => exact (textOf_blank_head spaces first _).symm
    | succ i => rfl
  pieces i line here := by
    cases i with
    | zero =>
      obtain rfl := Option.some.inj here
      exact ⟨_, rfl, (List.suffix_append _ _).isInfix⟩
    | succ i => exact ⟨line, here, List.infix_rfl⟩

theorem range_concat (lines : List Str) (i n : Nat) :
    (∀ last, ((lines ++ [last]).drop i).take n = (lines.drop i).take n) ∨
      ∀ last, ((lines ++ [last]).drop i).take n = (lines.drop i).take n ++ [last] := by
  by_cases reached : i ≤ lines.length ∧ lines.length - i < n
  · right
    intro last
    rw [List.drop_append_of_le_length reached.1, List.take_append, List.length_drop]
    rw [List.take_of_length_le (l := [last])]
    simp only [List.length_singleton]
    omega
  · left
    intro last
    rw [List.drop_append, List.take_append, List.length_drop]
    rcases Nat.lt_or_ge lines.length i with beyond | inside
    · rw [List.drop_eq_nil_of_le (show [last].length ≤ _ by simp; omega)]
      simp
    · rw [Nat.sub_eq_zero_of_le (n := n) (by omega)]
      simp

theorem kept_blank_last (spaces : Blank blank) (lines : List Str) : Kept lines (lines ++ [blank]) where
  texts i n := by
    rcases range_concat lines i n with without | with_
    · rw [without]
    · rw [with_, textOf_blank_last spaces]
  pieces i line here := by
    refine ⟨line, ?_, List.infix_rfl⟩
    rw [List.getElem?_append_left (List.getElem?_eq_some_iff.mp here).1, here]

theorem kept_last_stripped (spaces : Blank blank) (lines : List Str) (last : Str) :
    Kept (lines ++ [last]) (lines ++ [last ++ blank]) where
  texts i n := by
    rcases range_concat lines i n with without | with_
    · rw [without, without]
    · rw [with_, with_, textOf_blank_end spaces]
  pieces i line here := by
    rcases Nat.lt_or_ge i lines.length with inside | at_
    · rw [List.getElem?_append_left inside] at here ⊢
      exact ⟨line, here, List.infix_rfl⟩
    · rw [List.getElem?_append_right at_] at here ⊢
      rw [List.getElem?_singleton, Option.ite_none_right_eq_some, Option.some.injEq] at here
      obtain ⟨position, rfl⟩ := here
      rw [position]
      exact ⟨_, rfl, (List.prefix_append _ _).isInfix⟩

end Kept
def Unbroken (line : Str) : Prop := ∀ c ∈ line, isBreak c = false

section Lines
variable {lines : List Str} {line : Str}

theorem splitlinesFrom_unbroken (unbroken : Unbroken line) (before rest : Str) :
    splitlinesFrom before (line ++ rest) = splitlinesFrom (before ++ line) rest := by
  induction line generalizing before with
  | nil => simp
  | cons c more ih =>
    obtain ⟨plain, later⟩ := List.forall_mem_cons.mp unbroken
    rw [List.cons_append, splitlinesFrom]
    · rw [plain, if_neg Bool.false_ne_true, ih later, List.append_assoc]
      rfl
    · rintro _ rfl
      exact absurd plain (by decide)

theorem splitlines_unbroken (text : Str) : ∀ line ∈ splitlines text, Unbroken line := by
  have from_ (before : Str) (unbroken : Unbroken before) :
      ∀ line ∈ splitlinesFrom before text, Unbroken line := by
    fun_induction splitlinesFrom before text with
    | case1 => exact List.forall_mem_nil _
    | case2 before _ => exact List.forall_mem_singleton.mpr unbroken
    | case3 before rest ih => exact List.forall_mem_cons.mpr ⟨unbroken, ih (List.forall_mem_nil _)⟩
    | case4 before c rest _ break_ ih =>
      exact List.forall_mem_cons.mpr ⟨unbroken, ih (List.forall_mem_nil _)⟩
    | case5 before c rest _ plain ih =>
      refine ih (List.forall_mem_append.mpr ⟨unbroken, List.forall_mem_singleton.mpr ?_⟩)
      exact Bool.eq_false_iff.mpr plain
  exact from_ [] (List.forall_mem_nil _)

theorem splitlines_cons (unbroken : Unbroken line) (rest : Str) :
    splitlines (line ++ '\n' :: rest) = line :: splitlines rest := by
  rw [splitlines, splitlinesFrom_unbroken unbroken, splitlinesFrom]
  · rfl
  · rintro _ ⟨⟩

theorem splitlines_line (unbroken : Unbroken line) :
    splitlines line = if line = [] then [] else [line] := by
  have whole := splitlinesFrom_unbroken unbroken [] []
  rw [List.append_nil] at whole
  rw [splitlines, whole, splitlinesFrom, List.nil_append]

/-- A text that no line end closes, and a newline after it: what follows is cut on its own. -/
theorem splitlinesFrom_closed {c : Char} (plain : isBreak c = false) (before text rest : Str) :
    splitlinesFrom before (text ++ c :: '\n' :: rest) =
      splitlinesFrom before (text ++ [c]) ++ splitlines rest := by
  have start {d : Char} {text more : Str} (alone : ∀ rest, d = '\r' → text = '\n' :: rest → False) :
      ∀ rest, d = '\r' → text ++ c :: more = '\n' :: rest → False := by
    intro rest first next
    cases text with
    | nil =>
      rw [List.nil_append, List.cons.injEq] at next
      rw [next.1] at plain
      exact absurd plain (by decide)
    | cons e others =>
      rw [List.cons_append, List.cons.injEq] at next
      exact alone others first (by rw [next.1])
  have closed (before : Str) : splitlinesFrom before ([] ++ c :: '\n' :: rest) =
      splitlinesFrom before ([] ++ [c]) ++ splitlines rest := by
    have unbroken : Unbroken [c] := List.forall_mem_singleton.mpr plain
    have first := splitlinesFrom_unbroken unbroken before ('\n' :: rest)
    have alone := splitlinesFrom_unbroken unbroken before []
    rw [List.singleton_append] at first
    rw [List.append_nil] at alone
    rw [List.nil_append, List.nil_append, first, alone, splitlinesFrom, splitlinesFrom,
      if_neg (List.append_ne_nil_of_right_ne_nil _ (List.cons_ne_nil c []))]
    · rfl
    · rintro _ ⟨⟩
  fun_induction splitlinesFrom before text with
  | case1 => exact closed []
  | case2 before _ => exact closed before
  | case3 before more ih =>
    simp only [List.cons_append, splitlinesFrom]
    exact congrArg (before :: ·) ih
  | case4 before d more alone break_ ih =>
    rw [List.cons_append, List.cons_append, splitlinesFrom, if_pos break_, splitlinesFrom,
      if_pos break_, ih, List.cons_append]
    · exact start alone
    · exact start alone
  | case5 before d more alone plain_ ih =>
    rw [List.cons_append, List.cons_append, splitlinesFrom, if_neg plain_, splitlinesFrom,
      if_neg plain_, ih]
    · exact start alone
    · exact start alone

theorem splitlinesFrom_feed (before text rest : Str) :
    splitlinesFrom before (text ++ '\n' :: rest) =
      splitlinesFrom before (text ++ ['\n']) ++ splitlines rest := by
  have feed (before rest : Str) :
      splitlinesFrom before ('\n' :: rest) = before :: splitlines rest := by
    rw [splitlinesFrom]
    · rfl
    · rintro _ ⟨⟩
  have closed (before : Str) : splitlinesFrom before ([] ++ '\n' :: rest) =
      splitlinesFrom before ([] ++ ['\n']) ++ splitlines rest := by
    rw [List.nil_append, List.nil_append, feed, feed]
    rfl
  have start {d : Char} {text more : Str} (some_ : text ≠ [])
      (alone : ∀ rest, d = '\r' → text = '\n' :: rest → False) :
      ∀ rest, d = '\r' → text ++ more = '\n' :: rest → False := by
    intro rest first next
    obtain ⟨e, others, rfl⟩ := List.exists_cons_of_ne_nil some_
    rw [List.cons_append, List.cons.injEq] at next
    exact alone others first (by rw [next.1])
  fun_induction splitlinesFrom before text with
  | case1 => exact closed []
  | case2 before _ => exact closed before
  | case3 before more ih =>
    simp only [List.cons_append, splitlinesFrom]
    exact congrArg (before :: ·) ih
  | case4 before d more alone break_ ih =>
    by_cases last : d = '\r' ∧ more = []
    · -- the carriage return and the newline are one line end
      obtain ⟨rfl, rfl⟩ := last
      rfl
    · have apart (others : Str) : ∀ rest, d = '\r' → more ++ others = '\n' :: rest → False := by
        intro rest first
        exact start (fun none_ => last ⟨first, none_⟩) alone rest first
      rw [List.cons_append, List.cons_append, splitlinesFrom, if_pos break_, splitlinesFrom,
        if_pos break_, ih, List.cons_append]
      · exact apart _
      · exact apart _
  | case5 before d more alone plain_ ih =>
    have other : d ≠ '\r' := by
      rintro rfl
      exact absurd (by decide) plain_
    rw [List.cons_append, List.cons_append, splitlinesFrom, if_neg plain_, splitlinesFrom,
      if_neg plain_, ih]
    · exact fun _ same => absurd same other
    · exact fun _ same => absurd same other

theorem splitlines_join (unbroken : ∀ line ∈ lines, Unbroken line) :
    splitlines (join ['\n'] lines) = lines ∨ splitlines (join ['\n'] lines) ++ [[]] = lines := by
  induction lines with
  | nil => exact Or.inl rfl
  | cons first rest ih =>
    obtain ⟨plain, later⟩ := List.forall_mem_cons.mp unbroken
    cases rest with
    | nil =>
      have one : join ['\n'] [first] = first := by simp [join]
      rw [one, splitlines_line plain]
      by_cases empty : first = []
      · exact Or.inr (by rw [empty]; rfl)
      · exact Or.inl (if_neg empty)
    | cons second rest =>
      rw [join_cons_cons, splitlines_cons plain]
      rcases ih later with same | same
      · exact Or.inl (by rw [same])
      · exact Or.inr (by rw [List.cons_append, same])

theorem kept_join (unbroken : ∀ line ∈ lines, Unbroken line) :
    Kept (splitlines (join ['\n'] lines)) lines := by
  rcases splitlines_join unbroken with same | same
  · rw [same]
    exact Kept.refl lines
  · conv => arg 2; rw [← same]
    exact kept_blank_last (List.forall_mem_nil _) _

theorem rstrip_join (unbroken : ∀ line ∈ lines, Unbroken line) :
    ∃ kept, Kept kept lines ∧ (∀ line ∈ kept, Unbroken line) ∧
      rstrip (join ['\n'] lines) = join ['\n'] kept := by
  induction lines using List.reverseRecOn with
  | nil => exact ⟨[], Kept.refl [], List.forall_mem_nil _, rfl⟩
  | append_singleton before last ih =>
    obtain ⟨earlier, plain⟩ := List.forall_mem_append.mp unbroken
    by_cases spaces : Blank last
    · obtain ⟨kept, kept_, kept_plain, same⟩ := ih earlier
      refine ⟨kept, kept_.trans (kept_blank_last spaces before), kept_plain, ?_⟩
      by_cases none : before = []
      · rw [← same, none, List.nil_append]
        simpa [join] using rstrip_blank spaces []
      · rw [join_concat none, rstrip_blank (blank_newline spaces), same]
    · obtain ⟨blank, blank_, split⟩ := rstrip_split last
      have part : ∀ c ∈ rstrip last, c ∈ last := by
        intro c member
        rw [split]
        exact List.mem_append_left _ member
      refine ⟨before ++ [rstrip last], ?_, List.forall_mem_append.mpr ⟨earlier,
        List.forall_mem_singleton.mpr fun c member => ?_⟩, ?_⟩
      · conv => arg 2; rw [split]
        exact kept_last_stripped blank_ before _
      · exact List.forall_mem_singleton.mp plain c (part c member)
      · by_cases none : before = []
        · simp [none, join]
        · rw [join_concat none, join_concat none, List.append_cons, rstrip_append spaces,
            ← List.append_cons]

theorem kept_textOf {first : Str} {rest : List Str}
    (unbroken : ∀ line ∈ first :: rest, Unbroken line) (text : ¬Blank first) :
    Kept (splitlines (textOf (first :: rest))) (first :: rest) := by
  obtain ⟨plain, later⟩ := List.forall_mem_cons.mp unbroken
  have split := List.takeWhile_append_dropWhile (p := isSpace) (l := first)
  have spaces : Blank (first.takeWhile isSpace) := fun _ => List.mem_takeWhile_imp
  have some_ : (first.dropWhile isSpace).isEmpty = false := by
    rw [List.isEmpty_eq_false_iff, ne_eq, List.dropWhile_eq_nil_iff]
    exact text
  have again : (first.dropWhile isSpace).dropWhile isSpace = first.dropWhile isSpace :=
    List.dropWhile_idempotent _ _
  have stripped : textOf (first :: rest) =
      rstrip (join ['\n'] (first.dropWhile isSpace :: rest)) := by
    conv_lhs => rw [textOf, ← split, join_append_head, strip_blank_left spaces, strip]
    congr 1
    cases rest with
    | nil => simpa [join] using again
    | cons second rest =>
      rw [join_cons_cons, List.dropWhile_append, again, some_]
      rfl
  have solid : ∀ line ∈ first.dropWhile isSpace :: rest, Unbroken line :=
    List.forall_mem_cons.mpr ⟨fun c member => plain c ((List.dropWhile_sublist _).mem member), later⟩
  obtain ⟨kept, kept_, kept_plain, same⟩ := rstrip_join solid
  rw [stripped, same]
  have all := kept_first_stripped spaces (first.dropWhile isSpace) rest
  rw [split] at all
  exact (kept_join kept_plain).trans (kept_.trans all)

theorem blank_of_linesFrom (before text : Str) :
    (∀ line ∈ splitlinesFrom before text, Blank line) → Blank (before ++ text) := by
  fun_induction splitlinesFrom before text with
  | case1 => exact fun _ => List.forall_mem_nil _
  | case2 before _ =>
    intro one
    rw [List.append_nil]
    exact List.forall_mem_singleton.mp one
  | case3 before rest ih =>
    intro all
    obtain ⟨first, later⟩ := List.forall_mem_cons.mp all
    exact List.forall_mem_append.mpr ⟨first, List.forall_mem_cons.mpr
      ⟨rfl, List.forall_mem_cons.mpr ⟨rfl, ih later⟩⟩⟩
  | case4 before c rest _ break_ ih =>
    intro all
    obtain ⟨first, later⟩ := List.forall_mem_cons.mp all
    exact List.forall_mem_append.mpr ⟨first, List.forall_mem_cons.mpr
      ⟨space_of_break break_, ih later⟩⟩
  | case5 before c rest _ plain ih =>
    intro all
    rw [List.append_cons]
    exact ih all

theorem mem_splitlinesFrom (before text : Str) :
    ∀ line ∈ splitlinesFrom before text, ∀ c ∈ line, c ∈ before ++ text := by
  fun_induction splitlinesFrom before text with
  | case1 => exact List.forall_mem_nil _
  | case2 before _ =>
    intro line here c member
    obtain rfl := List.mem_singleton.mp here
    exact List.mem_append_left _ member
  | case3 before rest ih =>
    intro line here c member
    rcases List.mem_cons.mp here with rfl | later
    · exact List.mem_append_left _ member
    · exact List.mem_append_right _ (by simp [show c ∈ rest from ih line later c member])
  | case4 before c' rest _ break_ ih =>
    intro line here c member
    rcases List.mem_cons.mp here with rfl | later
    · exact List.mem_append_left _ member
    · exact List.mem_append_right _ (List.mem_cons_of_mem _ (ih line later c member))
  | case5 before c' rest _ plain ih =>
    intro line here c member
    rw [List.append_cons]
    exact ih line here c member

theorem mem_splitlines {text line : Str} {c : Char} (here : line ∈ splitlines text)
    (member : c ∈ line) : c ∈ text := mem_splitlinesFrom [] text line here c member

theorem universalLines_length (text : Str) :
    (universalLines text).length ≤ (splitlines text).length := by
  have from_ (before other : Str) : (universalLinesFrom before text).length ≤
      (splitlinesFrom other text).length + if before ≠ [] ∧ other = [] then 1 else 0 := by
    fun_induction universalLinesFrom before text generalizing other with
    | case1 => simp
    | case2 before some_ =>
      by_cases none : other = []
      · simp [none, some_]
      · simp [splitlinesFrom, none]
    | case3 before rest ih =>
      have later := ih []
      simp only [splitlinesFrom, List.length_cons, ne_eq, not_true_eq_false, false_and,
        ↓reduceIte] at later ⊢
      omega
    | case4 before c rest alone ends ih =>
      have later := ih []
      have break_ : isBreak c = true := by
        rcases ends with rfl | rfl <;> rfl
      simp only [splitlinesFrom, break_, List.length_cons, ne_eq, not_true_eq_false, false_and,
        ↓reduceIte] at later ⊢
      omega
    | case5 before c rest alone plain ih =>
      rw [splitlinesFrom.eq_3 _ _ _ alone]
      by_cases break_ : isBreak c = true
      · have later := ih []
        simp [break_] at later ⊢
        omega
      · have later := ih (other ++ [c])
        simp [break_] at later ⊢
        omega
  have whole := from_ [] []
  rw [if_neg (fun empty => empty.1 rfl), Nat.add_zero] at whole
  exact whole

end Lines
end DevopsCli.PyStr
