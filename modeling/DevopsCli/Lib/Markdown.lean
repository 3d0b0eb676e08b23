import DevopsCli.Lib.PyLines

/- Documents of Markdown whose blocks stand apart: headings, paragraphs of one line, and lists with
   one level of lists inside. What CommonMark says of a block is said here of these blocks, and a
   reader of lines gives the blocks of such a document back. Nothing here is about one program. -/
namespace DevopsCli.Markdown
open PyStr

structure Item where
  line : Str
  nested : List Str := []
  deriving DecidableEq

inductive Block where
  | heading (level : Nat) (raw : Str)
  | paragraph (line : Str)
  | bullets (items : List Item)
  deriving DecidableEq

def bullet : Str := "- ".toList
def nestedBullet : Str := "  - ".toList

def Item.lines (item : Item) : List Str :=
  (bullet ++ item.line) :: item.nested.map (nestedBullet ++ ·)

def Block.lines : Block → List Str
  | .heading level raw => [List.replicate level '#' ++ ' ' :: raw]
  | .paragraph line => [line]
  | .bullets items => items.flatMap Item.lines

def docLines (doc : List (Block × Nat)) : List Str :=
  doc.flatMap fun entry => entry.1.lines ++ List.replicate entry.2 []

def unlines (lines : List Str) : Str := lines.flatMap (· ++ ['\n'])

def docText (doc : List (Block × Nat)) : Str := unlines (docLines doc)

def startsText : Str → Bool
  | '[' :: ' ' :: ']' :: ' ' :: _ => true
  | c :: _ => c.isAlpha
  | [] => false

def trimEnd (line : Str) : Str := line.rdropWhile (· == ' ')

structure TextLine (line : Str) : Prop where
  starts : startsText line = true
  one : ∀ c ∈ line, c ≠ '\n' ∧ c ≠ '\r'
  ends : ∀ c ∈ (trimEnd line).getLast?, isSpace c = false

def HeadingLine (raw : Str) : Prop := ∀ c ∈ raw, isSpace c = true → c = ' '

/-- A heading may end with number signs that a space sets apart. They are no part of its text. -/
def closing (raw : Str) : Bool :=
  let kept := raw.rdropWhile (· == '#')
  kept != raw && (kept == [] || kept.getLast? == some ' ')

def withoutClosing (raw : Str) : Str :=
  if closing raw then raw.rdropWhile (· == '#') else raw

def headingText (raw : Str) : Str := strip (withoutClosing (trimEnd raw))

def withoutNul (text : Str) : Str := text.map fun c => if c.toNat = 0 then Char.ofNat 0xfffd else c

def Item.Plain (item : Item) : Prop := TextLine item.line ∧ ∀ line ∈ item.nested, TextLine line

def Block.Plain : Block → Prop
  | .heading level raw => 1 ≤ level ∧ level ≤ 6 ∧ HeadingLine raw
  | .paragraph line => TextLine line
  | .bullets items => items ≠ [] ∧ ∀ item ∈ items, item.Plain

def Block.isList : Block → Bool
  | .bullets _ => true
  | _ => false

/-- Two blocks of which the first one ends before the second: an empty line is between them, and
    they are no two lists, which are one list of CommonMark. -/
def Apart (first second : Block × Nat) : Prop :=
  0 < first.2 ∧ ¬(first.1.isList = true ∧ second.1.isList = true)

structure Plain (doc : List (Block × Nat)) : Prop where
  blocks : ∀ entry ∈ doc, entry.1.Plain
  apart : doc.IsChain Apart

section Ends
variable {text : Str}

theorem withoutNul_append (text more : Str) : withoutNul (text ++ more) = withoutNul text ++ withoutNul more :=
  List.map_append

theorem withoutNul_length (text : Str) : (withoutNul text).length = text.length := List.length_map ..

theorem trimEnd_append (some_ : trimEnd text ≠ []) (front : Str) :
    trimEnd (front ++ text) = front ++ trimEnd text := rdropWhile_append some_ front

def Solid (text : Str) : Prop :=
  trimEnd text ≠ [] ∧ ∀ c ∈ (trimEnd text).getLast?, isSpace c = false

theorem solid_append (solid : Solid text) (front : Str) : Solid (front ++ text) := by
  obtain ⟨some_, last⟩ := solid
  unfold Solid
  rw [trimEnd_append some_]
  refine ⟨List.append_ne_nil_of_right_ne_nil _ some_, ?_⟩
  rwa [List.getLast?_append_of_ne_nil _ some_]

theorem trimEnd_solid (last : ∀ c ∈ text.getLast?, isSpace c = false) :
    trimEnd text = text := by
  unfold trimEnd
  rw [List.rdropWhile_eq_self_iff]
  intro none_ space
  have solid := last _ (List.getLast?_eq_some_getLast none_)
  rw [beq_iff_eq.mp space] at solid
  exact absurd solid (by decide)

def Ends (text : Str) : Prop := text ≠ [] ∧ ∀ c ∈ text.getLast?, isSpace c = false

theorem Ends.append {text : Str} (ends : Ends text) (front : Str) : Ends (front ++ text) := by
  refine ⟨List.append_ne_nil_of_right_ne_nil _ ends.1, ?_⟩
  rw [List.getLast?_append_of_ne_nil _ ends.1]
  exact ends.2

theorem Ends.solid {text : Str} (ends : Ends text) : Solid text := by
  unfold Solid
  rw [trimEnd_solid ends.2]
  exact ends

end Ends

section Reading

/-- A reading of lines from the last one on: the empty lines before what is read, the nested lines
    that wait for their item, and the blocks. -/
structure Reading where
  blanks : Nat := 0
  nested : List Str := []
  doc : List (Block × Nat) := []

def Reading.add (read : Reading) (block : Block) : Reading := ⟨0, [], (block, read.blanks) :: read.doc⟩

def Reading.addItem (read : Reading) (item : Item) : Reading :=
  match read.blanks, read.doc with
  | 0, (.bullets items, blanks) :: doc => ⟨0, [], (.bullets (item :: items), blanks) :: doc⟩
  | _, _ => read.add (.bullets [item])

def addLine (line : Str) (read : Reading) : Reading :=
  let level := (line.takeWhile (· == '#')).length
  if line = [] then { read with blanks := read.blanks + 1 }
  else if nestedBullet.isPrefixOf line then
    { read with nested := line.drop nestedBullet.length :: read.nested }
  else if bullet.isPrefixOf line then read.addItem ⟨line.drop bullet.length, read.nested⟩
  else if level = 0 then read.add (.paragraph line)
  else read.add (.heading level (line.drop (level + 1)))

def readLines (lines : List Str) : Reading := lines.foldr addLine {}

def linesOf (text : Str) : List Str := (text.splitOn '\n').dropLast

def readDoc (text : Str) : List (Block × Nat) := (readLines (linesOf text)).doc

variable {doc rest : List (Block × Nat)} {lines : List Str} {n : Nat}

theorem linesOf_unlines (one : ∀ line ∈ lines, '\n' ∉ line) : linesOf (unlines lines) = lines := by
  have text : unlines lines = List.intercalate ['\n'] (lines ++ [[]]) := by
    clear one
    induction lines with
    | nil => rfl
    | cons line lines ih =>
      have more : lines ++ [[]] ≠ [] := by simp
      obtain ⟨second, later, split⟩ := List.exists_cons_of_ne_nil more
      rw [split] at ih
      rw [List.cons_append, split, List.intercalate_cons_cons, ← ih]
      simp [unlines]
  unfold linesOf
  rw [text, List.splitOn_intercalate]
  · exact List.dropLast_concat
  · intro line member
    rcases List.mem_append.mp member with inside | last
    · exact one line inside
    · rw [List.mem_singleton.mp last]
      exact List.not_mem_nil
  · simp

theorem add_blanks (read : Reading) (n : Nat) :
    (List.replicate n []).foldr addLine read = { read with blanks := read.blanks + n } := by
  induction n with
  | zero => rfl
  | succ n ih =>
    rw [List.replicate_succ, List.foldr_cons, ih]
    simp [addLine, Nat.add_assoc]

theorem add_nested (read : Reading) (lines : List Str) :
    (lines.map (nestedBullet ++ ·)).foldr addLine read =
      { read with nested := lines ++ read.nested } := by
  induction lines with
  | nil => rfl
  | cons line lines ih =>
    rw [List.map_cons, List.foldr_cons, ih]
    have here : nestedBullet.isPrefixOf (nestedBullet ++ line) = true :=
      List.isPrefixOf_iff_prefix.mpr (List.prefix_append _ _)
    have some_ : nestedBullet ++ line ≠ [] := by simp [nestedBullet]
    rw [addLine, if_neg some_, if_pos here, List.drop_left]
    rfl

theorem add_item (read : Reading) (item : Item) (none_ : read.nested = []) :
    item.lines.foldr addLine read = read.addItem item := by
  have other (line : Str) : nestedBullet.isPrefixOf (bullet ++ line) = false := rfl
  have here (line : Str) : bullet.isPrefixOf (bullet ++ line) = true :=
    List.isPrefixOf_iff_prefix.mpr (List.prefix_append _ _)
  have some_ (line : Str) : bullet ++ line ≠ [] := by simp [bullet]
  unfold Item.lines
  rw [List.foldr_cons, add_nested, addLine, if_neg (some_ _), other, if_neg Bool.false_ne_true,
    if_pos (here _), List.drop_left, none_, List.append_nil]
  rfl

theorem textLine_head {line : Str} (text : TextLine line) :
    ∃ c more, line = c :: more ∧ c ≠ '-' ∧ c ≠ ' ' ∧ c ≠ '#' := by
  have starts := text.starts
  cases line with
  | nil => cases starts
  | cons c more =>
    refine ⟨c, more, rfl, ?_, ?_, ?_⟩
    all_goals
      rintro rfl
      simp [startsText] at starts

theorem add_paragraph {line : Str} (text : TextLine line) (read : Reading) :
    addLine line read = read.add (.paragraph line) := by
  obtain ⟨c, more, rfl, dash, space, sign⟩ := textLine_head text
  have level : ((c :: more).takeWhile (· == '#')).length = 0 := by simp [sign]
  have first : nestedBullet.isPrefixOf (c :: more) = false := by
    simp [nestedBullet, List.isPrefixOf, Ne.symm space]
  have second : bullet.isPrefixOf (c :: more) = false := by
    simp [bullet, List.isPrefixOf, Ne.symm dash]
  rw [addLine, if_neg (List.cons_ne_nil _ _), first, if_neg Bool.false_ne_true, second,
    if_neg Bool.false_ne_true, if_pos level]

theorem add_heading {level : Nat} (positive : 1 ≤ level) (raw : Str) (read : Reading) :
    addLine (List.replicate level '#' ++ ' ' :: raw) read = read.add (.heading level raw) := by
  have signs : (List.replicate level '#' ++ ' ' :: raw).takeWhile (· == '#') =
      List.replicate level '#' := by
    rw [List.takeWhile_append_of_pos (by simp)]
    simp
  obtain ⟨more, rfl⟩ := Nat.exists_eq_add_of_le' positive
  unfold addLine
  simp only [signs, List.length_replicate]
  rw [if_neg (by simp [List.replicate_succ]), if_neg (by simp [List.replicate_succ, nestedBullet]),
    if_neg (by simp [List.replicate_succ, bullet]), if_neg (Nat.succ_ne_zero _)]
  congr 2
  rw [← List.drop_drop, List.drop_left' (List.length_replicate ..)]
  rfl

theorem add_items {items : List Item} (some_ : items ≠ [])
    (apart : 0 < n ∨ ∀ entry ∈ rest.head?, entry.1.isList = false) :
    (items.flatMap Item.lines).foldr addLine ⟨n, [], rest⟩ = ⟨0, [], (.bullets items, n) :: rest⟩ := by
  induction items with
  | nil => exact absurd rfl some_
  | cons item items ih =>
    rw [List.flatMap_cons, List.foldr_append]
    cases items with
    | nil =>
      rw [List.flatMap_nil, List.foldr_nil, add_item _ _ rfl]
      rcases apart with positive | other
      · obtain ⟨k, rfl⟩ := Nat.exists_eq_add_of_le' positive
        rfl
      · cases rest with
        | nil => cases n <;> rfl
        | cons entry rest =>
          obtain ⟨block, blanks⟩ := entry
          cases block with
          | heading level raw => cases n <;> rfl
          | paragraph line => cases n <;> rfl
          | bullets items => cases other _ rfl
    | cons second later =>
      rw [ih (List.cons_ne_nil _ _), add_item _ _ rfl]
      rfl

/-- The blocks of a document whose blocks stand apart are read back. -/
theorem readLines_docLines (plain : Plain doc) : readLines (docLines doc) = ⟨0, [], doc⟩ := by
  obtain ⟨blocks, apart⟩ := plain
  induction doc with
  | nil => rfl
  | cons entry doc ih =>
    obtain ⟨block, n⟩ := entry
    obtain ⟨here, later⟩ := List.forall_mem_cons.mp blocks
    have read := ih later apart.tail
    have lines : docLines ((block, n) :: doc) = block.lines ++ (List.replicate n [] ++ docLines doc) := by
      simp [docLines]
    unfold readLines at read ⊢
    rw [lines, List.foldr_append, List.foldr_append, read, add_blanks, Nat.zero_add]
    cases block with
    | heading level raw => exact add_heading here.1 raw _
    | paragraph line => exact add_paragraph here _
    | bullets items =>
      apply add_items here.1
      cases doc with
      | nil => exact .inr (by simp)
      | cons second doc =>
        have stand := apart.rel
        exact .inl stand.1

theorem line_clear (plain : Plain doc) : ∀ line ∈ docLines doc, '\n' ∉ line := by
  intro line member
  obtain ⟨⟨block, n⟩, inside, here⟩ := List.mem_flatMap.mp member
  rcases List.mem_append.mp here with lines | blank
  · have own := plain.blocks _ inside
    cases block with
    | heading level raw =>
      obtain rfl := List.mem_singleton.mp lines
      intro break_
      rcases List.mem_append.mp break_ with sign | text
      · exact absurd (List.eq_of_mem_replicate sign) (by decide)
      · rcases List.mem_cons.mp text with space | text
        · exact absurd space (by decide)
        · exact absurd (own.2.2 _ text (by decide)) (by decide)
    | paragraph text =>
      obtain rfl := List.mem_singleton.mp lines
      exact fun break_ => (own.one _ break_).1 rfl
    | bullets items =>
      obtain ⟨item, among, part⟩ := List.mem_flatMap.mp lines
      have text := own.2 item among
      rcases List.mem_cons.mp part with rfl | nested
      · intro break_
        rcases List.mem_append.mp break_ with mark | text_
        · exact absurd mark (by decide)
        · exact (text.1.one _ text_).1 rfl
      · obtain ⟨line, below, rfl⟩ := List.mem_map.mp nested
        intro break_
        rcases List.mem_append.mp break_ with mark | text_
        · exact absurd mark (by decide)
        · exact ((text.2 _ below).one _ text_).1 rfl
  · rw [List.eq_of_mem_replicate blank]
    exact List.not_mem_nil

theorem readDoc_docText (plain : Plain doc) : readDoc (docText doc) = doc := by
  unfold readDoc docText
  rw [linesOf_unlines (line_clear plain), readLines_docLines plain]

end Reading

section Documents
variable {doc more : List (Block × Nat)}

theorem unlines_append (lines more : List Str) : unlines (lines ++ more) = unlines lines ++ unlines more :=
  List.flatMap_append

theorem docText_append (doc more : List (Block × Nat)) :
    docText (doc ++ more) = docText doc ++ docText more := by
  rw [docText, docLines, List.flatMap_append, unlines_append]
  rfl

structure Open (doc : List (Block × Nat)) : Prop where
  apart : doc.IsChain Apart
  first : ∀ entry ∈ doc.head?, entry.1.isList = false
  blanks : ∀ entry ∈ doc, 0 < entry.2

theorem open_nil : Open [] := ⟨.nil, by simp, by simp⟩

theorem chain_append (ahead : Open doc) (apart : more.IsChain Apart)
    (first : ∀ entry ∈ more.head?, entry.1.isList = false) : (doc ++ more).IsChain Apart := by
  rw [List.isChain_append]
  refine ⟨ahead.apart, apart, ?_⟩
  intro last there next here
  refine ⟨ahead.blanks last (List.mem_of_mem_getLast? there), ?_⟩
  rintro ⟨-, list⟩
  rw [first next here] at list
  cases list

theorem open_append (ahead : Open doc) (behind : Open more) : Open (doc ++ more) where
  apart := chain_append ahead behind.apart behind.first
  first := by
    intro entry member
    cases doc with
    | nil => exact behind.first entry member
    | cons one rest => exact ahead.first entry member
  blanks := List.forall_mem_append.mpr ⟨ahead.blanks, behind.blanks⟩

theorem open_flatMap {α : Type} {f : α → List (Block × Nat)} {xs : List α}
    (each : ∀ x ∈ xs, Open (f x)) : Open (xs.flatMap f) := by
  induction xs with
  | nil => exact open_nil
  | cons x xs ih =>
    obtain ⟨first, later⟩ := List.forall_mem_cons.mp each
    rw [List.flatMap_cons]
    exact open_append first (ih later)

theorem open_section {heading block : Block} (first : heading.isList = false) (n m : Nat) :
    Open [(heading, n + 1), (block, m + 1)] where
  apart := by
    refine .cons_cons ⟨Nat.succ_pos n, ?_⟩ (.singleton _)
    rintro ⟨list, -⟩
    rw [first] at list
    cases list
  first := by simpa using first
  blanks := by simp

def withoutLast : List (Block × Nat) → List (Block × Nat)
  | [] => []
  | [(block, _)] => [(block, 0)]
  | entry :: rest => entry :: withoutLast rest

theorem rdropWhile_breaks {text : Str} {c : Char} (end_ : c ≠ '\n') (n : Nat) :
    (text ++ [c] ++ List.replicate n '\n').rdropWhile (· == '\n') = text ++ [c] := by
  induction n with
  | zero => simp [List.rdropWhile_concat_neg, end_]
  | succ n ih =>
    rw [List.replicate_succ', ← List.append_assoc, List.rdropWhile_concat_pos _ _ _ rfl]
    exact ih

theorem block_ends {block : Block} (plain : block.Plain) :
    ∃ lines line c, block.lines = lines ++ [line ++ [c]] ∧ c ≠ '\n' := by
  have text {line : Str} (text : TextLine line) (mark : Str) :
      ∃ before c, mark ++ line = before ++ [c] ∧ c ≠ '\n' := by
    obtain ⟨first, more, rfl, -⟩ := textLine_head text
    obtain ⟨before, c, whole⟩ := List.eq_nil_or_concat' (first :: more) |>.resolve_left (List.cons_ne_nil _ _)
    refine ⟨mark ++ before, c, by rw [whole, List.append_assoc], ?_⟩
    exact (text.one c (by simp [whole])).1
  cases block with
  | heading level raw =>
    rcases List.eq_nil_or_concat' raw with rfl | ⟨before, c, rfl⟩
    · exact ⟨[], List.replicate level '#', ' ', by simp [Block.lines], by decide⟩
    · refine ⟨[], List.replicate level '#' ++ ' ' :: before, c, by simp [Block.lines], ?_⟩
      rintro rfl
      exact absurd (plain.2.2 '\n' (by simp) (by decide)) (by decide)
  | paragraph line =>
    obtain ⟨before, c, whole, end_⟩ := text plain []
    exact ⟨[], before, c, by rw [Block.lines, ← whole]; rfl, end_⟩
  | bullets items =>
    obtain ⟨first, last, rfl⟩ := List.eq_nil_or_concat' items |>.resolve_left plain.1
    obtain ⟨line, nested⟩ := plain.2 last (by simp)
    rw [Block.lines, List.flatMap_append, List.flatMap_singleton]
    rcases List.eq_nil_or_concat' last.nested with none_ | ⟨others, final, whole⟩
    · obtain ⟨before, c, same, end_⟩ := text line bullet
      exact ⟨_, before, c, by rw [Item.lines, none_, same]; rfl, end_⟩
    · obtain ⟨before, c, same, end_⟩ := text (nested final (by simp [whole])) nestedBullet
      refine ⟨first.flatMap Item.lines ++ (bullet ++ last.line) :: others.map (nestedBullet ++ ·), before, c, ?_, end_⟩
      rw [Item.lines, whole, List.map_append, List.map_singleton, same]
      simp

theorem withoutLast_concat (doc : List (Block × Nat)) (block : Block) (n : Nat) :
    withoutLast (doc ++ [(block, n)]) = doc ++ [(block, 0)] := by
  induction doc with
  | nil => rfl
  | cons entry doc ih =>
    rw [List.cons_append, withoutLast, ih, List.cons_append]
    simp

theorem docText_trimmed (some_ : doc ≠ []) (plain : ∀ entry ∈ doc, entry.1.Plain) :
    (docText doc).rdropWhile (· == '\n') ++ ['\n'] = docText (withoutLast doc) := by
  obtain ⟨first, ⟨block, n⟩, rfl⟩ := List.eq_nil_or_concat' doc |>.resolve_left some_
  obtain ⟨lines, line, c, whole, end_⟩ := block_ends (plain (block, n) (by simp))
  have text (m : Nat) : docText (first ++ [(block, m)]) =
      (docText first ++ unlines lines ++ line) ++ [c] ++ List.replicate (m + 1) '\n' := by
    have breaks : unlines (List.replicate m []) = List.replicate m '\n' := by
      induction m with
      | zero => rfl
      | succ m ih =>
        rw [List.replicate_succ, List.replicate_succ, ← ih]
        rfl
    have last : docText [(block, m)] = unlines block.lines ++ List.replicate m '\n' := by
      rw [docText, docLines, List.flatMap_singleton, unlines_append, breaks]
    rw [docText_append, last, whole, unlines_append, List.replicate_succ]
    simp [unlines]
  rw [withoutLast_concat, text, text, rdropWhile_breaks end_]
  rfl

theorem withoutLast_fst (doc : List (Block × Nat)) : (withoutLast doc).map Prod.fst = doc.map Prod.fst := by
  rcases List.eq_nil_or_concat' doc with rfl | ⟨first, ⟨block, n⟩, rfl⟩
  · rfl
  · rw [withoutLast_concat]
    simp

theorem withoutLast_plain (plain : Plain doc) : Plain (withoutLast doc) := by
  rcases List.eq_nil_or_concat' doc with rfl | ⟨first, ⟨block, n⟩, rfl⟩
  · exact plain
  · obtain ⟨blocks, apart⟩ := plain
    rw [withoutLast_concat]
    rw [List.forall_mem_append, List.forall_mem_singleton] at blocks
    rw [List.isChain_append] at apart
    obtain ⟨before, -, between⟩ := apart
    refine ⟨List.forall_mem_append.mpr ⟨blocks.1, List.forall_mem_singleton.mpr blocks.2⟩, ?_⟩
    rw [List.isChain_append]
    refine ⟨before, .singleton _, ?_⟩
    intro last there next here
    cases here
    exact between last there (block, n) rfl

end Documents
end DevopsCli.Markdown
