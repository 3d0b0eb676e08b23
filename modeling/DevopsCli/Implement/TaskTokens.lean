import DevopsCli.Lib.CodeSpans
import DevopsCli.Lib.Markdown
import DevopsCli.Implement.StepFiles

/- What parse_task_groups of roadmap/step_files.py reads in a document whose blocks stand apart. What
   CommonMark gives for such a document is said once, of the reader that comes from outside; the
   numbers of the lines are left open. -/
namespace DevopsCli.Implement.TaskTokens
open PyStr StepFiles Markdown CodeSpans

abbrev Token := StepFiles.Token

def erase (token : Token) : Token := { token with map := token.map.map fun _ => (0, 0) }

def opens (type tag : String) (level : Nat) : Token :=
  { type := type, tag := tag, level := level, map := some (0, 0) }

def closes (type tag : String) (level : Nat) : Token := { type := type, tag := tag, level := level }

def headingTag : Nat → String
  | 1 => "h1"
  | 2 => "h2"
  | 3 => "h3"
  | 4 => "h4"
  | 5 => "h5"
  | _ => "h6"

def lineText (line : Str) : Str := withoutNul (trimEnd line)

def titleText (raw : Str) : Str := withoutNul (headingText raw)

section Tokens
variable (inline_ : Str → List Span)

def inlineToken (level : Nat) (content : Str) : Token :=
  { type := "inline", level := level, map := some (0, 0), content := content
    children := inline_ content }

def paragraphTokens (level : Nat) (line : Str) : List Token :=
  [opens "paragraph_open" "p" level, inlineToken inline_ (level + 1) (lineText line),
    closes "paragraph_close" "p" level]

def nestedItemTokens (line : Str) : List Token :=
  opens "list_item_open" "li" 3 :: paragraphTokens inline_ 4 line ++ [closes "list_item_close" "li" 3]

def nestedTokens (lines : List Str) : List Token :=
  if lines = [] then []
  else opens "bullet_list_open" "ul" 2 :: lines.flatMap (nestedItemTokens inline_) ++
    [closes "bullet_list_close" "ul" 2]

def itemTokens (item : Item) : List Token :=
  opens "list_item_open" "li" 1 :: (paragraphTokens inline_ 2 item.line ++ nestedTokens inline_ item.nested) ++
    [closes "list_item_close" "li" 1]

def blockTokens : Block → List Token
  | .heading level raw =>
    [opens "heading_open" (headingTag level) 0, inlineToken inline_ 1 (titleText raw),
      closes "heading_close" (headingTag level) 0]
  | .paragraph line => paragraphTokens inline_ 0 line
  | .bullets items =>
    opens "bullet_list_open" "ul" 0 :: items.flatMap (itemTokens inline_) ++
      [closes "bullet_list_close" "ul" 0]

def codes (content : Str) : List Str :=
  ((inline_ content).filter (·.type = "code_inline")).map (·.content)

/-- What markdown-it makes of a document whose blocks stand apart, as CommonMark says it. The tokens
    of an inline text are a function of the text: no link definition is in such a document. -/
structure CommonMark (reader : Reader) : Prop where
  blocks : ∀ doc, Plain doc →
    (reader.parse (docText doc)).map erase = doc.flatMap fun entry => blockTokens inline_ entry.1
  spans : ∀ text, ∀ code ∈ codes inline_ text, CodeSpan text code
  oneSpan : ∀ {before inner after}, OneSpan before inner after →
    codes inline_ (oneSpan before inner after) = [unbroken inner]

end Tokens

section Erase
variable {reader : Reader} {tokens : List Token}

structure TaskView where
  text : Str
  ticked : Bool
  verification : List Str
  deriving DecidableEq

structure GroupView where
  number : Nat
  title : Str
  tasks : List TaskView
  deriving DecidableEq

def taskView (task : GroupTask) : TaskView := ⟨task.text, task.ticked, task.verification⟩

def groupView (group : TaskGroup) : GroupView := ⟨group.number, group.title, group.tasks.map taskView⟩

theorem zipIdx_erase (tokens : List Token) (k : Nat) :
    (tokens.map erase).zipIdx k = (tokens.zipIdx k).map fun entry => (erase entry.1, entry.2) := by
  induction tokens generalizing k with
  | nil => rfl
  | cons token rest ih => simp [List.zipIdx_cons, ih]

theorem listItemsFrom_erase (tokens : List Token) (start : Nat) (rest : List (Token × Nat)) :
    listItemsFrom (tokens.map erase) start (rest.map fun entry => (erase entry.1, entry.2)) =
      (listItemsFrom tokens start rest).map (List.map erase) := by
  induction rest generalizing start with
  | nil => rfl
  | cons entry rest ih =>
    obtain ⟨token, index⟩ := entry
    have type : (erase token).type = token.type := rfl
    have level : (erase token).level = token.level := rfl
    rw [List.map_cons, listItemsFrom, listItemsFrom, type, level]
    split
    · exact ih index
    split
    · rw [ih, List.map_cons, List.map_take, List.map_drop]
    · exact ih start

theorem listItems_erase (tokens : List Token) :
    listItems (tokens.map erase) = (listItems tokens).map (List.map erase) := by
  unfold listItems
  rw [zipIdx_erase, listItemsFrom_erase]

theorem taskOf_erase (item : List Token) :
    (taskOf (item.map erase)).map taskView = (taskOf item).map taskView := by
  have inlines : (item.map erase).filter (·.type = "inline") =
      (item.filter (·.type = "inline")).map erase := by
    rw [List.filter_map]
    rfl
  unfold taskOf
  rw [inlines]
  cases item.filter (·.type = "inline") with
  | nil => rfl
  | cons first rest =>
    have checks : (rest.map erase).filter (fun line => verificationMark.isPrefixOf line.content) =
        (rest.filter fun line => verificationMark.isPrefixOf line.content).map erase := by
      rw [List.filter_map]
      rfl
    have content : (erase first).content = first.content := rfl
    simp only [List.map_cons, checks, content, List.flatMap_map]
    split
    · rfl
    · rfl

theorem tasks_erase (tokens : List Token) :
    ((listItems (tokens.map erase)).filterMap taskOf).map taskView =
      ((listItems tokens).filterMap taskOf).map taskView := by
  rw [listItems_erase, List.map_filterMap, List.filterMap_map, List.map_filterMap]
  exact List.filterMap_congr fun item _ => taskOf_erase item

def place (heading : Heading) : Nat × Str := (heading.index, heading.text)

theorem headings_erase (tokens : List Token) (tag : String) :
    (headings (tokens.map erase) tag).map place = (headings tokens tag).map place := by
  unfold headings
  rw [zipIdx_erase, List.filterMap_map, List.map_filterMap, List.map_filterMap]
  apply List.filterMap_congr
  rintro ⟨token, index⟩ _
  have next : ((tokens.map erase)[index + 1]?).map (·.content) = (tokens[index + 1]?).map (·.content) := by
    rw [List.getElem?_map, Option.map_map]
    rfl
  simp only [Function.comp_apply, next, erase]
  split
  · rw [Option.map_map, Option.map_map, Option.map_map]
    rfl
  · rfl

theorem endOf_erase (lines lines' : List Str) {later later' : List Heading}
    (same : later'.map place = later.map place) :
    (endOf (tokens.map erase) lines' later').1 = (endOf tokens lines later).1 := by
  cases later with
  | nil =>
    obtain rfl := List.map_eq_nil_iff.mp same
    exact List.length_map ..
  | cons next rest =>
    cases later' with
    | nil => cases same
    | cons next' rest' =>
      have first : next'.index = next.index := congrArg Prod.fst (List.cons_eq_cons.mp same).1
      exact first

theorem cons_view (groups : Option (List TaskGroup)) (group : TaskGroup) :
    (groups.map (group :: ·)).map (List.map groupView) =
      (groups.map (List.map groupView)).map (groupView group :: ·) := by
  rw [Option.map_map, Option.map_map]
  rfl

theorem groupsOf_erase (lines lines' : List Str) {found found' : List Heading}
    (same : found'.map place = found.map place) :
    (groupsOf reader (tokens.map erase) lines' found').map (List.map groupView) =
      (groupsOf reader tokens lines found).map (List.map groupView) := by
  induction found generalizing found' with
  | nil =>
    obtain rfl := List.map_eq_nil_iff.mp same
    rfl
  | cons heading later ih =>
    cases found' with
    | nil => cases same
    | cons heading' later' =>
      obtain ⟨here, rest⟩ := List.cons_eq_cons.mp same
      have index : heading'.index = heading.index := congrArg Prod.fst here
      have text : heading'.text = heading.text := congrArg Prod.snd here
      have more := ih rest
      unfold groupsOf
      rw [text]
      split
      · exact more
      · next number title _ =>
        split
        · exact more
        · rw [Option.map_bind, Option.map_bind]
          apply Option.bind_congr
          intro n _
          simp only [Function.comp_apply]
          rw [cons_view, cons_view, more, index, endOf_erase lines lines' rest]
          simp only [groupView, ← List.map_drop, ← List.map_take, tasks_erase]

end Erase

section Items
variable (inline_ : Str → List Span)

def IsBound (token : Token) : Prop :=
  (token.type = "list_item_open" ∨ token.type = "list_item_close") ∧ token.level = 1

theorem listItemsFrom_skip (all : List Token) (start k : Nat) {tokens : List Token}
    (inside : ∀ token ∈ tokens, ¬IsBound token) (rest : List (Token × Nat)) :
    listItemsFrom all start (tokens.zipIdx k ++ rest) = listItemsFrom all start rest := by
  induction tokens generalizing k with
  | nil => rfl
  | cons token tokens ih =>
    obtain ⟨other, more⟩ := List.forall_mem_cons.mp inside
    rw [List.zipIdx_cons, List.cons_append, listItemsFrom, if_neg fun open_ => other ⟨.inl open_.1, open_.2⟩,
      if_neg fun close => other ⟨.inr close.1, close.2⟩]
    exact ih (k + 1) more

theorem listItemsFrom_item (before inside later : List Token) (start : Nat) (rest : List (Token × Nat))
    (plain : ∀ token ∈ inside, ¬IsBound token) :
    let item := opens "list_item_open" "li" 1 :: inside ++ [closes "list_item_close" "li" 1]
    listItemsFrom (before ++ item ++ later) start (item.zipIdx before.length ++ rest) =
      item :: listItemsFrom (before ++ item ++ later) before.length rest := by
  intro item
  have whole : item.zipIdx before.length ++ rest =
      (opens "list_item_open" "li" 1, before.length) :: (inside.zipIdx (before.length + 1) ++
        (closes "list_item_close" "li" 1, before.length + 1 + inside.length) :: rest) := by
    simp [item, List.zipIdx_cons, List.zipIdx_append]
  rw [whole, listItemsFrom, if_pos ⟨rfl, rfl⟩, listItemsFrom_skip _ _ _ plain, listItemsFrom,
    if_neg fun open_ => absurd open_.1 (by decide), if_pos ⟨rfl, rfl⟩]
  congr 1
  have length : before.length + 1 + inside.length + 1 - before.length = item.length := by
    simp [item]
    omega
  rw [length, List.append_assoc, List.drop_left, List.take_left]

theorem nested_plain (lines : List Str) : ∀ token ∈ nestedTokens inline_ lines, ¬IsBound token := by
  intro token member bound
  unfold nestedTokens at member
  split at member
  · cases member
  · have level : token.level ≠ 1 := by
      rcases List.mem_append.mp member with inside | last
      · rcases List.mem_cons.mp inside with rfl | inside
        · decide
        · obtain ⟨line, _, here⟩ := List.mem_flatMap.mp inside
          simp only [nestedItemTokens, paragraphTokens, List.cons_append, List.nil_append,
            List.mem_cons, List.not_mem_nil, or_false] at here
          rcases here with rfl | rfl | rfl | rfl | rfl
          all_goals simp [opens, closes, inlineToken]
      · rw [List.mem_singleton.mp last]
        decide
    exact level bound.2

theorem item_plain (item : Item) :
    ∀ token ∈ paragraphTokens inline_ 2 item.line ++ nestedTokens inline_ item.nested, ¬IsBound token := by
  intro token member
  rcases List.mem_append.mp member with paragraph | nested
  · intro bound
    simp only [paragraphTokens, List.mem_cons, List.not_mem_nil, or_false] at paragraph
    rcases paragraph with rfl | rfl | rfl
    all_goals simp [IsBound, opens, closes, inlineToken] at bound
  · exact nested_plain inline_ _ token nested

theorem listItemsFrom_items (items : List Item) (before later : List Token) (start : Nat) :
    ∃ start', listItemsFrom (before ++ items.flatMap (itemTokens inline_) ++ later) start
        ((items.flatMap (itemTokens inline_) ++ later).zipIdx before.length) =
      items.map (itemTokens inline_) ++
        listItemsFrom (before ++ items.flatMap (itemTokens inline_) ++ later) start'
          (later.zipIdx (before.length + (items.flatMap (itemTokens inline_)).length)) := by
  induction items generalizing before start with
  | nil => exact ⟨start, by simp⟩
  | cons item items ih =>
    obtain ⟨start', rest⟩ := ih (before ++ itemTokens inline_ item) before.length
    refine ⟨start', ?_⟩
    have all : before ++ (item :: items).flatMap (itemTokens inline_) ++ later =
        before ++ itemTokens inline_ item ++ (items.flatMap (itemTokens inline_) ++ later) := by
      simp
    have lengths : before.length + ((item :: items).flatMap (itemTokens inline_)).length =
        (before ++ itemTokens inline_ item).length + (items.flatMap (itemTokens inline_)).length := by
      simp
      omega
    have first := listItemsFrom_item before _ (items.flatMap (itemTokens inline_) ++ later) start
      ((items.flatMap (itemTokens inline_) ++ later).zipIdx (before ++ itemTokens inline_ item).length)
      (item_plain inline_ item)
    rw [all, lengths, List.map_cons, List.cons_append]
    rw [List.append_assoc _ _ later] at rest
    rw [← rest, List.flatMap_cons, List.append_assoc (itemTokens inline_ item), List.zipIdx_append,
      ← List.length_append]
    exact first

def itemsOf : Block → List Item
  | .bullets items => items
  | _ => []

theorem skip_append (all : List Token) (start k : Nat) {tokens : List Token}
    (plain : ∀ token ∈ tokens, ¬IsBound token) (later : List Token) :
    listItemsFrom all start ((tokens ++ later).zipIdx k) =
      listItemsFrom all start (later.zipIdx (k + tokens.length)) := by
  rw [List.zipIdx_append, listItemsFrom_skip all start k plain]

theorem block_plain {block : Block} (single : block.isList = false) :
    ∀ token ∈ blockTokens inline_ block, ¬IsBound token := by
  intro token member bound
  cases block with
  | heading level raw =>
    simp only [blockTokens, List.mem_cons, List.not_mem_nil, or_false] at member
    rcases member with rfl | rfl | rfl
    all_goals simp [IsBound, opens, closes, inlineToken] at bound
  | paragraph line =>
    simp only [blockTokens, paragraphTokens, List.mem_cons, List.not_mem_nil, or_false] at member
    rcases member with rfl | rfl | rfl
    all_goals simp [IsBound, opens, closes, inlineToken] at bound
  | bullets items => cases single

theorem listItemsFrom_blocks (blocks : List Block) (before : List Token) (start : Nat) :
    listItemsFrom (before ++ blocks.flatMap (blockTokens inline_)) start
        ((blocks.flatMap (blockTokens inline_)).zipIdx before.length) =
      (blocks.flatMap itemsOf).map (itemTokens inline_) := by
  induction blocks generalizing before start with
  | nil => rfl
  | cons block blocks ih =>
    rw [List.flatMap_cons, List.flatMap_cons, List.map_append]
    by_cases single : block.isList = false
    · have rest := ih (before ++ blockTokens inline_ block) start
      have none_ : itemsOf block = [] := by
        cases block with
        | bullets items => cases single
        | _ => rfl
      rw [skip_append _ _ _ (block_plain inline_ single), none_, ← List.append_assoc,
        ← List.length_append, rest]
      rfl
    · cases block with
      | heading level raw => exact absurd rfl single
      | paragraph line => exact absurd rfl single
      | bullets items =>
        let first := opens "bullet_list_open" "ul" 0
        let last := closes "bullet_list_close" "ul" 0
        have start_ : ∀ token ∈ [first], ¬IsBound token := by simp [first, IsBound, opens]
        have end_ : ∀ token ∈ [last], ¬IsBound token := by simp [last, IsBound, closes]
        have tokens : blockTokens inline_ (.bullets items) =
            [first] ++ items.flatMap (itemTokens inline_) ++ [last] := rfl
        generalize later : blocks.flatMap (blockTokens inline_) = more at ih
        obtain ⟨start', found⟩ := listItemsFrom_items inline_ items (before ++ [first]) ([last] ++ more) start
        have all : before ++ (blockTokens inline_ (.bullets items) ++ more) =
            before ++ [first] ++ items.flatMap (itemTokens inline_) ++ ([last] ++ more) := by
          simp [tokens]
        have second : blockTokens inline_ (.bullets items) ++ more =
            [first] ++ (items.flatMap (itemTokens inline_) ++ ([last] ++ more)) := by
          simp [tokens]
        have rest := ih (before ++ blockTokens inline_ (.bullets items)) start'
        rw [List.append_assoc] at rest
        rw [← all] at found
        generalize before ++ (blockTokens inline_ (.bullets items) ++ more) = whole at rest found ⊢
        have lengths : before.length + [first].length = (before ++ [first]).length := by simp
        have closed : (before ++ [first]).length + (items.flatMap (itemTokens inline_)).length +
            [last].length = (before ++ blockTokens inline_ (.bullets items)).length := by
          simp [tokens]
          omega
        rw [second, skip_append _ _ _ start_, lengths, found, skip_append _ _ _ end_, closed, rest]
        rfl

def itemTask (item : Item) : Option TaskView :=
  let text := lineText item.line
  let mark := text.take 3
  if mark ∉ checkboxes then none
  else
    let checks := (item.nested.map lineText).filter verificationMark.isPrefixOf
    some
      { text := text
        ticked := mark ≠ box
        verification := ((checks.flatMap (codes inline_)).filter commandMark.isPrefixOf).map
          (·.drop commandMark.length) }

theorem nested_inlines (lines : List Str) :
    (nestedTokens inline_ lines).filter (·.type = "inline") =
      lines.map fun line => inlineToken inline_ 5 (lineText line) := by
  have each : (lines.flatMap (nestedItemTokens inline_)).filter (·.type = "inline") =
      lines.map fun line => inlineToken inline_ 5 (lineText line) := by
    induction lines with
    | nil => rfl
    | cons line lines ih =>
      rw [List.flatMap_cons, List.filter_append, ih]
      rfl
  unfold nestedTokens
  split
  · next none_ =>
    subst none_
    rfl
  · rw [List.filter_append, List.filter_cons_of_neg (by decide), each]
    simp [closes]

theorem item_inlines (item : Item) :
    (itemTokens inline_ item).filter (·.type = "inline") =
      inlineToken inline_ 3 (lineText item.line) ::
        item.nested.map fun line => inlineToken inline_ 5 (lineText line) := by
  unfold itemTokens
  rw [List.filter_append, List.filter_cons_of_neg (by decide), List.filter_append, nested_inlines]
  simp [paragraphTokens, opens, closes, inlineToken]

theorem taskOf_item (item : Item) :
    (taskOf (itemTokens inline_ item)).map taskView = itemTask inline_ item := by
  have checks : (item.nested.map fun line => inlineToken inline_ 5 (lineText line)).filter
        (fun line => verificationMark.isPrefixOf line.content) =
      ((item.nested.map lineText).filter verificationMark.isPrefixOf).map (inlineToken inline_ 5) := by
    have lines : item.nested.map (fun line => inlineToken inline_ 5 (lineText line)) =
        (item.nested.map lineText).map (inlineToken inline_ 5) := by
      rw [List.map_map]
      rfl
    rw [lines, List.filter_map]
    rfl
  have first : (inlineToken inline_ 3 (lineText item.line)).content = lineText item.line := rfl
  unfold taskOf itemTask
  simp only [item_inlines, checks, first, List.flatMap_map]
  split
  · rfl
  · rfl

theorem listItems_tasks (blocks : List Block) :
    ((listItems (blocks.flatMap (blockTokens inline_))).filterMap taskOf).map taskView =
      (blocks.flatMap itemsOf).filterMap (itemTask inline_) := by
  have items := listItemsFrom_blocks inline_ blocks [] 0
  rw [List.nil_append, List.length_nil] at items
  rw [listItems, items, List.map_filterMap, List.filterMap_map]
  exact List.filterMap_congr fun item _ => taskOf_item inline_ item

end Items

section Sections
variable {inline_ : Str → List Span} {reader : Reader}

def isSection : Block → Bool
  | .heading 2 _ => true
  | _ => false

/-- The sections of blocks: the text of a heading of the second level, and the blocks up to the
    next one. -/
def sectionsOf : List Block → List (Str × List Block)
  | [] => []
  | .heading 2 raw :: rest => (titleText raw, rest.takeWhile (!isSection ·)) :: sectionsOf rest
  | _ :: rest => sectionsOf rest

variable (inline_ reader)

def groupsIn : List (Str × List Block) → Option (List GroupView)
  | [] => some []
  | (heading, blocks) :: later =>
    match partition ". ".toList heading with
    | none => groupsIn later
    | some (number, title) =>
      if isdigit reader number = false then groupsIn later
      else
        (int reader number).bind fun number =>
          (groupsIn later).map fun groups =>
            ⟨number, title, (blocks.flatMap itemsOf).filterMap (itemTask inline_)⟩ :: groups

variable {inline_ reader}

def headingsFrom (all : List Token) (k : Nat) (tokens : List Token) : List Heading :=
  (tokens.zipIdx k).filterMap fun entry =>
    if entry.1.type = "heading_open" ∧ entry.1.tag = "h2" ∧ entry.1.level = 0 then
      entry.1.map.map fun lines =>
        ⟨entry.2, lines.1, ((all[entry.2 + 1]?).map (·.content)).getD []⟩
    else none

theorem headings_from (tokens : List Token) : headings tokens "h2" = headingsFrom tokens 0 tokens := rfl

theorem headingsFrom_skip (all : List Token) (k : Nat) {tokens : List Token}
    (plain : ∀ token ∈ tokens, ¬(token.type = "heading_open" ∧ token.tag = "h2")) (later : List Token) :
    headingsFrom all k (tokens ++ later) = headingsFrom all (k + tokens.length) later := by
  unfold headingsFrom
  rw [List.zipIdx_append, List.filterMap_append, List.filterMap_eq_nil_iff.mpr, List.nil_append]
  rintro ⟨token, index⟩ member
  have other := plain token (List.fst_mem_of_mem_zipIdx member)
  exact if_neg fun heading => other ⟨heading.1, heading.2.1⟩

theorem isSection_iff {block : Block} : isSection block = true ↔ ∃ raw, block = .heading 2 raw := by
  unfold isSection
  split
  · next raw => exact iff_of_true rfl ⟨raw, rfl⟩
  · next other =>
    refine iff_of_false Bool.false_ne_true ?_
    rintro ⟨raw, rfl⟩
    exact other raw rfl

theorem headingTag_two {level : Nat} (tag : headingTag level = "h2") : level = 2 := by
  unfold headingTag at tag
  split at tag
  all_goals first | rfl | exact absurd tag (by decide)

theorem item_type (item : Item) :
    ∀ token ∈ itemTokens inline_ item, token.type ≠ "heading_open" := by
  intro token member
  rcases List.mem_append.mp member with inside | last
  · rcases List.mem_cons.mp inside with rfl | inside
    · decide
    · rcases List.mem_append.mp inside with paragraph | nested
      · simp only [paragraphTokens, List.mem_cons, List.not_mem_nil, or_false] at paragraph
        rcases paragraph with rfl | rfl | rfl
        all_goals simp [opens, closes, inlineToken]
      · unfold nestedTokens at nested
        split at nested
        · cases nested
        · rcases List.mem_append.mp nested with inside | last
          · rcases List.mem_cons.mp inside with rfl | inside
            · decide
            · obtain ⟨line, _, here⟩ := List.mem_flatMap.mp inside
              simp only [nestedItemTokens, paragraphTokens, List.cons_append, List.nil_append,
                List.mem_cons, List.not_mem_nil, or_false] at here
              rcases here with rfl | rfl | rfl | rfl | rfl
              all_goals simp [opens, closes, inlineToken]
          · rw [List.mem_singleton.mp last]
            decide
  · rw [List.mem_singleton.mp last]
    decide

theorem block_headings {block : Block} (other : isSection block = false) :
    ∀ token ∈ blockTokens inline_ block, ¬(token.type = "heading_open" ∧ token.tag = "h2") := by
  rintro token member ⟨type, tag⟩
  cases block with
  | heading level raw =>
    have two : level ≠ 2 := by
      rintro rfl
      cases other
    simp only [blockTokens, List.mem_cons, List.not_mem_nil, or_false] at member
    rcases member with rfl | rfl | rfl
    · exact two (headingTag_two tag)
    · exact absurd type (by simp [inlineToken])
    · exact absurd type (by simp [closes])
  | paragraph line =>
    simp only [blockTokens, paragraphTokens, List.mem_cons, List.not_mem_nil, or_false] at member
    rcases member with rfl | rfl | rfl
    all_goals simp [opens, closes, inlineToken] at type
  | bullets items =>
    rcases List.mem_append.mp member with inside | last
    · rcases List.mem_cons.mp inside with rfl | inside
      · exact absurd type (by simp [opens])
      · obtain ⟨item, _, here⟩ := List.mem_flatMap.mp inside
        exact item_type item token here type
    · rw [List.mem_singleton.mp last] at type
      exact absurd type (by simp [closes])

theorem headingsFrom_section (before later : List Token) (raw : Str) :
    let own := blockTokens inline_ (.heading 2 raw)
    headingsFrom (before ++ own ++ later) before.length (own ++ later) =
      ⟨before.length, 0, titleText raw⟩ ::
        headingsFrom (before ++ own ++ later) (before ++ own).length later := by
  intro own
  have rest : ∀ token ∈ own.tail, ¬(token.type = "heading_open" ∧ token.tag = "h2") := by
    simp [own, blockTokens, inlineToken, closes]
  have title : ((before ++ own ++ later)[before.length + 1]?).map (·.content) = some (titleText raw) := by
    rw [List.append_assoc, List.getElem?_append_right (Nat.le_add_right ..), Nat.add_sub_cancel_left]
    rfl
  have later_ := headingsFrom_skip (before ++ own ++ later) (before.length + 1) rest later
  have lengths : before.length + 1 + own.tail.length = (before ++ own).length := by
    simp [own, blockTokens]
  rw [lengths] at later_
  rw [← later_]
  unfold headingsFrom
  have first : own ++ later = opens "heading_open" "h2" 0 :: (own.tail ++ later) := rfl
  rw [first, List.zipIdx_cons, List.filterMap_cons_some]
  rw [if_pos ⟨rfl, rfl, rfl⟩]
  simp only
  rw [title]
  rfl

theorem endOf_blocks (blocks : List Block) (before : List Token) (lines : List Str) :
    (endOf (before ++ blocks.flatMap (blockTokens inline_)) lines
        (headingsFrom (before ++ blocks.flatMap (blockTokens inline_)) before.length
          (blocks.flatMap (blockTokens inline_)))).1 =
      before.length + ((blocks.takeWhile (!isSection ·)).flatMap (blockTokens inline_)).length := by
  induction blocks generalizing before with
  | nil => simp [headingsFrom, endOf]
  | cons block blocks ih =>
    rw [List.flatMap_cons]
    cases kind : isSection block with
    | true =>
      obtain ⟨raw, rfl⟩ := isSection_iff.mp kind
      rw [← List.append_assoc, headingsFrom_section, endOf, List.takeWhile_cons_of_neg (by simp [kind])]
      rfl
    | false =>
      have rest := ih (before ++ blockTokens inline_ block)
      rw [headingsFrom_skip _ _ (block_headings kind), ← List.append_assoc, ← List.length_append, rest,
        List.takeWhile_cons_of_pos (by simp [kind]), List.flatMap_cons]
      simp only [List.length_append, Nat.add_assoc]

theorem sectionsOf_skip {block : Block} (other : isSection block = false) (rest : List Block) :
    sectionsOf (block :: rest) = sectionsOf rest := by
  rw [sectionsOf]
  intro raw same
  rw [same] at other
  cases other

theorem groupsOf_blocks (blocks : List Block) (before : List Token) (lines : List Str) :
    (groupsOf reader (before ++ blocks.flatMap (blockTokens inline_)) lines
        (headingsFrom (before ++ blocks.flatMap (blockTokens inline_)) before.length
          (blocks.flatMap (blockTokens inline_)))).map (List.map groupView) =
      groupsIn inline_ reader (sectionsOf blocks) := by
  induction blocks generalizing before with
  | nil => rfl
  | cons block blocks ih =>
    have rest := ih (before ++ blockTokens inline_ block)
    rw [List.flatMap_cons]
    cases kind : isSection block with
    | false =>
      rw [headingsFrom_skip _ _ (block_headings kind), ← List.append_assoc, ← List.length_append, rest,
        sectionsOf_skip kind]
    | true =>
      obtain ⟨raw, rfl⟩ := isSection_iff.mp kind
      have ends := @endOf_blocks inline_ blocks (before ++ blockTokens inline_ (.heading 2 raw)) lines
      rw [← List.append_assoc, headingsFrom_section, sectionsOf, groupsOf, groupsIn]
      cases partition ". ".toList (titleText raw) with
      | none => exact rest
      | some parts =>
        obtain ⟨number, title⟩ := parts
        simp only
        split
        · exact rest
        · rw [Option.map_bind]
          apply Option.bind_congr
          intro n _
          let own := Block.heading 2 raw :: blocks.takeWhile (!isSection ·)
          have body : own.flatMap (blockTokens inline_) = blockTokens inline_ (.heading 2 raw) ++
              (blocks.takeWhile (!isSection ·)).flatMap (blockTokens inline_) := List.flatMap_cons
          have split_ : blockTokens inline_ (.heading 2 raw) ++ blocks.flatMap (blockTokens inline_) =
              own.flatMap (blockTokens inline_) ++
                (blocks.dropWhile (!isSection ·)).flatMap (blockTokens inline_) := by
            rw [body, List.append_assoc, ← List.flatMap_append, List.takeWhile_append_dropWhile]
          have section_ : ((before ++ blockTokens inline_ (.heading 2 raw) ++
                blocks.flatMap (blockTokens inline_)).drop before.length).take
                ((before ++ blockTokens inline_ (.heading 2 raw)).length +
                  ((blocks.takeWhile (!isSection ·)).flatMap (blockTokens inline_)).length - before.length) =
              own.flatMap (blockTokens inline_) := by
            have length : (before ++ blockTokens inline_ (.heading 2 raw)).length +
                ((blocks.takeWhile (!isSection ·)).flatMap (blockTokens inline_)).length - before.length =
                (own.flatMap (blockTokens inline_)).length := by
              rw [body, List.length_append, List.length_append]
              omega
            rw [length, List.append_assoc, List.drop_left, split_, List.take_left]
          simp only [Function.comp_apply]
          rw [cons_view, rest, ends, section_]
          have items : own.flatMap itemsOf = (blocks.takeWhile (!isSection ·)).flatMap itemsOf := rfl
          rw [groupView, listItems_tasks, items]

theorem parseTaskGroups_docText (commonMark : CommonMark inline_ reader) {doc : List (Block × Nat)}
    (plain : Plain doc) :
    (parseTaskGroups reader (docText doc)).map (List.map groupView) =
      groupsIn inline_ reader (sectionsOf (doc.map Prod.fst)) := by
  have tokens := commonMark.blocks doc plain
  have blocks : doc.flatMap (fun entry => blockTokens inline_ entry.1) =
      (doc.map Prod.fst).flatMap (blockTokens inline_) := (List.flatMap_map ..).symm
  have read := @groupsOf_blocks inline_ reader (doc.map Prod.fst) [] []
  rw [List.nil_append, List.length_nil, ← headings_from, ← blocks, ← tokens] at read
  rw [← read]
  exact (groupsOf_erase _ _ (headings_erase _ _)).symm

end Sections
end DevopsCli.Implement.TaskTokens
