import DevopsCli.Lib.PyWords
import DevopsCli.Implement.StepFiles
import DevopsCli.Roadmap.BodyHash

/- The acceptance criteria of an issue, roadmap/stage/stage_criteria.py. The tokens of markdown-it
   come from outside. -/
namespace DevopsCli.Roadmap.StageCriteria
open PyStr Implement.StepFiles

abbrev Token := Implement.StepFiles.Token

def isInline (token : Token) : Bool := token.type == "inline"

def withoutRefineBlock (body : Str) : Str :=
  match Text.find body BodyHash.refineStart with
  | none => body
  | some start =>
    let after :=
      match Text.find (body.drop start) Sanitize.refineEndMarker with
      | none => []
      | some end_ => body.drop (start + end_ + Sanitize.refineEndMarker.length)
    body.take start ++ '\n' :: after

/-- A letter as a match without case reads it: the dotted and the dotless i of Turkish are an i
    too. -/
def foldLetter (c : Char) : Char :=
  if c.toNat = 0x130 ∨ c.toNat = 0x131 then 'i' else c.toLower

def headingTitle : Str := "acceptance criteria".toList

def isHeadingTitle (title : Str) : Bool :=
  title.map foldLetter == headingTitle || title.map foldLetter == headingTitle ++ [':']

def withoutTaskMark : Str → Str
  | '[' :: mark :: ']' :: c :: rest =>
    if [' ', 'x', 'X'].contains mark && PyStr.isSpace c then rest.dropWhile PyStr.isSpace
    else '[' :: mark :: ']' :: c :: rest
  | text => text

def oneLine (text : Str) : Str := join [' '] (words text)

def itemText (inline_ : Token) : Str := oneLine (withoutTaskMark (PyStr.strip inline_.content))

def headingLevel (tag : String) : Option Nat :=
  let digits := tag.toList.drop 1
  if digits ≠ [] ∧ digits.all Char.isDigit = true then some (Nat.ofDigitChars 10 digits 0) else none

def isItem (token : Token) : Bool := token.type == "list_item_open" && token.level == 1

def addText (found : List Str) (text : Str) : List Str :=
  if text = [] ∨ text ∈ found then found else found ++ [text]

/-- The walk over the tokens: the level of the open heading, 0 when none is open, and the texts so
    far. Nothing is where it raises. -/
def criteriaFrom (level : Nat) (found : List Str) : List Token → Option (List Str)
  | [] => some found
  | token :: rest =>
    if token.type = "heading_open" then
      match rest.head? with
      | none => none
      | some title =>
        if isHeadingTitle (PyStr.strip title.content) = true then
          (headingLevel token.tag).bind fun level => criteriaFrom level found rest
        else criteriaFrom 0 found rest
    else if level ≠ 0 ∧ isItem token = true then
      (rest.find? isInline).bind fun inline_ =>
        criteriaFrom level (addText found (itemText inline_)) rest
    else criteriaFrom level found rest

section Statement
variable (parse : Str → List Token)

def acceptanceCriteria (body : Str) : Option (List Str) :=
  criteriaFrom 0 [] (parse (withoutRefineBlock body))

def Headed : List Token → Prop
  | [] => True
  | token :: rest =>
    (token.type = "heading_open" →
      rest ≠ [] ∧ token.tag ∈ ["h1", "h2", "h3", "h4", "h5", "h6"]) ∧ Headed rest

def itemsFrom (under : Bool) : List Token → List (List Token)
  | [] => []
  | token :: rest =>
    if token.type = "heading_open" then
      itemsFrom (rest.head?.any fun title => isHeadingTitle (PyStr.strip title.content)) rest
    else if under = true ∧ isItem token = true then rest :: itemsFrom under rest
    else itemsFrom under rest

def items (body : Str) : List (List Token) := itemsFrom false (parse (withoutRefineBlock body))

def inside (after : List Token) : List Token :=
  after.takeWhile fun token => !(token.type == "list_item_close" && token.level == 1)

def ownText (after : List Token) : Option Str := ((inside after).find? isInline).map itemText

def nextText (after : List Token) : Option Str := (after.find? isInline).map itemText

def criteriaOf (body : Str) : List Str :=
  fromkeys (((items parse body).filterMap ownText).filter (· ≠ []))

def firstNew (found : List Str) (rest : List (List Token)) : Option Str :=
  (rest.filterMap ownText).find? fun text => decide (text ≠ [] ∧ text ∉ found)

/-- Behind each item without a text there is one, and it brings nothing: it is empty, found
    already, or the next text that the items bring themselves. -/
def Followed (found : List Str) : List (List Token) → Prop
  | [] => True
  | item :: rest =>
    match ownText item with
    | some text => Followed (addText found text) rest
    | none =>
      match nextText item with
      | none => False
      | some text =>
        (text = [] ∨ text ∈ found ∨ firstNew found rest = some text) ∧
          Followed (addText found text) rest

end Statement

section Walk
variable {found : List Str}

def readFrom (found : List Str) : List (List Token) → Option (List Str)
  | [] => some found
  | item :: rest => (nextText item).bind fun text => readFrom (addText found text) rest

theorem headingLevel_of_mem {tag : String} (mem : tag ∈ ["h1", "h2", "h3", "h4", "h5", "h6"]) :
    ∃ level, headingLevel tag = some level ∧ level ≠ 0 := by
  have each : ∀ tag ∈ ["h1", "h2", "h3", "h4", "h5", "h6"],
      (headingLevel tag).any (· ≠ 0) = true := by decide
  obtain ⟨level, read, positive⟩ := (Option.any_eq_true ..).mp (each tag mem)
  exact ⟨level, read, of_decide_eq_true positive⟩

theorem criteriaFrom_eq (level : Nat) {tokens : List Token} (headed : Headed tokens) :
    criteriaFrom level found tokens = readFrom found (itemsFrom (decide (level ≠ 0)) tokens) := by
  induction tokens generalizing level found with
  | nil => rfl
  | cons token rest ih =>
    obtain ⟨heading, headed⟩ := headed
    rw [criteriaFrom, itemsFrom]
    by_cases opens : token.type = "heading_open"
    · obtain ⟨some_, tag⟩ := heading opens
      obtain ⟨title, later, rfl⟩ := List.exists_cons_of_ne_nil some_
      rw [if_pos opens, if_pos opens]
      simp only [List.head?_cons, Option.any_some]
      by_cases criteria : isHeadingTitle (PyStr.strip title.content) = true
      · obtain ⟨own, read, positive⟩ := headingLevel_of_mem tag
        rw [if_pos criteria, read, Option.bind_some, ih own headed, criteria,
          decide_eq_true positive]
      · rw [if_neg criteria, ih 0 headed, Bool.eq_false_iff.mpr criteria]
        rfl
    · rw [if_neg opens, if_neg opens]
      by_cases item : level ≠ 0 ∧ isItem token = true
      · rw [if_pos item, if_pos ⟨decide_eq_true item.1, item.2⟩, readFrom, nextText]
        cases rest.find? isInline with
        | none => rfl
        | some inline_ => exact ih level headed
      · rw [if_neg item, if_neg (by simpa using item)]
        exact ih level headed

theorem nextText_of_ownText {item : List Token} {text : Str} (own : ownText item = some text) :
    nextText item = some text := by
  obtain ⟨inline_, found, same⟩ := Option.map_eq_some_iff.mp own
  have whole := List.takeWhile_append_dropWhile
    (p := fun token : Token => !(token.type == "list_item_close" && token.level == 1)) (l := item)
  rw [nextText, ← whole, List.find?_append, ← inside, found, Option.some_or, Option.map_some, same]

end Walk

section Texts
variable {found texts : List Str} {text : Str}

theorem addText_new (some_ : text ≠ []) (new : text ∉ found) : addText found text = found ++ [text] := by
  rw [addText, if_neg]
  exact fun held => held.elim some_ new

theorem addText_old (old : text = [] ∨ text ∈ found) : addText found text = found := by
  rw [addText, if_pos old]

theorem prefix_addText (found : List Str) (text : Str) : found <+: addText found text := by
  by_cases old : text = [] ∨ text ∈ found
  · rw [addText_old old]
  · rw [not_or] at old
    rw [addText_new old.1 old.2]
    exact List.prefix_append found [text]

theorem foldl_addText_none
    (none_ : texts.find? (fun text => decide (text ≠ [] ∧ text ∉ found)) = none) :
    texts.foldl addText found = found := by
  induction texts with
  | nil => rfl
  | cons text texts ih =>
    rw [List.find?_cons] at none_
    split at none_
    · cases none_
    · rename_i old
      rw [List.foldl_cons, addText_old, ih none_]
      simpa [or_iff_not_imp_left] using old

theorem foldl_addText_some
    (new : texts.find? (fun text => decide (text ≠ [] ∧ text ∉ found)) = some text) :
    texts.foldl addText found = texts.foldl addText (found ++ [text]) := by
  induction texts with
  | nil => cases new
  | cons first texts ih =>
    rw [List.find?_cons] at new
    rw [List.foldl_cons, List.foldl_cons]
    split at new
    · rename_i fresh
      obtain rfl := Option.some.inj new
      obtain ⟨some_, absent⟩ := of_decide_eq_true fresh
      rw [addText_new some_ absent, addText_old (.inr (by simp))]
    · rename_i old
      have stale : first = [] ∨ first ∈ found := by simpa [or_iff_not_imp_left] using old
      rw [addText_old stale, addText_old (stale.imp_right (List.mem_append_left _)), ih new]

theorem prefix_foldl_addText (found texts : List Str) : found <+: texts.foldl addText found := by
  induction texts generalizing found with
  | nil => exact List.prefix_rfl
  | cons text texts ih => exact (prefix_addText found text).trans (ih _)

theorem prefix_readFrom {items : List (List Token)} {all : List Str}
    (read : readFrom found items = some all) : found <+: all := by
  induction items generalizing found with
  | nil => exact Option.some.inj read ▸ List.prefix_rfl
  | cons item rest ih =>
    obtain ⟨text, -, read⟩ := Option.bind_eq_some_iff.mp read
    exact (prefix_addText found text).trans (ih read)

theorem fromkeys_filter (texts : List Str) :
    fromkeys (texts.filter (· ≠ [])) = texts.foldl addText [] := by
  suffices each : ∀ found : List Str,
      (texts.filter (· ≠ [])).foldl (fun seen name => if name ∈ seen then seen else seen ++ [name])
        found = texts.foldl addText found from each []
  induction texts with
  | nil => exact fun found => rfl
  | cons text texts ih =>
    intro found
    by_cases empty : text = []
    · rw [List.filter_cons_of_neg (by simpa using empty), List.foldl_cons,
        addText_old (.inl empty), ih]
    · rw [List.filter_cons_of_pos (by simpa using empty), List.foldl_cons, List.foldl_cons, ih]
      congr 1
      by_cases old : text ∈ found
      · rw [if_pos old, addText_old (.inr old)]
      · rw [if_neg old, addText_new empty old]

theorem followed_own {item : List Token} {rest : List (List Token)}
    (own : ownText item = some text) :
    Followed found (item :: rest) ↔ Followed (addText found text) rest := by
  rw [Followed, own]

theorem followed_none {item : List Token} {rest : List (List Token)} (own : ownText item = none) :
    Followed found (item :: rest) ↔ ∃ text, nextText item = some text ∧
      (text = [] ∨ text ∈ found ∨ firstNew found rest = some text) ∧
      Followed (addText found text) rest := by
  rw [Followed, own]
  cases nextText item <;> simp

/-- The induction is over the items. A text from behind an item without one is either no news or
    the next text of the items, which then is no news itself. -/
theorem readFrom_iff (items : List (List Token)) :
    readFrom found items = some ((items.filterMap ownText).foldl addText found) ↔
      Followed found items := by
  induction items generalizing found with
  | nil => simp [readFrom, Followed]
  | cons item rest ih =>
    rw [readFrom]
    cases own : ownText item with
    | some text =>
      rw [followed_own own, nextText_of_ownText own, Option.bind_some, List.filterMap_cons_some own,
        List.foldl_cons]
      exact ih
    | none =>
      rw [followed_none own, List.filterMap_cons_none own]
      cases nextText item with
      | none => simp
      | some text =>
        simp only [Option.bind_some, Option.some.injEq, exists_eq_left']
        by_cases old : text = [] ∨ text ∈ found
        · rw [addText_old old, ih, ← or_assoc]
          exact ⟨fun held => ⟨.inl old, held⟩, fun held => held.2⟩
        · obtain ⟨some_, absent⟩ := not_or.mp old
          rw [addText_new some_ absent, ← ih]
          constructor
          · intro read
            have begun := prefix_readFrom read
            cases first : firstNew found rest with
            | none =>
              rw [foldl_addText_none first] at begun
              exact absurd begun.length_le (by simp)
            | some other =>
              rw [foldl_addText_some first] at begun read
              have both := List.prefix_of_prefix_length_le begun (prefix_foldl_addText _ _)
                (by simp)
              obtain rfl : text = other := by simpa using both.eq_of_length (by simp)
              exact ⟨.inr (.inr rfl), read⟩
          · rintro ⟨first, read⟩
            have fresh : firstNew found rest = some text := by
              rcases first with empty | held | fresh
              · exact absurd empty some_
              · exact absurd held absent
              · exact fresh
            rwa [foldl_addText_some fresh]

end Texts

section Criteria

/-- The criteria are the texts of their own items exactly where each item without a text is
    followed by one that brings nothing. -/
theorem criteria_of_items (parse : Str → List Token) (body : Str)
    (headed : Headed (parse (withoutRefineBlock body))) :
    acceptanceCriteria parse body = some (criteriaOf parse body) ↔
      Followed [] (items parse body) := by
  rw [acceptanceCriteria, criteriaFrom_eq 0 headed, criteriaOf, fromkeys_filter]
  exact readFrom_iff _

def parseList (body : Str) (list : List Token) : Str → List Token := fun text =>
  if text = body then
    [{ type := "heading_open", tag := "h2" },
      { type := "inline", level := 1, content := "Acceptance criteria".toList },
      { type := "heading_close", tag := "h2" }, { type := "bullet_list_open", tag := "ul" }] ++ list
  else []

def emptyItem : List Token :=
  [{ type := "list_item_open", tag := "li", level := 1 },
    { type := "list_item_close", tag := "li", level := 1 }]

def paragraph (level : Nat) (text : Str) : List Token :=
  [{ type := "paragraph_open", tag := "p", level },
    { type := "inline", level := level + 1, content := text },
    { type := "paragraph_close", tag := "p", level }]

def listEnd : List Token := [{ type := "bullet_list_close", tag := "ul" }]

def gapBody : Str := "## Acceptance criteria\n\n-\n- [ ] A\n".toList

def gapTokens : List Token :=
  emptyItem ++ { type := "list_item_open", tag := "li", level := 1 } ::
    (paragraph 2 "[ ] A".toList ++ { type := "list_item_close", tag := "li", level := 1 } :: listEnd)

theorem criteria_of_items_gap :
    acceptanceCriteria (parseList gapBody gapTokens) gapBody = some [['A']] := by
  have own : criteriaOf (parseList gapBody gapTokens) gapBody = [['A']] := by decide +kernel
  rw [← own]
  refine (criteria_of_items (parseList gapBody gapTokens) gapBody ?_).mpr ?_
  · have whole : withoutRefineBlock gapBody = gapBody := by decide +kernel
    rw [whole, parseList, if_pos rfl]
    simp [Headed, gapTokens, emptyItem, paragraph, listEnd]
  · have whole : items (parseList gapBody gapTokens) gapBody =
        [gapTokens.drop 1, gapTokens.drop 3] := by
      rw [items, show withoutRefineBlock gapBody = gapBody by decide +kernel, parseList, if_pos rfl]
      rfl
    rw [whole, followed_none (by decide +kernel)]
    refine ⟨['A'], by decide +kernel, by decide +kernel, ?_⟩
    have last : ownText (gapTokens.drop 3) = some ['A'] := by decide +kernel
    rw [followed_own last]
    trivial

def endBody : Str := "## Acceptance criteria\n\n-\n".toList

def notesBody : Str := "## Acceptance criteria\n\n-\n\nNotes\n".toList

/-- An empty item raises at the end of the body, and makes a criterion of the text after the
    list. -/
theorem empty_item_reads_on :
    acceptanceCriteria (parseList endBody (emptyItem ++ listEnd)) endBody = none ∧
      acceptanceCriteria (parseList notesBody (emptyItem ++ listEnd ++ paragraph 0 "Notes".toList))
        notesBody = some ["Notes".toList] ∧
      criteriaOf (parseList notesBody (emptyItem ++ listEnd ++ paragraph 0 "Notes".toList))
        notesBody = [] := by
  refine ⟨?_, ?_, ?_⟩ <;> decide +kernel

end Criteria
end DevopsCli.Roadmap.StageCriteria
