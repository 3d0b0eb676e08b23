import DevopsCli.Implement.TaskTokens

/- A reader of documents whose blocks stand apart, with the lines of the tokens as markdown-it counts
   them. It reads such documents as CommonMark says, and the code spans of a line where one span
   stands between words. -/
namespace DevopsCli.Implement.PlainReader
open PyStr StepFiles Markdown CodeSpans TaskTokens

section Placed

def place (token : TaskTokens.Token) (first last : Nat) : TaskTokens.Token :=
  { token with map := some (first, last) }

variable (inline_ : Str → List Span)

def placedParagraph (level first : Nat) (line : Str) : List TaskTokens.Token :=
  [place (opens "paragraph_open" "p" level) first (first + 1),
    place (inlineToken inline_ (level + 1) (lineText line)) first (first + 1),
    closes "paragraph_close" "p" level]

def placedNested (first last : Nat) : List Str → List TaskTokens.Token
  | [] => []
  | line :: rest =>
    (place (opens "list_item_open" "li" 3) first (if rest = [] then last else first + 1) ::
        placedParagraph inline_ 4 first line ++ [closes "list_item_close" "li" 3]) ++
      placedNested (first + 1) last rest

def placedSub (first last : Nat) (lines : List Str) : List TaskTokens.Token :=
  if lines = [] then []
  else place (opens "bullet_list_open" "ul" 2) first last :: placedNested inline_ first last lines ++
    [closes "bullet_list_close" "ul" 2]

def placedItem (first last : Nat) (item : Item) : List TaskTokens.Token :=
  place (opens "list_item_open" "li" 1) first last ::
      (placedParagraph inline_ 2 first item.line ++ placedSub inline_ (first + 1) last item.nested) ++
    [closes "list_item_close" "li" 1]

def placedItems (first last : Nat) : List Item → List TaskTokens.Token
  | [] => []
  | item :: rest =>
    let next := first + item.lines.length
    placedItem inline_ first (if rest = [] then last else next) item ++ placedItems next last rest

def placedBlock (first blanks : Nat) : Block → List TaskTokens.Token
  | .heading level raw =>
    [place (opens "heading_open" (headingTag level) 0) first (first + 1),
      place (inlineToken inline_ 1 (titleText raw)) first (first + 1),
      closes "heading_close" (headingTag level) 0]
  | .paragraph line => placedParagraph inline_ 0 first line
  | .bullets items =>
    let last := first + (Block.bullets items).lines.length + blanks
    place (opens "bullet_list_open" "ul" 0) first last :: placedItems inline_ first last items ++
      [closes "bullet_list_close" "ul" 0]

def placedDoc (first : Nat) : List (Block × Nat) → List TaskTokens.Token
  | [] => []
  | (block, blanks) :: rest =>
    placedBlock inline_ first blanks block ++ placedDoc (first + block.lines.length + blanks) rest

variable {inline_}

theorem erase_nested (first last : Nat) (lines : List Str) :
    (placedNested inline_ first last lines).map erase = lines.flatMap (nestedItemTokens inline_) := by
  induction lines generalizing first with
  | nil => rfl
  | cons line lines ih =>
    rw [placedNested, List.map_append, ih, List.flatMap_cons]
    rfl

theorem erase_sub (first last : Nat) (lines : List Str) :
    (placedSub inline_ first last lines).map erase = nestedTokens inline_ lines := by
  unfold placedSub nestedTokens
  split
  · rfl
  · rw [List.map_append, List.map_cons, erase_nested]
    rfl

theorem erase_items (first last : Nat) (items : List Item) :
    (placedItems inline_ first last items).map erase = items.flatMap (itemTokens inline_) := by
  induction items generalizing first with
  | nil => rfl
  | cons item items ih =>
    rw [placedItems, List.map_append, ih, List.flatMap_cons]
    congr 1
    unfold placedItem itemTokens
    rw [List.map_append, List.map_cons, List.map_append, erase_sub]
    rfl

theorem erase_doc (first : Nat) (doc : List (Block × Nat)) :
    (placedDoc inline_ first doc).map erase = doc.flatMap fun entry => blockTokens inline_ entry.1 := by
  induction doc generalizing first with
  | nil => rfl
  | cons entry doc ih =>
    obtain ⟨block, blanks⟩ := entry
    rw [placedDoc, List.map_append, ih, List.flatMap_cons]
    congr 1
    cases block with
    | heading level raw => rfl
    | paragraph line => rfl
    | bullets items =>
      unfold placedBlock blockTokens
      rw [List.map_append, List.map_cons, erase_items]
      rfl

end Placed

def textSpan (text : Str) : List Span := if text = [] then [] else [⟨"text", text⟩]

def plainSpans (text : Str) : List Span :=
  match oneSpanOf text with
  | none => textSpan text
  | some (before, inner, after) =>
    textSpan before ++ [⟨"code_inline", unbroken inner⟩] ++ textSpan after

def plainReader : Reader where
  parse text := placedDoc plainSpans 0 (readDoc text)
  digit c := if c.isDigit then some (some (c.toNat - 48)) else none

theorem codes_plain (text : Str) :
    codes plainSpans text =
      match oneSpanOf text with
      | none => []
      | some (_, inner, _) => [unbroken inner] := by
  have none_ (text : Str) : (textSpan text).filter (·.type = "code_inline") = [] := by
    unfold textSpan
    split
    · rfl
    · rw [List.filter_cons_of_neg (by simp), List.filter_nil]
  unfold codes plainSpans
  cases oneSpanOf text with
  | none => simp only [none_, List.map_nil]
  | some parts =>
    obtain ⟨before, inner, after⟩ := parts
    simp only [List.filter_append, none_, List.nil_append, List.append_nil]
    simp

theorem plainReader_commonMark : CommonMark plainSpans plainReader where
  blocks doc plain := by
    have parsed : plainReader.parse (docText doc) = placedDoc plainSpans 0 doc :=
      congrArg (placedDoc plainSpans 0) (readDoc_docText plain)
    rw [parsed, erase_doc]
  spans text code member := by
    rw [codes_plain] at member
    cases found : oneSpanOf text with
    | none =>
      rw [found] at member
      cases member
    | some parts =>
      obtain ⟨before, inner, after⟩ := parts
      rw [found] at member
      obtain ⟨rfl, span⟩ := oneSpanOf_sound found
      rw [List.mem_singleton.mp member]
      exact span.codeSpan
  oneSpan span := by
    rw [codes_plain, oneSpanOf_oneSpan span]

end DevopsCli.Implement.PlainReader
