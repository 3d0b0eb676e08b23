import DevopsCli.Lib.PyStr

/- The text of a model goes into an issue without a comment opener, roadmap/refine/refine.py. The
   matches of the regular expressions and what the Markdown parser shows as code are parameters. -/
namespace DevopsCli.Roadmap.Sanitize
open PyStr

structure Matches where
  pieces : List (Str × Str)
  rest : Str

def Matches.text (found : Matches) : Str :=
  (found.pieces.flatMap fun piece => piece.1 ++ piece.2) ++ found.rest

inductive Pattern where
  | image | tagOpener | markdownLink | liveText
deriving DecidableEq

structure Engine where
  finditer : Pattern → Str → Matches
  /-- The label and the URL of a Markdown link. -/
  linkGroups : Str → Str × Str
  /-- Whether the parser shows a match of the pattern as code, by its number. -/
  inCode : Pattern → Str → Bool → Nat → Bool
  showsStrayBacktick : Str → Bool
  whole : ∀ pattern text, (finditer pattern text).text = text
  /-- The tag opener is the last character of its match. -/
  opener : ∀ text, ∀ piece ∈ (finditer .tagOpener text).pieces, piece.2.getLast? = some '<'

def replaceFrom (target new : Str) : Nat → Str → Str
  | _, [] => []
  | skip + 1, _ :: rest => replaceFrom target new skip rest
  | 0, c :: rest =>
    if target <+: c :: rest then new ++ replaceFrom target new (target.length - 1) rest
    else c :: replaceFrom target new 0 rest

def replace (text target new : Str) : Str := replaceFrom target new 0 text

def entity : Str := ['&', 'l', 't', ';']

def opened : Str → Str
  | [] => []
  | [c] => [c]
  | c :: next :: rest =>
    if c = '<' ∧ (next = '!' ∨ next = '?') then entity ++ opened (next :: rest)
    else c :: opened (next :: rest)

def spacedFrom (last : Option Char) : List Str → Str
  | [] => []
  | [] :: more => spacedFrom last more
  | (c :: piece) :: more =>
    (if c = '`' ∧ (last = some '`' ∨ last = some '\\') then [' '] else []) ++ c :: piece ++
      spacedFrom (c :: piece).getLast? more

def spaced (pieces : List Str) : Str := spacedFrom none pieces

/-- A replacement may take the next code fence. It reads the match and the text after it. -/
abbrev Replacement := Nat → Str → Str → Str × Nat

def outsideCode (inCode : Bool) (replace : Replacement) : Replacement := fun fences found following =>
  if inCode then (found, fences) else replace fences found following

/-- The pieces of the text with each match outside code replaced; what is not replaced joins the
    text that is held. -/
def replacedFrom (inCode : Nat → Bool) (replace : Replacement) (rest : Str) :
    Nat → Nat → Str → List (Str × Str) → List Str × Nat
  | _, fences, held, [] => ([held ++ rest], fences)
  | number, fences, held, (before, found) :: more =>
    let new := outsideCode (inCode number) replace fences found (Matches.text ⟨more, rest⟩)
    if new.1 = found then
      replacedFrom inCode replace rest (number + 1) new.2 (held ++ before ++ found) more
    else
      let later := replacedFrom inCode replace rest (number + 1) new.2 [] more
      ((held ++ before) :: new.1 :: later.1, later.2)

section Engine
variable (engine : Engine)

def replaceOutsideCode (text : Str) (pattern : Pattern) (replace : Replacement) (spansAreCode : Bool)
    (fences : Nat) : Str × Nat :=
  let found := engine.finditer pattern text
  let (pieces, fences) :=
    replacedFrom (engine.inCode pattern text spansAreCode) replace found.rest 0 fences [] found.pieces
  (spaced pieces, fences)

def escapeTagOpener : Replacement := fun fences found _ => (found.dropLast ++ entity, fences)

def everyTagEscaped (text : Str) : Str :=
  let found := engine.finditer .tagOpener text
  (found.pieces.flatMap fun piece => piece.1 ++ (piece.2.dropLast ++ entity)) ++ found.rest

def escapedTags : Nat → Str → Str
  | 0, text => everyTagEscaped engine text
  | passes + 1, text =>
    if (engine.finditer .tagOpener text).pieces.isEmpty then text
    else
      let escaped := (replaceOutsideCode engine text .tagOpener escapeTagOpener
        (!engine.showsStrayBacktick text) 0).1
      if escaped = text then text else escapedTags passes escaped

def tagPasses : Nat := 3

def withoutRawHtml (text : Str) (escapeTags : Bool) : Str :=
  if escapeTags then escapedTags engine tagPasses (opened text) else opened text

def longestRun (text : Str) : Nat :=
  ((text.splitBy fun a b => (a == '`') == (b == '`')).map fun run =>
    if run.head? = some '`' then run.length else 0).foldl max 0

/-- The next fence: one backtick more than the longest run, and in a text that shows a stray
    backtick one more for each fence. -/
def fence (shortest : Nat) (stray : Bool) (fences : Nat) : Str :=
  List.replicate (if stray then shortest + fences else shortest) '`'

def linkSub (allowedUrls : List Str) (fence : Nat → Str) : Replacement := fun fences found _ =>
  let (label, url) := engine.linkGroups found
  if url ∈ allowedUrls then (['['] ++ label ++ [']', '('] ++ url ++ [')'], fences)
  else (label ++ [' ', '('] ++ fence fences ++ url ++ fence fences ++ [')'], fences + 1)

def trailingPunctuation : Str := ['.', ',', ';', ':', '!', '?']

def backtickBeforeSpace (following : Str) : Bool := '`' ∈ following.takeWhile (!PyStr.isSpace ·)

def neutralized (allowedUrls : List Str) (fence : Nat → Str) : Replacement :=
  fun fences raw following =>
    let link := raw.rdropWhile (· ∈ trailingPunctuation)
    if link ∈ allowedUrls ∧ backtickBeforeSpace following = false then (raw, fences)
    else (fence fences ++ link ++ fence fences ++ raw.drop link.length, fences + 1)

def refineEndMarker : Str := "<!-- devops-roadmap-refine:end -->".toList

def sanitizeText (text : Str) (allowedUrls : List Str) (escapeTags : Bool) : Str :=
  let text := replace text refineEndMarker "[end-marker]".toList
  let images := engine.finditer .image text
  let text := withoutRawHtml engine ((images.pieces.flatMap (·.1)) ++ images.rest) escapeTags
  let shortest := longestRun text + 1
  let stray := engine.showsStrayBacktick text
  let (text, fences) := replaceOutsideCode engine text .markdownLink
    (linkSub engine allowedUrls (fence shortest stray)) (!stray) 0
  let text := withoutRawHtml engine text escapeTags
  (replaceOutsideCode engine text .liveText (neutralized allowedUrls (fence shortest stray))
    (!stray) fences).1

end Engine

section Clear

def IsMark (c : Char) : Prop := c = '!' ∨ c = '?'

instance : DecidablePred IsMark := fun c => inferInstanceAs (Decidable (c = '!' ∨ c = '?'))

def Clear (open_ : Prop) : Str → Prop
  | [] => True
  | c :: rest => (open_ → ¬IsMark c) ∧ Clear (c = '<') rest

theorem clear_mono {open_ less : Prop} (weaker : less → open_) {text : Str} (clear : Clear open_ text) :
    Clear less text := by
  cases text with
  | nil => trivial
  | cons c rest => exact ⟨fun holds => clear.1 (weaker holds), clear.2⟩

theorem opened_clear : ∀ text : Str, Clear False (opened text) ∧
    ∀ mark, IsMark mark → (opened text).head? = some mark → text.head? = some mark
  | [] => ⟨trivial, fun _ _ => id⟩
  | [c] => ⟨⟨False.elim, trivial⟩, fun _ _ => id⟩
  | c :: next :: rest => by
    obtain ⟨later, head⟩ := opened_clear (next :: rest)
    rw [opened]
    split
    · have amp : ¬IsMark '&' := by decide
      refine ⟨by simpa [entity, Clear] using later, fun mark its first => ?_⟩
      obtain rfl := Option.some.inj first
      exact absurd its amp
    · rename_i other
      refine ⟨⟨False.elim, ?_⟩, fun _ _ => id⟩
      cases shown : opened (next :: rest) with
      | nil => trivial
      | cons d more =>
        rw [shown] at later head
        refine ⟨fun less mark => other ⟨less, ?_⟩, later.2⟩
        have same := Option.some.inj (head d mark rfl)
        rwa [same]

def IsPlain (c : Char) : Prop := ¬IsMark c ∧ c ≠ '<'

instance : DecidablePred IsPlain := fun c => inferInstanceAs (Decidable (¬IsMark c ∧ c ≠ '<'))

/-- A text changed by new characters that are neither part of a comment opener, and by the loss
    of some less-than signs. -/
inductive Edit : Str → Str → Prop
  | nil : Edit [] []
  | keep (c : Char) {text new : Str} (rest : Edit text new) : Edit (c :: text) (c :: new)
  | insert (c : Char) {text new : Str} (plain : IsPlain c) (rest : Edit text new) :
      Edit text (c :: new)
  | drop {text new : Str} (rest : Edit text new) : Edit ('<' :: text) new

theorem edit_clear {text new : Str} (edit : Edit text new) {open_ : Prop} (clear : Clear open_ text) :
    Clear open_ new := by
  induction edit generalizing open_ with
  | nil => trivial
  | keep c rest ih => exact ⟨clear.1, ih clear.2⟩
  | insert c plain rest ih =>
    refine ⟨fun _ => plain.1, ?_⟩
    exact clear_mono (fun less => absurd less plain.2) (ih (clear_mono False.elim clear))
  | drop rest ih => exact ih (clear_mono (fun _ => rfl) clear.2)

theorem edit_refl : ∀ text : Str, Edit text text
  | [] => .nil
  | c :: rest => .keep c (edit_refl rest)

theorem edit_append {a b c d : Str} (first : Edit a b) (second : Edit c d) : Edit (a ++ c) (b ++ d) := by
  induction first with
  | nil => exact second
  | keep c rest ih => exact .keep c ih
  | insert c plain rest ih => exact .insert c plain ih
  | drop rest ih => exact .drop ih

theorem edit_inserted {text new more : Str} (plain : ∀ c ∈ more, IsPlain c)
    (edit : Edit text new) : Edit text (more ++ new) := by
  induction more with
  | nil => exact edit
  | cons c rest ih =>
    exact .insert c (plain c (by simp)) (ih fun d mem => plain d (List.mem_cons_of_mem _ mem))

theorem entity_plain : ∀ c ∈ entity, IsPlain c := by simp [entity, IsPlain, IsMark]

theorem spacedFrom_edit (last : Option Char) (pieces : List Str) :
    Edit pieces.flatten (spacedFrom last pieces) := by
  induction pieces generalizing last with
  | nil => exact .nil
  | cons piece more ih =>
    cases piece with
    | nil => exact ih last
    | cons c piece =>
      rw [spacedFrom, List.flatten_cons, List.append_assoc]
      refine edit_inserted ?_ (edit_append (edit_refl _) (ih _))
      split <;> simp [IsPlain, IsMark]

def Edits (replace : Replacement) (found : Str) : Prop :=
  ∀ fences following, Edit found (replace fences found following).1

theorem outsideCode_edits (inCode : Bool) {replace : Replacement} {found : Str}
    (edits : Edits replace found) : Edits (outsideCode inCode replace) found := by
  intro fences following
  rw [outsideCode]
  split
  · exact edit_refl found
  · exact edits fences following

theorem replacedFrom_edit (inCode : Nat → Bool) {replace : Replacement} (rest : Str)
    (pieces : List (Str × Str)) (edits : ∀ piece ∈ pieces, Edits replace piece.2)
    (number fences : Nat) (held : Str) :
    Edit (held ++ Matches.text ⟨pieces, rest⟩)
      (replacedFrom inCode replace rest number fences held pieces).1.flatten := by
  induction pieces generalizing number fences held with
  | nil => simpa [replacedFrom, Matches.text] using edit_refl (held ++ rest)
  | cons piece more ih =>
    obtain ⟨before, found⟩ := piece
    have later := ih fun other mem => edits other (List.mem_cons_of_mem _ mem)
    have text : held ++ Matches.text ⟨(before, found) :: more, rest⟩ =
        (held ++ before ++ found) ++ Matches.text ⟨more, rest⟩ := by simp [Matches.text]
    rw [text, replacedFrom]
    simp only []
    split
    · exact later (number + 1) _ (held ++ before ++ found)
    · have new := outsideCode_edits (inCode number) (edits (before, found) (by simp)) fences
        (Matches.text ⟨more, rest⟩)
      simpa using edit_append (edit_append (edit_refl (held ++ before)) new) (later (number + 1) _ [])

variable {engine : Engine}

theorem replaceOutsideCode_edit (engine : Engine) {pattern : Pattern} {replace : Replacement} {text : Str}
    (edits : ∀ piece ∈ (engine.finditer pattern text).pieces, Edits replace piece.2)
    (spansAreCode : Bool) (fences : Nat) :
    ∃ joined, Edit text joined ∧
      Edit joined (replaceOutsideCode engine text pattern replace spansAreCode fences).1 := by
  have edit := replacedFrom_edit (engine.inCode pattern text spansAreCode)
    (engine.finditer pattern text).rest _ edits 0 fences []
  rw [List.nil_append, engine.whole] at edit
  exact ⟨_, edit, spacedFrom_edit none _⟩

theorem replaceOutsideCode_clear {pattern : Pattern} {replace : Replacement} {text : Str}
    (edits : ∀ piece ∈ (engine.finditer pattern text).pieces, Edits replace piece.2)
    (spansAreCode : Bool) (fences : Nat) (clear : Clear False text) :
    Clear False (replaceOutsideCode engine text pattern replace spansAreCode fences).1 := by
  obtain ⟨joined, first, second⟩ := replaceOutsideCode_edit engine edits spansAreCode fences
  exact edit_clear second (edit_clear first clear)

theorem escaped_edit {found : Str} (opener : found.getLast? = some '<') :
    Edit found (found.dropLast ++ entity) := by
  obtain ⟨before, rfl⟩ := List.getLast?_eq_some_iff.mp opener
  have last : Edit ['<'] entity := .drop (by simpa using edit_inserted entity_plain .nil)
  simpa using edit_append (edit_refl before) last

theorem everyTagEscaped_edit (text : Str) : Edit text (everyTagEscaped engine text) := by
  have pieces : ∀ (pieces : List (Str × Str)), (∀ piece ∈ pieces, piece.2.getLast? = some '<') →
      Edit (pieces.flatMap fun piece => piece.1 ++ piece.2)
        (pieces.flatMap fun piece => piece.1 ++ (piece.2.dropLast ++ entity)) := by
    intro pieces opener
    induction pieces with
    | nil => exact .nil
    | cons piece more ih =>
      rw [List.flatMap_cons, List.flatMap_cons]
      refine edit_append (edit_append (edit_refl _) (escaped_edit (opener piece (by simp)))) ?_
      exact ih fun other mem => opener other (List.mem_cons_of_mem _ mem)
  have whole := edit_append (pieces _ (engine.opener text)) (edit_refl (engine.finditer .tagOpener text).rest)
  rwa [← Matches.text, engine.whole] at whole

theorem escapedTags_clear (passes : Nat) {text : Str} (clear : Clear False text) :
    Clear False (escapedTags engine passes text) := by
  induction passes generalizing text with
  | zero => exact edit_clear (everyTagEscaped_edit text) clear
  | succ passes ih =>
    rw [escapedTags]
    simp only []
    split
    · exact clear
    · split
      · exact clear
      · exact ih (replaceOutsideCode_clear
          (fun piece mem fences following => escaped_edit (engine.opener text piece mem)) _ 0 clear)

theorem withoutRawHtml_clear (text : Str) (escapeTags : Bool) :
    Clear False (withoutRawHtml engine text escapeTags) := by
  rw [withoutRawHtml]
  split
  · exact escapedTags_clear _ (opened_clear text).1
  · exact (opened_clear text).1

theorem fence_plain (shortest : Nat) (stray : Bool) (fences : Nat) :
    ∀ c ∈ fence shortest stray fences, IsPlain c := by
  intro c mem
  rw [fence] at mem
  simp [List.eq_of_mem_replicate mem, IsPlain, IsMark]

theorem neutralized_edits (allowedUrls : List Str) (shortest : Nat) (stray : Bool) (found : Str) :
    Edits (neutralized allowedUrls (fence shortest stray)) found := by
  intro fences following
  rw [neutralized]
  split
  · exact edit_refl found
  · obtain ⟨rest, whole⟩ := List.rdropWhile_prefix (· ∈ trailingPunctuation) found
    generalize found.rdropWhile (· ∈ trailingPunctuation) = link at whole ⊢
    have tail : found.drop link.length = rest := by rw [← whole, List.drop_left]
    rw [tail, ← whole, List.append_assoc, List.append_assoc]
    have plain := fence_plain shortest stray fences
    exact edit_inserted plain (edit_append (edit_refl link) (edit_inserted plain (edit_refl rest)))

theorem sanitizeText_clear (text : Str) (allowedUrls : List Str) (escapeTags : Bool) :
    Clear False (sanitizeText engine text allowedUrls escapeTags) := by
  rw [sanitizeText]
  exact replaceOutsideCode_clear (fun piece _ => neutralized_edits _ _ _ _) _ _
    (withoutRawHtml_clear _ _)

theorem clear_no_opener {text : Str} {open_ : Prop} {mark : Char} (its : IsMark mark)
    (clear : Clear open_ text) (j : Nat) : ¬['<', mark] <+: text.drop j := by
  induction text generalizing j open_ with
  | nil => simp
  | cons c rest ih =>
    cases j with
    | succ j => exact ih clear.2 j
    | zero =>
      rintro ⟨more, whole⟩
      simp only [List.drop_zero, List.cons_append, List.nil_append, List.cons.injEq] at whole
      obtain ⟨rfl, rfl⟩ := whole
      exact clear.2.1 rfl its

theorem clear_inside {text : Str} {mark : Char} (its : IsMark mark) (clear : Clear False text)
    {marker : Str} (opens : ['<', mark] <+: marker) : ¬marker <:+: text := by
  rintro ⟨before, after, rfl⟩
  apply clear_no_opener its clear before.length
  rw [List.append_assoc, List.drop_left]
  exact opens.trans (List.prefix_append ..)

/-- A sanitized text holds no opener of a comment, a declaration or an instruction, so no marker
    and no record block begins in it, and no end marker of the section is in it. -/
theorem sanitized_opens_nothing (engine : Engine) (text : Str) (allowedUrls : List Str)
    (escapeTags : Bool) :
    let shown := sanitizeText engine text allowedUrls escapeTags
    ¬['<', '!'] <:+: shown ∧ ¬['<', '?'] <:+: shown ∧
      (∀ marker, "<!--".toList <+: marker → ¬marker <:+: shown) ∧ ¬refineEndMarker <:+: shown := by
  intro shown
  have clear : Clear False shown := sanitizeText_clear text allowedUrls escapeTags
  have bang {marker : Str} (opens : "<!--".toList <+: marker) : ['<', '!'] <+: marker :=
    List.IsPrefix.trans (by decide +kernel) opens
  refine ⟨clear_inside (.inl rfl) clear (List.prefix_refl _),
    clear_inside (.inr rfl) clear (List.prefix_refl _),
    fun marker opens => clear_inside (.inl rfl) clear (bang opens), ?_⟩
  exact clear_inside (.inl rfl) clear (bang (by decide +kernel))

end Clear

section Page

/-- A text that opens a comment when its image is gone, and another one when its link is rewritten. -/
def page : Str := "<![i](j)!-- <b> <[!--](http://x.y)".toList

def pageMatches : Pattern → Matches
  | .image => ⟨[("<".toList, "![i](j)".toList)], "!-- <b> <[!--](http://x.y)".toList⟩
  | .tagOpener => ⟨[("&lt;!-- ".toList, "<".toList)], "b> <[!--](http://x.y)".toList⟩
  | .markdownLink => ⟨[("&lt;!-- &lt;b> <".toList, "[!--](http://x.y)".toList)], []⟩
  | .liveText => ⟨[("&lt;!-- &lt;b> &lt;!-- (`".toList, "http://x.y".toList)], "`)".toList⟩

def pageEngine : Engine where
  finditer pattern text :=
    if (pageMatches pattern).text = text then pageMatches pattern else ⟨[], text⟩
  linkGroups _ := ("!--".toList, "http://x.y".toList)
  inCode pattern _ _ _ := pattern = .liveText
  showsStrayBacktick _ := false
  whole pattern text := by
    split
    · next same => exact same
    · simp [Matches.text]
  opener text := by
    split
    · simp [pageMatches]
    · simp

theorem sanitized_opens_nothing_page :
    sanitizeText pageEngine page [] true = "&lt;!-- &lt;b> &lt;!-- (`http://x.y`)".toList ∧
      ¬refineEndMarker <:+: sanitizeText pageEngine page [] true :=
  ⟨by decide +kernel, (sanitized_opens_nothing pageEngine page [] true).2.2.2⟩

end Page
end DevopsCli.Roadmap.Sanitize
