import DevopsCli.K8s.Logql

/- When the two parsers of LogQL agree on a query that the kubectl fallback takes. -/
namespace DevopsCli.K8s.Logql
open PyStr Matches

section Reading
variable {text rest t : Str} {quote : Char}

theorem quoted_eq (read : quoted quote text = some (t, rest)) : text = t ++ quote :: rest := by
  fun_induction quoted quote text generalizing t with
  | case1 => exact nomatch read
  | case2 => exact nomatch read
  | case3 c cs _ ih =>
    obtain ⟨⟨more, behind⟩, inner, same⟩ := Option.map_eq_some_iff.mp read
    obtain ⟨rfl, rfl⟩ := Prod.mk.inj same
    rw [ih inner]
    rfl
  | case4 =>
    obtain ⟨rfl, rfl⟩ := Prod.mk.inj (Option.some.inj read)
    rfl
  | case5 => exact nomatch read
  | case6 c cs _ _ _ ih =>
    obtain ⟨⟨more, behind⟩, inner, same⟩ := Option.map_eq_some_iff.mp read
    obtain ⟨rfl, rfl⟩ := Prod.mk.inj same
    rw [ih inner]
    rfl

theorem blank_takeWhile (text : Str) : Blank (text.takeWhile isSpace) :=
  fun _ member => List.mem_takeWhile_imp member

theorem quotedText_eq {value : QuotedText} (read : quotedText text = some (value, rest)) :
    ∃ blank, Blank blank ∧ (value.quote = '"' ∨ value.quote = '\'') ∧
      text = blank ++ value.quote :: (value.text ++ value.quote :: rest) := by
  have whole := List.takeWhile_append_dropWhile (p := isSpace) (l := text)
  refine ⟨text.takeWhile isSpace, blank_takeWhile text, ?_⟩
  unfold quotedText at read
  split at read
  · next opened =>
    obtain ⟨⟨inner, behind⟩, found, same⟩ := Option.map_eq_some_iff.mp read
    obtain ⟨rfl, rfl⟩ := Prod.mk.inj same
    rw [opened, quoted_eq found] at whole
    exact ⟨.inl rfl, whole.symm⟩
  · next opened =>
    obtain ⟨⟨inner, behind⟩, found, same⟩ := Option.map_eq_some_iff.mp read
    obtain ⟨rfl, rfl⟩ := Prod.mk.inj same
    rw [opened, quoted_eq found] at whole
    exact ⟨.inr rfl, whole.symm⟩
  · exact nomatch read

theorem doubleQuoted_eq (read : doubleQuoted text = some (t, rest)) :
    ∃ blank, Blank blank ∧ '"' ∉ t ∧ text = blank ++ '"' :: (t ++ '"' :: rest) := by
  have whole := List.takeWhile_append_dropWhile (p := isSpace) (l := text)
  refine ⟨text.takeWhile isSpace, blank_takeWhile text, ?_⟩
  unfold doubleQuoted at read
  split at read
  · next inner opened =>
    have inside := List.takeWhile_append_dropWhile (p := (· ≠ '"')) (l := inner)
    split at read
    · next closed =>
      obtain ⟨rfl, rfl⟩ := Prod.mk.inj (Option.some.inj read)
      rw [closed] at inside
      rw [opened, ← inside] at whole
      refine ⟨fun member => ?_, whole.symm⟩
      exact absurd (List.mem_takeWhile_imp member) (by simp)
    · exact nomatch read
  · exact nomatch read

theorem filterOp_eq {op : FilterOp} (read : filterOp text = some (op, rest)) :
    ∃ a b, text = a :: b :: rest ∧ a ∈ ['|', '!'] ∧ b ∈ ['=', '~'] := by
  unfold filterOp at read
  split at read
  case h_5 => exact nomatch read
  all_goals
    obtain ⟨_, rfl⟩ := Prod.mk.inj (Option.some.inj read)
    exact ⟨_, _, rfl, by decide, by decide⟩

theorem filterToken_eq {filter : LogQLFilter} (read : filterToken text = some (filter, rest)) :
    ∃ a b blank, a ∈ ['|', '!'] ∧ b ∈ ['=', '~'] ∧ Blank blank ∧ '"' ∉ filter.pattern ∧
      text = a :: b :: (blank ++ '"' :: (filter.pattern ++ '"' :: rest)) := by
  simp only [filterToken, Option.bind_eq_bind, Option.bind_eq_some_iff] at read
  obtain ⟨⟨op, behind⟩, first, ⟨pattern, behind'⟩, second, same⟩ := read
  obtain ⟨rfl, rfl⟩ := Prod.mk.inj (Option.some.inj same)
  obtain ⟨a, b, rfl, bar, sign⟩ := filterOp_eq first
  obtain ⟨blank, spaces, clear, rfl⟩ := doubleQuoted_eq second
  exact ⟨a, b, blank, bar, sign, spaces, clear, rfl⟩

theorem containsFilter_eq {value : QuotedText}
    (read : containsFilter text = some (value, rest)) :
    ∃ blank, Blank blank ∧ (value.quote = '"' ∨ value.quote = '\'') ∧
      text = '|' :: '=' :: (blank ++ value.quote :: (value.text ++ value.quote :: rest)) := by
  unfold containsFilter at read
  split at read
  · obtain ⟨blank, spaces, quotes, rfl⟩ := quotedText_eq read
    exact ⟨blank, spaces, quotes, rfl⟩
  · exact nomatch read

theorem containsFilter_consumes : Consumes containsFilter := by
  intro text value rest read
  obtain ⟨blank, _, _, rfl⟩ := containsFilter_eq read
  simp only [List.length_cons, List.length_append]
  omega

theorem filterToken_consumes : Consumes filterToken := by
  intro text filter rest read
  obtain ⟨a, b, blank, _, _, _, _, rfl⟩ := filterToken_eq read
  simp only [List.length_cons, List.length_append]
  omega

theorem literal_consumes (old : Str) : Consumes (literal old) := by
  intro text found rest read
  unfold literal at read
  split at read
  · next here =>
    obtain ⟨_, rfl⟩ := Prod.mk.inj (Option.some.inj read)
    have some_ := List.length_pos_of_ne_nil here.1
    have fits := here.2.length_le
    rw [List.length_drop]
    omega
  · exact nomatch read

theorem matchOp_suffix {op : MatchOp} (read : matchOp text = some (op, rest)) : rest <:+ text := by
  unfold matchOp at read
  split at read
  case h_5 => exact nomatch read
  case h_4 =>
    obtain ⟨_, rfl⟩ := Prod.mk.inj (Option.some.inj read)
    exact List.suffix_cons _ _
  all_goals
    obtain ⟨_, rfl⟩ := Prod.mk.inj (Option.some.inj read)
    exact ⟨[_, _], rfl⟩

theorem matcherToken_eq {m : LabelMatcher} (read : matcherToken text = some (m, rest)) :
    m.name = text.takeWhile isNameChar ∧ m.name ≠ [] ∧ rest.length < text.length := by
  unfold matcherToken at read
  split at read
  · exact nomatch read
  · next named =>
    simp only [Option.bind_eq_bind, Option.bind_eq_some_iff] at read
    obtain ⟨⟨op, behind⟩, first, ⟨value, behind'⟩, second, same⟩ := read
    obtain ⟨rfl, rfl⟩ := Prod.mk.inj (Option.some.inj same)
    refine ⟨rfl, named, ?_⟩
    obtain ⟨blank, _, _, text'⟩ := quotedText_eq second
    have names := (List.dropWhile_suffix isNameChar (l := text)).length_le
    have spaces := (List.dropWhile_suffix isSpace (l := text.dropWhile isNameChar)).length_le
    have op_ := (matchOp_suffix first).length_le
    replace text' : behind = blank ++ value.quote :: (value.text ++ value.quote :: behind') := text'
    rw [text'] at op_
    simp only [List.length_cons, List.length_append] at op_
    show behind'.length < text.length
    omega

theorem matcherToken_consumes : Consumes matcherToken := fun _ _ _ read => (matcherToken_eq read).2.2

end Reading

section Accepted
variable {raw : Str} {selectors : Dict Str Str} {texts : List Str}

structure Accepted (rawQuery : Str) : Prop where
  opens : (strip rawQuery).head? = some '{'
  closes : '}' ∈ strip rawQuery
  equal : ∀ m ∈ matchers rawQuery, m.op = .equal
  some_ : matchers rawQuery ≠ []
  commas : ∀ c ∈ cut matcherToken (selectorContent (strip rawQuery)), c = ',' ∨ isSpace c = true
  blanks : Blank (cut containsFilter (remainingText (strip rawQuery)))

theorem accepted_of (ok : validateFallbackQuery raw = .ok (selectors, texts)) :
    Accepted raw ∧ selectors = labelsOf (matchers raw) ∧ texts = (filterTexts raw).map (·.text) := by
  simp only [validateFallbackQuery] at ok
  split at ok
  · exact nomatch ok
  next braces =>
  split at ok
  · exact nomatch ok
  split at ok
  · exact nomatch ok
  next operators =>
  split at ok
  · exact nomatch ok
  next none_ =>
  split at ok
  · exact nomatch ok
  next between =>
  split at ok
  · exact nomatch ok
  next behind =>
  obtain ⟨rfl, rfl⟩ := Prod.mk.inj (Except.ok.inj ok)
  rw [not_not] at braces between
  refine ⟨⟨braces.1, braces.2, ?_, none_, ?_, ?_⟩, rfl, rfl⟩
  · intro m member
    by_contra other
    exact operators (List.any_eq_true.mpr ⟨m, member, by simpa using other⟩)
  · intro c member
    by_cases comma : c = ','
    · exact .inl comma
    · rw [strip_eq_nil_iff] at between
      exact .inr (between c (List.mem_filter.mpr ⟨member, by simpa using comma⟩))
  · rw [← strip_eq_nil_iff]
    by_contra solid
    have none_ : remainingText (strip raw) = [] := by
      by_contra some_
      exact behind ⟨some_, solid⟩
    rw [none_] at solid
    exact solid rfl

theorem accepted_of_isOk (ok : (validateFallbackQuery raw).isOk = true) :
    validateFallbackQuery raw = .ok (labelsOf (matchers raw), (filterTexts raw).map (·.text)) := by
  cases found : validateFallbackQuery raw with
  | error _ =>
    rw [found] at ok
    exact nomatch ok
  | ok pair =>
    obtain ⟨_, selectors, texts⟩ := accepted_of found
    rw [← selectors, ← texts]

theorem Accepted.braces (accepted : Accepted raw) : ∃ inner after,
    strip raw = '{' :: (inner ++ '}' :: after) ∧ '}' ∉ inner ∧
      (strip raw).idxOf '}' = inner.length + 1 := by
  obtain ⟨r, opened⟩ : ∃ r, strip raw = '{' :: r := List.head?_eq_some_iff.mp accepted.opens
  have closed := accepted.closes
  rw [opened] at closed ⊢
  have later : '}' ∈ r := (List.mem_cons.mp closed).resolve_left (by decide)
  obtain ⟨inner, after, rfl, first⟩ := List.eq_append_cons_of_mem later
  refine ⟨inner, after, rfl, first, ?_⟩
  rw [List.idxOf_cons_ne _ (by decide), List.idxOf_append_of_notMem first, List.idxOf_cons_self]

theorem strip_head {c : Char} (solid : isSpace c = false) (text : Str) :
    ∃ more, strip (c :: text) = c :: more := by
  rw [strip, List.dropWhile_cons_of_neg (by simp [solid])]
  obtain ⟨blank, spaces, whole⟩ := rstrip_split (c :: text)
  cases kept : rstrip (c :: text) with
  | nil =>
    rw [kept, List.nil_append] at whole
    exact absurd (spaces c (whole ▸ List.mem_cons_self)) (by simp [solid])
  | cons d more =>
    rw [kept] at whole
    obtain ⟨rfl, _⟩ := List.cons.inj whole
    exact ⟨more, rfl⟩

theorem cut_missed {α β : Type} {pattern : Pattern α β} {c : α} {cs : List α}
    (misses : pattern (c :: cs) = none) : c ∈ cut pattern (c :: cs) := by
  unfold cut
  rw [List.length_cons, scan_missed misses]
  exact List.mem_cons_self

theorem matcherToken_other {c : Char} (other : isNameChar c = false) (cs : Str) :
    matcherToken (c :: cs) = none := by
  rw [matcherToken, List.takeWhile_cons_of_neg (by simp [other])]
  rfl

theorem Accepted.selectors_same (accepted : Accepted raw) :
    parseStreamSelectors ((strip raw).take ((strip raw).idxOf '}' + 1)) = labelsOf (matchers raw) := by
  obtain ⟨inner, after, whole, first, place⟩ := accepted.braces
  have part : (strip raw).take ((strip raw).idxOf '}' + 1) = '{' :: inner ++ ['}'] := by
    rw [place, whole, List.cons_append, List.take_succ_cons, List.take_length_add_append]
    rfl
  have content : selectorContent (strip raw) = strip inner := by
    rw [selectorContent, place, whole, List.take_succ_cons, List.drop_succ_cons, List.drop_zero,
      List.take_left]
  have trimmed : strip ('{' :: inner ++ ['}']) = '{' :: inner ++ ['}'] := by
    rw [← trimmed_iff]
    constructor
    · intro c head
      obtain rfl := Option.some.inj head
      decide
    · intro c last
      rw [List.getLast?_concat] at last
      obtain rfl := Option.some.inj last
      decide
  have bare : ∀ c ∈ inner.head?, c ≠ '{' := by
    rintro c head rfl
    obtain ⟨more, opened⟩ := List.head?_eq_some_iff.mp head
    obtain ⟨more', kept⟩ := strip_head (by decide : isSpace '{' = false) more
    have between := accepted.commas '{' (by
      rw [content, opened, kept]
      exact cut_missed (matcherToken_other (by decide) _))
    exact absurd between (by decide)
  have opened : ('{' :: inner ++ ['}']).dropWhile (· = '{') = inner ++ ['}'] := by
    rw [List.cons_append, List.dropWhile_cons_of_pos (by simp)]
    cases inner with
    | nil => rfl
    | cons c rest => exact List.dropWhile_cons_of_neg (by simpa using bare c rfl)
  have closed : (inner ++ ['}']).rdropWhile (· = '}') = inner := by
    rw [List.rdropWhile_concat_pos _ _ _ (by simp), List.rdropWhile_eq_self_iff]
    intro some_ last
    have member := List.getLast_mem some_
    rw [of_decide_eq_true last] at member
    exact first member
  have all : (matchers raw).filter (fun m => m.op = .equal) = matchers raw :=
    List.filter_eq_self.mpr fun m member => decide_eq_true (accepted.equal m member)
  have some_ : strip inner ≠ [] := by
    intro none_
    refine accepted.some_ ?_
    rw [matchers, content, none_]
    rfl
  rw [part]
  simp only [parseStreamSelectors, trimmed, opened, closed]
  rw [if_neg some_, ← content]
  exact congrArg labelsOf all

end Accepted

section Counts
variable {text : Str}

def isQuote (c : Char) : Bool := c = '"'

def isSolid (c : Char) : Bool := !isSpace c

theorem countP_blank {p : Char → Bool} {blank : Str} (spaces : Blank blank)
    (out : ∀ c, isSpace c = true → p c = false) : blank.countP p = 0 :=
  List.countP_eq_zero.mpr fun c member => by rw [out c (spaces c member)]; exact Bool.false_ne_true

theorem quote_blank (c : Char) (space : isSpace c = true) : isQuote c = false := by
  by_contra quote
  obtain rfl : c = '"' := of_decide_eq_true (Bool.eq_true_of_not_eq_false quote)
  exact absurd space (by decide)

theorem solid_blank (c : Char) (space : isSpace c = true) : isSolid c = false := by
  rw [isSolid, space]
  rfl

theorem filterToken_countP {p : Char → Bool} {n : Nat} (out : ∀ c, isSpace c = true → p c = false)
    (frame : ∀ a ∈ ['|', '!'], ∀ b ∈ ['=', '~'], [a, b, '"', '"'].countP p = n) (text : Str)
    (filter : LogQLFilter) (rest : Str) (read : filterToken text = some (filter, rest)) :
    text.countP p = n + filter.pattern.countP p + rest.countP p := by
  obtain ⟨a, b, blank, bar, sign, spaces, _, rfl⟩ := filterToken_eq read
  have none_ := countP_blank spaces out
  have ends := frame a bar b sign
  simp only [List.countP_cons, List.countP_append, List.countP_nil, none_] at ends ⊢
  omega

theorem filters_countP {p : Char → Bool} {n : Nat} (out : ∀ c, isSpace c = true → p c = false)
    (frame : ∀ a ∈ ['|', '!'], ∀ b ∈ ['=', '~'], [a, b, '"', '"'].countP p = n) (text : Str) :
    ((finditer filterToken text).map fun f => n + f.pattern.countP p).sum ≤ text.countP p := by
  rw [countP_text filterToken_consumes _ (filterToken_countP out frame) text]
  exact Nat.le_add_right _ _

theorem containsFilter_countP {p : Char → Bool} (out : ∀ c, isSpace c = true → p c = false)
    (text : Str) (value : QuotedText) (rest : Str)
    (read : containsFilter text = some (value, rest)) :
    text.countP p =
      (['|', '=', value.quote, value.quote].countP p + value.text.countP p) + rest.countP p := by
  obtain ⟨blank, spaces, _, rfl⟩ := containsFilter_eq read
  have none_ := countP_blank spaces out
  simp only [List.countP_cons, List.countP_append, List.countP_nil, none_]
  omega

theorem texts_countP {p : Char → Bool} (out : ∀ c, isSpace c = true → p c = false)
    (blanks : Blank (cut containsFilter text)) :
    text.countP p = ((finditer containsFilter text).map fun f =>
      ['|', '=', f.quote, f.quote].countP p + f.text.countP p).sum := by
  rw [countP_text containsFilter_consumes _ (containsFilter_countP out) text, countP_blank blanks out]
  rfl

theorem containsFilter_quote : ∀ f ∈ finditer containsFilter text, f.quote = '"' ∨ f.quote = '\'' :=
  finditer_forall containsFilter_consumes (fun _ _ _ read =>
    have ⟨_, _, quotes, _⟩ := containsFilter_eq read
    quotes) text

theorem cut_literal_countP (old text : Str) (p : Char → Bool) :
    (cut (literal old) text).countP p + (finditer (literal old) text).length * old.countP p =
      text.countP p := by
  have exact_ : ∀ text found rest, literal old text = some (found, rest) →
      text.countP p = old.countP p + rest.countP p := by
    intro text found rest read
    unfold literal at read
    split at read
    · next here =>
      obtain ⟨_, rfl⟩ := Prod.mk.inj (Option.some.inj read)
      obtain ⟨behind, rfl⟩ := here.2
      rw [List.drop_left, List.countP_append]
    · exact nomatch read
  rw [countP_text (literal_consumes old) (fun _ => old.countP p) exact_ text]
  rw [List.map_const', List.sum_replicate, smul_eq_mul, Nat.add_comm]

theorem literal_found {old : Str} (some_ : old ≠ []) (here : old <:+: text) :
    0 < (finditer (literal old) text).length := by
  refine List.length_pos_of_ne_nil (finditer_ne_nil (literal_consumes old) ?_ some_ here)
  intro rest
  rw [literal, if_pos ⟨some_, List.prefix_append _ _⟩]
  rfl

end Counts

section Agree
variable {raw : Str} {compiles : Str → Bool}

/-- Each filter text stands in double quotes and holds none, and no text names a stage. -/
structure PlainFilters (rawQuery : Str) : Prop where
  double : ∀ f ∈ filterTexts rawQuery, f.quote = '"' ∧ '"' ∉ f.text
  noJson : ¬jsonStage <:+: remainingText (strip rawQuery)
  noLogfmt : ¬logfmtStage <:+: remainingText (strip rawQuery)

theorem checkFilters_ok {filters found : List LogQLFilter}
    (ok : checkFilters compiles filters = .ok found) : found = filters := by
  induction filters generalizing found with
  | nil => exact (Except.ok.inj ok).symm
  | cons filter rest ih =>
    unfold checkFilters at ok
    split at ok
    · exact nomatch ok
    · cases later : checkFilters compiles rest with
      | error _ =>
        rw [later] at ok
        exact nomatch ok
      | ok others =>
        rw [later] at ok
        rw [← Except.ok.inj ok, ih later]

theorem checkFilters_contains {filters : List LogQLFilter}
    (contains : ∀ f ∈ filters, f.op = .contains) : checkFilters compiles filters = .ok filters := by
  induction filters with
  | nil => rfl
  | cons filter rest ih =>
    obtain ⟨first, later⟩ := List.forall_mem_cons.mp contains
    rw [checkFilters, first, if_neg (by simp), ih later]
    rfl

theorem parse_accepted (accepted : Accepted raw) : parseLogqlQuery compiles raw =
    (parseFiltersAndPipeline compiles (remainingText (strip raw))).map fun (filters, pipeline) =>
      { rawQuery := raw, selectors := labelsOf (matchers raw), filters, formatPipeline := pipeline } := by
  have some_ : strip raw ≠ [] := by
    intro none_
    have opens := accepted.opens
    rw [none_] at opens
    exact nomatch opens
  have same := accepted.selectors_same
  simp only [parseLogqlQuery]
  rw [if_neg some_, if_pos ⟨accepted.opens, accepted.closes⟩, same]
  show (parseFiltersAndPipeline compiles (remainingText (strip raw)) >>= _) = _
  cases parseFiltersAndPipeline compiles (remainingText (strip raw)) <;> rfl

theorem doubleQuoted_of {text rest : Str} {value : QuotedText}
    (read : quotedText text = some (value, rest)) (double : value.quote = '"')
    (clear : '"' ∉ value.text) : doubleQuoted text = some (value.text, rest) := by
  obtain ⟨blank, spaces, _, rfl⟩ := quotedText_eq read
  have before : ∀ c ∈ value.text, decide (c ≠ '"') = true := by
    intro c member
    refine decide_eq_true fun same => ?_
    exact clear (same ▸ member)
  rw [double, doubleQuoted, List.dropWhile_append_of_pos spaces]
  have solid : isSpace '"' = false := by decide
  simp only [List.dropWhile_cons, solid, Bool.false_eq_true, if_false]
  rw [List.dropWhile_append_of_pos before, List.takeWhile_append_of_pos before]
  simp

theorem filters_plain {text : Str} (blanks : Blank (cut containsFilter text))
    (double : ∀ f ∈ finditer containsFilter text, f.quote = '"' ∧ '"' ∉ f.text) :
    finditer filterToken text =
      (finditer containsFilter text).map fun f => ⟨.contains, f.text⟩ := by
  refine finditer_map containsFilter_consumes ?_ ?_ text double blanks
  · intro text value rest read good
    unfold containsFilter at read
    split at read
    · rw [filterToken]
      simp only [filterOp, Option.bind_eq_bind, Option.bind_some,
        doubleQuoted_of read good.1 good.2]
      rfl
    · exact nomatch read
  · intro c cs blank
    have op : filterOp (c :: cs) = none := by
      unfold filterOp
      split
      case h_5 => rfl
      all_goals
        next opened =>
          obtain ⟨rfl, _⟩ := List.cons.inj opened
          exact absurd blank (by decide)
    rw [filterToken, op]
    rfl

theorem takeStage_plain {text : Str} (noJson : ¬jsonStage <:+: text)
    (noLogfmt : ¬logfmtStage <:+: text) : takeStage text = (none, text) := by
  rw [takeStage, if_neg noJson, if_neg noLogfmt]

theorem takeStage_countP (text : Str) (p : Char → Bool) :
    (takeStage text).2.countP p ≤ text.countP p ∧
      (jsonStage <:+: text ∨ logfmtStage <:+: text →
        (takeStage text).2.countP isSolid < text.countP isSolid) := by
  have literal_ {old : Str} (here : old <:+: text) (solid : 0 < old.countP isSolid) :
      (cut (literal old) text).countP p ≤ text.countP p ∧
        (cut (literal old) text).countP isSolid < text.countP isSolid := by
    have some_ : old ≠ [] := by
      rintro rfl
      exact absurd solid (by decide)
    have whole := cut_literal_countP old text p
    have whole' := cut_literal_countP old text isSolid
    have found := Nat.mul_pos (literal_found some_ here) solid
    omega
  unfold takeStage
  split
  · next here =>
    have shorter := literal_ here (by decide)
    exact ⟨shorter.1, fun _ => shorter.2⟩
  · next noJson =>
    split
    · next here =>
      have shorter := literal_ here (by decide)
      exact ⟨shorter.1, fun _ => shorter.2⟩
    · next noLogfmt => exact ⟨le_rfl, fun either => (either.elim noJson noLogfmt).elim⟩

theorem operator_frame {p : Char → Bool} {n : Nat}
    (frame : (['|', '!'].all fun a => ['=', '~'].all fun b => [a, b, '"', '"'].countP p = n) = true) :
    ∀ a ∈ ['|', '!'], ∀ b ∈ ['=', '~'], [a, b, '"', '"'].countP p = n := by
  intro a bar b sign
  have signs := List.all_eq_true.mp frame a bar
  exact of_decide_eq_true (List.all_eq_true.mp signs b sign)

theorem quotes_filters (text : Str) :
    2 * (finditer filterToken text).length ≤ text.countP isQuote := by
  have counted := filters_countP (p := isQuote) (n := 2) quote_blank (operator_frame (by decide)) text
  have each : ((finditer filterToken text).map fun _ => 2).sum ≤
      ((finditer filterToken text).map fun f => 2 + f.pattern.countP isQuote).sum :=
    List.sum_le_sum fun f _ => Nat.le_add_right _ _
  rw [List.map_const', List.sum_replicate, smul_eq_mul] at each
  omega

theorem quotes_texts {text : Str} (blanks : Blank (cut containsFilter text))
    (clear : ∀ f ∈ finditer containsFilter text, '"' ∉ f.text) :
    text.countP isQuote = 2 * (finditer containsFilter text).countP fun f => f.quote = '"' := by
  have quotes : ∀ f ∈ finditer containsFilter text, f.quote = '"' ∨ f.quote = '\'' :=
    containsFilter_quote
  rw [texts_countP quote_blank blanks]
  generalize finditer containsFilter text = found at quotes clear
  induction found with
  | nil => rfl
  | cons f rest ih =>
    obtain ⟨clear_first, clear_later⟩ := List.forall_mem_cons.mp clear
    obtain ⟨quote, quotes_later⟩ := List.forall_mem_cons.mp quotes
    have none_ : f.text.countP isQuote = 0 := List.countP_eq_zero.mpr fun c member same =>
      clear_first (of_decide_eq_true same ▸ member)
    have frame : ['|', '=', f.quote, f.quote].countP isQuote = if f.quote = '"' then 2 else 0 := by
      rcases quote with same | same <;> rw [same] <;> rfl
    rw [List.map_cons, List.sum_cons, ih quotes_later clear_later, frame, none_, List.countP_cons]
    by_cases double : f.quote = '"'
    · simp only [double, if_true, decide_true]
      omega
    · simp only [double, if_false, decide_false, Bool.false_eq_true]
      omega

theorem solid_texts {text : Str} (blanks : Blank (cut containsFilter text)) :
    text.countP isSolid =
      ((finditer containsFilter text).map fun f => 4 + f.text.countP isSolid).sum := by
  rw [texts_countP solid_blank blanks]
  refine congrArg List.sum (List.map_congr_left fun f member => ?_)
  rcases containsFilter_quote f member with same | same <;> rw [same] <;> rfl

theorem filters_clear (text : Str) : ∀ f ∈ finditer filterToken text, '"' ∉ f.pattern :=
  finditer_forall filterToken_consumes (fun _ _ _ read =>
    have ⟨_, _, _, _, _, _, clear, _⟩ := filterToken_eq read
    clear) text

/-- Where both parsers read the same texts, the quotes that they need leave only plain ones. -/
theorem plain_of_same (blanks : Blank (cut containsFilter (remainingText (strip raw))))
    (same : ((finditer filterToken (takeStage (remainingText (strip raw))).2).filter
        fun f => f.op = .contains).map (·.pattern) =
      (finditer containsFilter (remainingText (strip raw))).map (·.text)) : PlainFilters raw := by
  have quotes_text := quotes_texts blanks
  have solid_text := solid_texts blanks
  have quotes_filter := quotes_filters (takeStage (remainingText (strip raw))).2
  have solid_filter := filters_countP (n := 4) solid_blank (operator_frame (by decide))
    (takeStage (remainingText (strip raw))).2
  have fewer := takeStage_countP (remainingText (strip raw)) isQuote
  have patterns := filters_clear (takeStage (remainingText (strip raw))).2
  have texts : filterTexts raw = finditer containsFilter (remainingText (strip raw)) := rfl
  generalize finditer filterToken (takeStage (remainingText (strip raw))).2 = filters at *
  generalize finditer containsFilter (remainingText (strip raw)) = found at *
  have clear : ∀ f ∈ found, '"' ∉ f.text := by
    intro f member
    have here : f.text ∈ (filters.filter fun f => f.op = .contains).map (·.pattern) :=
      same ▸ List.mem_map_of_mem member
    obtain ⟨filter, kept, same_text⟩ := List.mem_map.mp here
    exact same_text ▸ patterns filter (List.mem_filter.mp kept).1
  have long : found.length ≤ filters.length := by
    have lengths := congrArg List.length same
    rw [List.length_map, List.length_map] at lengths
    have shorter := List.length_filter_le (fun f : LogQLFilter => f.op = .contains) filters
    omega
  have all : found.countP (fun f => f.quote = '"') = found.length := by
    have most := List.countP_le_length (p := fun f : QuotedText => f.quote = '"') (l := found)
    have quotes := quotes_text clear
    omega
  have weights : (found.map fun f => 4 + f.text.countP isSolid).sum ≤
      (filters.map fun f => 4 + f.pattern.countP isSolid).sum := by
    have sums := congrArg (fun texts : List Str => (texts.map fun t => 4 + t.countP isSolid).sum) same
    simp only [List.map_map] at sums
    have part := (List.filter_sublist (p := fun f : LogQLFilter => f.op = .contains)
      (l := filters)).map fun f => 4 + f.pattern.countP isSolid
    exact sums.symm.le.trans (part.sum_le_sum fun _ _ => Nat.zero_le _)
  have kept : ¬(jsonStage <:+: remainingText (strip raw) ∨
      logfmtStage <:+: remainingText (strip raw)) := by
    intro staged
    have lost := fewer.2 staged
    omega
  refine ⟨?_, fun json => kept (.inl json), fun logfmt => kept (.inr logfmt)⟩
  rw [texts]
  intro f member
  exact ⟨of_decide_eq_true (List.countP_eq_length.mp all f member), clear f member⟩

/-- The two parsers read the same filter texts exactly when each one is plain. -/
theorem filters_same_iff (accepted : Accepted raw) :
    (∃ query, parseLogqlQuery compiles raw = .ok query ∧ query.selectors = labelsOf (matchers raw) ∧
      query.contained = (filterTexts raw).map (·.text)) ↔ PlainFilters raw := by
  rw [parse_accepted accepted]
  have blanks := accepted.blanks
  unfold filterTexts
  constructor
  · rintro ⟨query, parsed, _, same⟩
    unfold parseFiltersAndPipeline at parsed
    cases checked : checkFilters compiles
        (finditer filterToken (takeStage (remainingText (strip raw))).2) with
    | error _ =>
      simp only [checked] at parsed
      exact nomatch parsed
    | ok filters =>
      simp only [checked] at parsed
      obtain rfl := checkFilters_ok checked
      obtain rfl := Except.ok.inj parsed
      replace same : ((finditer filterToken (takeStage (remainingText (strip raw))).2).filter
          fun f => f.op = .contains).map (·.pattern) =
        (finditer containsFilter (remainingText (strip raw))).map (·.text) := same
      exact plain_of_same blanks same
  · intro plain
    have found := filters_plain blanks plain.double
    have stage := takeStage_plain plain.noJson plain.noLogfmt
    have checked : checkFilters compiles ((filterTexts raw).map fun f => ⟨.contains, f.text⟩) =
        .ok ((filterTexts raw).map fun f => ⟨.contains, f.text⟩) := by
      refine checkFilters_contains ?_
      intro f member
      obtain ⟨value, _, rfl⟩ := List.mem_map.mp member
      rfl
    unfold filterTexts at checked
    let query : LogQLQuery := {
      rawQuery := raw
      selectors := labelsOf (matchers raw)
      filters := (filterTexts raw).map fun f => ⟨.contains, f.text⟩ }
    refine ⟨query, ?_, rfl, ?_⟩
    · simp only [parseFiltersAndPipeline, stage, found, checked]
      rfl
    · simp [query, LogQLQuery.contained, filterTexts, List.filter_map, Function.comp_def]

end Agree
end DevopsCli.K8s.Logql
