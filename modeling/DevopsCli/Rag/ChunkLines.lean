import DevopsCli.Rag.ChunkIds
import DevopsCli.Rag.ChunkText

/- The lines that a chunk says it has, against the numbering of the parser that found it. -/
namespace DevopsCli.Rag.Chunker
open PyStr

variable {Token Id : Type} (c : Chunker Token Id)

def pythonRanges (lines : List Str) (nodes : List PythonNode) : List (Nat × Nat) :=
  let definitions := nodes.filter (·.isDefinition)
  let covered := definitions.flatMap fun node =>
    List.range' node.lineno (node.endLineno + 1 - node.lineno)
  (c.preamble lines covered).toList.map CodeChunk.range ++
    definitions.map fun node => (node.lineno, node.endLineno)

def parserRanges (lines : List Str) : Rendering → List (Nat × Nat)
  | .python (some nodes) => c.pythonRanges lines nodes
  | .techDocs (some headings) => sectionRanges lines.length headings
  | _ => []

inductive Finder where
  | pythonGrammar
  | commonMark
  | lineWindows
  deriving DecidableEq

def finder (content : Str) (rendering : Rendering) : Finder :=
  if c.parserRanges (splitlines content) rendering = [] then .lineWindows
  else
    match rendering with
    | .python _ => .pythonGrammar
    | _ => .commonMark

/-- The lines of the file as the parser that found the chunks counts them. -/
def numbering (content : Str) (rendering : Rendering) : List Str :=
  match c.finder content rendering with
  | .lineWindows => splitlines content
  | _ => universalLines content

/-- What the parsers promise: Python counts from one, and CommonMark gives headings in order, with
    text from each one on. -/
structure Parsed (content : Str) (rendering : Rendering) : Prop where
  nodes : ∀ nodes, rendering = .python (some nodes) → ∀ node ∈ nodes, 1 ≤ node.lineno
  order : ∀ headings, rendering = .techDocs (some headings) → headings.Pairwise (· < ·)
  text : ∀ headings, rendering = .techDocs (some headings) → ∀ heading ∈ headings,
    ∃ (i : Nat) (line : Str), heading ≤ i ∧ (universalLines content)[i]? = some line ∧ ¬Blank line

/-- A positive limit, a tokenizer that loses nothing of the lines that it cuts, lines of splitlines
    that are those of the parser where it found something, and text over the limit that begins
    at the first of its lines. -/
structure Fits (content : Str) (rendering : Rendering) : Prop where
  limit : 0 < c.maxTokens
  decodes : ∀ s ∈ parserSpans (splitlines content) rendering,
    GroupsDecode c.enc c.maxTokens (fun _ => True) (s.groups c.enc c.maxTokens)
  -- The chunks of windows go over the limit twice.
  windows : parserSpans (splitlines content) rendering = [] →
    ∀ s ∈ c.windowSpans (splitlines content),
      GroupsDecode c.enc c.maxTokens c.Recut (s.groups c.enc c.maxTokens)
  numbered : ∀ r ∈ c.parserRanges (splitlines content) rendering,
    linesOf (splitlines content) r.1 r.2 = linesOf (universalLines content) r.1 r.2
  starts : ∀ r ∈ c.parserRanges (splitlines content) rendering,
    overLimit c.enc c.maxTokens (textOf (linesOf (splitlines content) r.1 r.2)) = true →
      ∀ first ∈ (linesOf (splitlines content) r.1 r.2).head?, ¬Blank first

/-- A Markdown file has no text before its first heading. -/
def NoPreface (content : Str) (rendering : Rendering) : Prop :=
  ∀ first rest, rendering = .techDocs (some (first :: rest)) →
    ∀ line ∈ (universalLines content).take first, Blank line

def pythonMarkdownOrPlain : Rendering → Bool
  | .python _ | .techDocs _ | .lines => true
  | .yaml _ | .symbols _ => false

variable {c} {content : Str} {chunks : List (CodeChunk c)}

theorem sections_cover {total first i : Nat} (rest : List Nat) (lower : first ≤ i)
    (inside : i < total) :
    ∃ r ∈ sectionRanges total (first :: rest), r.1 ≤ i + 1 ∧ i + 1 ≤ r.2 := by
  induction rest generalizing first with
  | nil => exact ⟨(first + 1, total), List.mem_singleton_self _, by omega, by omega⟩
  | cons second more ih =>
    by_cases early : i < second
    · exact ⟨(first + 1, second), List.mem_cons_self, by omega, by omega⟩
    · obtain ⟨r, member, span⟩ := ih (Nat.le_of_not_lt early)
      exact ⟨r, List.mem_cons_of_mem _ member, span⟩

theorem section_start {total : Nat} {headings : List Nat} {r : Nat × Nat}
    (member : r ∈ sectionRanges total headings) : ∃ heading ∈ headings, r.1 = heading + 1 := by
  obtain ⟨span, zipped, rfl⟩ := List.mem_map.mp member
  exact ⟨span.1, (List.of_mem_zip zipped).1, rfl⟩

theorem textSpan_found {lines : List Str} {range : Nat × Nat} {s : Span}
    (found : textSpan lines range = some s) :
    s.range = range ∧ c.Found lines range (c.spanChunk s) := by
  rw [textSpan] at found
  split at found
  · cases found
  · obtain rfl := Option.some.inj found
    exact ⟨rfl, rfl, Or.inr rfl⟩

theorem spans_found {lines : List Str} {rendering : Rendering}
    (kind : pythonMarkdownOrPlain rendering = true) : ∀ s ∈ parserSpans lines rendering,
      s.range ∈ c.parserRanges lines rendering ∧ c.Found lines s.range (c.spanChunk s) := by
  intro s member
  rw [parserSpans] at member
  split at member
  · cases member
  unfold languageSpans at member
  split at member
  · rcases List.mem_append.mp member with first | later
    · have preamble := Option.mem_toList.mp first
      obtain ⟨range, _, found⟩ := Option.bind_eq_some_iff.mp preamble
      obtain ⟨same, found⟩ := textSpan_found (c := c) found
      rw [← same] at found
      refine ⟨List.mem_append_left _ (List.mem_map.mpr ⟨c.spanChunk s, ?_, rfl⟩), found⟩
      rw [coveredLines, List.flatMap_map] at preamble
      rw [preamble_span, preamble]
      exact List.mem_singleton_self _
    · obtain ⟨range, inside, rfl⟩ := List.mem_map.mp later
      exact ⟨List.mem_append_right _ inside, rfl, Or.inl rfl⟩
  · cases kind
  · obtain ⟨range, inside, found⟩ := List.mem_filterMap.mp member
    obtain ⟨same, found⟩ := textSpan_found (c := c) found
    exact ⟨same ▸ inside, same ▸ found⟩
  · cases kind
  · cases member

theorem section_span {lines : List Str} {headings : List Nat} {r : Nat × Nat}
    (member : r ∈ sectionRanges lines.length headings)
    (text_ : textOf (linesOf lines r.1 r.2) ≠ []) :
    ∃ s ∈ parserSpans lines (.techDocs (some headings)), s.range = r := by
  have some_ : lines ≠ [] := by
    rintro rfl
    rw [linesOf, List.drop_nil, List.take_nil] at text_
    exact text_ textOf_nil
  rw [parserSpans, if_neg some_]
  exact ⟨spanOf r _, List.mem_filterMap.mpr ⟨r, member, if_neg text_⟩, rfl⟩

theorem found_say {rendering : Rendering} (fits : c.Fits content rendering)
    (kind : pythonMarkdownOrPlain rendering = true)
    (one : ∀ r ∈ c.parserRanges (splitlines content) rendering, 1 ≤ r.1) {s : Span}
    (listed : s ∈ parserSpans (splitlines content) rendering) {part : List (CodeChunk c)}
    (cut : c.splitLargeChunk (c.spanChunk s) = some part) :
    c.SplitOf (universalLines content) s.range part := by
  obtain ⟨range, found⟩ := spans_found (c := c) kind s listed
  have decodes (large : overLimit c.enc c.maxTokens (c.spanChunk s).content = true) :
      GroupsDecode c.enc c.maxTokens (fun _ => True)
        (lineGroups c.enc c.maxTokens (splitlines (c.spanChunk s).content) s.range.1) := by
    have groups : s.groups c.enc c.maxTokens = lineGroups c.enc c.maxTokens s.lines s.range.1 :=
      if_pos large
    have decodes := fits.decodes s listed
    rwa [groups, parser_lines s listed] at decodes
  exact (found_split fits.limit (splitlines_unbroken content) (one _ range) found decodes
    (fits.starts _ range) cut).renumber (one _ range) (fits.numbered _ range)

theorem ranges_one {rendering : Rendering} (parsed : Parsed content rendering) :
    ∀ r ∈ c.parserRanges (splitlines content) rendering, 1 ≤ r.1 := by
  intro r member
  match rendering, parsed with
  | .python (some nodes), parsed =>
    rcases List.mem_append.mp member with first | later
    · obtain ⟨chunk, here, rfl⟩ := List.mem_map.mp first
      have preamble := Option.mem_toList.mp here
      rw [Chunker.preamble] at preamble
      split at preamble
      · obtain rfl := Option.some.inj preamble
        exact le_rfl
      · exact absurd preamble (by simp)
    · obtain ⟨node, here, rfl⟩ := List.mem_map.mp later
      exact parsed.nodes nodes rfl node (List.mem_of_mem_filter here)
  | .techDocs (some headings), parsed =>
    obtain ⟨heading, _, start⟩ := section_start member
    omega

theorem parser_say {rendering : Rendering} (parsed : Parsed content rendering)
    (fits : c.Fits content rendering) (kind : pythonMarkdownOrPlain rendering = true)
    {parts : List (List (CodeChunk c))}
    (split : ((parserSpans (splitlines content) rendering).map c.spanChunk).mapM c.splitLargeChunk =
      some parts) :
    ∀ chunk ∈ parts.flatten, c.Located (universalLines content) chunk ∧
      ∃ r ∈ c.parserRanges (splitlines content) rendering, r.1 ≤ chunk.startLine := by
  intro chunk member
  obtain ⟨part, here, inside⟩ := List.mem_flatten.mp member
  obtain ⟨first, there, cut⟩ := (OptionLists.mem_mapM split part).mp here
  obtain ⟨s, listed, rfl⟩ := List.mem_map.mp there
  have say := found_say fits kind (ranges_one parsed) listed cut
  exact ⟨say.located chunk inside, s.range, (spans_found kind s listed).1, (say.inside chunk inside).1⟩

theorem section_holds {first : Nat} {rest : List Nat}
    (parsed : Parsed content (.techDocs (some (first :: rest))))
    (fits : c.Fits content (.techDocs (some (first :: rest)))) {i : Nat} {line : Str}
    (here : (universalLines content)[i]? = some line) (text_ : ¬Blank line) (lower : first ≤ i) :
    ∃ s ∈ parserSpans (splitlines content) (.techDocs (some (first :: rest))),
      s.range.1 ≤ i + 1 ∧ i + 1 ≤ s.range.2 := by
  have inside := (List.getElem?_eq_some_iff.mp here).1
  obtain ⟨r, range, start, final⟩ :=
    sections_cover rest lower (Nat.lt_of_lt_of_le inside (universalLines_length content))
  have one := ranges_one (c := c) parsed r range
  rw [← getElem?_linesOf one start final, ← fits.numbered r range] at here
  obtain ⟨s, listed, rfl⟩ := section_span range (textOf_ne_nil (List.mem_of_getElem? here) text_)
  exact ⟨s, listed, start, final⟩

theorem sections_cover_iff {first : Nat} {rest : List Nat}
    (parsed : Parsed content (.techDocs (some (first :: rest))))
    (fits : c.Fits content (.techDocs (some (first :: rest))))
    {parts : List (List (CodeChunk c))}
    (split : ((parserSpans (splitlines content) (.techDocs (some (first :: rest)))).map
      c.spanChunk).mapM c.splitLargeChunk = some parts) :
    Covers (universalLines content) parts.flatten ↔
      NoPreface content (.techDocs (some (first :: rest))) := by
  have say := parser_say parsed fits rfl split
  constructor
  · intro covers first' rest' same line early
    by_contra text_
    obtain ⟨i, bound, here⟩ := List.mem_take_iff_getElem.mp early
    obtain ⟨rfl, rfl⟩ := List.cons.inj (Option.some.inj (Rendering.techDocs.inj same))
    have there := List.getElem?_eq_getElem (l := universalLines content) (i := i) (by omega)
    rw [here] at there
    obtain ⟨chunk, member, lower, _⟩ := covers i line there text_
    obtain ⟨_, r, range, start⟩ := say chunk member
    obtain ⟨heading, inside, begins⟩ := section_start range
    have ordered : first ≤ heading := by
      rcases List.mem_cons.mp inside with rfl | later
      · exact le_rfl
      · exact ((List.pairwise_cons.mp (parsed.order _ rfl)).1 heading later).le
    omega
  · intro preface i line here text_
    by_cases early : i < first
    · obtain ⟨inside, there⟩ := List.getElem?_eq_some_iff.mp here
      exact absurd (preface first rest rfl line
        (List.mem_take_iff_getElem.mpr ⟨i, by omega, there⟩)) text_
    · obtain ⟨s, listed, start, final⟩ :=
        section_holds parsed fits here text_ (Nat.le_of_not_lt early)
      obtain ⟨part, inside, cut⟩ := OptionLists.exists_of_mapM split (List.mem_map_of_mem listed)
      obtain ⟨chunk, member, lower, upper⟩ :=
        (found_say fits rfl (ranges_one parsed) listed cut).covers i line here text_ start final
      exact ⟨chunk, List.mem_flatten.mpr ⟨part, inside, member⟩, lower, upper⟩

theorem no_spans {rendering : Rendering} (kind : pythonMarkdownOrPlain rendering = true)
    (parsed : Parsed content rendering) (fits : c.Fits content rendering)
    (none_ : parserSpans (splitlines content) rendering = []) :
    c.parserRanges (splitlines content) rendering = [] ∨
      c.finder content rendering = .pythonGrammar ∧ splitlines content = [] := by
  by_cases empty : c.parserRanges (splitlines content) rendering = []
  · exact .inl empty
  cases rendering with
  | python tree =>
    cases tree with
    | none => exact .inl rfl
    | some nodes =>
      refine .inr ⟨if_neg empty, ?_⟩
      by_contra lines
      rw [parserSpans, if_neg lines, languageSpans, List.append_eq_nil_iff, List.map_eq_nil_iff,
        Option.toList_eq_nil_iff, coveredLines, List.flatMap_map] at none_
      refine empty ?_
      simp only [parserRanges, pythonRanges, preamble_span]
      rw [none_.1, none_.2]
      rfl
  | techDocs headings =>
    rcases headings with _ | _ | ⟨first, rest⟩
    · exact .inl rfl
    · exact .inl rfl
    · obtain ⟨i, line, after, here, text_⟩ := parsed.text _ rfl first List.mem_cons_self
      obtain ⟨s, listed, _⟩ := section_holds parsed fits here text_ after
      rw [none_] at listed
      cases listed
  | lines => exact .inl rfl
  | yaml docs => cases kind
  | symbols spans => cases kind

theorem blank_of_no_lines (empty : splitlines content = []) : strip content = [] := by
  rw [strip_eq_nil_iff, ← List.nil_append content]
  refine blank_of_linesFrom [] content ?_
  rw [← splitlines, empty]
  exact List.forall_mem_nil _

/-- Every chunk has the text of its lines, or a piece of one line over the limit, in the numbering
    of the parser; and, for Markdown and windows of lines, every line with text is in a chunk
    exactly when no text is before the first heading. -/
theorem chunks_say_where (c : Chunker Token Id) (size : 0 < c.chunkSize) (content : Str)
    (rendering : Rendering) (kind : pythonMarkdownOrPlain rendering = true)
    (parsed : Parsed content rendering) (fits : c.Fits content rendering)
    (out : List (CodeChunk c)) (returned : c.chunkFile content rendering = some out) :
    (∀ chunk ∈ out, c.Located (c.numbering content rendering) chunk) ∧
      (c.finder content rendering ≠ .pythonGrammar →
        (Covers (c.numbering content rendering) out ↔ NoPreface content rendering)) := by
  simp only [chunkFile, Option.bind_eq_bind, Option.bind_eq_some_iff, Option.pure_def,
    Option.some.injEq] at returned
  obtain ⟨chunks, rendered, parts, split, rfl⟩ := returned
  rcases language_spans rendered with ⟨some_, rfl⟩ | ⟨none_, windows⟩
  · obtain ⟨s, listed⟩ := List.exists_mem_of_ne_nil _ some_
    have ranges := List.ne_nil_of_mem (spans_found (c := c) kind s listed).1
    have say := fun chunk member => (parser_say parsed fits kind split chunk member).1
    cases rendering with
    | python tree =>
      have found : c.finder content (.python tree) = .pythonGrammar := if_neg ranges
      rw [numbering, found]
      exact ⟨say, fun differs => absurd rfl differs⟩
    | techDocs headings =>
      have found : c.finder content (.techDocs headings) = .commonMark := if_neg ranges
      rw [numbering, found]
      rcases headings with _ | _ | ⟨first, rest⟩
      · exact absurd rfl ranges
      · exact absurd rfl ranges
      · exact ⟨say, fun _ => sections_cover_iff parsed fits split⟩
    | lines => exact absurd rfl ranges
    | yaml docs => cases kind
    | symbols spans => cases kind
  · rcases no_spans kind parsed fits none_ with empty | ⟨python, no_lines⟩
    · have found : c.finder content rendering = .lineWindows := if_pos empty
      have preface : NoPreface content rendering := by
        rintro first rest rfl
        exact absurd empty (by cases rest <;> simp [parserRanges, sectionRanges])
      rw [numbering, found]
      obtain ⟨located, covers⟩ := windows_say fits.limit size (fits.windows none_) windows split
      exact ⟨located, fun _ => iff_of_true covers preface⟩
    · rw [windows_cut, no_windows (blank_of_no_lines no_lines)] at windows
      obtain rfl := Option.some.inj windows
      obtain rfl := Option.some.inj split
      exact ⟨List.forall_mem_nil _, fun differs => absurd python differs⟩

def wideEncoding : Encoding (Char × Bool) where
  encode text := some (text.flatMap fun ch =>
    if ch = 'X' then [('X', false), ('X', true)] else [(ch, true)])
  decode := decode
where
  decode : List (Char × Bool) → Option Str
    | [] => some []
    | ('X', false) :: ('X', true) :: rest => (decode rest).map ('X' :: ·)
    | (ch, _) :: rest => (decode rest).map ((if ch = 'X' then '\uFFFD' else ch) :: ·)

def wideChunker : Chunker (Char × Bool) Str where
  chunkSize := 2
  chunkOverlap := 1
  enc := some wideEncoding
  maxTokens := 2
  uuid5 := id
  projectName := []
  filePath := ['f']

theorem fits_wide : wideChunker.Fits ['a', 'b', 'X', 'c'] .lines := by
  have spans : wideChunker.windowSpans (splitlines ['a', 'b', 'X', 'c']) =
    [⟨(1, 1), ['a', 'b', 'X', 'c'], [['a', 'b', 'X', 'c']]⟩] := by rfl
  have tokens : tokenPieces wideChunker.enc wideChunker.maxTokens ['a', 'b', 'X', 'c'] =
    some ([['a', 'b'], ['X'], ['c']], true) := by rfl
  have cut : pieces wideChunker.enc wideChunker.maxTokens ['a', 'b', 'X', 'c'] =
    some [['a', 'b'], ['X'], ['c']] := by rfl
  have small : ∀ piece ∈ [['a', 'b'], ['X'], ['c']],
    overLimit wideChunker.enc wideChunker.maxTokens piece = false := by decide
  refine ⟨by decide, fun s listed => absurd listed (by simp [parserSpans, languageSpans]),
    fun _ => ?_, List.forall_mem_nil _, List.forall_mem_nil _⟩
  rw [spans]
  refine List.forall_mem_singleton.mpr (List.forall_mem_singleton.mpr fun _ => ⟨?_, ?_⟩)
  · intro decoded whole made
    obtain ⟨rfl, rfl⟩ := Prod.mk.inj (Option.some.inj (tokens.symm.trans made))
    exact ⟨List.prefix_refl _, fun _ => rfl⟩
  · intro these made piece member large
    obtain rfl := Option.some.inj (cut.symm.trans made)
    rw [small piece member] at large
    cases large

/-- A line over the limit, which is cut on both sides of the wide character. -/
theorem chunks_say_where_wide :
    ∃ out, wideChunker.chunkFile ['a', 'b', 'X', 'c'] .lines = some out ∧ out.length = 3 ∧
      (∀ chunk ∈ out, wideChunker.Located
        (wideChunker.numbering ['a', 'b', 'X', 'c'] .lines) chunk) ∧
      (wideChunker.finder ['a', 'b', 'X', 'c'] .lines ≠ .pythonGrammar →
        (Covers (wideChunker.numbering ['a', 'b', 'X', 'c'] .lines) out ↔
          NoPreface ['a', 'b', 'X', 'c'] .lines)) := by
  have parsed : Parsed ['a', 'b', 'X', 'c'] .lines :=
    ⟨fun _ same => (by cases same), fun _ same => (by cases same), fun _ same => (by cases same)⟩
  have reached : (wideChunker.chunkFile ['a', 'b', 'X', 'c'] .lines).any
      (fun out => out.length == 3) = true := by decide +kernel
  obtain ⟨out, returned, three⟩ := (Option.any_eq_true _ _).mp reached
  exact ⟨out, returned, beq_iff_eq.mp three,
    chunks_say_where wideChunker (by decide) _ _ rfl parsed fits_wide out returned⟩

def feedText : Str :=
  ['x', '\x0c', '\n', 'd', 'e', 'f', ' ', 'f', '(', ')', ':', '\n', ' ', '1']

theorem not_shown {enc : Option (Encoding Token)} {maxTokens : Int} {lines : List Str} {text : Str}
    (differs : strip text ≠ textOf lines)
    (small : ∀ line ∈ lines, overLimit enc maxTokens (strip line) = false) :
    ¬Shown enc maxTokens lines text := by
  rintro (same | ⟨line, rfl, large, _⟩)
  · exact differs same
  · rw [small line (List.mem_singleton_self line)] at large
    exact Bool.false_ne_true large

theorem located_not {c : Chunker Token Id} {content : Str} {rendering : Rendering}
    {lines : List Str} (reached : (c.chunkFile content rendering).any (fun out => out.any fun chunk =>
      let these := linesOf lines chunk.startLine chunk.endLine
      decide (strip chunk.content ≠ textOf these) &&
        these.all fun line => !overLimit c.enc c.maxTokens (strip line)) = true) :
    ∃ out, c.chunkFile content rendering = some out ∧ ¬∀ chunk ∈ out, c.Located lines chunk := by
  obtain ⟨out, returned, some_⟩ := (Option.any_eq_true _ _).mp reached
  obtain ⟨chunk, member, found⟩ := List.any_eq_true.mp some_
  rw [Bool.and_eq_true, decide_eq_true_eq, List.all_eq_true] at found
  refine ⟨out, returned, fun located => not_shown found.1 (fun line here => ?_)
    (located chunk member)⟩
  exact Bool.not_eq_true' _ ▸ found.2 line here

/-- Text before a heading is in no chunk, a preamble that begins with blank lines is shifted when
    it is split, and a form feed shifts the lines of a definition. -/
theorem text_elsewhere :
    (∃ out, (smallChunker 9).chunkFile ['a', '\n', '#', ' ', 'T'] (.techDocs (some [1])) = some out ∧
      ¬Covers ((smallChunker 9).numbering ['a', '\n', '#', ' ', 'T'] (.techDocs (some [1]))) out) ∧
    (∃ out, (smallChunker 3).chunkFile ['\n', '\n', 'a', 'b', '\n', 'c', 'd']
        (.python (some [⟨false, 3, 3⟩, ⟨false, 4, 4⟩])) = some out ∧
      ¬∀ chunk ∈ out, (smallChunker 3).Located ((smallChunker 3).numbering
        ['\n', '\n', 'a', 'b', '\n', 'c', 'd'] (.python (some [⟨false, 3, 3⟩, ⟨false, 4, 4⟩]))) chunk) ∧
    ∃ out, (smallChunker 99).chunkFile feedText (.python (some [⟨false, 1, 1⟩, ⟨true, 2, 3⟩])) =
        some out ∧
      ¬∀ chunk ∈ out, (smallChunker 99).Located ((smallChunker 99).numbering feedText
        (.python (some [⟨false, 1, 1⟩, ⟨true, 2, 3⟩]))) chunk := by
  refine ⟨?_, ?_, ?_⟩
  · have reached : ((smallChunker 9).chunkFile ['a', '\n', '#', ' ', 'T'] (.techDocs (some [1]))).any
        (fun out => out.all fun chunk => 1 < chunk.startLine) = true := by decide +kernel
    obtain ⟨out, returned, later⟩ := (Option.any_eq_true _ _).mp reached
    refine ⟨out, returned, fun covers => ?_⟩
    obtain ⟨chunk, member, lower, _⟩ := covers 0 ['a'] (by decide +kernel) (by decide +kernel)
    have start := of_decide_eq_true (List.all_eq_true.mp later chunk member)
    omega
  · exact located_not (by decide +kernel)
  · exact located_not (by decide +kernel)

end DevopsCli.Rag.Chunker
