import DevopsCli.Lib.PyLines
import DevopsCli.Rag.Chunker

/- The spans of a file that its chunks are made of: those of the parser of its language, or windows
   of lines; and the runs of lines that the token limit keeps together in a span. -/
namespace DevopsCli.Rag
open PyStr

/-- Lines that the token limit keeps together. -/
structure LineGroup where
  start : Nat
  lines : List Str

def LineGroup.range (g : LineGroup) : Nat × Nat := (g.start, g.start + g.lines.length - 1)

structure Span where
  range : Nat × Nat
  text : Str
  -- The lines that the limit goes over when the text is too long.
  lines : List Str

section Tokens
variable {Token : Type} (enc : Option (Encoding Token)) (maxTokens : Int)

def lineGroupsFrom (next start : Nat) (current : List Str) : List Str → List LineGroup
  | [] => if current = [] then [] else [⟨start, current⟩]
  | line :: rest =>
    if full enc maxTokens current line then
      ⟨start, current⟩ :: lineGroupsFrom (next + 1) next [line] rest
    else lineGroupsFrom (next + 1) start (current ++ [line]) rest

def lineGroups (lines : List Str) (start : Nat) : List LineGroup :=
  lineGroupsFrom enc maxTokens start start [] lines

def Span.groups (s : Span) : List LineGroup :=
  if overLimit enc maxTokens s.text then lineGroups enc maxTokens s.lines s.range.1 else []

end Tokens

namespace Chunker

def spanOf (range : Nat × Nat) (text : Str) : Span := ⟨range, text, splitlines text⟩

def textSpan (lines : List Str) (range : Nat × Nat) : Option Span :=
  if textOf (linesOf lines range.1 range.2) = [] then none
  else some (spanOf range (textOf (linesOf lines range.1 range.2)))

def preambleRange (lines : List Str) (covered : List Nat) : Option (Nat × Nat) :=
  let uncovered := ((List.range lines.length).map (· + 1)).filter fun line => line ∉ covered
  let preambleEnd := min (covered.min?.getD (lines.length + 1) - 1) 60
  if uncovered.head? = some 1 ∧ 3 < uncovered.length ∧ 1 ≤ preambleEnd then some (1, preambleEnd)
  else none

def preambleSpan (lines : List Str) (covered : List Nat) : Option Span :=
  (preambleRange lines covered).bind (textSpan lines)

def coveredLines (ranges : List (Nat × Nat)) : List Nat :=
  ranges.flatMap fun range => List.range' range.1 (range.2 + 1 - range.1)

def sectionRanges (total : Nat) (headings : List Nat) : List (Nat × Nat) :=
  (headings.zip (headings.tail ++ [total])).map fun span => (span.1 + 1, span.2)

def languageSpans (lines : List Str) : Rendering → List Span
  | .python (some nodes) =>
    let ranges := (nodes.filter (·.isDefinition)).map fun node => (node.lineno, node.endLineno)
    (preambleSpan lines (coveredLines ranges)).toList ++
      ranges.map fun range => spanOf range (join ['\n'] (linesOf lines range.1 range.2))
  | .yaml (some docs) => docs.reduceOption.filterMap fun (startMark, endMark) =>
    textSpan lines (startMark + 1, max (startMark + 1) endMark)
  | .techDocs (some headings) => (sectionRanges lines.length headings).filterMap (textSpan lines)
  | .symbols spans =>
    if spans = [] then []
    else
      let found := spans.filterMap fun span =>
        textSpan lines (span.row + 1, min lines.length span.lineEnd)
      (preambleSpan lines (coveredLines (found.map Span.range))).toList ++ found
  | _ => []

def parserSpans (lines : List Str) (rendering : Rendering) : List Span :=
  if lines = [] then [] else languageSpans lines rendering

section Windows
variable {Token Id : Type} (c : Chunker Token Id)

def windowSpan (lines : List Str) (start : Nat) : Option Span :=
  let range := (start + 1, min lines.length (start + c.chunkSize))
  let text := textOf (linesOf lines range.1 range.2)
  if text = [] then none else some ⟨range, text, linesOf lines range.1 range.2⟩

def windowSpans (lines : List Str) : List Span :=
  (starts lines.length (max 1 (c.chunkSize - c.chunkOverlap))).filterMap (c.windowSpan lines)

def fileSpans (content : Str) (rendering : Rendering) : List Span :=
  let found := parserSpans (splitlines content) rendering
  if found = [] then c.windowSpans (splitlines content) else found

def spanChunk (s : Span) : CodeChunk c := c.makeChunk ⟨s.range.1, s.range.2, s.text⟩

def cutSpan (s : Span) : Option (List (CodeChunk c)) :=
  if overLimit c.enc c.maxTokens s.text then
    (splitWindowByTokenLimit c.enc c.maxTokens s.lines s.range.1).map (·.map c.makeChunk)
  else some [c.spanChunk s]

variable {c} {lines : List Str} {content : Str}

theorem linesOf_slice (start end_ : Nat) :
    (lines.drop start).take (end_ - start) = linesOf lines (start + 1) end_ := by
  rw [linesOf, Nat.add_sub_cancel, Nat.add_sub_add_right]

theorem preamble_span (covered : List Nat) :
    c.preamble lines covered = (preambleSpan lines covered).map c.spanChunk := by
  have these (n : Nat) : strip (join ['\n'] (lines.take n)) = textOf (linesOf lines 1 n) := rfl
  simp only [preamble, preambleSpan, preambleRange, these]
  split
  · next bounds =>
    rw [if_pos ⟨bounds.1, bounds.2.1, bounds.2.2.1⟩, Option.bind_some, textSpan,
      if_neg bounds.2.2.2]
    rfl
  · next bounds =>
    split
    · next inside =>
      rw [Option.bind_some, textSpan, if_pos]
      · rfl
      · by_contra text
        exact bounds ⟨inside.1, inside.2.1, inside.2.2, text⟩
    · rfl

theorem symbol_span (span : SymbolSpan) : c.symbolChunk lines span =
    (textSpan lines (span.row + 1, min lines.length span.lineEnd)).map c.spanChunk := by
  have these : strip (join ['\n'] (linesOf lines (span.row + 1) (min lines.length span.lineEnd))) =
    textOf (linesOf lines (span.row + 1) (min lines.length span.lineEnd)) := rfl
  simp only [symbolChunk, textSpan, these]
  split
  · next outside =>
    rw [if_pos, Option.map_none]
    have nothing : linesOf lines (span.row + 1) (min lines.length span.lineEnd) = [] ∨
        textOf (linesOf lines (span.row + 1) (min lines.length span.lineEnd)) = [] := by
      rcases outside with beyond | before | empty
      · exact .inl (by rw [linesOf, List.drop_eq_nil_of_le (by omega), List.take_nil])
      · exact .inl (by rw [linesOf, Nat.sub_eq_zero_of_le (by omega), List.take_zero])
      · exact .inr empty
    rcases nothing with none_ | blank
    · rw [none_, textOf_nil]
    · exact blank
  · next inside =>
    rw [if_neg fun blank => inside (.inr (.inr blank))]
    rfl

/-- The language chunker gives the spans of the parser, or the windows of lines. -/
theorem dispatch_spans (content : Str) (rendering : Rendering) :
    c.dispatchLanguageChunker content rendering =
        some ((parserSpans (splitlines content) rendering).map c.spanChunk) ∨
      parserSpans (splitlines content) rendering = [] ∧
        c.dispatchLanguageChunker content rendering = c.chunkLineWindow content := by
  by_cases empty : splitlines content = []
  · have none_ : parserSpans (splitlines content) rendering = [] := if_pos empty
    cases rendering with
    | symbols spans =>
      by_cases listed : spans = []
      · exact .inr ⟨none_, if_pos listed⟩
      · rw [none_]
        exact .inl ((if_neg listed).trans (if_pos empty))
    | lines => exact .inr ⟨none_, rfl⟩
    | _ =>
      rw [none_]
      exact .inl (if_pos empty)
  rw [parserSpans, if_neg empty]
  cases rendering with
  | python tree =>
    cases tree with
    | none => exact .inr ⟨rfl, if_neg empty⟩
    | some nodes =>
      left
      simp only [dispatchLanguageChunker, chunkPython, if_neg empty, languageSpans, preamble_span,
        coveredLines, List.flatMap_map, List.map_append, List.map_map, Option.toList_map]
      rfl
  | yaml docs =>
    cases docs with
    | none => exact .inr ⟨rfl, if_neg empty⟩
    | some docs =>
      left
      simp only [dispatchLanguageChunker, chunkYaml, if_neg empty, languageSpans, List.map_filterMap]
      refine congrArg some (List.filterMap_congr fun marks _ => ?_)
      rw [textSpan, apply_ite (Option.map _)]
      rfl
  | techDocs headings =>
    rcases headings with _ | _ | ⟨first, rest⟩
    · exact .inr ⟨rfl, if_neg empty⟩
    · exact .inr ⟨rfl, if_neg empty⟩
    · left
      simp only [dispatchLanguageChunker, chunkTechDocs, if_neg empty, languageSpans, sectionRanges,
        List.filterMap_map, List.map_filterMap, List.tail_cons]
      refine congrArg some (List.filterMap_congr fun marks _ => ?_)
      rw [linesOf_slice, Function.comp_apply, textSpan, apply_ite (Option.map _)]
      rfl
  | symbols spans =>
    by_cases none_ : spans = []
    · exact .inr ⟨if_pos none_, if_pos none_⟩
    · left
      simp only [dispatchLanguageChunker, chunkTreeSitterSymbols, if_neg empty, if_neg none_,
        languageSpans, preamble_span, List.map_append, Option.toList_map, coveredLines,
        List.flatMap_map, funext symbol_span, ← List.map_filterMap]
      rfl
  | lines => exact .inr ⟨rfl, rfl⟩

theorem parser_lines {rendering : Rendering} :
    ∀ s ∈ parserSpans lines rendering, s.lines = splitlines s.text := by
  have textual {range : Nat × Nat} {s : Span} (made : textSpan lines range = some s) :
      s.lines = splitlines s.text := by
    rw [textSpan] at made
    split at made
    · cases made
    · exact Option.some.inj made ▸ rfl
  have preamble {covered : List Nat} {s : Span} (made : s ∈ (preambleSpan lines covered).toList) :
      s.lines = splitlines s.text := by
    obtain ⟨range, _, made⟩ := Option.bind_eq_some_iff.mp (Option.mem_toList.mp made)
    exact textual made
  intro s member
  rw [parserSpans] at member
  split at member
  · cases member
  unfold languageSpans at member
  split at member
  · rcases List.mem_append.mp member with first | later
    · exact preamble first
    · obtain ⟨range, _, rfl⟩ := List.mem_map.mp later
      rfl
  · obtain ⟨marks, _, made⟩ := List.mem_filterMap.mp member
    exact textual made
  · obtain ⟨range, _, made⟩ := List.mem_filterMap.mp member
    exact textual made
  · split at member
    · cases member
    · rcases List.mem_append.mp member with first | later
      · exact preamble first
      · obtain ⟨span, _, made⟩ := List.mem_filterMap.mp later
        exact textual made
  · cases member

theorem split_span {s : Span} (own : s.lines = splitlines s.text) :
    c.splitLargeChunk (c.spanChunk s) = c.cutSpan s := by
  rw [cutSpan, own]
  rfl

theorem window_span (lines : List Str) (start : Nat) :
    c.lineWindow lines start = (c.windowSpan lines start).elim (some []) c.cutSpan := by
  simp only [lineWindow, linesOf_slice]
  by_cases blank : textOf (linesOf lines (start + 1) (min lines.length (start + c.chunkSize))) = []
  · have nothing : c.windowSpan lines start = none := if_pos blank
    rw [nothing]
    exact if_pos blank
  · have found : c.windowSpan lines start = some _ := if_neg blank
    rw [found]
    exact if_neg blank

theorem mapM_flatten_filterMap {α β γ : Type} (span : α → Option β) (cut : β → Option (List γ))
    (xs : List α) : (xs.mapM fun x => (span x).elim (some []) cut).map List.flatten =
      ((xs.filterMap span).mapM cut).map List.flatten := by
  induction xs with
  | nil => rfl
  | cons x rest ih =>
    have step (first : Option (List γ)) (later : Option (List (List γ))) :
        ((do let y ← first; let ys ← later; pure (y :: ys)) : Option (List (List γ))).map
          List.flatten = first.bind fun y => (later.map List.flatten).map (y ++ ·) := by
      cases first <;> cases later <;> rfl
    rw [List.mapM_cons, step, ih]
    cases found : span x with
    | none =>
      rw [List.filterMap_cons_none found, Option.elim_none, Option.bind_some]
      exact congrFun Option.map_id _
    | some s =>
      rw [List.filterMap_cons_some found, List.mapM_cons, step]
      rfl

theorem windows_cut (content : Str) : c.chunkLineWindow content =
    ((c.windowSpans (splitlines content)).mapM c.cutSpan).map List.flatten := by
  rw [windowSpans, ← mapM_flatten_filterMap]
  simp only [chunkLineWindow, funext (window_span (c := c) (splitlines content))]

theorem no_windows (blank : strip content = []) : c.windowSpans (splitlines content) = [] := by
  rw [windowSpans, List.filterMap_eq_nil_iff]
  intro start _
  rw [windowSpan, if_pos]
  exact textOf_blank fun line here ch member => strip_eq_nil_iff.mp blank ch
    (mem_splitlines (List.mem_of_mem_drop (List.mem_of_mem_take here)) member)

theorem language_spans {rendering : Rendering} {chunks : List (CodeChunk c)}
    (rendered : c.languageChunks content rendering = some chunks) :
    parserSpans (splitlines content) rendering ≠ [] ∧
        chunks = (parserSpans (splitlines content) rendering).map c.spanChunk ∨
      parserSpans (splitlines content) rendering = [] ∧ c.chunkLineWindow content = some chunks := by
  by_cases none_ : parserSpans (splitlines content) rendering = []
  · right
    refine ⟨none_, ?_⟩
    have dispatched : c.dispatchLanguageChunker content rendering = some [] ∨
        c.dispatchLanguageChunker content rendering = c.chunkLineWindow content := by
      rcases dispatch_spans (c := c) content rendering with found | ⟨_, windows⟩
      · rw [none_] at found
        exact .inl found
      · exact .inr windows
    rcases dispatched with nothing | windows
    · simp only [languageChunks, nothing, Option.bind_eq_bind, Option.bind_some] at rendered
      by_cases blank : strip content = []
      · rw [if_neg (by simp [blank])] at rendered
        rw [← rendered, windows_cut, no_windows blank]
        rfl
      · rwa [if_pos (by simp [blank])] at rendered
    · rw [languageChunks, windows] at rendered
      obtain ⟨found, cut, rendered⟩ := Option.bind_eq_some_iff.mp rendered
      split at rendered
      · exact rendered
      · exact cut.trans rendered
  · left
    refine ⟨none_, ?_⟩
    have found := (dispatch_spans (c := c) content rendering).resolve_right fun windows =>
      none_ windows.1
    simp only [languageChunks, found, Option.bind_eq_bind, Option.bind_some, List.isEmpty_map] at rendered
    rw [if_neg (by simp [none_])] at rendered
    exact (Option.some.inj rendered).symm

end Windows
end Chunker
end DevopsCli.Rag
