import DevopsCli.Lib.OptionLists
import DevopsCli.Rag.FileSpans

/- Where the text of a chunk is in its file. A chunk has the text of its lines, or a piece of one
   line over the token limit, and every line with text is in a chunk. -/
namespace DevopsCli.Rag
open PyStr

section Tokens
variable {Token : Type} (enc : Option (Encoding Token)) (maxTokens : Int)

def Decodes (text : Str) : Prop :=
  ∀ decoded whole, tokenPieces enc maxTokens text = some (decoded, whole) →
    decoded.flatten <+: text ∧ (whole = true → decoded.flatten = text)

/-- A content is the text of lines, or a piece of one line over the limit. -/
def Shown (lines : List Str) (content : Str) : Prop :=
  strip content = textOf lines ∨
    ∃ line, lines = [line] ∧ overLimit enc maxTokens (strip line) = true ∧ content <:+: line

/-- What the loop over lines makes of them: their text within the limit, or such a piece, which has
    a property of all pieces. -/
def Cut (ok : Str → Prop) (lines : List Str) (content : Str) : Prop :=
  (content = textOf lines ∧ overLimit enc maxTokens content = false) ∨
    ∃ line, lines = [line] ∧ overLimit enc maxTokens (strip line) = true ∧
      content <:+: strip line ∧ ok content

def GroupsDecode (ok : Str → Prop) (groups : List LineGroup) : Prop :=
  ∀ g ∈ groups, overLimit enc maxTokens (textOf g.lines) = true →
    Decodes enc maxTokens (textOf g.lines) ∧
      ∀ cut, pieces enc maxTokens (textOf g.lines) = some cut → ∀ piece ∈ cut, ok piece

structure WindowsOf (ok : Str → Prop) (lines : List Str) (start : Nat) (ws : List Window) : Prop where
  cut : ∀ w ∈ ws, ∃ i n, 0 < n ∧ i + n ≤ lines.length ∧ w.range = (start + i, start + i + n - 1) ∧
    Cut enc maxTokens ok ((lines.drop i).take n) w.content
  covers : ∀ (i : Nat) (line : Str), lines[i]? = some line → ¬Blank line →
    ∃ w ∈ ws, w.startLine ≤ start + i ∧ start + i ≤ w.endLine ∧ ¬Blank w.content

variable {enc maxTokens} {ok : Str → Prop} {lines current : List Str} {text : Str} {start : Nat}

theorem overLimit_nil (limit : 0 < maxTokens) : overLimit enc maxTokens [] = false := by
  rw [overLimit, countChunkTokens, if_pos rfl, decide_eq_false_iff_not]
  omega

theorem slices_flatten (limit : 0 < maxTokens) {α : Type} {xs : List α} {parts : List (List α)}
    (cut : slices maxTokens xs = some parts) : parts.flatten = xs := by
  rw [slices, if_neg (by omega), if_neg (by omega), Option.some.injEq] at cut
  rw [← cut]
  exact flatten_starts (by omega) xs

theorem infix_of_flatten {parts : List Str} {part : Str} (here : part ∈ parts)
    (whole : parts.flatten <:+: text) : part <:+: text := by
  obtain ⟨before, after, rfl⟩ := List.append_of_mem here
  refine List.IsInfix.trans ⟨before.flatten, after.flatten, ?_⟩ whole
  simp

theorem text_of_flatten {parts : List Str} (whole : parts.flatten = text) (text_ : ¬Blank text) :
    ∃ part ∈ parts, ¬Blank part := by
  by_contra none
  push Not at none
  refine text_ fun c member => ?_
  rw [← whole, List.mem_flatten] at member
  obtain ⟨part, here, inside⟩ := member
  exact none part here c inside

theorem pieces_of (limit : 0 < maxTokens) (decodes : Decodes enc maxTokens text)
    {parts : List Str} (cut : pieces enc maxTokens text = some parts) :
    (∀ part ∈ parts, part <:+: text) ∧ (¬Blank text → ∃ part ∈ parts, ¬Blank part) := by
  rw [pieces] at cut
  cases tokens : tokenPieces enc maxTokens text with
  | none =>
    rw [tokens] at cut
    have whole := slices_flatten limit cut
    exact ⟨fun part here => infix_of_flatten here (whole ▸ List.infix_rfl), text_of_flatten whole⟩
  | some out =>
    obtain ⟨decoded, all⟩ := out
    obtain ⟨first, whole⟩ := decodes decoded all tokens
    rw [tokens] at cut
    cases all with
    | true =>
      obtain rfl := Option.some.inj cut
      exact ⟨fun part here => infix_of_flatten here first.isInfix, text_of_flatten (whole rfl)⟩
    | false =>
      obtain ⟨rest, sliced, rfl⟩ := Option.map_eq_some_iff.mp cut
      have whole := slices_flatten limit sliced
      constructor
      · intro part here
        rcases List.mem_append.mp here with early | late
        · exact infix_of_flatten early first.isInfix
        · exact infix_of_flatten late (whole ▸ List.infix_rfl)
      · intro text_
        obtain ⟨part, here, some_⟩ := text_of_flatten whole text_
        exact ⟨part, List.mem_append_right _ here, some_⟩

theorem Cut.shown {content : Str} (cut : Cut enc maxTokens ok lines content) :
    Shown enc maxTokens lines content := by
  rcases cut with ⟨rfl, _⟩ | ⟨line, one, large, piece, _⟩
  · exact Or.inl (strip_strip _)
  · exact Or.inr ⟨line, one, large, piece.trans (strip_within line)⟩

theorem textOf_ne_nil {line : Str} (here : line ∈ lines) (text_ : ¬Blank line) : textOf lines ≠ [] :=
  fun empty => text_ (blank_of_textOf empty here)

theorem not_blank_textOf {line : Str} (here : line ∈ lines) (text_ : ¬Blank line) :
    ¬Blank (textOf lines) := by
  rw [textOf, blank_strip_iff, ← strip_eq_nil_iff, ← textOf]
  exact textOf_ne_nil here text_

theorem flush_cut (limit : 0 < maxTokens)
    (decodes : GroupsDecode enc maxTokens ok [⟨start, current⟩])
    (alone : overLimit enc maxTokens (textOf current) = true → ∃ line, current = [line])
    {ws : List Window} (flushed : flush enc maxTokens start current = some ws) :
    (∀ w ∈ ws, w.range = (start, start + current.length - 1) ∧
        Cut enc maxTokens ok current w.content) ∧
      ((∃ line ∈ current, ¬Blank line) → ∃ w ∈ ws, ¬Blank w.content) := by
  rw [flush, appendSubWindow, ← textOf] at flushed
  by_cases empty : textOf current = []
  · rw [if_pos empty] at flushed
    obtain rfl := Option.some.inj flushed
    refine ⟨List.forall_mem_nil _, ?_⟩
    rintro ⟨line, here, text_⟩
    exact absurd empty (textOf_ne_nil here text_)
  · rw [if_neg empty] at flushed
    cases large : overLimit enc maxTokens (textOf current) with
    | false =>
      rw [if_neg (by simp [large])] at flushed
      obtain rfl := Option.some.inj flushed
      refine ⟨List.forall_mem_singleton.mpr ⟨rfl, Or.inl ⟨rfl, large⟩⟩, ?_⟩
      rintro ⟨line, here, text_⟩
      exact ⟨_, List.mem_singleton_self _, not_blank_textOf here text_⟩
    | true =>
      rw [if_pos large] at flushed
      obtain ⟨parts, cut, rfl⟩ := Option.map_eq_some_iff.mp flushed
      obtain ⟨decodes, keeps⟩ := decodes _ (List.mem_singleton_self _) large
      obtain ⟨line, rfl⟩ := alone large
      rw [textOf_singleton] at large cut decodes keeps
      obtain ⟨inside, some_⟩ := pieces_of limit decodes cut
      constructor
      · intro w member
        obtain ⟨part, here, rfl⟩ := List.mem_map.mp member
        exact ⟨rfl, Or.inr ⟨line, rfl, large, inside part here, keeps parts cut part here⟩⟩
      · rintro ⟨_, here, text_⟩
        obtain rfl := List.mem_singleton.mp here
        obtain ⟨part, cut_, text_⟩ := some_ (mt blank_strip_iff.mp text_)
        exact ⟨_, List.mem_map.mpr ⟨part, cut_, rfl⟩, text_⟩

theorem flush_windows (limit : 0 < maxTokens) (some_ : current ≠ [])
    (decodes : GroupsDecode enc maxTokens ok [⟨start, current⟩])
    (alone : overLimit enc maxTokens (textOf current) = true → ∃ line, current = [line])
    {ws : List Window} (flushed : flush enc maxTokens start current = some ws) :
    WindowsOf enc maxTokens ok current start ws := by
  obtain ⟨cut, text⟩ := flush_cut limit decodes alone flushed
  constructor
  · intro w member
    refine ⟨0, current.length, List.length_pos_iff.mpr some_, by omega, (cut w member).1, ?_⟩
    simpa using (cut w member).2
  · intro i line here text_
    obtain ⟨w, member, text_⟩ := text ⟨line, List.mem_of_getElem? here, text_⟩
    have range := Prod.mk.inj (cut w member).1
    have inside := (List.getElem?_eq_some_iff.mp here).1
    exact ⟨w, member, by omega, by omega, text_⟩

theorem WindowsOf.append {more : List Str} {before after : List Window}
    (first : WindowsOf enc maxTokens ok lines start before)
    (last : WindowsOf enc maxTokens ok more (start + lines.length) after) :
    WindowsOf enc maxTokens ok (lines ++ more) start (before ++ after) where
  cut w member := by
    rcases List.mem_append.mp member with early | late
    · obtain ⟨i, n, positive, inside, range, cut⟩ := first.cut w early
      refine ⟨i, n, positive, by simp; omega, range, ?_⟩
      rwa [List.drop_append_of_le_length (by omega), List.take_append_of_le_length (by simp; omega)]
    · obtain ⟨i, n, positive, inside, range, cut⟩ := last.cut w late
      refine ⟨lines.length + i, n, positive, by simp; omega, ?_, ?_⟩
      · rw [range, Nat.add_assoc]
      · rwa [List.drop_append, List.drop_eq_nil_of_le (by omega), List.nil_append,
          Nat.add_sub_cancel_left]
  covers i line here text_ := by
    rcases Nat.lt_or_ge i lines.length with early | late
    · rw [List.getElem?_append_left early] at here
      obtain ⟨w, member, lower, upper, text_⟩ := first.covers i line here text_
      exact ⟨w, List.mem_append_left _ member, lower, upper, text_⟩
    · rw [List.getElem?_append_right late] at here
      obtain ⟨w, member, lower, upper, text_⟩ := last.covers _ line here text_
      exact ⟨w, List.mem_append_right _ member, by omega, by omega, text_⟩

theorem splitFrom_windows (limit : 0 < maxTokens) {next : Nat}
    (decodes : GroupsDecode enc maxTokens ok (lineGroupsFrom enc maxTokens next start current lines))
    (alone : overLimit enc maxTokens (textOf current) = true → ∃ line, current = [line])
    (counted : next = start + current.length) {ws : List Window}
    (split : splitFrom enc maxTokens next start current lines = some ws) :
    WindowsOf enc maxTokens ok (current ++ lines) start ws := by
  induction lines generalizing next start current ws with
  | nil =>
    rw [splitFrom] at split
    rw [lineGroupsFrom] at decodes
    rw [List.append_nil]
    by_cases none : current = []
    · rw [if_pos none] at split
      obtain rfl := Option.some.inj split
      rw [none]
      exact ⟨List.forall_mem_nil _, fun i line here => absurd here (by simp)⟩
    · rw [if_neg none] at split decodes
      exact flush_windows limit none decodes alone split
  | cons line rest ih =>
    rw [splitFrom] at split
    rw [lineGroupsFrom] at decodes
    cases stops : full enc maxTokens current line with
    | true =>
      simp only [stops, ↓reduceIte, Option.bind_eq_bind, Option.bind_eq_some_iff, Option.pure_def,
        Option.some.injEq] at split
      obtain ⟨before, flushed, after, later, rfl⟩ := split
      rw [if_pos stops] at decodes
      obtain ⟨first, others⟩ := List.forall_mem_cons.mp decodes
      have some_ : current ≠ [] := by
        rintro rfl
        exact absurd stops Bool.false_ne_true
      rw [counted] at later
      rw [counted] at others
      exact (flush_windows limit some_ (List.forall_mem_singleton.mpr first) alone flushed).append
        (ih others (fun _ => ⟨line, rfl⟩) rfl later)
    | false =>
      rw [if_neg (by simp [stops])] at split decodes
      rw [List.append_cons]
      refine ih decodes (fun large => ?_) (by simp [counted]; omega) split
      rw [full, ← textOf, large, Bool.and_true, Bool.not_eq_false', List.isEmpty_iff] at stops
      exact ⟨line, by rw [stops]; rfl⟩

theorem split_windows (limit : 0 < maxTokens)
    (decodes : GroupsDecode enc maxTokens ok (lineGroups enc maxTokens lines start)) {ws : List Window}
    (split : splitWindowByTokenLimit enc maxTokens lines start = some ws) :
    WindowsOf enc maxTokens ok lines start ws := by
  have alone (large : overLimit enc maxTokens (textOf []) = true) : ∃ line : Str, [] = [line] := by
    rw [textOf_nil, overLimit_nil limit] at large
    exact absurd large Bool.false_ne_true
  exact splitFrom_windows limit decodes alone rfl split

theorem WindowsOf.of_kept {kept : List Str} {ws : List Window} (kept_ : Kept kept lines)
    (windows : WindowsOf enc maxTokens ok kept start ws) :
    WindowsOf enc maxTokens ok lines start ws where
  cut w member := by
    obtain ⟨i, n, positive, inside, range, cut⟩ := windows.cut w member
    have last : i + n - 1 < lines.length := by
      obtain ⟨line, there, _⟩ := kept_.pieces (i + n - 1) _ (List.getElem?_eq_getElem (by omega))
      exact (List.getElem?_eq_some_iff.mp there).1
    refine ⟨i, n, positive, by omega, range, ?_⟩
    rw [Cut, ← kept_.texts i n]
    rcases cut with whole | ⟨line, one, large, piece⟩
    · exact Or.inl whole
    · right
      obtain rfl : n = 1 := by
        have length := congrArg List.length one
        simp only [List.length_take, List.length_drop, List.length_singleton] at length
        omega
      have same := kept_.texts i 1
      rw [one, List.drop_eq_getElem_cons (by omega), List.take_succ_cons, List.take_zero,
        textOf_singleton, textOf_singleton] at same
      rw [List.drop_eq_getElem_cons (by omega), List.take_succ_cons, List.take_zero]
      rw [same] at large piece
      exact ⟨_, rfl, large, piece⟩
  covers i line here text_ := by
    obtain ⟨line', there, same⟩ := kept_.strip_line here text_
    refine windows.covers i line' there ?_
    rwa [← blank_strip_iff, same, blank_strip_iff]

end Tokens

namespace Chunker
variable {Token Id : Type} (c : Chunker Token Id)

def Located (lines : List Str) (chunk : CodeChunk c) : Prop :=
  Shown c.enc c.maxTokens (linesOf lines chunk.startLine chunk.endLine) chunk.content

structure Found (lines : List Str) (range : Nat × Nat) (chunk : CodeChunk c) : Prop where
  numbers : chunk.range = range
  content : chunk.content = join ['\n'] (linesOf lines range.1 range.2) ∨
    chunk.content = textOf (linesOf lines range.1 range.2)

structure CutOf (ok : Str → Prop) (lines : List Str) (range : Nat × Nat)
    (chunks : List (CodeChunk c)) : Prop where
  cut : ∀ chunk ∈ chunks,
    Cut c.enc c.maxTokens ok (linesOf lines chunk.startLine chunk.endLine) chunk.content
  inside : ∀ chunk ∈ chunks,
    range.1 ≤ chunk.startLine ∧ chunk.endLine ≤ range.2 ∧ chunk.endLine ≤ lines.length
  covers : ∀ (i : Nat) (line : Str), lines[i]? = some line → ¬Blank line → range.1 ≤ i + 1 →
    i + 1 ≤ range.2 →
      ∃ chunk ∈ chunks, chunk.startLine ≤ i + 1 ∧ i + 1 ≤ chunk.endLine ∧ ¬Blank chunk.content

structure SplitOf (lines : List Str) (range : Nat × Nat) (chunks : List (CodeChunk c)) : Prop where
  located : ∀ chunk ∈ chunks, c.Located lines chunk
  inside : ∀ chunk ∈ chunks, range.1 ≤ chunk.startLine ∧ chunk.endLine ≤ range.2
  covers : ∀ (i : Nat) (line : Str), lines[i]? = some line → ¬Blank line → range.1 ≤ i + 1 →
    i + 1 ≤ range.2 → ∃ chunk ∈ chunks, chunk.startLine ≤ i + 1 ∧ i + 1 ≤ chunk.endLine

variable {c} {ok : Str → Prop} {lines : List Str}

theorem linesOf_part {s e i n : Nat} (one : 1 ≤ s) (inside : i + n ≤ (linesOf lines s e).length)
    (positive : 0 < n) :
    linesOf lines (s + i) (s + i + n - 1) = ((linesOf lines s e).drop i).take n := by
  simp only [linesOf, List.length_take, List.length_drop] at inside ⊢
  rw [List.drop_take, List.drop_drop, List.take_take]
  congr 1
  · omega
  · congr 1
    omega

theorem getElem?_linesOf {s e i : Nat} (one : 1 ≤ s) (lower : s ≤ i + 1) (upper : i + 1 ≤ e) :
    (linesOf lines s e)[i + 1 - s]? = lines[i]? := by
  rw [linesOf, List.getElem?_take_of_lt (by omega), List.getElem?_drop]
  congr 1
  omega

theorem cut_of_windows {s e : Nat} (one : 1 ≤ s) {ws : List Window}
    (windows : WindowsOf c.enc c.maxTokens ok (linesOf lines s e) s ws) :
    c.CutOf ok lines (s, e) (ws.map c.makeChunk) where
  cut := List.forall_mem_map.mpr fun w member => by
    obtain ⟨i, n, positive, inside, range, cut⟩ := windows.cut w member
    obtain ⟨first, last⟩ := Prod.mk.inj range
    change Cut c.enc c.maxTokens ok (linesOf lines w.startLine w.endLine) w.content
    rwa [first, last, linesOf_part one inside positive]
  inside := List.forall_mem_map.mpr fun w member => by
    obtain ⟨i, n, positive, inside, range, _⟩ := windows.cut w member
    obtain ⟨first, last⟩ := Prod.mk.inj range
    simp only [linesOf, List.length_take, List.length_drop] at inside
    simp only [makeChunk]
    omega
  covers i line here text_ lower upper := by
    rw [← getElem?_linesOf one lower upper] at here
    obtain ⟨w, member, first, last, text_⟩ := windows.covers _ line here text_
    have next : s + (i + 1 - s) = i + 1 := by omega
    rw [next] at first last
    exact ⟨_, List.mem_map_of_mem member, first, last, text_⟩

theorem CutOf.split {range : Nat × Nat} {chunks : List (CodeChunk c)}
    (cut : c.CutOf ok lines range chunks) : c.SplitOf lines range chunks where
  located chunk member := (cut.cut chunk member).shown
  inside chunk member := ⟨(cut.inside chunk member).1, (cut.inside chunk member).2.1⟩
  covers i line here text_ lower upper := by
    obtain ⟨chunk, member, first, last, _⟩ := cut.covers i line here text_ lower upper
    exact ⟨chunk, member, first, last⟩

def Recut (c : Chunker Token Id) (piece : Str) : Prop :=
  overLimit c.enc c.maxTokens piece = true → overLimit c.enc c.maxTokens (strip piece) = true →
    Decodes c.enc c.maxTokens (strip piece)

theorem found_split (limit : 0 < c.maxTokens) (unbroken : ∀ line ∈ lines, Unbroken line)
    {range : Nat × Nat} (one : 1 ≤ range.1) {chunk : CodeChunk c} (found : c.Found lines range chunk)
    (decodes : overLimit c.enc c.maxTokens chunk.content = true → GroupsDecode c.enc c.maxTokens
      (fun _ => True) (lineGroups c.enc c.maxTokens (splitlines chunk.content) range.1))
    (starts : overLimit c.enc c.maxTokens (textOf (linesOf lines range.1 range.2)) = true →
      ∀ first ∈ (linesOf lines range.1 range.2).head?, ¬Blank first)
    {cut : List (CodeChunk c)} (split : c.splitLargeChunk chunk = some cut) :
    c.SplitOf lines range cut := by
  have member : ∀ line ∈ linesOf lines range.1 range.2, line ∈ lines := fun line here =>
    List.mem_of_mem_drop (List.mem_of_mem_take here)
  obtain ⟨first, last⟩ := Prod.mk.inj found.numbers
  rw [splitLargeChunk] at split
  cases large : overLimit c.enc c.maxTokens chunk.content with
  | false =>
    rw [if_neg (by simp [large])] at split
    obtain rfl := Option.some.inj split
    refine ⟨List.forall_mem_singleton.mpr (Or.inl ?_),
      List.forall_mem_singleton.mpr ⟨first.ge, last.le⟩, fun i line _ _ lower upper =>
        ⟨chunk, List.mem_singleton_self chunk, by omega, by omega⟩⟩
    rw [first, last]
    rcases found.content with same | same
    · rw [same, textOf]
    · rw [same, textOf, strip_strip]
  | true =>
    rw [if_pos large] at split
    obtain ⟨ws, windows, rfl⟩ := Option.map_eq_some_iff.mp split
    have plain := fun line here => unbroken line (member line here)
    have kept : Kept (splitlines chunk.content) (linesOf lines range.1 range.2) := by
      rcases found.content with same | same
      · rw [same]
        exact kept_join plain
      · rw [same] at large ⊢
        cases these : linesOf lines range.1 range.2 with
        | nil =>
          rw [these, textOf_nil, overLimit_nil limit] at large
          exact absurd large Bool.false_ne_true
        | cons line rest =>
          rw [these] at plain starts large
          exact kept_textOf plain (starts large line rfl)
    rw [first] at windows
    exact (cut_of_windows one
      (WindowsOf.of_kept kept (split_windows limit (decodes large) windows))).split

theorem cut_again (limit : 0 < c.maxTokens)
    (unbroken : ∀ line ∈ lines, Unbroken line) {chunk : CodeChunk c} (one : 1 ≤ chunk.startLine)
    (inside : chunk.endLine ≤ lines.length)
    (cut : Cut c.enc c.maxTokens c.Recut (linesOf lines chunk.startLine chunk.endLine) chunk.content)
    {again : List (CodeChunk c)} (split : c.splitLargeChunk chunk = some again) :
    (∀ part ∈ again, part.range = chunk.range ∧ c.Located lines part) ∧
      (¬Blank chunk.content → again ≠ []) := by
  rw [splitLargeChunk] at split
  cases large : overLimit c.enc c.maxTokens chunk.content with
  | false =>
    rw [if_neg (by simp [large])] at split
    obtain rfl := Option.some.inj split
    exact ⟨List.forall_mem_singleton.mpr ⟨rfl, cut.shown⟩, fun _ => List.cons_ne_nil _ _⟩
  | true =>
    rw [if_pos large] at split
    obtain ⟨ws, windows, rfl⟩ := Option.map_eq_some_iff.mp split
    rcases cut with ⟨_, small⟩ | ⟨line, alone, long, piece, recut⟩
    · exact absurd large (by rw [small]; exact Bool.false_ne_true)
    · have whole : chunk.content <:+: line := piece.trans (strip_within line)
      have here : line ∈ lines :=
        List.mem_of_mem_drop (List.mem_of_mem_take (alone ▸ List.mem_singleton_self line))
      have last : chunk.endLine = chunk.startLine := by
        have length := congrArg List.length alone
        simp only [linesOf, List.length_take, List.length_drop, List.length_singleton] at length
        omega
      have some_ : chunk.content ≠ [] := by
        intro none
        rw [none, overLimit_nil limit] at large
        exact Bool.false_ne_true large
      rw [splitlines_line fun ch member => unbroken line here ch (whole.mem member),
        if_neg some_] at windows
      have decodes : GroupsDecode c.enc c.maxTokens (fun _ => True)
          (lineGroups c.enc c.maxTokens [chunk.content] chunk.startLine) := by
        refine List.forall_mem_singleton.mpr fun again => ?_
        have alone_ : textOf [chunk.content] = strip chunk.content := textOf_singleton _
        change Decodes c.enc c.maxTokens (textOf [chunk.content]) ∧ _
        rw [alone_]
        exact ⟨recut large (alone_ ▸ again), fun _ _ _ _ => trivial⟩
      have windows := split_windows limit decodes windows
      constructor
      · refine List.forall_mem_map.mpr fun w member => ?_
        obtain ⟨i, n, positive, bound, range, shown⟩ := windows.cut w member
        rw [List.length_singleton] at bound
        obtain rfl : i = 0 := by omega
        obtain rfl : n = 1 := by omega
        have same : w.range = chunk.range := by
          rw [range, CodeChunk.range, last]
          rfl
        refine ⟨same, Or.inr ⟨line, ?_, long, ?_⟩⟩
        · obtain ⟨first, final⟩ := Prod.mk.inj same
          change linesOf lines w.startLine w.endLine = [line]
          rw [first, final, alone]
        · rcases shown with ⟨cut, _⟩ | ⟨_, one_, _, cut, _⟩
          · exact (cut ▸ textOf_singleton _ ▸ strip_within _).trans whole
          · obtain rfl := List.singleton_inj.mp one_
            exact cut.trans ((strip_within _).trans whole)
      · intro text_
        obtain ⟨w, member, _⟩ := windows.covers 0 _ rfl text_
        exact List.ne_nil_of_mem (List.mem_map_of_mem member)

theorem window_cut (limit : 0 < c.maxTokens) {start : Nat} {s : Span}
    (found : c.windowSpan lines start = some s)
    (decodes : GroupsDecode c.enc c.maxTokens ok (s.groups c.enc c.maxTokens))
    {chunks : List (CodeChunk c)} (cut : c.cutSpan s = some chunks) :
    c.CutOf ok lines (start + 1, min lines.length (start + c.chunkSize)) chunks := by
  rw [windowSpan] at found
  split at found
  · cases found
  obtain rfl := Option.some.inj found
  rw [cutSpan] at cut
  rw [Span.groups] at decodes
  split at cut
  · next large =>
    obtain ⟨ws, windows, rfl⟩ := Option.map_eq_some_iff.mp cut
    rw [if_pos large] at decodes
    exact cut_of_windows (Nat.le_add_left 1 start) (split_windows limit decodes windows)
  · next small =>
    obtain rfl := Option.some.inj cut
    refine ⟨List.forall_mem_singleton.mpr (Or.inl ⟨rfl, Bool.eq_false_iff.mpr small⟩),
      List.forall_mem_singleton.mpr ⟨le_rfl, le_rfl, Nat.min_le_left _ _⟩,
      fun i line here text_ lower upper => ⟨_, List.mem_singleton_self _, lower, upper, ?_⟩⟩
    rw [← getElem?_linesOf (by omega) lower upper] at here
    exact not_blank_textOf (List.mem_of_getElem? here) text_

theorem starts_cover {total step size i : Nat} (positive : 0 < step) (reach : step ≤ size)
    (inside : i < total) : ∃ start ∈ starts total step, start ≤ i ∧ i < start + size := by
  refine ⟨i / step * step, List.mem_map.mpr ⟨i / step, List.mem_range.mpr ?_, rfl⟩, ?_, ?_⟩
  · have below := Nat.div_mul_le_self i step
    rw [Nat.lt_iff_add_one_le, Nat.le_div_iff_mul_le positive, Nat.succ_mul]
    omega
  · exact Nat.div_mul_le_self i step
  · have := Nat.lt_div_mul_add (a := i) positive
    omega

/-- Every line with text has its number in the range of a chunk. -/
def Covers (lines : List Str) (chunks : List (CodeChunk c)) : Prop :=
  ∀ (i : Nat) (line : Str), lines[i]? = some line → ¬Blank line →
    ∃ chunk ∈ chunks, chunk.startLine ≤ i + 1 ∧ i + 1 ≤ chunk.endLine

theorem windows_say (limit : 0 < c.maxTokens) (size : 0 < c.chunkSize) {content : Str}
    (decodes : ∀ s ∈ c.windowSpans (splitlines content),
      GroupsDecode c.enc c.maxTokens c.Recut (s.groups c.enc c.maxTokens))
    {chunks : List (CodeChunk c)}
    (windows : c.chunkLineWindow content = some chunks) {parts : List (List (CodeChunk c))}
    (split : chunks.mapM c.splitLargeChunk = some parts) :
    (∀ chunk ∈ parts.flatten, c.Located (splitlines content) chunk) ∧
      Covers (splitlines content) parts.flatten := by
  rw [windows_cut] at windows
  obtain ⟨cuts, all, rfl⟩ := Option.map_eq_some_iff.mp windows
  have window {s : Span} (listed : s ∈ c.windowSpans (splitlines content)) {cut}
      (made : c.cutSpan s = some cut) : ∃ start, c.windowSpan (splitlines content) start = some s ∧
        c.CutOf c.Recut (splitlines content)
          (start + 1, min (splitlines content).length (start + c.chunkSize)) cut := by
    obtain ⟨start, _, found⟩ := List.mem_filterMap.mp listed
    exact ⟨start, found, window_cut limit found (decodes s listed) made⟩
  have again (chunk : CodeChunk c) {cut range} (member : chunk ∈ cut)
      (cut_ : c.CutOf c.Recut (splitlines content) range cut) (one : 1 ≤ range.1) {part}
      (parted : c.splitLargeChunk chunk = some part) :=
    cut_again limit (splitlines_unbroken content)
      (one.trans (cut_.inside chunk member).1) (cut_.inside chunk member).2.2 (cut_.cut chunk member)
      parted
  constructor
  · intro chunk member
    obtain ⟨part, here, inside⟩ := List.mem_flatten.mp member
    obtain ⟨first, found, parted⟩ := (OptionLists.mem_mapM split part).mp here
    obtain ⟨cut, there_, inside_⟩ := List.mem_flatten.mp found
    obtain ⟨s, listed, made⟩ := (OptionLists.mem_mapM all cut).mp there_
    obtain ⟨start, _, cut_⟩ := window listed made
    exact ((again first inside_ cut_ (Nat.le_add_left 1 start) parted).1 chunk inside).2
  · intro i line here text_
    have inside := (List.getElem?_eq_some_iff.mp here).1
    obtain ⟨start, member, lower, upper⟩ := starts_cover
      (show 0 < max 1 (c.chunkSize - c.chunkOverlap) by omega)
      (show max 1 (c.chunkSize - c.chunkOverlap) ≤ c.chunkSize by omega) inside
    have within : i + 1 ≤ min (splitlines content).length (start + c.chunkSize) := by omega
    have text : textOf (linesOf (splitlines content) (start + 1)
        (min (splitlines content).length (start + c.chunkSize))) ≠ [] := by
      rw [← getElem?_linesOf (by omega) (Nat.succ_le_succ lower) within] at here
      exact textOf_ne_nil (List.mem_of_getElem? here) text_
    have found : c.windowSpan (splitlines content) start = some _ := if_neg text
    have listed := List.mem_filterMap.mpr ⟨start, member, found⟩
    obtain ⟨cut, there_, made⟩ := OptionLists.exists_of_mapM all listed
    have cut_ := window_cut limit found (decodes _ listed) made
    obtain ⟨first, found, lower_, upper_, text_⟩ :=
      cut_.covers i line here text_ (Nat.succ_le_succ lower) within
    obtain ⟨part, parted, cut_part⟩ :=
      OptionLists.exists_of_mapM split (List.mem_flatten.mpr ⟨cut, there_, found⟩)
    obtain ⟨located, some_⟩ := again first found cut_ (Nat.le_add_left 1 start) cut_part
    obtain ⟨chunk, last⟩ := List.exists_mem_of_ne_nil _ (some_ text_)
    obtain ⟨first_, final_⟩ := Prod.mk.inj (located chunk last).1
    exact ⟨chunk, List.mem_flatten.mpr ⟨part, parted, last⟩, by omega, by omega⟩

theorem linesOf_sub {other : List Str} {s e s' e' : Nat} (one : 1 ≤ s) (lower : s ≤ s')
    (upper : e' ≤ e) (same : linesOf lines s e = linesOf other s e) :
    linesOf lines s' e' = linesOf other s' e' := by
  have part (xs : List Str) :
      linesOf xs s' e' = ((linesOf xs s e).drop (s' - s)).take (e' + 1 - s') := by
    rw [linesOf, linesOf, List.drop_take, List.drop_drop, List.take_take]
    congr 1
    · omega
    · congr 1
      omega
  rw [part, same, ← part]

theorem SplitOf.renumber {other : List Str} {range : Nat × Nat} {chunks : List (CodeChunk c)}
    (one : 1 ≤ range.1) (same : linesOf lines range.1 range.2 = linesOf other range.1 range.2)
    (split : c.SplitOf lines range chunks) : c.SplitOf other range chunks where
  located chunk member := by
    have located := split.located chunk member
    obtain ⟨lower, upper⟩ := split.inside chunk member
    rwa [Located, linesOf_sub one lower upper same] at located
  inside := split.inside
  covers i line here text_ lower upper := by
    rw [← getElem?_linesOf one lower upper, ← same, getElem?_linesOf one lower upper] at here
    exact split.covers i line here text_ lower upper

end Chunker
end DevopsCli.Rag
