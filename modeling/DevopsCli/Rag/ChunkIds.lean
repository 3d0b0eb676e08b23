import DevopsCli.Lib.OptionLists
import DevopsCli.Rag.FileSpans

/- The line ranges of the chunks of a file, from which their ids are made. -/
namespace DevopsCli.Rag
open PyStr

structure Part where
  range : Nat × Nat
  count : Nat

def Part.ranges (part : Part) : List (Nat × Nat) := List.replicate part.count part.range

/-- No part is cut to more than one window, and no two pieces of the file have the lines of a
    window in common. -/
structure Apart {α : Type} (partsOf : α → List Part) (xs : List α) : Prop where
  whole : ∀ x ∈ xs, ∀ part ∈ partsOf x, part.count ≤ 1
  apart : xs.Pairwise fun a b => ∀ p ∈ partsOf a, ∀ q ∈ partsOf b,
    0 < p.count → 0 < q.count → p.range ≠ q.range

theorem nodup_parts {ps : List Part} (distinct : ps.Pairwise (·.range ≠ ·.range)) :
    (ps.flatMap Part.ranges).Nodup ↔ ∀ p ∈ ps, p.count ≤ 1 := by
  rw [List.nodup_flatMap]
  simp only [Part.ranges, List.nodup_replicate, and_iff_left_iff_imp]
  intro _
  refine distinct.imp fun differ => ?_
  intro range inFirst inSecond
  exact differ ((List.eq_of_mem_replicate inFirst).symm.trans (List.eq_of_mem_replicate inSecond))

theorem mem_ranges {ps : List Part} {range : Nat × Nat} :
    range ∈ ps.flatMap Part.ranges ↔ ∃ p ∈ ps, 0 < p.count ∧ p.range = range := by
  simp only [List.mem_flatMap, Part.ranges, List.mem_replicate, Nat.pos_iff_ne_zero, eq_comm]

theorem apart_iff_nodup {α : Type} {partsOf : α → List Part}
    (distinct : ∀ x, (partsOf x).Pairwise (·.range ≠ ·.range)) (xs : List α) :
    (xs.flatMap fun x => (partsOf x).flatMap Part.ranges).Nodup ↔ Apart partsOf xs := by
  rw [List.nodup_flatMap]
  have between (a b : α) :
      List.Disjoint ((partsOf a).flatMap Part.ranges) ((partsOf b).flatMap Part.ranges) ↔
        ∀ p ∈ partsOf a, ∀ q ∈ partsOf b, 0 < p.count → 0 < q.count → p.range ≠ q.range := by
    constructor
    · intro disjoint p inA q inB first second same
      exact disjoint (mem_ranges.mpr ⟨p, inA, first, same⟩) (mem_ranges.mpr ⟨q, inB, second, rfl⟩)
    · intro differ range inFirst inSecond
      obtain ⟨p, inA, first, rfl⟩ := mem_ranges.mp inFirst
      obtain ⟨q, inB, second, same⟩ := mem_ranges.mp inSecond
      exact differ p inA q inB first second same.symm
  constructor
  · rintro ⟨whole, apart⟩
    exact ⟨fun x member => (nodup_parts (distinct x)).mp (whole x member),
      apart.imp fun {a b} => (between a b).mp⟩
  · rintro ⟨whole, apart⟩
    exact ⟨fun x member => (nodup_parts (distinct x)).mpr (whole x member),
      apart.imp fun {a b} => (between a b).mpr⟩

section Tokens
variable {Token : Type} (enc : Option (Encoding Token)) (maxTokens : Int)

/-- The windows of one group: one, unless its text is blank or one line over the limit. -/
def LineGroup.part (g : LineGroup) : Part where
  range := g.range
  count := (flush enc maxTokens g.start g.lines).elim 0 List.length

def Span.parts (s : Span) : List Part :=
  if overLimit enc maxTokens s.text then
    (lineGroups enc maxTokens s.lines s.range.1).map (LineGroup.part enc maxTokens)
  else [⟨s.range, 1⟩]

def Span.ranges (s : Span) : List (Nat × Nat) :=
  if overLimit enc maxTokens s.text then
    ((s.groups enc maxTokens).filter fun g => textOf g.lines ≠ []).map LineGroup.range
  else [s.range]

/-- No line is over the limit alone where a span is cut by it, and no two spans have the lines of a
    group in common. -/
structure KeepsApart (spans : List Span) : Prop where
  within : ∀ s ∈ spans, ∀ g ∈ s.groups enc maxTokens, overLimit enc maxTokens (textOf g.lines) = false
  apart : spans.Pairwise fun a b => (a.ranges enc maxTokens).Disjoint (b.ranges enc maxTokens)

instance (spans : List Span) : Decidable (KeepsApart enc maxTokens spans) :=
  decidable_of_iff ((∀ s ∈ spans, ∀ g ∈ s.groups enc maxTokens,
      overLimit enc maxTokens (textOf g.lines) = false) ∧
      spans.Pairwise fun a b => ∀ range ∈ a.ranges enc maxTokens, range ∉ b.ranges enc maxTokens)
    ⟨fun both => ⟨both.1, both.2.imp fun differ _ => differ _⟩,
      fun keeps => ⟨keeps.within, keeps.apart.imp fun disjoint _ inA inB => disjoint inA inB⟩⟩

/-- Tokens have a text, and a piece that was cut to the limit is not over it when it is counted
    again. -/
structure Sound : Prop where
  decode : ∀ e, enc = some e → ∀ tokens, tokens ≠ [] → ∃ piece, e.decode tokens = some piece ∧ piece ≠ []
  again : ∀ text cut, pieces enc maxTokens text = some cut → ∀ piece ∈ cut,
    overLimit enc maxTokens piece = false

variable {enc maxTokens}

theorem flush_ranges {start : Nat} {current : List Str} {ws : List Window}
    (flushed : flush enc maxTokens start current = some ws) :
    ws.map Window.range = (LineGroup.part enc maxTokens ⟨start, current⟩).ranges := by
  have same : ∀ w ∈ ws, w.range = (start, start + current.length - 1) := by
    simp only [flush, appendSubWindow] at flushed
    split at flushed
    · simp [← Option.some.inj flushed]
    · split at flushed
      · obtain ⟨cut, _, rfl⟩ := Option.map_eq_some_iff.mp flushed
        simp [Window.range]
      · simp [← Option.some.inj flushed, Window.range]
  rw [Part.ranges, LineGroup.part, flushed, List.eq_replicate_iff]
  exact ⟨by simp, by simpa [LineGroup.range] using same⟩

theorem splitFrom_ranges {next start : Nat} {current lines : List Str} {ws : List Window}
    (split : splitFrom enc maxTokens next start current lines = some ws) :
    ws.map Window.range = ((lineGroupsFrom enc maxTokens next start current lines).map
      (LineGroup.part enc maxTokens)).flatMap Part.ranges := by
  induction lines generalizing next start current ws with
  | nil =>
    rw [splitFrom] at split
    rw [lineGroupsFrom]
    by_cases none : current = []
    · simp only [none, ↓reduceIte, Option.some.injEq] at split ⊢
      simp [← split]
    · simp only [none, ↓reduceIte] at split ⊢
      simpa using flush_ranges split
  | cons line rest ih =>
    rw [splitFrom] at split
    rw [lineGroupsFrom]
    by_cases stops : full enc maxTokens current line = true
    · simp only [stops, ↓reduceIte, Option.bind_eq_bind, Option.bind_eq_some_iff, Option.pure_def,
        Option.some.injEq] at split ⊢
      obtain ⟨before, flushed, after, later, rfl⟩ := split
      rw [List.map_append, List.map_cons, List.flatMap_cons, flush_ranges flushed, ih later]
    · simp only [stops, Bool.false_eq_true, ↓reduceIte] at split ⊢
      exact ih split

theorem lineGroupsFrom_increasing (start : Nat) (current lines : List Str) (next : Nat)
    (gathered : next = start + current.length) :
    (∀ g ∈ lineGroupsFrom enc maxTokens next start current lines, start ≤ g.start) ∧
      (lineGroupsFrom enc maxTokens next start current lines).Pairwise (·.start < ·.start) := by
  induction lines generalizing next start current with
  | nil =>
    rw [lineGroupsFrom]
    split <;> simp
  | cons line rest ih =>
    rw [lineGroupsFrom]
    by_cases stops : full enc maxTokens current line = true
    · have some_ : current ≠ [] := by
        intro none
        simp [full, none] at stops
      have longer := List.length_pos_iff.mpr some_
      obtain ⟨later, increasing⟩ := ih next [line] (next + 1) rfl
      rw [if_pos stops]
      refine ⟨fun g member => ?_, List.pairwise_cons.mpr ⟨fun g member => ?_, increasing⟩⟩
      · rcases List.mem_cons.mp member with rfl | member
        · exact le_rfl
        · exact le_trans (by omega) (later g member)
      · exact lt_of_lt_of_le (by dsimp only; omega) (later g member)
    · rw [if_neg stops]
      exact ih start (current ++ [line]) (next + 1) (by simp [gathered]; omega)

theorem parts_distinct (s : Span) : (s.parts enc maxTokens).Pairwise (·.range ≠ ·.range) := by
  rw [Span.parts]
  split
  · rw [List.pairwise_map]
    refine (lineGroupsFrom_increasing _ [] s.lines _ (by simp)).2.imp fun earlier same => ?_
    exact absurd (congrArg Prod.fst same) (Nat.ne_of_lt earlier)
  · exact List.pairwise_singleton _ _

theorem part_within {g : LineGroup} (within : overLimit enc maxTokens (textOf g.lines) = false) :
    (g.part enc maxTokens).count = if textOf g.lines = [] then 0 else 1 := by
  rw [LineGroup.part, flush, appendSubWindow, ← textOf]
  split
  · rfl
  · rw [if_neg (by simp [within])]
    rfl

theorem two_slices {α : Type} {xs : List α} (limit : 0 < maxTokens) (large : maxTokens < xs.length) :
    ∃ parts, slices maxTokens xs = some parts ∧ 2 ≤ parts.length ∧ ∀ part ∈ parts, part ≠ [] := by
  have count : 2 ≤ (xs.length + maxTokens.toNat - 1) / maxTokens.toNat := by
    rw [Nat.le_div_iff_mul_le (by omega)]
    omega
  refine ⟨_, (if_neg (by omega)).trans (if_neg (by omega)), by simpa [starts] using count, ?_⟩
  refine List.forall_mem_map.mpr fun start member => ?_
  obtain ⟨i, inside, rfl⟩ := List.mem_map.mp member
  have before : i * maxTokens.toNat < xs.length := by
    have last := Nat.lt_iff_add_one_le.mp (List.mem_range.mp inside)
    rw [Nat.le_div_iff_mul_le (by omega), Nat.succ_mul] at last
    omega
  rw [ne_eq, List.take_eq_nil_iff, List.drop_eq_nil_iff]
  omega

theorem decodeAll_whole {e : Encoding Token} {parts : List (List Token)}
    (decode : ∀ tokens ∈ parts, ∃ piece, e.decode tokens = some piece ∧ piece ≠ []) :
    ∃ texts, decodeAll e parts = (texts, true) ∧ texts.length = parts.length := by
  induction parts with
  | nil => exact ⟨[], rfl, rfl⟩
  | cons tokens parts ih =>
    obtain ⟨⟨piece, decoded, some_⟩, later⟩ := List.forall_mem_cons.mp decode
    obtain ⟨texts, all, counted⟩ := ih later
    exact ⟨piece :: texts, by simp [decodeAll, decoded, all, some_], by simp [counted]⟩

theorem two_pieces (sound : Sound enc maxTokens) (limit : 0 < maxTokens) {text : Str}
    (large : overLimit enc maxTokens text = true) :
    ∃ cut, pieces enc maxTokens text = some cut ∧ 2 ≤ cut.length := by
  have some_ : text ≠ [] := by
    rintro rfl
    rw [overLimit, countChunkTokens, if_pos rfl, decide_eq_true_eq] at large
    omega
  rw [overLimit, countChunkTokens, if_neg some_, decide_eq_true_eq] at large
  rw [pieces, tokenPieces]
  cases encoded : enc.bind (·.encode text) with
  | none =>
    rw [encoded] at large
    obtain ⟨parts, sliced, two, _⟩ := two_slices limit large
    have none_ : tokenPieces enc maxTokens text = none := by
      cases enc with
      | none => rfl
      | some e => simp [tokenPieces, show e.encode text = none from encoded]
    rw [tokenPieces] at none_
    rw [none_]
    exact ⟨parts, sliced, two⟩
  | some tokens =>
    rw [encoded] at large
    obtain ⟨e, here, made⟩ := Option.bind_eq_some_iff.mp encoded
    obtain ⟨parts, sliced, two, full_⟩ := two_slices limit large
    obtain ⟨texts, all, counted⟩ := decodeAll_whole fun part member =>
      sound.decode e here part (full_ part member)
    simp only [here, made, sliced, all, Option.bind_eq_bind, Option.bind_some, Option.pure_def]
    exact ⟨texts, rfl, by omega⟩

theorem sound_characters (limit : 0 < maxTokens) : Sound (none : Option (Encoding Token)) maxTokens where
  decode e none_ := absurd none_.symm (Option.some_ne_none e)
  again text cut made piece member := by
    rw [pieces, tokenPieces] at made
    have sliced : slices maxTokens text = some cut := made
    rw [slices, if_neg (by omega), if_neg (by omega), Option.some.injEq] at sliced
    rw [← sliced] at member
    obtain ⟨start, _, rfl⟩ := List.mem_map.mp member
    rw [overLimit, countChunkTokens, decide_eq_false_iff_not]
    split
    · omega
    · have short := List.length_take_le maxTokens.toNat (text.drop start)
      simp only [Option.bind_none]
      omega

theorem part_over (sound : Sound enc maxTokens) (limit : 0 < maxTokens) {g : LineGroup}
    (large : overLimit enc maxTokens (textOf g.lines) = true) : 2 ≤ (g.part enc maxTokens).count := by
  obtain ⟨cut, made, two⟩ := two_pieces sound limit large
  have some_ : textOf g.lines ≠ [] := by
    intro none_
    rw [none_, overLimit, countChunkTokens, if_pos rfl, decide_eq_true_eq] at large
    omega
  rw [LineGroup.part, flush, appendSubWindow, ← textOf, if_neg some_, if_pos large, made]
  simpa using two

theorem mem_span_ranges {s : Span}
    (within : ∀ g ∈ s.groups enc maxTokens, overLimit enc maxTokens (textOf g.lines) = false)
    (range : Nat × Nat) : range ∈ s.ranges enc maxTokens ↔
      ∃ p ∈ s.parts enc maxTokens, 0 < p.count ∧ p.range = range := by
  rw [Span.ranges, Span.parts]
  rw [Span.groups] at within
  split
  · next large =>
    rw [if_pos large] at within
    rw [Span.groups, if_pos large, List.mem_map]
    simp only [List.mem_filter, decide_eq_true_eq]
    constructor
    · rintro ⟨g, ⟨member, text⟩, rfl⟩
      refine ⟨_, List.mem_map_of_mem member, ?_, rfl⟩
      rw [part_within (within g member), if_neg text]
      exact Nat.one_pos
    · rintro ⟨_, member, some_, rfl⟩
      obtain ⟨g, inside, rfl⟩ := List.mem_map.mp member
      rw [part_within (within g inside)] at some_
      refine ⟨g, ⟨inside, fun empty => ?_⟩, rfl⟩
      rw [if_pos empty] at some_
      exact Nat.lt_irrefl 0 some_
  · simp [eq_comm]

theorem KeepsApart.parts {spans : List Span} (keeps : KeepsApart enc maxTokens spans) :
    Apart (Span.parts enc maxTokens) spans where
  whole s member part here := by
    have within := keeps.within s member
    rw [Span.parts] at here
    split at here
    · next large =>
      rw [Span.groups, if_pos large] at within
      obtain ⟨g, inside, rfl⟩ := List.mem_map.mp here
      rw [part_within (within g inside)]
      split <;> omega
    · rw [List.mem_singleton.mp here]
  apart := keeps.apart.imp_of_mem fun first second disjoint p inA q inB hasA hasB same =>
    disjoint ((mem_span_ranges (keeps.within _ first) _).mpr ⟨p, inA, hasA, rfl⟩)
      ((mem_span_ranges (keeps.within _ second) _).mpr ⟨q, inB, hasB, same.symm⟩)

theorem keepsApart_of_parts (sound : Sound enc maxTokens) (limit : 0 < maxTokens) {spans : List Span}
    (apart : Apart (Span.parts enc maxTokens) spans) : KeepsApart enc maxTokens spans := by
  have within : ∀ s ∈ spans, ∀ g ∈ s.groups enc maxTokens,
      overLimit enc maxTokens (textOf g.lines) = false := by
    intro s member g inside
    by_contra large
    have two := part_over sound limit (Bool.eq_true_of_not_eq_false large)
    rw [Span.groups] at inside
    split at inside
    · next over_ =>
      have here : g.part enc maxTokens ∈ s.parts enc maxTokens := by
        rw [Span.parts, if_pos over_]
        exact List.mem_map_of_mem inside
      have one := apart.whole s member _ here
      omega
    · cases inside
  refine ⟨within, apart.apart.imp_of_mem fun first second differ range inA inB => ?_⟩
  obtain ⟨p, here, some_, same⟩ := (mem_span_ranges (within _ first) range).mp inA
  obtain ⟨q, there, some_', same'⟩ := (mem_span_ranges (within _ second) range).mp inB
  exact differ p here q there some_ some_' (same.trans same'.symm)

theorem splitFrom_flush {next start : Nat} {current lines : List Str} {ws : List Window}
    (split : splitFrom enc maxTokens next start current lines = some ws) :
    ∀ w ∈ ws, ∃ g ∈ lineGroupsFrom enc maxTokens next start current lines,
      ∃ flushed, flush enc maxTokens g.start g.lines = some flushed ∧ w ∈ flushed := by
  induction lines generalizing next start current ws with
  | nil =>
    rw [splitFrom] at split
    rw [lineGroupsFrom]
    by_cases none : current = []
    · rw [if_pos none] at split
      obtain rfl := Option.some.inj split
      exact List.forall_mem_nil _
    · rw [if_neg none] at split ⊢
      exact fun w member => ⟨_, List.mem_singleton_self _, ws, split, member⟩
  | cons line rest ih =>
    rw [splitFrom] at split
    rw [lineGroupsFrom]
    by_cases stops : full enc maxTokens current line = true
    · simp only [stops, ↓reduceIte, Option.bind_eq_bind, Option.bind_eq_some_iff, Option.pure_def,
        Option.some.injEq] at split ⊢
      obtain ⟨before, flushed, after, later, rfl⟩ := split
      intro w member
      rcases List.mem_append.mp member with early | late
      · exact ⟨_, List.mem_cons_self, before, flushed, early⟩
      · obtain ⟨g, inside, found⟩ := ih later w late
        exact ⟨g, List.mem_cons_of_mem _ inside, found⟩
    · simp only [stops, Bool.false_eq_true, ↓reduceIte] at split ⊢
      exact ih split

theorem flush_within {start : Nat} {current : List Str} {flushed : List Window}
    (keeps : overLimit enc maxTokens (textOf current) = false ∨ Sound enc maxTokens)
    (made : flush enc maxTokens start current = some flushed) :
    ∀ w ∈ flushed, overLimit enc maxTokens w.content = false := by
  rw [flush, appendSubWindow, ← textOf] at made
  split at made
  · obtain rfl := Option.some.inj made
    exact List.forall_mem_nil _
  · split at made
    · next large =>
      obtain ⟨cut, cut_, rfl⟩ := Option.map_eq_some_iff.mp made
      rcases keeps with within | sound
      · rw [within] at large
        cases large
      · exact List.forall_mem_map.mpr (sound.again _ _ cut_)
    · next small =>
      obtain rfl := Option.some.inj made
      exact List.forall_mem_singleton.mpr (Bool.eq_false_iff.mpr small)

end Tokens

namespace Chunker
variable {Token Id : Type} {c : Chunker Token Id}

theorem cutSpan_ranges {s : Span} {cut : List (CodeChunk c)} (made : c.cutSpan s = some cut) :
    cut.map CodeChunk.range = (s.parts c.enc c.maxTokens).flatMap Part.ranges := by
  rw [cutSpan] at made
  rw [Span.parts]
  by_cases large : overLimit c.enc c.maxTokens s.text = true
  · simp only [large, ↓reduceIte] at made ⊢
    obtain ⟨ws, windows, rfl⟩ := Option.map_eq_some_iff.mp made
    rw [lineGroups, ← splitFrom_ranges windows, List.map_map]
    rfl
  · simp only [large, Bool.false_eq_true, ↓reduceIte, Option.some.injEq] at made ⊢
    simp [← made, Part.ranges, spanChunk, makeChunk, CodeChunk.range]

theorem cutSpan_within {s : Span} {cut : List (CodeChunk c)}
    (keeps : (∀ g ∈ s.groups c.enc c.maxTokens, overLimit c.enc c.maxTokens (textOf g.lines) = false) ∨
      Sound c.enc c.maxTokens) (made : c.cutSpan s = some cut) :
    ∀ chunk ∈ cut, overLimit c.enc c.maxTokens chunk.content = false := by
  rw [cutSpan] at made
  split at made
  · next large =>
    obtain ⟨ws, windows, rfl⟩ := Option.map_eq_some_iff.mp made
    refine List.forall_mem_map.mpr fun w member => ?_
    obtain ⟨g, inside, flushed, made, here⟩ := splitFrom_flush windows w member
    rw [Span.groups, if_pos large] at keeps
    exact flush_within (keeps.imp_left fun within => within g inside) made w here
  · next small =>
    obtain rfl := Option.some.inj made
    exact List.forall_mem_singleton.mpr (Bool.eq_false_iff.mpr small)

theorem mapM_ranges {α : Type} {cut : α → Option (List (CodeChunk c))} {ranges : α → List (Nat × Nat)}
    {xs : List α} (each : ∀ x ∈ xs, ∀ ys, cut x = some ys → ys.map CodeChunk.range = ranges x)
    {out : List (List (CodeChunk c))} (all : xs.mapM cut = some out) :
    out.flatten.map CodeChunk.range = xs.flatMap ranges := by
  induction xs generalizing out with
  | nil => obtain rfl := Option.some.inj all; rfl
  | cons x rest ih =>
    obtain ⟨here, later⟩ := List.forall_mem_cons.mp each
    simp only [List.mapM_cons, Option.bind_eq_bind, Option.bind_eq_some_iff, Option.pure_def,
      Option.some.injEq] at all
    obtain ⟨ys, first, others, more, rfl⟩ := all
    rw [List.flatten_cons, List.map_append, here ys first, ih later more, List.flatMap_cons]

theorem chunkFile_ranges {content : Str} {rendering : Rendering} {out : List (CodeChunk c)}
    (keeps : (∀ s ∈ c.fileSpans content rendering, ∀ g ∈ s.groups c.enc c.maxTokens,
      overLimit c.enc c.maxTokens (textOf g.lines) = false) ∨ Sound c.enc c.maxTokens)
    (returned : c.chunkFile content rendering = some out) :
    out.map CodeChunk.range = (c.fileSpans content rendering).flatMap fun s =>
      (s.parts c.enc c.maxTokens).flatMap Part.ranges := by
  simp only [chunkFile, Option.bind_eq_bind, Option.bind_eq_some_iff, Option.pure_def,
    Option.some.injEq] at returned
  obtain ⟨chunks, rendered, parts, split, rfl⟩ := returned
  rcases language_spans rendered with ⟨some_, rfl⟩ | ⟨none_, windows⟩
  · rw [fileSpans, if_neg some_]
    rw [List.mapM_map] at split
    refine mapM_ranges (fun s member ys made => ?_) split
    rw [Function.comp_apply, split_span (parser_lines s member)] at made
    exact cutSpan_ranges made
  · rw [fileSpans, if_pos none_] at keeps ⊢
    rw [windows_cut] at windows
    obtain ⟨cuts, made, rfl⟩ := Option.map_eq_some_iff.mp windows
    have within : ∀ chunk ∈ cuts.flatten, overLimit c.enc c.maxTokens chunk.content = false := by
      intro chunk member
      obtain ⟨cut, here, inside⟩ := List.mem_flatten.mp member
      obtain ⟨s, listed, cut_⟩ := (OptionLists.mem_mapM made cut).mp here
      exact cutSpan_within (keeps.imp_left fun within => within s listed) cut_ chunk inside
    have again : parts.flatten.map CodeChunk.range = cuts.flatten.flatMap fun chunk => [chunk.range] :=
      mapM_ranges (fun chunk member ys kept => by
        rw [splitLargeChunk, if_neg (by simp [within chunk member])] at kept
        rw [← Option.some.inj kept, List.map_singleton]) split
    rw [again, ← List.map_eq_flatMap]
    exact mapM_ranges (fun s _ ys => cutSpan_ranges) made

theorem digits_injective {a b : Nat} (same : digits a = digits b) : a = b := by
  have read := congrArg (Nat.ofDigitChars 10 · 0) same
  simpa only [digits, Nat.ofDigitChars_ten_toDigits] using read

theorem digits_before_colon (n : Nat) (rest : Str) :
    (digits n ++ ':' :: rest).takeWhile (· ≠ ':') = digits n := by
  have plain : ∀ c ∈ digits n, decide (c ≠ ':') = true := by
    intro c member
    have digit : c.isDigit = true := Nat.isDigit_of_mem_toDigits (by decide) (by decide) member
    rw [decide_eq_true_eq]
    rintro rfl
    exact absurd digit (by decide)
  rw [List.takeWhile_append_of_pos plain]
  simp

theorem generateId_injective (injective : Function.Injective c.uuid5) {s e s' e' : Nat}
    (same : c.generateId s e = c.generateId s' e') : (s, e) = (s', e') := by
  have raw := injective same
  simp only [List.append_cancel_left_eq, List.cons.injEq, true_and] at raw
  have first : digits s = digits s' := by
    rw [← digits_before_colon s (digits e), raw, digits_before_colon]
  rw [first] at raw
  simp only [List.append_cancel_left_eq, List.cons.injEq, true_and] at raw
  rw [digits_injective first, digits_injective raw]

theorem ids_nodup_iff (injective : Function.Injective c.uuid5) (chunks : List (CodeChunk c)) :
    (chunks.map CodeChunk.id).Nodup ↔ (chunks.map CodeChunk.range).Nodup := by
  rw [List.Nodup, List.Nodup, List.pairwise_map, List.pairwise_map]
  have same (a b : CodeChunk c) : a.id = b.id ↔ a.range = b.range := by
    rw [a.named, b.named]
    constructor
    · exact generateId_injective injective
    · intro range
      obtain ⟨first, last⟩ := Prod.mk.inj range
      rw [first, last]
  simp only [ne_eq, same]

/-- The chunks of a file have different ids exactly when they have different lines. They have where
    no line that is cut is over the limit alone and no two spans have the lines of a group in common,
    and, with a sound tokenizer, only there. -/
theorem chunk_ids_distinct (c : Chunker Token Id) (injective : Function.Injective c.uuid5)
    (content : Str) (rendering : Rendering) (out : List (CodeChunk c))
    (returned : c.chunkFile content rendering = some out) :
    ((out.map CodeChunk.id).Nodup ↔ (out.map CodeChunk.range).Nodup) ∧
      (KeepsApart c.enc c.maxTokens (c.fileSpans content rendering) →
        (out.map CodeChunk.range).Nodup) ∧
      (0 < c.maxTokens → Sound c.enc c.maxTokens → (out.map CodeChunk.range).Nodup →
        KeepsApart c.enc c.maxTokens (c.fileSpans content rendering)) := by
  refine ⟨ids_nodup_iff injective out, fun keeps => ?_, fun limit sound distinct => ?_⟩
  · rw [chunkFile_ranges (.inl keeps.within) returned, apart_iff_nodup parts_distinct]
    exact keeps.parts
  · rw [chunkFile_ranges (.inr sound) returned, apart_iff_nodup parts_distinct] at distinct
    exact keepsApart_of_parts sound limit distinct

def smallChunker (limit : Int) : Chunker Unit Str where
  chunkSize := 2
  chunkOverlap := 1
  enc := none
  maxTokens := limit
  uuid5 := id
  projectName := []
  filePath := ['f']

/-- Two sections over the limit, each of which is split between its lines. -/
theorem chunk_ids_distinct_sections :
    ∃ out, (smallChunker 5).chunkFile ['#', ' ', 'T', '\n', 'a', 'b', '\n', '#', ' ', 'U', '\n', 'c', 'd']
        (.techDocs (some [0, 2])) = some out ∧ out.length = 4 ∧
      ((out.map CodeChunk.range).Nodup ↔ KeepsApart (smallChunker 5).enc 5 ((smallChunker 5).fileSpans
        ['#', ' ', 'T', '\n', 'a', 'b', '\n', '#', ' ', 'U', '\n', 'c', 'd'] (.techDocs (some [0, 2])))) ∧
      (out.map CodeChunk.range).Nodup := by
  have reached : ((smallChunker 5).chunkFile
      ['#', ' ', 'T', '\n', 'a', 'b', '\n', '#', ' ', 'U', '\n', 'c', 'd']
      (.techDocs (some [0, 2]))).any (fun out => out.length == 4) = true := by decide +kernel
  obtain ⟨out, returned, four⟩ := (Option.any_eq_true _ _).mp reached
  obtain ⟨_, enough, needed⟩ := chunk_ids_distinct (smallChunker 5) Function.injective_id _ _ out returned
  exact ⟨out, returned, beq_iff_eq.mp four,
    ⟨needed (by decide) (sound_characters (by decide)), enough⟩, enough (by decide +kernel)⟩

/-- One line over the limit is cut to two pieces, which have its line and one id. -/
theorem long_line_overwrites :
    ¬ ∀ (c : Chunker Unit Str) (content : Str) (rendering : Rendering) (out : List (CodeChunk c)),
      Function.Injective c.uuid5 → c.chunkFile content rendering = some out →
        (out.map CodeChunk.id).Nodup := by
  intro distinct
  have reached : ((smallChunker 2).chunkFile ['a', 'b', 'c'] .lines).any
      (fun out => decide ¬(out.map CodeChunk.id).Nodup) = true := by decide +kernel
  obtain ⟨out, returned, twice⟩ := (Option.any_eq_true _ _).mp reached
  exact of_decide_eq_true twice
    (distinct (smallChunker 2) _ .lines out Function.injective_id returned)

end Chunker
end DevopsCli.Rag
