import DevopsCli.Lib.Run
import DevopsCli.Ai.ThinkingSplits

/- The order of the callbacks. The machine starts and ends a thought by two flags, which an
   open tag, emitted content and explicit thinking set; a close tag does not end it. -/
namespace DevopsCli.Ai
open Text Run

variable {α : Type}

def bracket : Bool → Callback α → Option Bool
  | false, .thinkStart => some true
  | true, .thinkChunk _ => some true
  | true, .thinkEnd => some false
  | false, .contentChunk _ => some false
  | _, _ => none

def brackets (callbacks : List (Callback α)) : Option Bool :=
  callbacks.foldlM bracket false

/-- Starts and ends alternate from a start to an end, thoughts come between the two and
    content does not. -/
def WellBracketed (callbacks : List (Callback α)) : Prop := brackets callbacks = some false

instance (callbacks : List (Callback α)) : Decidable (WellBracketed callbacks) :=
  inferInstanceAs (Decidable (_ = _))

theorem brackets_snoc (callbacks : List (Callback α)) (callback : Callback α) :
    brackets (callbacks ++ [callback]) = (brackets callbacks).bind (bracket · callback) := by
  simp [brackets, List.foldlM_append]

namespace ThinkingFSM
variable {t : Thinking α} {f : ThinkingFSM α}

structure Traced (f : ThinkingFSM α) : Prop where
  brackets : brackets f.callbacks = some f.thinkStarted
  running : f.thinkStarted = true → f.thinkEnded = false

def flags (f : ThinkingFSM α) : Bool × Bool × List (Callback α) :=
  (f.thinkStarted, f.thinkEnded, f.callbacks)

theorem Traced.of_flags {g : ThinkingFSM α} (traced : f.Traced) (same : g.flags = f.flags) :
    g.Traced := by
  simp only [flags, Prod.mk.injEq] at same
  obtain ⟨started, ended, callbacks⟩ := same
  exact ⟨by rw [callbacks, started]; exact traced.brackets, by rw [started, ended]; exact traced.running⟩

theorem flags_endBlock : f.endBlock.flags = f.flags := by
  unfold endBlock
  split <;> rfl

theorem start_traced (traced : f.Traced) :
    f.triggerThinkStart.Traced ∧ f.triggerThinkStart.thinkStarted = true := by
  unfold triggerThinkStart
  split
  · exact ⟨traced, ‹_›⟩
  · rename_i closed
    have closed : f.thinkStarted = false := by simpa using closed
    refine ⟨⟨?_, fun _ => rfl⟩, rfl⟩
    simp [call, brackets_snoc, traced.brackets, closed, bracket]

theorem end_traced (traced : f.Traced) :
    f.triggerThinkEnd.Traced ∧ f.triggerThinkEnd.thinkStarted = false := by
  unfold triggerThinkEnd
  split
  · rename_i running
    simp only [Bool.and_eq_true] at running
    have flags := flags_endBlock (f := { f with thinkEnded := true, thinkStarted := false })
    simp only [ThinkingFSM.flags, Prod.mk.injEq] at flags
    refine ⟨⟨?_, fun opened => ?_⟩, flags.1⟩
    · simp [call, brackets_snoc, flags, traced.brackets, running, bracket]
    · simp [call, flags] at opened
  · rename_i stopped
    have closed : f.thinkStarted = false := by
      have := traced.running
      cases started : f.thinkStarted <;> simp_all
    exact ⟨traced, closed⟩

theorem record_traced (traced : f.Traced) (opened : f.thinkStarted = true) (chunk : List α) :
    (f.recordThought t chunk).Traced ∧ (f.recordThought t chunk).thinkStarted = true := by
  have spoken (text : List α) : brackets (f.callbacks ++ [.thinkChunk text]) = some true := by
    simp [brackets_snoc, traced.brackets, opened, bracket]
  unfold recordThought
  split
  · exact ⟨traced, opened⟩
  · dsimp only
    split
    · exact ⟨⟨traced.brackets, traced.running⟩, opened⟩
    · split
      · exact ⟨⟨(spoken chunk).trans (congrArg some opened.symm), traced.running⟩, opened⟩
      · exact ⟨⟨(spoken _).trans (congrArg some opened.symm), traced.running⟩, opened⟩

theorem emit_traced (traced : f.Traced) (text : List α) : (f.emitContent text).2.Traced := by
  unfold emitContent
  split
  · exact traced
  · obtain ⟨traced, closed⟩ := end_traced traced
    dsimp only [finalizeFooter]
    refine ⟨?_, fun opened => ?_⟩
    · simp [call, brackets_snoc, traced.brackets, closed, bracket]
    · simp [call, closed] at opened

end ThinkingFSM

variable [DecidableEq α]

def Thinking.Clean (t : Thinking α) (inside : Bool) (text : List α) : Prop :=
  ∀ piece ∈ t.reference inside text,
    piece.inside = false → piece.cut = some .opening → piece.text = []

section Clean
variable {t : Thinking α} {inside : Bool} {text : List α} {tag : Tag} {i : Nat}

theorem Thinking.clean_some (found : t.leftmost inside text = some (tag, i)) (clean : t.Clean inside text) :
    (inside = false → tag = .opening → text.take i = []) ∧
      t.Clean (tag = .opening) (text.drop (i + (t.tag tag).length)) := by
  simp only [Thinking.Clean, reference_some found, List.forall_mem_cons, Option.some.injEq] at clean
  exact clean

theorem Thinking.clean_nil (t : Thinking α) (inside : Bool) : t.Clean inside [] := by
  simp [Thinking.Clean, reference_none (Thinking.leftmost_nil t inside)]

end Clean

namespace ThinkingFSM
variable {t : Thinking α} {f : ThinkingFSM α}

structure Started (f : ThinkingFSM α) : Prop where
  traced : f.Traced
  inside : f.inThink = true → f.thinkStarted = true
  quiet : f.explicitThinkingActive = false

/-- A round of the loop that leaves the order of the callbacks right. -/
structure Ordered (t : Thinking α) (advanced : Bool) (f' : ThinkingFSM α) : Prop where
  started : Started f'
  clean : advanced = true → t.Clean f'.inThink f'.buffer

theorem inside_ordered (started : Started f) (inside : f.inThink = true)
    (clean : t.Clean f.inThink f.buffer) :
    Ordered t (f.processInsideThink t).1 (f.processInsideThink t).2.2 := by
  have opened := started.inside inside
  unfold processInsideThink
  cases found : find f.buffer t.closeTag with
  | some closePos =>
    have leftmost : t.leftmost f.inThink f.buffer = some (.closing, closePos) := by
      simp [Thinking.leftmost, inside, found]
    obtain ⟨_, rest⟩ := Thinking.clean_some leftmost clean
    let g : ThinkingFSM α :=
      { f with inThink := false, buffer := f.buffer.drop (closePos + t.closeTag.length) }
    obtain ⟨traced, _⟩ := record_traced (t := t) (f := g)
      (started.traced.of_flags rfl) opened (f.buffer.take closePos)
    have frame : (g.recordThought t (f.buffer.take closePos)).endBlock.frame = g.frame := by
      rw [frame_endBlock, frame_recordThought]
    simp only [ThinkingFSM.frame, Prod.mk.injEq] at frame
    refine ⟨⟨traced.of_flags flags_endBlock, fun thinking => ?_,
      frame.2.2.trans started.quiet⟩, fun _ => ?_⟩
    · exact absurd (frame.1.symm.trans thinking) (by simp [g])
    · dsimp only
      rw [frame.1, frame.2.1]
      exact rest
  | none =>
    dsimp only
    split
    · let g : ThinkingFSM α := { f with
        buffer := f.buffer.drop (f.buffer.length - findSuffixOverlap f.buffer t.closeTag) }
      obtain ⟨traced, opened⟩ := record_traced (t := t) (f := g)
        (started.traced.of_flags rfl) opened
        (f.buffer.take (f.buffer.length - findSuffixOverlap f.buffer t.closeTag))
      have frame := frame_recordThought (t := t) (f := g)
        (f.buffer.take (f.buffer.length - findSuffixOverlap f.buffer t.closeTag))
      exact ⟨⟨traced, fun _ => opened, (congrArg (·.2.2) frame).trans started.quiet⟩, by simp⟩
    · obtain ⟨traced, opened⟩ := record_traced (t := t) started.traced opened f.buffer
      have frame := frame_recordThought (t := t) (f := f) f.buffer
      exact ⟨⟨traced.of_flags rfl, fun _ => opened,
        (congrArg (·.2.2) frame).trans started.quiet⟩, fun _ => Thinking.clean_nil t _⟩

omit [DecidableEq α] in
theorem emit_started (traced : f.Traced) (outside : f.inThink = false)
    (quiet : f.explicitThinkingActive = false) (text : List α) :
    Started (f.emitContent text).2 ∧ (f.emitContent text).2.frame = f.frame := by
  have frame := frame_emitContent (f := f) text
  refine ⟨⟨emit_traced traced text, fun thinking => ?_, (congrArg (·.2.2) frame).trans quiet⟩, frame⟩
  exact absurd ((congrArg Prod.fst frame).symm.trans thinking) (by simp [ThinkingFSM.frame, outside])

theorem closed_ordered (started : Started f) (outside : f.inThink = false) {i : Nat}
    (found : t.leftmost f.inThink f.buffer = some (.closing, i))
    (clean : t.Clean f.inThink f.buffer) :
    Ordered t true (processOutsideThink.closed t f i).2 := by
  obtain ⟨_, rest⟩ := Thinking.clean_some found clean
  obtain ⟨started, frame⟩ := emit_started (f := { f with
    unopenedCloseTags := f.unopenedCloseTags + 1
    buffer := f.buffer.drop (i + t.closeTag.length) })
    (started.traced.of_flags rfl) outside started.quiet (f.buffer.take i)
  refine ⟨started, fun _ => ?_⟩
  simp only [ThinkingFSM.frame, Prod.mk.injEq] at frame
  unfold processOutsideThink.closed
  rw [frame.1, frame.2.1, outside]
  exact rest

theorem opened_ordered (started : Started f) (outside : f.inThink = false) {i : Nat}
    (found : t.leftmost f.inThink f.buffer = some (.opening, i))
    (clean : t.Clean f.inThink f.buffer) :
    Ordered t true (processOutsideThink.opened t f i).2 := by
  obtain ⟨none, rest⟩ := Thinking.clean_some found clean
  obtain ⟨traced, opened⟩ := start_traced (f := { f with inThink := true })
    (started.traced.of_flags rfl)
  have frame := frame_triggerThinkStart (f := { f with inThink := true })
  simp only [ThinkingFSM.frame, Prod.mk.injEq] at frame
  unfold processOutsideThink.opened
  rw [none outside rfl]
  refine ⟨⟨traced.of_flags rfl,
    fun _ => opened, frame.2.2.trans started.quiet⟩, fun _ => ?_⟩
  change t.Clean { f with inThink := true }.triggerThinkStart.inThink _
  rw [frame.1]
  exact rest

theorem outside_ordered (started : Started f) (outside : f.inThink = false)
    (clean : t.Clean f.inThink f.buffer) :
    Ordered t (f.processOutsideThink t).1 (f.processOutsideThink t).2.2 := by
  unfold processOutsideThink
  cases opening : find f.buffer t.openTag with
  | some open_ =>
    cases closing : find f.buffer t.closeTag with
    | some close_ =>
      dsimp only
      split
      · exact closed_ordered started outside (by simp [Thinking.leftmost, *]) clean
      · exact opened_ordered started outside (by simp [Thinking.leftmost, *]) clean
    | none => exact opened_ordered started outside (by simp [Thinking.leftmost, *]) clean
  | none =>
    cases closing : find f.buffer t.closeTag with
    | some close_ => exact closed_ordered started outside (by simp [Thinking.leftmost, *]) clean
    | none =>
      dsimp only
      generalize max (findSuffixOverlap f.buffer t.openTag) (findSuffixOverlap f.buffer t.closeTag) =
        overlap
      split
      · obtain ⟨started, _⟩ := emit_started (f := { f with
          buffer := f.buffer.drop (f.buffer.length - overlap) })
          (started.traced.of_flags rfl) outside started.quiet
          (f.buffer.take (f.buffer.length - overlap))
        exact ⟨started, by simp⟩
      · obtain ⟨⟨traced, inside, quiet⟩, _⟩ :=
          emit_started started.traced outside started.quiet f.buffer
        exact ⟨⟨traced.of_flags rfl, inside, quiet⟩,
          fun _ => Thinking.clean_nil t _⟩

theorem processBufferFor_started (started : Started f) (clean : t.Clean f.inThink f.buffer)
    (rounds : Nat) : Started (f.processBufferFor t rounds).2 := by
  induction rounds generalizing f with
  | zero => exact started
  | succ rounds ih =>
    unfold processBufferFor
    split
    · exact started
    · have ordered : Ordered t
          (if f.inThink then f.processInsideThink t else f.processOutsideThink t).1
          (if f.inThink then f.processInsideThink t else f.processOutsideThink t).2.2 := by
        cases inThink : f.inThink
        · exact outside_ordered started inThink clean
        · exact inside_ordered started inThink clean
      generalize (if f.inThink then f.processInsideThink t else f.processOutsideThink t) = ended
        at ordered
      obtain ⟨advanced, tokens, f'⟩ := ended
      cases advanced with
      | true => exact ih (f := f') ordered.started (ordered.clean rfl)
      | false => exact ordered.started

/-- Between two calls a thought is started where an open tag or explicit thinking is on. -/
structure Bracketed (f : ThinkingFSM α) : Prop where
  traced : f.Traced
  inside : f.inThink = true → f.thinkStarted = true
  explicit : f.explicitThinkingActive = true → f.thinkStarted = true

/-- An ordinary chunk finds no open tag directly after content, and no tag block that explicit
    thinking has ended. -/
def FeedsClean (t : Thinking α) (f : ThinkingFSM α) (feed : List α × Bool) : Prop :=
  feed.2 = true ∨ feed.1 = [] ∨
    ¬ (f.explicitThinkingActive ∧ f.inThink) ∧ t.Clean f.inThink (f.buffer ++ feed.1)

def feedStep (t : Thinking α) (f : ThinkingFSM α) (feed : List α × Bool) :
    Option (ThinkingFSM α) :=
  some (f.feed t feed.1 feed.2).2

/-- The flush finds no text held back in a tag block that explicit thinking has ended. -/
def FlushesClean (f : ThinkingFSM α) : Prop :=
  ¬ (f.explicitThinkingActive ∧ f.inThink ∧ f.buffer ≠ [])

instance (f : ThinkingFSM α) : Decidable (FlushesClean f) := inferInstanceAs (Decidable (¬ _))

section Calls
omit [DecidableEq α]

theorem init_bracketed (initialState : String) :
    Bracketed (init initialState : ThinkingFSM α) := by
  by_cases thinking : initialState = "thinking" <;>
    exact ⟨⟨by simp [init, thinking, brackets, bracket], by simp [init]⟩, by simp [init],
      by simp [init]⟩

theorem endExplicit_traced (bracketed : Bracketed f) :
    f.endExplicit.Traced ∧ f.endExplicit.frame = (f.inThink, f.buffer, false) ∧
      (f.explicitThinkingActive = false → f.endExplicit = f) := by
  unfold endExplicit
  split
  · rename_i explicit
    have quiet : ({ f with explicitThinkingActive := false }).Traced := bracketed.traced.of_flags rfl
    obtain ⟨traced, _⟩ := end_traced (quiet.of_flags flags_endBlock)
    refine ⟨traced, ?_, by simp [explicit]⟩
    rw [finalizeFooter, frame_triggerThinkEnd, frame_endBlock]
    rfl
  · rename_i quiet
    exact ⟨bracketed.traced, by simp [frame, quiet], fun _ => rfl⟩

theorem endExplicit_started (bracketed : Bracketed f)
    (apart : ¬ (f.explicitThinkingActive ∧ f.inThink)) : Started f.endExplicit := by
  obtain ⟨traced, frame, same⟩ := endExplicit_traced bracketed
  simp only [ThinkingFSM.frame, Prod.mk.injEq] at frame
  refine ⟨traced, fun thinking => ?_, frame.2.2⟩
  have inside : f.inThink = true := frame.1.symm.trans thinking
  rw [same (by simpa [inside] using apart)]
  exact bracketed.inside inside

theorem explicit_bracketed (bracketed : Bracketed f) (chunk : List α) :
    Bracketed (f.handleExplicitThinking t chunk).2 := by
  obtain ⟨traced, opened⟩ := start_traced (f := { f with explicitThinkingActive := true })
    (bracketed.traced.of_flags rfl)
  obtain ⟨traced, opened⟩ := record_traced (t := t) traced opened chunk
  exact ⟨traced, fun _ => opened, fun _ => opened⟩

end Calls

theorem feed_bracketed (bracketed : Bracketed f) (feed : List α × Bool)
    (clean : FeedsClean t f feed) : Bracketed (f.feed t feed.1 feed.2).2 := by
  obtain ⟨chunk, isThinking⟩ := feed
  unfold ThinkingFSM.feed
  split
  · exact bracketed
  · rename_i holds
    split
    · exact explicit_bracketed bracketed chunk
    · rename_i ordinary
      have holds : chunk ≠ [] := by simpa using holds
      obtain ⟨apart, clean⟩ := (clean.resolve_left ordinary).resolve_left holds
      have started := endExplicit_started bracketed apart
      obtain ⟨_, frame, _⟩ := endExplicit_traced bracketed
      simp only [ThinkingFSM.frame, Prod.mk.injEq] at frame
      have ended := processBufferFor_started (t := t)
        (f := { f.endExplicit with buffer := f.endExplicit.buffer ++ chunk })
        ⟨started.traced.of_flags rfl, started.inside, started.quiet⟩
        (by simpa only [frame.1, frame.2.1] using clean)
        (f.endExplicit.buffer ++ chunk).length
      exact ⟨ended.traced, ended.inside, fun active =>
        Bool.noConfusion (ended.quiet.symm.trans active)⟩

omit [DecidableEq α] in
theorem finish_bracketed (traced : f.Traced) :
    WellBracketed f.endBlock.finalizeFooter.callbacks := by
  obtain ⟨traced, closed⟩ := end_traced (traced.of_flags flags_endBlock)
  exact traced.brackets.trans (congrArg some closed)

omit [DecidableEq α] in
theorem flush_bracketed (bracketed : Bracketed f) (clean : FlushesClean f) :
    WellBracketed (f.flush t).2.callbacks := by
  obtain ⟨traced, frame, same⟩ := endExplicit_traced bracketed
  simp only [ThinkingFSM.frame, Prod.mk.injEq] at frame
  unfold flush
  refine finish_bracketed ?_
  rw [frame.1, frame.2.1]
  by_cases empty : f.buffer = []
  · cases f.inThink
    · simpa [empty] using traced
    · simp only [empty, List.isEmpty_nil, ↓reduceIte]
      exact traced.of_flags rfl
  · cases inThink : f.inThink with
    | false =>
      simp only [List.isEmpty_iff, empty, Bool.false_eq_true, ↓reduceIte]
      exact (emit_traced traced f.buffer).of_flags rfl
    | true =>
      have quiet : f.explicitThinkingActive = false := by
        simpa [FlushesClean, inThink, empty] using clean
      simp only [List.isEmpty_iff, empty, ↓reduceIte, same quiet]
      obtain ⟨traced, _⟩ := record_traced (t := t)
        (f := { f with inThink := true, unclosedStream := true })
        (bracketed.traced.of_flags rfl) (bracketed.inside inThink) f.buffer
      exact traced.of_flags rfl

/-- Where no call finds an open tag directly after content, or a tag block that explicit
    thinking has ended, the callbacks are well bracketed. -/
theorem callbacks_bracketed (t : Thinking α) (initialState : String)
    (feeds : List (List α × Bool)) (f : ThinkingFSM α)
    (clean : Meets (feedStep t) (FeedsClean t) (init initialState) feeds)
    (fed : exec (feedStep t) (init initialState) feeds = some f) (last : FlushesClean f) :
    WellBracketed (f.flush t).2.callbacks := by
  refine flush_bracketed (exec_invariant Bracketed ?_ (init_bracketed initialState) clean
    fed) last
  intro f feed g bracketed clean taken
  exact Option.some.inj taken ▸ feed_bracketed bracketed feed clean

/-- A block in its own chunk, and an explicit thought in it. -/
theorem callbacks_bracketed_own_chunk :
    WellBracketed (α := Char) [.thinkStart, .thinkChunk ['b'], .thinkChunk ['c'], .thinkEnd] := by
  let t := defaultThinking 9
  let feeds := [(['<', 't', 'h', 'i', 'n', 'k', '>', 'b'], false), (['c'], true)]
  have opening : t.leftmost false ['<', 't', 'h', 'i', 'n', 'k', '>', 'b'] = some (.opening, 0) := by
    decide
  have inside : t.leftmost true ['b'] = none := by decide
  have clean : t.Clean false ['<', 't', 'h', 'i', 'n', 'k', '>', 'b'] := by
    rw [Thinking.Clean, reference_some opening]
    change ∀ piece ∈ _ :: t.reference true ['b'], _
    simp [reference_none inside]
  have meets : Meets (feedStep t) (FeedsClean t) (init "emitting") feeds :=
    ⟨.inr (.inr ⟨by decide, clean⟩), fun _ _ => ⟨.inl rfl, fun _ _ => trivial⟩⟩
  have fed : exec (feedStep t) (init "emitting") feeds =
      some (((init "emitting").feed t ['<', 't', 'h', 'i', 'n', 'k', '>', 'b'] false).2.feed t ['c']
        true).2 := rfl
  have order := callbacks_bracketed t "emitting" feeds _ meets fed (by decide)
  have calls : ((((init "emitting").feed t ['<', 't', 'h', 'i', 'n', 'k', '>', 'b'] false).2.feed t
      ['c'] true).2.flush t).2.callbacks =
        [.thinkStart, .thinkChunk ['b'], .thinkChunk ['c'], .thinkEnd] := by decide
  exact calls ▸ order

/-- One chunk holds content and a whole block: the open tag starts the thought, the content
    before it ends the thought, and the text of the thought comes after its end. -/
theorem thought_outside_brackets :
    ¬ ∀ (t : Thinking Char) (initialState : String) (feeds : List (List Char × Bool))
      (f : ThinkingFSM Char), exec (feedStep t) (init initialState) feeds = some f →
      WellBracketed (f.flush t).2.callbacks := by
  intro bracketed
  have order := bracketed (defaultThinking 9) "emitting"
    [(['a', '<', 't', 'h', 'i', 'n', 'k', '>', 'b', '<', '/', 't', 'h', 'i', 'n', 'k', '>'], false)]
    _ rfl
  exact absurd order (by decide)

end ThinkingFSM
end DevopsCli.Ai
