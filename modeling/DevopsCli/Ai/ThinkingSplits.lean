import DevopsCli.Ai.ThinkingScan

/- The machine reads a text in chunks. What it has read and what its buffer still holds give,
   with any text to come, the scan of the whole. -/
namespace DevopsCli.Ai
open Text

variable {α : Type} {t : Thinking α} {f : ThinkingFSM α}

namespace ThinkingFSM

def outcome (f : ThinkingFSM α) : Outcome α where
  cleanContent := f.cleanContent
  thinkingContent := f.thinkingContent
  thinkingBlocks := f.thinkingBlocks
  unopenedCloseTags := f.unopenedCloseTags
  discardedThoughtChars := f.discardedThoughtChars
  unclosedStream := f.unclosedStream

def tally (f : ThinkingFSM α) : Tally α := ⟨f.outcome, f.currentBlock⟩

@[simp] theorem tally_call (f : ThinkingFSM α) (callback : Callback α) : (f.call callback).tally = f.tally :=
  rfl

@[simp] theorem tally_triggerThinkStart : f.triggerThinkStart.tally = f.tally := by
  unfold triggerThinkStart
  split <;> rfl

@[simp] theorem tally_endBlock : f.endBlock.tally = f.tally.endBlock := by
  by_cases none : f.currentBlock.isEmpty <;> simp [endBlock, Tally.endBlock, tally, outcome, none]

theorem tally_triggerThinkEnd (none : f.currentBlock = []) : f.triggerThinkEnd.tally = f.tally := by
  unfold triggerThinkEnd
  split
  · simp [endBlock, tally, outcome, none, call]
  · rfl

theorem tally_recordThought (chunk : List α) :
    (f.recordThought t chunk).tally = f.tally.hear t.maxThoughtChars chunk := by
  by_cases empty : chunk = []
  · simp [recordThought, empty, Tally.hear]
  · simp only [recordThought, List.isEmpty_iff, empty, ↓reduceIte, Tally.hear, tally, outcome]
    by_cases full : (f.thinkingContent.length : Int) ≥ t.maxThoughtChars
    · have room : (t.maxThoughtChars - (f.thinkingContent.length : Int)).toNat = 0 := by omega
      simp only [full, ↓reduceIte, room, List.take_zero, List.append_nil, List.length_nil,
        Nat.sub_zero]
    · simp only [full, ↓reduceIte]
      generalize (t.maxThoughtChars - (f.thinkingContent.length : Int)).toNat = available
      by_cases fits : chunk.length ≤ available
      · simp [fits, List.take_of_length_le fits, call]
      · simp only [fits, ↓reduceIte, call, List.length_take, Nat.min_eq_left (Nat.le_of_not_le fits)]

def frame (f : ThinkingFSM α) : Bool × List α × Bool :=
  (f.inThink, f.buffer, f.explicitThinkingActive)

@[simp] theorem frame_call (f : ThinkingFSM α) (callback : Callback α) :
    (f.call callback).frame = f.frame := rfl

@[simp] theorem frame_endBlock : f.endBlock.frame = f.frame := by
  unfold endBlock
  split <;> rfl

@[simp] theorem frame_triggerThinkStart : f.triggerThinkStart.frame = f.frame := by
  unfold triggerThinkStart
  split <;> rfl

@[simp] theorem frame_triggerThinkEnd : f.triggerThinkEnd.frame = f.frame := by
  unfold triggerThinkEnd
  split
  · rw [frame_call, frame_endBlock]
    rfl
  · rfl

@[simp] theorem frame_recordThought (chunk : List α) :
    (f.recordThought t chunk).frame = f.frame := by
  unfold recordThought
  split
  · rfl
  · dsimp only
    split
    · rfl
    · split <;> rfl

theorem frame_emitContent (text : List α) : (f.emitContent text).2.frame = f.frame := by
  unfold emitContent finalizeFooter
  split
  · rfl
  · dsimp only
    rw [frame_call]
    exact frame_triggerThinkEnd

theorem tally_emitContent (none : f.currentBlock = []) (text : List α) :
    (f.emitContent text).2.tally = f.tally.say text := by
  unfold emitContent finalizeFooter
  split
  · rename_i empty
    simp [Tally.say, List.isEmpty_iff.mp empty]
  · rw [tally_call]
    have ended := tally_triggerThinkEnd none
    simp only [tally, outcome, Tally.mk.injEq, Outcome.mk.injEq] at ended
    simp [tally, outcome, Tally.say, ended]

/-- No explicit thinking, and outside a thought no block that is not ended. -/
structure Quiet (f : ThinkingFSM α) : Prop where
  explicit : f.explicitThinkingActive = false
  block : f.inThink = false → f.currentBlock = []

variable [DecidableEq α]

def rest (t : Thinking α) (f : ThinkingFSM α) (more : List α) : Tally α :=
  t.scan f.inThink (f.buffer ++ more) f.tally

structure Round (t : Thinking α) (f : ThinkingFSM α) (advanced : Bool) (f' : ThinkingFSM α) :
    Prop where
  quiet : f'.Quiet
  rest : ∀ more, f'.rest t more = f.rest t more
  shorter : advanced = true → f'.buffer.length < f.buffer.length
  settled : advanced = false → t.leftmost f'.inThink f'.buffer = none

theorem round_cut (apart : t.Apart) {f' : ThinkingFSM α} (tag : Tag) (i : Nat)
    (found : t.leftmost f.inThink f.buffer = some (tag, i))
    (frame : f'.frame = (decide (tag = .opening), f.buffer.drop (i + (t.tag tag).length), false))
    (tally : f'.tally = f.tally.read t.maxThoughtChars ⟨f.inThink, f.buffer.take i, some tag⟩)
    (block : tag = .closing → f'.currentBlock = []) : Round t f true f' := by
  obtain ⟨inThink, buffer, explicit⟩ : f'.inThink = decide (tag = .opening) ∧
      f'.buffer = f.buffer.drop (i + (t.tag tag).length) ∧ f'.explicitThinkingActive = false := by
    simpa [ThinkingFSM.frame] using frame
  have ends := Thinking.leftmost_end found
  have holds := List.length_pos_iff.mpr (t.tag_ne tag)
  have quiet : f'.Quiet := ⟨explicit, fun outside => block (by cases tag <;> simp_all)⟩
  refine ⟨quiet, fun more => ?_, fun _ => ?_, by simp⟩
  · simp only [ThinkingFSM.rest]
    rw [scan_some (Thinking.leftmost_append apart found), inThink, buffer, tally,
      List.take_append_of_le_length (by omega), List.drop_append_of_le_length ends]
  · rw [buffer, List.length_drop]
    omega

theorem round_clear {advanced : Bool} {f' : ThinkingFSM α} {n : Nat}
    (absent : t.leftmost f.inThink f.buffer = none) (holds : f.buffer ≠ [])
    (closing : Overlap f.buffer t.closeTag n)
    (opening : f.inThink = false → Overlap f.buffer t.openTag n)
    (goesOn : advanced = true → n = 0)
    (frame : f'.frame = (f.inThink, f.buffer.drop (f.buffer.length - n), false))
    (tally : f'.tally =
      f.tally.absorb t.maxThoughtChars f.inThink (f.buffer.take (f.buffer.length - n)))
    (block : f.inThink = false → f'.currentBlock = []) : Round t f advanced f' := by
  obtain ⟨inThink, buffer, explicit⟩ : f'.inThink = f.inThink ∧
      f'.buffer = f.buffer.drop (f.buffer.length - n) ∧ f'.explicitThinkingActive = false := by
    simpa [ThinkingFSM.frame] using frame
  obtain ⟨noClosing, noOpening⟩ := Thinking.leftmost_none.mp absent
  refine ⟨⟨explicit, inThink ▸ block⟩, fun more => ?_, fun on => ?_, fun _ => ?_⟩
  · have split : f.buffer ++ more = f.buffer.take (f.buffer.length - n) ++
        (f.buffer.drop (f.buffer.length - n) ++ more) := by
      rw [← List.append_assoc, List.take_append_drop]
    have clear {target : List α} (absent : find f.buffer target = none)
        (overlap : Overlap f.buffer target n) :
        ∀ j < (f.buffer.take (f.buffer.length - n)).length,
          ¬ target <+: (f.buffer.take (f.buffer.length - n) ++
            (f.buffer.drop (f.buffer.length - n) ++ more)).drop j := by
      intro j before
      rw [List.length_take] at before
      rw [← split]
      exact clear_before_overlap absent overlap (by omega)
    simp only [ThinkingFSM.rest]
    rw [inThink, buffer, tally, split]
    exact (scan_clear (clear noClosing closing) fun outside =>
      clear (noOpening outside) (opening outside)).symm
  · rw [buffer, goesOn on]
    simpa using List.length_pos_iff.mpr holds
  · rw [inThink, buffer, Thinking.leftmost_none]
    exact ⟨find_drop noClosing _, fun outside => find_drop (noOpening outside) _⟩

omit [DecidableEq α] in
theorem block_endBlock : f.endBlock.currentBlock = [] := by
  unfold endBlock
  split
  · rename_i empty
    exact List.isEmpty_iff.mp empty
  · rfl

theorem round_inside (apart : t.Apart) (quiet : f.Quiet) (inside : f.inThink = true)
    (holds : f.buffer ≠ []) :
    Round t f (f.processInsideThink t).1 (f.processInsideThink t).2.2 := by
  unfold processInsideThink
  cases found : find f.buffer t.closeTag with
  | some closePos =>
    refine round_cut apart .closing closePos ?_ ?_ ?_ fun _ => block_endBlock
    · simp [Thinking.leftmost, inside, found]
    · rw [frame_endBlock, frame_recordThought]
      simp [frame, Thinking.tag, quiet.explicit]
    · rw [tally_endBlock, tally_recordThought, inside, Tally.read_closed]
      rfl
  | none =>
    have absent : t.leftmost f.inThink f.buffer = none := by simp [Thinking.leftmost, inside, found]
    have longest := findSuffixOverlap_longest f.buffer t.closeTag
    have opening (n : Nat) : f.inThink = false → Overlap f.buffer t.openTag n := by simp [inside]
    dsimp only
    split
    · refine round_clear absent holds longest (opening _) (by simp) ?_ ?_ (by simp [inside])
      · rw [frame_recordThought]
        simp [frame, quiet.explicit]
      · rw [tally_recordThought, inside]
        rfl
    · rename_i none
      have none : findSuffixOverlap f.buffer t.closeTag = 0 := by omega
      refine round_clear (n := 0) absent holds (none ▸ longest) (opening _) (fun _ => rfl) ?_ ?_
        (by simp [inside])
      · have kept := frame_recordThought (t := t) (f := f) f.buffer
        simp only [frame, Prod.mk.injEq] at kept
        simp [frame, kept, quiet.explicit]
      · have read := tally_recordThought (t := t) (f := f) f.buffer
        simp only [Nat.sub_zero, List.take_length, Tally.absorb, inside, ↓reduceIte]
        exact read

omit [DecidableEq α] in
theorem emitted (none : f.currentBlock = []) (text : List α) :
    (f.emitContent text).2.frame = f.frame ∧ (f.emitContent text).2.currentBlock = [] ∧
      (f.emitContent text).2.tally = f.tally.say text := by
  have tally := tally_emitContent none text
  exact ⟨frame_emitContent text, (congrArg Tally.block tally).trans none, tally⟩

theorem round_closed (apart : t.Apart) (quiet : f.Quiet) (outside : f.inThink = false) {i : Nat}
    (found : t.leftmost false f.buffer = some (.closing, i)) :
    Round t f true (processOutsideThink.closed t f i).2 := by
  obtain ⟨frame, block, tally⟩ := emitted (f := { f with
    unopenedCloseTags := f.unopenedCloseTags + 1
    buffer := f.buffer.drop (i + t.closeTag.length) }) (quiet.block outside) (f.buffer.take i)
  refine round_cut apart _ _ (outside ▸ found) (frame.trans ?_) (tally.trans ?_) fun _ => block
  · simp [ThinkingFSM.frame, Thinking.tag, outside, quiet.explicit]
  · simp [Tally.read, Tally.absorb, Tally.endPiece, Tally.say, ThinkingFSM.tally, outcome, outside]

theorem round_opened (apart : t.Apart) (quiet : f.Quiet) (outside : f.inThink = false) {i : Nat}
    (found : t.leftmost false f.buffer = some (.opening, i)) :
    Round t f true (processOutsideThink.opened t f i).2 := by
  have started := tally_triggerThinkStart (f := { f with inThink := true })
  have same := frame_triggerThinkStart (f := { f with inThink := true })
  simp only [ThinkingFSM.frame, Prod.mk.injEq] at same
  have none : ({ f with inThink := true }.triggerThinkStart).currentBlock = [] :=
    (congrArg Tally.block started).trans (quiet.block outside)
  unfold processOutsideThink.opened
  generalize { f with inThink := true }.triggerThinkStart = g at started same none
  obtain ⟨frame, block, tally⟩ := emitted (f := { g with
    buffer := f.buffer.drop (i + t.openTag.length) }) none (f.buffer.take i)
  refine round_cut apart _ _ (outside ▸ found) (frame.trans ?_) (tally.trans ?_) fun _ => block
  · simp [ThinkingFSM.frame, Thinking.tag, same, quiet.explicit]
  · simp only [ThinkingFSM.tally, outcome, Tally.mk.injEq, Outcome.mk.injEq] at started
    simp [Tally.read, Tally.absorb, Tally.endPiece, Tally.say, ThinkingFSM.tally, outcome, started,
      outside]

theorem round_outside (apart : t.Apart) (quiet : f.Quiet) (outside : f.inThink = false)
    (holds : f.buffer ≠ []) :
    Round t f (f.processOutsideThink t).1 (f.processOutsideThink t).2.2 := by
  unfold processOutsideThink
  cases opening : find f.buffer t.openTag with
  | some open_ =>
    cases closing : find f.buffer t.closeTag with
    | some close_ =>
      dsimp only
      split
      · exact round_closed apart quiet outside (by simp [Thinking.leftmost, *])
      · exact round_opened apart quiet outside (by simp [Thinking.leftmost, *])
    | none => exact round_opened apart quiet outside (by simp [Thinking.leftmost, *])
  | none =>
    cases closing : find f.buffer t.closeTag with
    | some close_ => exact round_closed apart quiet outside (by simp [Thinking.leftmost, *])
    | none =>
      have absent : t.leftmost f.inThink f.buffer = none := by simp [Thinking.leftmost, *]
      have longestOpen := findSuffixOverlap_longest f.buffer t.openTag
      have longestClose := findSuffixOverlap_longest f.buffer t.closeTag
      dsimp only
      generalize findSuffixOverlap f.buffer t.openTag = openOverlap at *
      generalize findSuffixOverlap f.buffer t.closeTag = closeOverlap at *
      have closed := overlap_mono longestClose (le_max_right openOverlap closeOverlap)
      have opened := overlap_mono longestOpen (le_max_left openOverlap closeOverlap)
      split
      · obtain ⟨frame, block, tally⟩ := emitted (f := { f with
          buffer := f.buffer.drop (f.buffer.length - max openOverlap closeOverlap) })
          (quiet.block outside) (f.buffer.take (f.buffer.length - max openOverlap closeOverlap))
        refine round_clear absent holds closed (fun _ => opened) (by simp) (frame.trans ?_)
          (tally.trans ?_) fun _ => block
        · simp [ThinkingFSM.frame, quiet.explicit]
        · rw [outside]
          rfl
      · rename_i none
        have none : max openOverlap closeOverlap = 0 := by omega
        obtain ⟨frame, block, tally⟩ := emitted (quiet.block outside) f.buffer
        rw [none] at closed opened
        refine round_clear (n := 0) absent holds closed (fun _ => opened) (fun _ => rfl) ?_ ?_
          fun _ => block
        · simp only [ThinkingFSM.frame, Prod.mk.injEq] at frame
          simp [ThinkingFSM.frame, frame, quiet.explicit]
        · simp only [Nat.sub_zero, List.take_length, Tally.absorb, outside, Bool.false_eq_true,
            ↓reduceIte]
          exact tally

/-- Between two calls the buffer holds no tag of the state. -/
structure Settled (t : Thinking α) (f : ThinkingFSM α) : Prop where
  quiet : f.Quiet
  clear : t.leftmost f.inThink f.buffer = none

theorem processBufferFor_scan (apart : t.Apart) (quiet : f.Quiet) {rounds : Nat}
    (enough : f.buffer.length ≤ rounds) :
    Settled t (f.processBufferFor t rounds).2 ∧
      ∀ more, (f.processBufferFor t rounds).2.rest t more = f.rest t more := by
  induction rounds generalizing f with
  | zero =>
    have empty : f.buffer = [] := List.eq_nil_of_length_eq_zero (by omega)
    exact ⟨⟨quiet, empty ▸ Thinking.leftmost_nil t f.inThink⟩, fun _ => rfl⟩
  | succ rounds ih =>
    unfold processBufferFor
    split
    · rename_i empty
      exact ⟨⟨quiet, List.isEmpty_iff.mp empty ▸ Thinking.leftmost_nil t f.inThink⟩, fun _ => rfl⟩
    · rename_i holds
      have holds : f.buffer ≠ [] := by simpa using holds
      have round : Round t f
          (if f.inThink then f.processInsideThink t else f.processOutsideThink t).1
          (if f.inThink then f.processInsideThink t else f.processOutsideThink t).2.2 := by
        cases inThink : f.inThink
        · exact round_outside apart quiet inThink holds
        · exact round_inside apart quiet inThink holds
      generalize (if f.inThink then f.processInsideThink t else f.processOutsideThink t) = ended
        at round
      obtain ⟨advanced, tokens, f'⟩ := ended
      cases advanced with
      | true =>
        have shorter : f'.buffer.length < f.buffer.length := round.shorter rfl
        obtain ⟨settled, rest⟩ := ih (f := f') round.quiet (by omega)
        exact ⟨settled, fun more => (rest more).trans (round.rest more)⟩
      | false => exact ⟨⟨round.quiet, round.settled rfl⟩, round.rest⟩

omit [DecidableEq α] in
theorem endExplicit_quiet (quiet : f.Quiet) : f.endExplicit = f := by
  simp [endExplicit, quiet.explicit]

/-- A chunk is read as if it stood before the text to come. -/
theorem feed_scan (apart : t.Apart) (settled : Settled t f) (chunk : List α) :
    Settled t (f.feed t chunk false).2 ∧
      ∀ more, (f.feed t chunk false).2.rest t more = f.rest t (chunk ++ more) := by
  unfold feed
  split
  · rename_i empty
    simp [List.isEmpty_iff.mp empty, settled]
  · simp only [endExplicit_quiet settled.quiet, Bool.false_eq_true, ↓reduceIte]
    obtain ⟨settled', rest⟩ := processBufferFor_scan apart
      (f := { f with buffer := f.buffer ++ chunk }) ⟨settled.quiet.explicit, settled.quiet.block⟩
      le_rfl
    refine ⟨settled', fun more => (rest more).trans ?_⟩
    simp only [ThinkingFSM.rest, List.append_assoc]
    rfl

omit [DecidableEq α] in
theorem tally_end : (f.endBlock.finalizeFooter).tally = f.tally.endBlock := by
  rw [finalizeFooter, tally_triggerThinkEnd block_endBlock, tally_endBlock]

theorem flush_scan (settled : Settled t f) :
    (f.flush t).2.outcome = (f.rest t []).toOutcome := by
  rw [ThinkingFSM.rest, List.append_nil, scan_none settled.clear]
  unfold flush
  rw [endExplicit_quiet settled.quiet]
  refine (congrArg Tally.toOutcome tally_end).trans ?_
  cases inThink : f.inThink with
  | true =>
    rw [Tally.read_unclosed]
    by_cases empty : f.buffer = []
    · simp only [empty, List.isEmpty_nil, ↓reduceIte, Tally.hear_nil]
      rfl
    · have heard := tally_recordThought (t := t) (f := { f with
        inThink := true
        unclosedStream := true }) f.buffer
      simp only [List.isEmpty_iff, empty, ↓reduceIte]
      exact congrArg (fun s => s.endBlock.toOutcome) heard
  | false =>
    have none := settled.quiet.block inThink
    have said := tally_emitContent none f.buffer
    by_cases empty : f.buffer = []
    · simp [empty, Tally.read, Tally.absorb, Tally.endPiece, Tally.say, Tally.endBlock, tally, none]
    · have ended : (f.tally.say f.buffer).endBlock = f.tally.say f.buffer := by
        simp [Tally.endBlock, Tally.say, tally, none]
      simp only [List.isEmpty_iff, empty, Bool.false_eq_true, ↓reduceIte]
      exact congrArg Tally.toOutcome ((congrArg Tally.endBlock said).trans ended)

def feedAll (t : Thinking α) (f : ThinkingFSM α) (chunks : List (List α)) : ThinkingFSM α :=
  chunks.foldl (fun f chunk => (f.feed t chunk false).2) f

theorem feedAll_scan (apart : t.Apart) (settled : Settled t f) (chunks : List (List α)) :
    Settled t (f.feedAll t chunks) ∧
      ∀ more, (f.feedAll t chunks).rest t more = f.rest t (chunks.flatten ++ more) := by
  induction chunks generalizing f with
  | nil => exact ⟨settled, fun _ => rfl⟩
  | cons chunk chunks ih =>
    obtain ⟨settled, first⟩ := feed_scan apart settled chunk
    obtain ⟨settled, others⟩ := ih settled
    refine ⟨settled, fun more => ?_⟩
    rw [List.flatten_cons, List.append_assoc, ← first]
    exact others more

theorem init_settled (t : Thinking α) (initialState : String) :
    Settled t (init initialState) :=
  ⟨⟨rfl, fun _ => rfl⟩, Thinking.leftmost_nil t _⟩

theorem feed_chunks_outcome (t : Thinking α) (apart : t.Apart) (initialState : String)
    (chunks : List (List α)) :
    (((init initialState).feedAll t chunks).flush t).2.outcome =
      t.outcome (t.reference (initialState = "thinking") chunks.flatten) := by
  obtain ⟨settled, rest⟩ := feedAll_scan apart (init_settled t initialState) chunks
  rw [flush_scan settled, rest, List.append_nil, ← scan_outcome]
  rfl

end ThinkingFSM

variable [DecidableEq α]

/-- Streaming equals batch, and both the reference scan. -/
theorem streaming_equals_batch (t : Thinking α) (apart : t.Apart) (initialState : String)
    (chunks : List (List α)) :
    let whole := t.outcome (t.reference (initialState = "thinking") chunks.flatten)
    (((ThinkingFSM.init initialState).feedAll t chunks).flush t).2.outcome = whole ∧
      ((((ThinkingFSM.init initialState).feed t chunks.flatten false).2).flush t).2.outcome =
        whole := by
  refine ⟨ThinkingFSM.feed_chunks_outcome t apart initialState chunks, ?_⟩
  have batch := ThinkingFSM.feed_chunks_outcome t apart initialState [chunks.flatten]
  rwa [List.flatten_cons, List.flatten_nil, List.append_nil] at batch

def defaultThinking (maxThoughtChars : Int) : Thinking Char where
  openTag := ['<', 't', 'h', 'i', 'n', 'k', '>']
  closeTag := ['<', '/', 't', 'h', 'i', 'n', 'k', '>']
  openTag_ne := by simp
  closeTag_ne := by simp
  maxThoughtChars := maxThoughtChars

theorem streaming_equals_batch_default :
    let t := defaultThinking 1
    let chunks := [['a', '<', 't', 'h'], ['i', 'n', 'k', '>', 'b', 'c', '<']]
    let whole := t.outcome (t.reference false chunks.flatten)
    (((ThinkingFSM.init "emitting").feedAll t chunks).flush t).2.outcome = whole ∧
      ((((ThinkingFSM.init "emitting").feed t chunks.flatten false).2).flush t).2.outcome = whole :=
  streaming_equals_batch (defaultThinking 1) ⟨by decide, by decide⟩ "emitting" _

end DevopsCli.Ai
