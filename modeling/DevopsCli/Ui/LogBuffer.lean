import DevopsCli.Lib.Newest
import DevopsCli.Lib.PyStr

/- The bounded log buffer of a terminal view, ui/log_buffer.py. Each call holds the lock, so the
   calls of all threads are one sequence. -/
namespace DevopsCli.Ui.LogBuffer
open PyStr Newest

structure LogLine where
  sequence : Nat
  text : Str
  deriving DecidableEq, Repr

structure VirtualLogBuffer where
  maxLines : Nat
  viewport : Nat
  lines : List LogLine := []
  totalAppended : Nat := 0
  offset : Nat := 0
  following : Bool := true
  deriving DecidableEq, Repr

def atLeastOne (n : Int) : Nat := (max 1 n).toNat

def init (maxLines viewport : Int) : VirtualLogBuffer where
  maxLines := atLeastOne maxLines
  viewport := atLeastOne viewport

section Calls
variable (b : VirtualLogBuffer)

def viewportLines : List LogLine := (b.lines.drop b.offset).take b.viewport

def maximum : Nat := b.lines.length - b.viewport

def append (text : Str) : VirtualLogBuffer :=
  let line : LogLine := ⟨b.totalAppended + 1, text⟩
  let lines := push b.maxLines b.lines line
  { b with
    totalAppended := b.totalAppended + 1
    lines
    offset := if b.following then lines.length - b.viewport else min b.offset (lines.length - 1) }

def extend (texts : List Str) : VirtualLogBuffer := texts.foldl append b

def clear : VirtualLogBuffer := { b with lines := [], offset := 0, following := true }

def scroll (delta : Int) : VirtualLogBuffer :=
  let offset := (max 0 (min (b.offset + delta) (maximum b))).toNat
  { b with offset, following := decide (maximum b ≤ offset) }

def scrollToEnd : VirtualLogBuffer := { b with offset := maximum b, following := true }

def resizeViewport (viewport : Int) : VirtualLogBuffer :=
  let resized := { b with viewport := atLeastOne viewport }
  { resized with
    offset := if b.following then maximum resized else min b.offset (maximum resized) }

end Calls

inductive Call where
  | append (text : Str)
  | extend (texts : List Str)
  | clear
  | scroll (delta : Int)
  | scrollToEnd
  | resizeViewport (viewport : Int)

def call (b : VirtualLogBuffer) : Call → VirtualLogBuffer
  | .append text => append b text
  | .extend texts => extend b texts
  | .clear => clear b
  | .scroll delta => scroll b delta
  | .scrollToEnd => scrollToEnd b
  | .resizeViewport viewport => resizeViewport b viewport

def Call.texts : Call → List Str
  | .append text => [text]
  | .extend texts => texts
  | _ => []

def after (b : VirtualLogBuffer) (calls : List Call) : VirtualLogBuffer := calls.foldl call b

section Laws

/-- The view shows as many lines as fit, in the order of the stream with none left out, and the
    newest ones while it follows. -/
structure Shows (b : VirtualLogBuffer) : Prop where
  count : (viewportLines b).length = min b.viewport b.lines.length
  consecutive : ∃ first, (viewportLines b).map LogLine.sequence =
    List.range' first (viewportLines b).length
  newest : b.following = true → viewportLines b <:+ b.lines

/-- A view that does not follow keeps its first line while that line is retained, and moves to the
    oldest retained line when it is not. -/
def StandsStill (b t : VirtualLogBuffer) : Prop :=
  b.following = false → ∀ line, (viewportLines b).head? = some line →
    (viewportLines t).head? = if line ∈ t.lines then some line else t.lines.head?

structure ViewLaw (start : VirtualLogBuffer) (calls : List Call) : Prop where
  shows_ : ∀ done_ rest, calls = done_ ++ rest → Shows (after start done_)
  still : ∀ done_ c rest, calls = done_ ++ c :: rest → c.texts ≠ [] →
    StandsStill (after start done_) (after start (done_ ++ [c]))

/-- An append evicts nothing under a view that stands away from both ends. -/
def HasRoom (b : VirtualLogBuffer) (c : Call) : Prop :=
  b.following = true ∨ b.offset = 0 ∨ b.lines.length + c.texts.length ≤ b.maxLines

end Laws

structure Kept (b : VirtualLogBuffer) : Prop where
  limit : 0 < b.maxLines
  shown : 0 < b.viewport
  bounded : b.lines.length ≤ b.maxLines
  numbered : ∃ first, first + b.lines.length = b.totalAppended + 1 ∧
    b.lines.map LogLine.sequence = List.range' first b.lines.length
  within : b.offset ≤ maximum b
  atEnd : b.following = true → b.offset = maximum b

theorem atLeastOne_pos (n : Int) : 0 < atLeastOne n := by
  unfold atLeastOne
  omega

theorem init_kept (maxLines viewport : Int) : Kept (init maxLines viewport) where
  limit := atLeastOne_pos maxLines
  shown := atLeastOne_pos viewport
  bounded := Nat.zero_le _
  numbered := ⟨1, rfl, rfl⟩
  within := Nat.zero_le _
  atEnd := fun _ => (Nat.zero_sub _).symm

section Append
variable {b : VirtualLogBuffer}

def numbered (first : Nat) : List Str → List LogLine
  | [] => []
  | text :: texts => ⟨first, text⟩ :: numbered (first + 1) texts

theorem numbered_sequences (first : Nat) (texts : List Str) :
    (numbered first texts).map LogLine.sequence = List.range' first texts.length := by
  induction texts generalizing first with
  | nil => rfl
  | cons text texts ih =>
    simp only [numbered, List.map_cons, List.length_cons, List.range'_succ, ih]

theorem numbered_length (first : Nat) (texts : List Str) :
    (numbered first texts).length = texts.length := by
  induction texts generalizing first with
  | nil => rfl
  | cons text texts ih => simp only [numbered, List.length_cons, ih]

theorem length_push (limit : 0 < b.maxLines) (bounded : b.lines.length ≤ b.maxLines)
    (line : LogLine) :
    b.lines.length ≤ (push b.maxLines b.lines line).length ∧
      0 < (push b.maxLines b.lines line).length ∧
      (push b.maxLines b.lines line).length ≤ b.maxLines := by
  unfold push
  rw [length_rtake, List.length_append, List.length_singleton]
  omega

theorem append_kept (kept : Kept b) (text : Str) : Kept (append b text) := by
  obtain ⟨first, counted, sequences⟩ := kept.numbered
  have lengths := length_push kept.limit kept.bounded ⟨b.totalAppended + 1, text⟩
  have within := kept.within
  have shown := kept.shown
  refine ⟨kept.limit, shown, lengths.2.2, ?numbered, ?within, ?atEnd⟩
  case numbered =>
    refine ⟨first + (b.lines.length + 1 - b.maxLines), ?_, ?_⟩
    · simp only [append, push, length_rtake, List.length_append, List.length_singleton]
      have := kept.bounded
      omega
    · simp only [append, push, List.rtake, List.map_drop, List.map_append, List.map_singleton,
        List.length_drop, List.length_append, List.length_singleton, sequences]
      rw [show b.totalAppended + 1 = first + 1 * b.lines.length by omega, ← List.range'_concat,
        List.drop_range', Nat.mul_one]
  case within =>
    unfold maximum at within ⊢
    simp only [append]
    split <;> omega
  case atEnd =>
    intro follows
    simp only [append] at follows
    simp only [append, follows, if_true, maximum]

theorem extend_kept (kept : Kept b) (texts : List Str) : Kept (extend b texts) := by
  induction texts generalizing b with
  | nil => exact kept
  | cons text texts ih => exact ih (append_kept kept text)

theorem extend_lines (kept : Kept b) (texts : List Str) :
    (extend b texts).lines =
      (b.lines ++ numbered (b.totalAppended + 1) texts).rtake b.maxLines := by
  rw [← foldl_push _ _ _ kept.bounded]
  induction texts generalizing b with
  | nil => rfl
  | cons text texts ih => exact ih (append_kept kept text)

/-- A view that does not follow keeps its index, since the lines never get fewer. -/
theorem extend_offset (kept : Kept b) (away : b.following = false) (texts : List Str) :
    (extend b texts).offset = b.offset := by
  induction texts generalizing b with
  | nil => rfl
  | cons text texts ih =>
    have here : (append b text).offset = b.offset := by
      have lengths := length_push kept.limit kept.bounded ⟨b.totalAppended + 1, text⟩
      have within := kept.within
      have shown := kept.shown
      unfold maximum at within
      simp only [append, away, Bool.false_eq_true, if_false]
      omega
    exact (ih (append_kept kept text) away).trans here

end Append

theorem call_kept {b : VirtualLogBuffer} (kept : Kept b) (c : Call) : Kept (call b c) := by
  cases c with
  | append text => exact append_kept kept text
  | extend texts => exact extend_kept kept texts
  | clear =>
    refine ⟨kept.limit, kept.shown, Nat.zero_le _, ⟨b.totalAppended + 1, rfl, rfl⟩, Nat.zero_le _, ?_⟩
    exact fun _ => (Nat.zero_sub _).symm
  | scroll delta =>
    refine ⟨kept.limit, kept.shown, kept.bounded, kept.numbered, ?within, ?atEnd⟩
    case within =>
      simp only [call, scroll, maximum]
      omega
    case atEnd =>
      intro follows
      have reaches : maximum b ≤ (scroll b delta).offset := of_decide_eq_true follows
      simp only [call, scroll, maximum] at reaches ⊢
      omega
  | scrollToEnd =>
    exact ⟨kept.limit, kept.shown, kept.bounded, kept.numbered, Nat.le_refl _, fun _ => rfl⟩
  | resizeViewport viewport =>
    refine ⟨kept.limit, atLeastOne_pos viewport, kept.bounded, kept.numbered, ?within, ?atEnd⟩
    case within =>
      simp only [call, resizeViewport, maximum]
      split <;> omega
    case atEnd =>
      intro follows
      simp only [call, resizeViewport] at follows
      simp only [call, resizeViewport, follows, if_true, maximum]

theorem after_kept {b : VirtualLogBuffer} (kept : Kept b) (calls : List Call) :
    Kept (after b calls) := by
  induction calls generalizing b with
  | nil => exact kept
  | cons c calls ih => exact ih (call_kept kept c)

theorem after_snoc (b : VirtualLogBuffer) (calls : List Call) (c : Call) :
    after b (calls ++ [c]) = call (after b calls) c := by
  unfold after
  rw [List.foldl_append, List.foldl_cons, List.foldl_nil]

theorem kept_shows {b : VirtualLogBuffer} (kept : Kept b) : Shows b := by
  obtain ⟨first, _, sequences⟩ := kept.numbered
  have within := kept.within
  unfold maximum at within
  refine ⟨?count, ?consecutive, ?newest⟩
  case count =>
    unfold viewportLines
    rw [List.length_take, List.length_drop]
    omega
  case consecutive =>
    refine ⟨first + b.offset, ?_⟩
    unfold viewportLines
    rw [List.map_take, List.map_drop, sequences, List.drop_range', Nat.mul_one, List.length_take,
      List.length_drop]
    rcases Nat.le_total (b.lines.length - b.offset) b.viewport with all | part
    · rw [List.take_range'_of_length_le all, Nat.min_eq_right all]
    · rw [List.take_range'_of_length_ge part, Nat.min_eq_left part]
  case newest =>
    intro follows
    have atEnd := kept.atEnd follows
    unfold maximum at atEnd
    unfold viewportLines
    rw [List.take_of_length_le]
    · exact List.drop_suffix _ _
    · rw [List.length_drop]
      omega

section Still
variable {b : VirtualLogBuffer}

theorem head_view (shown : 0 < b.viewport) : (viewportLines b).head? = b.lines[b.offset]? := by
  unfold viewportLines
  rw [List.head?_take, if_neg (by omega), List.head?_drop]

theorem nodup_numbered (kept : Kept b) (texts : List Str) :
    (b.lines ++ numbered (b.totalAppended + 1) texts).Nodup := by
  obtain ⟨first, counted, sequences⟩ := kept.numbered
  apply List.Nodup.of_map LogLine.sequence
  rw [List.map_append, sequences, numbered_sequences, ← counted, List.range'_append_1]
  exact List.nodup_range'

theorem call_texts {c : Call} (appends : c.texts ≠ []) : call b c = extend b c.texts := by
  cases c with
  | append text => rfl
  | extend texts => rfl
  | clear => exact absurd rfl appends
  | scroll delta => exact absurd rfl appends
  | scrollToEnd => exact absurd rfl appends
  | resizeViewport viewport => exact absurd rfl appends

theorem extend_still_iff (kept : Kept b) (texts : List Str) :
    StandsStill b (extend b texts) ↔ b.following = true ∨ b.offset = 0 ∨
      b.lines.length + texts.length ≤ b.maxLines := by
  cases away : b.following with
  | true => exact iff_of_true (fun on => absurd on (by simp [away])) (.inl rfl)
  | false =>
    have within := kept.within
    have shown := kept.shown
    have bounded := kept.bounded
    have nodup := nodup_numbered kept texts
    have lines := extend_lines kept texts
    unfold maximum at within
    have head := head_view (extend_kept kept texts).shown
    rw [extend_offset kept away, lines] at head
    rw [StandsStill, head_view shown, head, lines, List.rtake, List.length_append, numbered_length]
    simp only [away, true_implies, Bool.false_eq_true, false_or]
    rcases Nat.lt_or_ge b.offset b.lines.length with inside | none_
    · have here : (b.lines ++ numbered (b.totalAppended + 1) texts)[b.offset]? =
          b.lines[b.offset]? := List.getElem?_append_left inside
      rw [List.getElem?_eq_getElem inside] at here ⊢
      have stands := place_stands_iff (k := b.lines.length + texts.length - b.maxLines) nodup here
        (by rw [List.length_append, numbered_length]; omega)
      simp only [Option.some.injEq, forall_eq']
      rw [stands]
      omega
    · rw [List.getElem?_eq_none none_]
      simp only [reduceCtorEq, false_implies, implies_true, true_iff]
      omega

end Still

theorem view_stands_still_iff (maxLines viewport : Int) (calls : List Call) :
    ViewLaw (init maxLines viewport) calls ↔
      ∀ done_ c rest, calls = done_ ++ c :: rest → HasRoom (after (init maxLines viewport) done_) c := by
  have kept (done_ : List Call) : Kept (after (init maxLines viewport) done_) :=
    after_kept (init_kept maxLines viewport) done_
  constructor
  · intro law done_ c rest split
    by_cases appends : c.texts = []
    · right
      right
      rw [appends, List.length_nil, Nat.add_zero]
      exact (kept done_).bounded
    · have still := law.still done_ c rest split appends
      rw [after_snoc, call_texts appends] at still
      exact (extend_still_iff (kept done_) c.texts).mp still
  · intro room
    refine ⟨fun done_ _ _ => kept_shows (kept done_), fun done_ c rest split appends => ?_⟩
    rw [after_snoc, call_texts appends]
    exact (extend_still_iff (kept done_) c.texts).mpr (room done_ c rest split)

def detachedCalls : List Call :=
  [.extend ["a".toList, "b".toList, "c".toList], .scroll (-1), .append "d".toList]

/-- With room for three lines the detached view of b shows c once d has come, though b is kept. -/
theorem detached_view_moves : ¬ViewLaw (init 3 1) detachedCalls := by
  intro law
  have still := law.still (detachedCalls.take 2) (.append "d".toList) [] rfl (by decide)
  have moved := still rfl ⟨2, "b".toList⟩ (by decide)
  revert moved
  decide

end DevopsCli.Ui.LogBuffer
