import DevopsCli.Lib.Text

/- ThinkingFSM of ai/thinking_stream.py. A text is a list of characters of any type. The
   callbacks are kept as the list of their calls. -/
namespace DevopsCli.Ai
open Text

variable {α : Type}

/-- The settings that the constructor accepts: both tags hold characters. -/
structure Thinking (α : Type) where
  openTag : List α
  closeTag : List α
  openTag_ne : openTag ≠ []
  closeTag_ne : closeTag ≠ []
  maxThoughtChars : Int

inductive Callback (α : Type) where
  | thinkStart
  | thinkChunk (text : List α)
  | thinkEnd
  | contentChunk (text : List α)
  deriving DecidableEq, Repr

structure ThinkingFSM (α : Type) where
  inThink : Bool := false
  thinkStarted : Bool := false
  thinkEnded : Bool := false
  unclosedStream : Bool := false
  unopenedCloseTags : Nat := 0
  discardedThoughtChars : Nat := 0
  explicitThinkingActive : Bool := false
  buffer : List α := []
  currentBlock : List α := []
  thinkingBlocks : List (List α) := []
  cleanContent : List α := []
  thinkingContent : List α := []
  callbacks : List (Callback α) := []
  deriving DecidableEq, Repr

abbrev Emitted (α : Type) := List (List α) × ThinkingFSM α

def findSuffixOverlapFrom [DecidableEq α] (text target : List α) : Nat → Nat
  | 0 => 0
  | length + 1 =>
    if text.drop (text.length - (length + 1)) <+: target then length + 1
    else findSuffixOverlapFrom text target length

/-- The longest end of the text, shorter than the target, that the target starts with. -/
def findSuffixOverlap [DecidableEq α] (text target : List α) : Nat :=
  findSuffixOverlapFrom text target (min text.length (target.length - 1))

theorem findSuffixOverlap_longest [DecidableEq α] (text target : List α) :
    Overlap text target (findSuffixOverlap text target) := by
  have from_ (n m : Nat) (longer : findSuffixOverlapFrom text target n < m) (bound : m ≤ n) :
      ¬ text.drop (text.length - m) <+: target := by
    induction n with
    | zero => omega
    | succ n ih =>
      unfold findSuffixOverlapFrom at longer
      split at longer
      · omega
      · rename_i none
        rcases Nat.lt_or_ge n m with last | earlier
        · obtain rfl : m = n + 1 := by omega
          exact none
        · exact ih longer earlier
  exact fun m longer inText inTarget => from_ _ m longer (by omega)

namespace ThinkingFSM

def init (initialState : String) : ThinkingFSM α :=
  let thinking := decide (initialState = "thinking")
  { inThink := thinking
    thinkStarted := thinking
    callbacks := if thinking then [.thinkStart] else [] }

def call (f : ThinkingFSM α) (callback : Callback α) : ThinkingFSM α :=
  { f with callbacks := f.callbacks ++ [callback] }

def endBlock (f : ThinkingFSM α) : ThinkingFSM α :=
  if f.currentBlock.isEmpty then f
  else { f with thinkingBlocks := f.thinkingBlocks ++ [f.currentBlock], currentBlock := [] }

def triggerThinkStart (f : ThinkingFSM α) : ThinkingFSM α :=
  if f.thinkStarted then f
  else { f with thinkStarted := true, thinkEnded := false }.call .thinkStart

def triggerThinkEnd (f : ThinkingFSM α) : ThinkingFSM α :=
  if f.thinkStarted && !f.thinkEnded then
    ({ f with thinkEnded := true, thinkStarted := false }.endBlock).call .thinkEnd
  else f

def finalizeFooter (f : ThinkingFSM α) : ThinkingFSM α := f.triggerThinkEnd

section
variable (t : Thinking α)

def recordThought (f : ThinkingFSM α) (chunk : List α) : ThinkingFSM α :=
  if chunk.isEmpty then f
  else
    let currentLen : Int := f.thinkingContent.length
    if currentLen ≥ t.maxThoughtChars then
      { f with discardedThoughtChars := f.discardedThoughtChars + chunk.length }
    else
      let available := (t.maxThoughtChars - currentLen).toNat
      if chunk.length ≤ available then
        { f with
          thinkingContent := f.thinkingContent ++ chunk
          currentBlock := f.currentBlock ++ chunk }.call (.thinkChunk chunk)
      else
        let kept := chunk.take available
        { f with
          thinkingContent := f.thinkingContent ++ kept
          currentBlock := f.currentBlock ++ kept
          discardedThoughtChars := f.discardedThoughtChars + (chunk.length - available) }.call
            (.thinkChunk kept)

def emitContent (f : ThinkingFSM α) (text : List α) : Emitted α :=
  if text.isEmpty then ([], f)
  else
    let f := f.finalizeFooter
    ([text], { f with cleanContent := f.cleanContent ++ text }.call (.contentChunk text))

def handleExplicitThinking (f : ThinkingFSM α) (chunk : List α) : Emitted α :=
  ([], ({ f with explicitThinkingActive := true }.triggerThinkStart).recordThought t chunk)

variable [DecidableEq α]

def processInsideThink (f : ThinkingFSM α) : Bool × Emitted α :=
  match find f.buffer t.closeTag with
  | some closePos =>
    let thoughtChunk := f.buffer.take closePos
    let f := { f with inThink := false, buffer := f.buffer.drop (closePos + t.closeTag.length) }
    (true, [], (f.recordThought t thoughtChunk).endBlock)
  | none =>
    let overlap := findSuffixOverlap f.buffer t.closeTag
    let safe := f.buffer.length - overlap
    if 0 < overlap then
      (false, [], { f with buffer := f.buffer.drop safe }.recordThought t (f.buffer.take safe))
    else (true, [], { f.recordThought t f.buffer with buffer := [] })

def processOutsideThink (f : ThinkingFSM α) : Bool × Emitted α :=
  let openPos := find f.buffer t.openTag
  let closePos := find f.buffer t.closeTag
  match openPos, closePos with
  | none, some close_ => (true, closed f close_)
  | some open_, some close_ => (true, if close_ < open_ then closed f close_ else opened f open_)
  | some open_, none => (true, opened f open_)
  | none, none =>
    let overlap :=
      max (findSuffixOverlap f.buffer t.openTag) (findSuffixOverlap f.buffer t.closeTag)
    let safe := f.buffer.length - overlap
    if 0 < overlap then
      (false, { f with buffer := f.buffer.drop safe }.emitContent (f.buffer.take safe))
    else
      let (tokens, f) := f.emitContent f.buffer
      (true, tokens, { f with buffer := [] })
where
  /-- A close tag that nothing opened. -/
  closed (f : ThinkingFSM α) (closePos : Nat) : Emitted α :=
    { f with
      unopenedCloseTags := f.unopenedCloseTags + 1
      buffer := f.buffer.drop (closePos + t.closeTag.length) }.emitContent (f.buffer.take closePos)
  opened (f : ThinkingFSM α) (openPos : Nat) : Emitted α :=
    let started := { f with inThink := true }.triggerThinkStart
    { started with buffer := f.buffer.drop (openPos + t.openTag.length) }.emitContent
      (f.buffer.take openPos)

def processBufferFor (f : ThinkingFSM α) : Nat → Emitted α
  | 0 => ([], f)
  | rounds + 1 =>
    if f.buffer.isEmpty then ([], f)
    else
      let (advanced, tokens, f) :=
        if f.inThink then f.processInsideThink t else f.processOutsideThink t
      if advanced then
        let (more, f) := f.processBufferFor rounds
        (tokens ++ more, f)
      else (tokens, f)

/-- Each round that goes on shortens the buffer. -/
def processBuffer (f : ThinkingFSM α) : Emitted α := f.processBufferFor t f.buffer.length

def endExplicit (f : ThinkingFSM α) : ThinkingFSM α :=
  if f.explicitThinkingActive then
    ({ f with explicitThinkingActive := false }.endBlock).finalizeFooter
  else f

def feed (f : ThinkingFSM α) (chunk : List α) (isThinking : Bool) : Emitted α :=
  if chunk.isEmpty then ([], f)
  else if isThinking then f.handleExplicitThinking t chunk
  else
    let f := f.endExplicit
    { f with buffer := f.buffer ++ chunk }.processBuffer t

def flush (f : ThinkingFSM α) : Emitted α :=
  let f := f.endExplicit
  let (emitted, f) :=
    if f.inThink then
      let f := { f with unclosedStream := true }
      if f.buffer.isEmpty then ([], f)
      else ([], { f.recordThought t f.buffer with buffer := [] })
    else if f.buffer.isEmpty then ([], f)
    else
      let (emitted, f) := f.emitContent f.buffer
      (emitted, { f with buffer := [] })
  (emitted, f.endBlock.finalizeFooter)

end
end ThinkingFSM
end DevopsCli.Ai
