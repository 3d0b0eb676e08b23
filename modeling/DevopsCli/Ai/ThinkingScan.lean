import DevopsCli.Ai.ThinkingStream

/- What the thought extraction is for: a scan of the whole text, cut at the leftmost tag of
   the current state. The machine gives its result for every way to split the text. -/
namespace DevopsCli.Ai
open Text

variable {α : Type} [DecidableEq α]

inductive Tag where
  | opening
  | closing
  deriving DecidableEq, Repr

structure Piece (α : Type) where
  inside : Bool
  text : List α
  cut : Option Tag
  deriving DecidableEq, Repr

structure Outcome (α : Type) where
  cleanContent : List α
  thinkingContent : List α
  thinkingBlocks : List (List α)
  unopenedCloseTags : Nat
  discardedThoughtChars : Nat
  unclosedStream : Bool
  deriving DecidableEq, Repr

namespace Thinking
variable (t : Thinking α)

def tag : Tag → List α
  | .opening => t.openTag
  | .closing => t.closeTag

def leftmost (inside : Bool) (text : List α) : Option (Tag × Nat) :=
  match if inside then none else find text t.openTag, find text t.closeTag with
  | none, none => none
  | none, some close_ => some (.closing, close_)
  | some open_, none => some (.opening, open_)
  | some open_, some close_ =>
    if close_ < open_ then some (.closing, close_) else some (.opening, open_)

/-- Neither tag occurs inside the other. -/
structure Apart : Prop where
  opening : ¬ t.openTag <:+: t.closeTag
  closing : ¬ t.closeTag <:+: t.openTag

variable {t} {inside : Bool} {text more : List α} {tag : Tag} {i : Nat}

omit [DecidableEq α] in
theorem tag_ne (t : Thinking α) (tag : Tag) : t.tag tag ≠ [] := by
  cases tag
  · exact t.openTag_ne
  · exact t.closeTag_ne

theorem leftmost_found (found : t.leftmost inside text = some (tag, i)) :
    find text (t.tag tag) = some i := by
  cases inside <;> cases opening : find text t.openTag <;> cases closing : find text t.closeTag <;>
    simp only [leftmost, opening, closing, Bool.false_eq_true, ↓reduceIte, reduceCtorEq,
      Option.some.injEq, Prod.mk.injEq] at found
  · exact found.1 ▸ found.2 ▸ closing
  · exact found.1 ▸ found.2 ▸ opening
  · split at found <;> obtain ⟨rfl, rfl⟩ := Prod.mk.inj (Option.some.inj found)
    · exact closing
    · exact opening
  · exact found.1 ▸ found.2 ▸ closing
  · exact found.1 ▸ found.2 ▸ closing

theorem leftmost_none : t.leftmost inside text = none ↔
    find text t.closeTag = none ∧ (inside = false → find text t.openTag = none) := by
  cases inside <;> cases opening : find text t.openTag <;> cases closing : find text t.closeTag <;>
    simp [leftmost, opening, closing]
  split <;> simp

theorem leftmost_nil (t : Thinking α) (inside : Bool) : t.leftmost inside [] = none := by
  have absent (target : List α) (holds : target ≠ []) : find [] target = none := by
    unfold find
    simp [holds]
  exact leftmost_none.mpr ⟨absent _ t.closeTag_ne, fun _ => absent _ t.openTag_ne⟩

theorem leftmost_end (found : t.leftmost inside text = some (tag, i)) :
    i + (t.tag tag).length ≤ text.length :=
  end_le (find_eq_some.mp (leftmost_found found)).2.1 (find_eq_some.mp (leftmost_found found)).1

/-- More text does not change the leftmost tag: a tag that the end of the text cuts off begins
    after every tag that is whole. -/
theorem leftmost_append (apart : t.Apart) (found : t.leftmost inside text = some (tag, i)) :
    t.leftmost inside (text ++ more) = some (tag, i) := by
  have stands := find_append_some more (leftmost_found found)
  cases inside with
  | true =>
    cases closing : find text t.closeTag <;> simp [leftmost, closing] at found
    obtain ⟨rfl, rfl⟩ := found
    simp only [tag] at stands
    simp [leftmost, stands]
  | false =>
    cases opening : find text t.openTag with
    | none =>
      cases closing : find text t.closeTag <;> simp [leftmost, opening, closing] at found
      obtain ⟨rfl, rfl⟩ := found
      simp only [Thinking.tag] at stands
      cases later : find (text ++ more) t.openTag with
      | none => simp [leftmost, stands, later]
      | some k => simp [leftmost, stands, later, find_late closing opening apart.closing later]
    | some open_ =>
      cases closing : find text t.closeTag with
      | none =>
        simp only [leftmost, opening, closing, Bool.false_eq_true, ↓reduceIte, Option.some.injEq,
          Prod.mk.injEq] at found
        obtain ⟨rfl, rfl⟩ := found
        simp only [Thinking.tag] at stands
        cases later : find (text ++ more) t.closeTag with
        | none => simp [leftmost, stands, later]
        | some k =>
          have after := find_late opening closing apart.opening later
          simp [leftmost, stands, later, not_lt.mpr after.le]
      | some close_ =>
        rw [← found]
        simp only [leftmost, opening, closing, find_append_some more opening, find_append_some more closing]

theorem leftmost_clear
    (closing : ∀ j < text.length, ¬ t.closeTag <+: (text ++ more).drop j)
    (opening : inside = false → ∀ j < text.length, ¬ t.openTag <+: (text ++ more).drop j) :
    t.leftmost inside (text ++ more) =
      (t.leftmost inside more).map fun found => (found.1, found.2 + text.length) := by
  cases inside with
  | true =>
    simp only [leftmost, ↓reduceIte, find_append_clear closing]
    cases find more t.closeTag <;> rfl
  | false =>
    simp only [leftmost, Bool.false_eq_true, ↓reduceIte, find_append_clear closing,
      find_append_clear (opening rfl)]
    cases find more t.openTag <;> cases find more t.closeTag <;> try rfl
    simp only [Option.map_some, Nat.add_lt_add_iff_right]
    split <;> rfl

def reference (t : Thinking α) (inside : Bool) (text : List α) : List (Piece α) :=
  match _found : t.leftmost inside text with
  | none => [⟨inside, text, none⟩]
  | some (tag, i) =>
    ⟨inside, text.take i, some tag⟩ ::
      t.reference (tag = .opening) (text.drop (i + (t.tag tag).length))
termination_by text.length
decreasing_by
  have ends := leftmost_end _found
  have holds := List.length_pos_iff.mpr (t.tag_ne tag)
  rw [List.length_drop]
  omega

end Thinking

def keptBlocks : Nat → List (List α) → List (List α)
  | _, [] => []
  | room, block :: blocks =>
    let kept := block.take room
    if kept.isEmpty then keptBlocks (room - block.length) blocks
    else kept :: keptBlocks (room - block.length) blocks

def insideTexts (pieces : List (Piece α)) : List (List α) :=
  (pieces.filter Piece.inside).map Piece.text

def Thinking.outcome (t : Thinking α) (pieces : List (Piece α)) : Outcome α where
  cleanContent := ((pieces.filter fun piece => !piece.inside).map Piece.text).flatten
  thinkingContent := (insideTexts pieces).flatten.take t.maxThoughtChars.toNat
  thinkingBlocks := keptBlocks t.maxThoughtChars.toNat (insideTexts pieces)
  unopenedCloseTags := pieces.countP fun piece => !piece.inside && piece.cut = some .closing
  discardedThoughtChars := (insideTexts pieces).flatten.length - t.maxThoughtChars.toNat
  unclosedStream := pieces.any fun piece => piece.inside && piece.cut = none

/-- The outcome of a scan that goes on, with the block that is not ended. -/
structure Tally (α : Type) extends Outcome α where
  block : List α
  deriving DecidableEq, Repr

namespace Tally

def hear (max : Int) (s : Tally α) (text : List α) : Tally α :=
  let kept := text.take (max - s.thinkingContent.length).toNat
  { s with
    thinkingContent := s.thinkingContent ++ kept
    block := s.block ++ kept
    discardedThoughtChars := s.discardedThoughtChars + (text.length - kept.length) }

def say (s : Tally α) (text : List α) : Tally α :=
  { s with cleanContent := s.cleanContent ++ text }

def endBlock (s : Tally α) : Tally α :=
  if s.block.isEmpty then s
  else { s with thinkingBlocks := s.thinkingBlocks ++ [s.block], block := [] }

def absorb (max : Int) (inside : Bool) (s : Tally α) (text : List α) : Tally α :=
  if inside then s.hear max text else s.say text

def endPiece (inside : Bool) (cut : Option Tag) (s : Tally α) : Tally α :=
  if inside then { s.endBlock with unclosedStream := s.unclosedStream || cut = none }
  else { s with
    unopenedCloseTags := s.unopenedCloseTags + if cut = some .closing then 1 else 0 }

def read (max : Int) (s : Tally α) (piece : Piece α) : Tally α :=
  (s.absorb max piece.inside piece.text).endPiece piece.inside piece.cut

omit [DecidableEq α]

theorem hear_append (max : Int) (s : Tally α) (a b : List α) :
    s.hear max (a ++ b) = (s.hear max a).hear max b := by
  have room : (max - (s.thinkingContent.length : Int)).toNat - a.length =
      (max - ((s.hear max a).thinkingContent.length : Int)).toNat := by
    simp only [hear, List.length_append, List.length_take]
    omega
  simp only [hear, List.take_append, room, List.length_append, List.length_take,
    List.append_assoc, Tally.mk.injEq, Outcome.mk.injEq, true_and, and_true]
  omega

theorem absorb_append (max : Int) (inside : Bool) (s : Tally α) (a b : List α) :
    s.absorb max inside (a ++ b) = (s.absorb max inside a).absorb max inside b := by
  cases inside
  · simp [absorb, say]
  · exact hear_append max s a b

theorem hear_nil (max : Int) (s : Tally α) : s.hear max [] = s := by simp [hear]

theorem read_closed (max : Int) (s : Tally α) (text : List α) (tag : Tag) :
    s.read max ⟨true, text, some tag⟩ = (s.hear max text).endBlock := by
  simp only [read, absorb, endPiece, endBlock, ↓reduceIte]
  split <;> simp [hear]

theorem read_unclosed (max : Int) (s : Tally α) (text : List α) :
    s.read max ⟨true, text, none⟩ = ({ s with unclosedStream := true }.hear max text).endBlock := by
  simp only [read, absorb, endPiece, endBlock, hear, ↓reduceIte, decide_true, Bool.or_true]
  split <;> simp_all

theorem read_inside (max : Int) (s : Tally α) (text : List α) (cut : Option Tag)
    (fresh : s.block = []) :
    let kept := text.take (max - s.thinkingContent.length).toNat
    s.read max ⟨true, text, cut⟩ =
      { s with
        thinkingContent := s.thinkingContent ++ kept
        thinkingBlocks := s.thinkingBlocks ++ if kept.isEmpty then [] else [kept]
        discardedThoughtChars := s.discardedThoughtChars + (text.length - kept.length)
        unclosedStream := s.unclosedStream || cut = none
        block := [] } := by
  simp only [read, absorb, endPiece, hear, endBlock, fresh, List.nil_append, ↓reduceIte]
  split <;> simp_all

end Tally

def emptyTally : Tally α := ⟨⟨[], [], [], 0, 0, false⟩, []⟩

section Reading
variable {t : Thinking α} {inside : Bool} {text more : List α} {tag : Tag} {i : Nat} {s : Tally α}

def Thinking.scan (t : Thinking α) (inside : Bool) (text : List α) (s : Tally α) : Tally α :=
  (t.reference inside text).foldl (Tally.read t.maxThoughtChars) s

theorem reference_none (absent : t.leftmost inside text = none) :
    t.reference inside text = [⟨inside, text, none⟩] := by
  rw [Thinking.reference]
  split
  · rfl
  · rename_i found
    simp [absent] at found

theorem reference_some (found : t.leftmost inside text = some (tag, i)) :
    t.reference inside text = ⟨inside, text.take i, some tag⟩ ::
      t.reference (tag = .opening) (text.drop (i + (t.tag tag).length)) := by
  rw [Thinking.reference]
  split
  · rename_i absent
    simp [absent] at found
  · rename_i tag' i' found'
    obtain ⟨rfl, rfl⟩ : tag' = tag ∧ i' = i := by simpa [found'] using found
    rfl

theorem scan_none (absent : t.leftmost inside text = none) :
    t.scan inside text s = s.read t.maxThoughtChars ⟨inside, text, none⟩ := by
  rw [Thinking.scan, reference_none absent]
  rfl

theorem scan_some (found : t.leftmost inside text = some (tag, i)) :
    t.scan inside text s =
      t.scan (tag = .opening) (text.drop (i + (t.tag tag).length))
        (s.read t.maxThoughtChars ⟨inside, text.take i, some tag⟩) := by
  rw [Thinking.scan, reference_some found]
  rfl

theorem scan_clear
    (closing : ∀ j < text.length, ¬ t.closeTag <+: (text ++ more).drop j)
    (opening : inside = false → ∀ j < text.length, ¬ t.openTag <+: (text ++ more).drop j) :
    t.scan inside (text ++ more) s = t.scan inside more (s.absorb t.maxThoughtChars inside text) := by
  have shifted := Thinking.leftmost_clear closing opening
  cases found : t.leftmost inside more with
  | none =>
    rw [scan_none found, scan_none (by rw [shifted, found]; rfl)]
    simp only [Tally.read, Tally.absorb_append]
  | some at_ =>
    obtain ⟨tag, i⟩ := at_
    rw [scan_some found, scan_some (by rw [shifted, found]; rfl)]
    have before : (text ++ more).take (i + text.length) = text ++ more.take i := by
      rw [Nat.add_comm, List.take_length_add_append]
    have after : (text ++ more).drop (i + text.length + (t.tag tag).length) =
        more.drop (i + (t.tag tag).length) := by
      rw [show i + text.length + (t.tag tag).length = text.length + (i + (t.tag tag).length) by omega,
        List.drop_length_add_append]
    simp only [before, after, Tally.read, Tally.absorb_append]

omit [DecidableEq α] in
theorem read_outcome (max : Int) (pieces : List (Piece α)) (s : Tally α) (fresh : s.block = []) :
    (pieces.foldl (Tally.read max) s).toOutcome =
      let room := (max - s.thinkingContent.length).toNat
      { cleanContent := s.cleanContent ++
          ((pieces.filter fun piece => !piece.inside).map Piece.text).flatten
        thinkingContent := s.thinkingContent ++ (insideTexts pieces).flatten.take room
        thinkingBlocks := s.thinkingBlocks ++ keptBlocks room (insideTexts pieces)
        unopenedCloseTags := s.unopenedCloseTags +
          pieces.countP fun piece => !piece.inside && piece.cut = some .closing
        discardedThoughtChars := s.discardedThoughtChars +
          ((insideTexts pieces).flatten.length - room)
        unclosedStream := s.unclosedStream ||
          pieces.any fun piece => piece.inside && piece.cut = none } := by
  induction pieces generalizing s with
  | nil => simp [insideTexts, keptBlocks]
  | cons piece pieces ih =>
    obtain ⟨inside, text, cut⟩ := piece
    rw [List.foldl_cons]
    cases inside with
    | false =>
      rw [ih _ (by exact fresh)]
      simp [Tally.read, Tally.absorb, Tally.say, Tally.endPiece, insideTexts, List.countP_cons]
      omega
    | true =>
      rw [Tally.read_inside max s text cut fresh, ih _ rfl]
      have room : (max - ((s.thinkingContent ++
          text.take (max - s.thinkingContent.length).toNat).length : Int)).toNat =
          (max - (s.thinkingContent.length : Int)).toNat - text.length := by
        simp only [List.length_append, List.length_take]
        omega
      have heard : insideTexts (⟨true, text, cut⟩ :: pieces) = text :: insideTexts pieces := rfl
      dsimp only
      rw [room, heard, keptBlocks]
      simp only [List.flatten_cons, List.take_append, List.length_append, List.length_take,
        List.append_assoc, Outcome.mk.injEq]
      refine ⟨by simp, trivial, ?_, by simp, by omega, by simp [Bool.or_assoc]⟩
      split <;> simp

theorem scan_outcome (t : Thinking α) (inside : Bool) (text : List α) :
    (t.scan inside text emptyTally).toOutcome = t.outcome (t.reference inside text) := by
  rw [Thinking.scan, read_outcome _ _ _ rfl]
  simp [emptyTally, Thinking.outcome]

end Reading
end DevopsCli.Ai
