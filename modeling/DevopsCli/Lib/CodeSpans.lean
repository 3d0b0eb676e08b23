import DevopsCli.Lib.PyStr

/- The code spans of a line of Markdown, as CommonMark says what one is, and the texts in which one span
   of single backticks stands between words. -/
namespace DevopsCli.CodeSpans
open PyStr

def ticks (n : Nat) : Str := List.replicate n '`'

def HasRun (n : Nat) (text : Str) : Prop :=
  ∃ before after, text = before ++ ticks n ++ after ∧ before.getLast? ≠ some '`' ∧
    after.head? ≠ some '`'

def Unspaced (inner content : Str) : Prop := inner = content ∨ inner = ' ' :: content ++ [' ']

def unbroken (text : Str) : Str := text.map fun c => if c = '\n' then ' ' else c

/-- A code span of a text: between two strings of as many backticks, with no such string inside. -/
def CodeSpan (text content : Str) : Prop :=
  ∃ n before inner after, 0 < n ∧ text = before ++ ticks n ++ inner ++ ticks n ++ after ∧
    inner.head? ≠ some '`' ∧ inner.getLast? ≠ some '`' ∧ after.head? ≠ some '`' ∧
    ¬HasRun n inner ∧ Unspaced (unbroken inner) content

structure OneSpan (before inner after : Str) : Prop where
  before : ∀ c ∈ before, c.isAlphanum = true ∨ c = ' ' ∨ c = ':'
  after : ∀ c ∈ after, c.isAlphanum = true ∨ c = ' ' ∨ c = ':'
  first : ∀ c ∈ inner.head?, c ≠ '`' ∧ c ≠ ' '
  some_ : inner ≠ []
  last : inner.getLast? ≠ some '`'
  run : ¬HasRun 1 inner

def oneSpan (before inner after : Str) : Str := before ++ ['`'] ++ inner ++ ['`'] ++ after

instance (n : Nat) (text : Str) : Decidable (HasRun n text) :=
  decidable_of_iff (∃ i < text.length + 1,
      text = text.take i ++ ticks n ++ text.drop (i + n) ∧ (text.take i).getLast? ≠ some '`' ∧
        (text.drop (i + n)).head? ≠ some '`') <| by
    constructor
    · rintro ⟨i, -, split, before, after⟩
      exact ⟨_, _, split, before, after⟩
    · rintro ⟨before, after, rfl, first, last⟩
      refine ⟨before.length, by simp, ?_⟩
      have length : before.length + n = (before ++ ticks n).length := by simp [ticks]
      have front : (before ++ ticks n ++ after).take before.length = before := by
        rw [List.append_assoc, List.take_left]
      rw [length, List.drop_left, front]
      exact ⟨rfl, first, last⟩

instance (before inner after : Str) : Decidable (OneSpan before inner after) :=
  decidable_of_iff ((∀ c ∈ before, c.isAlphanum = true ∨ c = ' ' ∨ c = ':') ∧
      (∀ c ∈ after, c.isAlphanum = true ∨ c = ' ' ∨ c = ':') ∧
      (∀ c ∈ inner.head?, c ≠ '`' ∧ c ≠ ' ') ∧ inner ≠ [] ∧ inner.getLast? ≠ some '`' ∧
      ¬HasRun 1 inner)
    ⟨fun ⟨before, after, first, some_, last, run⟩ => ⟨before, after, first, some_, last, run⟩,
      fun span => ⟨span.before, span.after, span.first, span.some_, span.last, span.run⟩⟩

def oneSpanOf (text : Str) : Option (Str × Str × Str) :=
  let middle := text.dropWhile (· != '`')
  let before := text.takeWhile (· != '`')
  let inner := (middle.rdropWhile (· != '`')).tail.dropLast
  let after := middle.rtakeWhile (· != '`')
  if text = oneSpan before inner after ∧ OneSpan before inner after then some (before, inner, after)
  else none

variable {before inner after text : Str}

theorem OneSpan.plain (span : OneSpan before inner after) :
    (∀ c ∈ before, c ≠ '`') ∧ ∀ c ∈ after, c ≠ '`' := by
  have plain (c : Char) (word : c.isAlphanum = true ∨ c = ' ' ∨ c = ':') : c ≠ '`' := by
    rintro rfl
    revert word
    decide
  exact ⟨fun c member => plain c (span.before c member), fun c member => plain c (span.after c member)⟩

theorem oneSpanOf_oneSpan (span : OneSpan before inner after) :
    oneSpanOf (oneSpan before inner after) = some (before, inner, after) := by
  obtain ⟨first, last⟩ := span.plain
  have text : oneSpan before inner after = before ++ '`' :: (inner ++ '`' :: after) := by
    simp [oneSpan]
  have front : (before ++ '`' :: (inner ++ '`' :: after)).takeWhile (· != '`') = before := by
    rw [List.takeWhile_append_of_pos fun c member => bne_iff_ne.mpr (first c member)]
    simp
  have middle : (before ++ '`' :: (inner ++ '`' :: after)).dropWhile (· != '`') =
      ('`' :: inner ++ ['`']) ++ after := by
    rw [List.dropWhile_append_of_pos fun c member => bne_iff_ne.mpr (first c member)]
    simp
  have behind : (('`' :: inner ++ ['`']) ++ after).rtakeWhile (· != '`') = after := by
    unfold List.rtakeWhile
    rw [List.reverse_append, List.takeWhile_append_of_pos]
    · simp
    · exact fun c member => bne_iff_ne.mpr (last c (List.mem_reverse.mp member))
  have ahead : (('`' :: inner ++ ['`']) ++ after).rdropWhile (· != '`') = '`' :: inner ++ ['`'] := by
    unfold List.rdropWhile
    rw [List.reverse_append, List.dropWhile_append_of_pos]
    · simp
    · exact fun c member => bne_iff_ne.mpr (last c (List.mem_reverse.mp member))
  have inside : ('`' :: inner ++ ['`']).tail.dropLast = inner := by simp
  unfold oneSpanOf
  simp only [text, front, middle, behind, ahead, inside, span, and_self, if_true]

theorem oneSpanOf_sound (found : oneSpanOf text = some (before, inner, after)) :
    text = oneSpan before inner after ∧ OneSpan before inner after := by
  unfold oneSpanOf at found
  simp only [Option.ite_none_right_eq_some, Option.some.injEq, Prod.mk.injEq] at found
  obtain ⟨⟨split, span⟩, rfl, rfl, rfl⟩ := found
  exact ⟨split, span⟩

theorem OneSpan.codeSpan (span : OneSpan before inner after) :
    CodeSpan (oneSpan before inner after) (unbroken inner) := by
  refine ⟨1, before, inner, after, Nat.one_pos, rfl, ?_, span.last, ?_, span.run, .inl rfl⟩
  · intro tick
    exact (span.first _ tick).1 rfl
  · intro tick
    exact span.plain.2 _ (List.mem_of_mem_head? tick) rfl

theorem starts_behind (rest : Str) {early more : Str} (clear : ∀ c ∈ before, c ≠ '`')
    (split : before ++ rest = early ++ '`' :: more) : ∃ between, early = before ++ between := by
  rcases List.append_eq_append_iff.mp split with ⟨between, early, -⟩ | ⟨between, whole, tick⟩
  · exact ⟨between, early⟩
  · cases between with
    | nil => exact ⟨[], by simpa using whole.symm⟩
    | cons c later =>
      obtain ⟨rfl, -⟩ := List.cons_eq_cons.mp tick
      exact absurd rfl (clear '`' (by simp [whole]))

theorem ends_before (rest : Str) {late more : Str} (clear : ∀ c ∈ after, c ≠ '`')
    (split : rest ++ after = more ++ ['`'] ++ late) : ∃ between, late = between ++ after := by
  rcases List.append_eq_append_iff.mp split with ⟨between, front, whole⟩ | ⟨between, -, late⟩
  · rcases List.eq_nil_or_concat between with rfl | ⟨early, c, rfl⟩
    · exact ⟨[], whole.symm⟩
    · have tick : c = '`' := by simpa using (congrArg List.getLast? front).symm
      exact absurd tick (clear c (by simp [whole]))
  · exact ⟨between, late⟩

/-- A code span that is as long as the text between the outermost backticks is this text. -/
theorem CodeSpan.whole {content : Str} (code : CodeSpan (oneSpan before inner after) content)
    (front : ∀ c ∈ before, c ≠ '`') (behind : ∀ c ∈ after, c ≠ '`')
    (long : inner.length ≤ content.length) :
    content = unbroken inner ∧ inner.getLast? ≠ some '`' ∧ ¬HasRun 1 inner := by
  obtain ⟨n, early, own, late, positive, split, -, last, -, run, unspaced⟩ := code
  obtain ⟨k, rfl⟩ := Nat.exists_eq_add_of_le' positive
  have first : oneSpan before inner after = early ++ '`' :: (ticks k ++ own ++ ticks (k + 1) ++ late) := by
    rw [split]
    simp [ticks, List.replicate_succ]
  have final : oneSpan before inner after = (early ++ ticks (k + 1) ++ own ++ ticks k) ++ ['`'] ++ late := by
    rw [split]
    simp [ticks, List.replicate_succ']
  obtain ⟨more, rfl⟩ := starts_behind ('`' :: (inner ++ '`' :: after)) front
    (by rw [← first]; simp [oneSpan])
  obtain ⟨less, rfl⟩ := ends_before (before ++ '`' :: (inner ++ ['`'])) behind
    (by rw [← final]; simp [oneSpan])
  have lengths := congrArg List.length split
  simp only [oneSpan, ticks, List.length_append, List.length_cons, List.length_nil,
    List.length_replicate] at lengths
  have same : (unbroken own).length = own.length := List.length_map ..
  rcases unspaced with rfl | spaced
  · obtain rfl : more = [] := List.eq_nil_of_length_eq_zero (by omega)
    obtain rfl : less = [] := List.eq_nil_of_length_eq_zero (by omega)
    obtain rfl : k = 0 := by omega
    have inside : inner = own := by
      have whole : before ++ ['`'] ++ (inner ++ ['`'] ++ after) =
          before ++ ['`'] ++ (own ++ ['`'] ++ after) := by
        simpa [oneSpan, ticks] using split
      exact List.append_cancel_right (List.append_cancel_right (List.append_cancel_left whole))
    rw [inside]
    exact ⟨rfl, last, run⟩
  · have shorter := congrArg List.length spaced
    simp only [List.length_append, List.length_cons, List.length_nil] at shorter
    omega

end DevopsCli.CodeSpans
