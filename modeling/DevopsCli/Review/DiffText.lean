import DevopsCli.Review.GitDiff

/- The text of a git diff and its lines, as the two ways to split a text give them back. -/
namespace DevopsCli.Review.Diff
open PyStr

section Texts

theorem after_append (start rest : Str) : after start (start ++ rest) = some rest := by
  rw [after, if_pos (by simp [List.isPrefixOf_iff_prefix]), List.drop_left]

theorem after_other {start text : Str} {c : Char} (head : start.head? = some c)
    (other : text.head? ≠ some c) : after start text = none := by
  rw [after, if_neg]
  intro fits
  obtain ⟨rest, rfl⟩ := List.isPrefixOf_iff_prefix.mp fits
  cases start with
  | nil => cases head
  | cons first start => exact other head

theorem linesWithEnds_cons {line : Str} (one : '\n' ∉ line) (rest : Str) :
    linesWithEnds (line ++ '\n' :: rest) = (line ++ ['\n']) :: linesWithEnds rest := by
  induction line with
  | nil => rw [List.nil_append, linesWithEnds, List.nil_append]
  | cons c line ih =>
    simp only [List.mem_cons, not_or] at one
    rw [List.cons_append, linesWithEnds, ih one.2]
    · rfl
    · exact fun same => one.1 same.symm

theorem linesWithEnds_text {lines : List Str} (one : ∀ line ∈ lines, '\n' ∉ line) :
    linesWithEnds (textOfLines lines) = lines.map (· ++ ['\n']) := by
  induction lines with
  | nil => rfl
  | cons line lines ih =>
    obtain ⟨first, later⟩ := List.forall_mem_cons.mp one
    rw [textOfLines, List.flatMap_cons, List.append_assoc, List.singleton_append,
      linesWithEnds_cons first, ← textOfLines, ih later, List.map_cons]

theorem stripReturns_unbroken {line : Str} (unbroken : Unbroken line) : stripReturns line = line := by
  have plain : ∀ c ∈ line, (c == '\r') = false := by
    intro c mem
    have := unbroken c mem
    by_contra same
    rw [(beq_iff_eq).mp ((Bool.not_eq_false _).mp same)] at this
    exact absurd this (by decide)
  have front : line.dropWhile (· == '\r') = line := by
    cases line with
    | nil => rfl
    | cons c line => rw [List.dropWhile_cons_of_neg (by simp [plain c List.mem_cons_self])]
  rw [stripReturns, front, List.rdropWhile_eq_self_iff]
  intro some_ last
  rw [plain _ (List.getLast_mem some_)] at last
  cases last

end Texts

section Newlines

theorem append_one {front back : Str} (first : '\n' ∉ front) (last : '\n' ∉ back) :
    '\n' ∉ front ++ back := fun mem => (List.mem_append.mp mem).elim first last

theorem cons_one {c : Char} {text : Str} (other : c ≠ '\n') (last : '\n' ∉ text) :
    '\n' ∉ c :: text := fun mem => (List.mem_cons.mp mem).elim (fun same => other same.symm) last

theorem digits_one (n : Nat) : '\n' ∉ digits n := by
  intro mem
  have := Nat.isDigit_of_mem_toDigits (by decide) (by decide) mem
  exact absurd this (by decide)

theorem letterOf_one (place : Nat) : letterOf place ≠ '\n' := by
  unfold letterOf
  split <;> decide

theorem octal_one (byte : Nat) : '\n' ∉ octal byte := by
  have digit_one : ∀ digit < 8, Nat.digitChar digit ≠ '\n' := by decide
  intro mem
  simp only [octal, List.mem_cons, List.not_mem_nil, or_false] at mem
  rcases mem with same | same | same | same
  · exact absurd same (by decide)
  · exact digit_one _ (Nat.mod_lt _ (by decide)) same.symm
  · exact digit_one _ (Nat.mod_lt _ (by decide)) same.symm
  · exact digit_one _ (Nat.mod_lt _ (by decide)) same.symm

theorem quoteChar_one (c : Char) : '\n' ∉ quoteChar c := by
  unfold quoteChar
  split
  · next plain =>
    intro mem
    rw [← List.mem_singleton.mp mem] at plain
    exact absurd plain (by decide)
  · split
    · next quoted =>
      intro mem
      rcases quoted with rfl | rfl <;> simp at mem
    · split
      · next letter _ =>
        intro mem
        rcases List.mem_pair.mp mem with same | same
        · exact absurd same (by decide)
        · exact letterOf_one letter same.symm
      · intro mem
        obtain ⟨byte, -, mem⟩ := List.mem_flatMap.mp mem
        exact octal_one _ mem

theorem quoteName_one {start : Str} (plain : '\n' ∉ start) (name : Str) :
    '\n' ∉ quoteName start name := by
  unfold quoteName
  split
  · intro mem
    rcases List.mem_append.mp mem with front | last
    · rcases List.mem_append.mp front with opening | inner
      · rcases List.mem_cons.mp opening with same | inside
        · exact absurd same (by decide)
        · exact plain inside
      · obtain ⟨c, -, inside⟩ := List.mem_flatMap.mp inner
        exact quoteChar_one c inside
    · exact absurd (List.mem_singleton.mp last) (by decide)
  · next unquoted =>
    rw [List.mem_append, not_or]
    refine ⟨plain, fun mem => unquoted ?_⟩
    exact List.any_eq_true.mpr ⟨'\n', mem, by decide⟩

theorem withTab_one {label : Str} (plain : '\n' ∉ label) : '\n' ∉ withTab label := by
  unfold withTab
  split
  · exact append_one plain (by decide)
  · exact plain

theorem countText_one (count : Nat) (one : Bool) : '\n' ∉ countText count one := by
  unfold countText
  split
  · simp
  · simp [digits_one]

theorem header_one (hunk : Hunk) : '\n' ∉ hunk.header := by
  rw [Hunk.header]
  exact append_one (by decide) (append_one (digits_one _) (append_one (countText_one _ _)
    (append_one (by decide) (append_one (digits_one _) (append_one (countText_one _ _)
      (append_one (by decide) hunk.heading.one))))))

theorem texts_one (line : HunkLine) : ∀ text ∈ line.texts, '\n' ∉ text := by
  intro text mem
  have own : '\n' ∉ line.line.text := by
    cases line.line with
    | context text => simp [DiffLine.text, text.one]
    | blank => simp [DiffLine.text]
    | removed text => simp [DiffLine.text, text.one]
    | added text => simp [DiffLine.text, text.one]
  rcases List.mem_cons.mp mem with rfl | mark
  · exact own
  · split at mark
    · rw [List.mem_singleton.mp mark]
      decide
    · cases mark

theorem side_one (exists_ : Bool) {start : Str} (plain : '\n' ∉ start) (name : Str) :
    '\n' ∉ withTab (sideLabel exists_ start name) := by
  refine withTab_one ?_
  unfold sideLabel
  split
  · exact quoteName_one plain name
  · decide

theorem file_one (file : FileDiff) : ∀ line ∈ file.texts, '\n' ∉ line := by
  have old : '\n' ∉ "a/".toList := by decide
  have new : '\n' ∉ "b/".toList := by decide
  intro line mem
  rw [FileDiff.texts] at mem
  rcases List.mem_append.mp mem with front | back
  · rcases List.mem_cons.mp front with rfl | listed
    · exact append_one (append_one (by decide) (quoteName_one old _))
        (cons_one (by decide) (quoteName_one new _))
    · obtain ⟨header, -, rfl⟩ := List.mem_map.mp listed
      refine append_one ?_ header.value.one
      cases header.key <;> decide
  · split at back
    · cases back
    · rcases List.mem_cons.mp back with rfl | back
      · exact append_one (by decide) (side_one _ old _)
      · rcases List.mem_cons.mp back with rfl | back
        · exact append_one (by decide) (side_one _ new _)
        · obtain ⟨hunk, -, mem⟩ := List.mem_flatMap.mp back
          rcases List.mem_cons.mp mem with rfl | mem
          · exact header_one hunk
          · obtain ⟨entry, -, mem⟩ := List.mem_flatMap.mp mem
            exact texts_one entry line mem

theorem diff_one (diff : List FileDiff) : ∀ line ∈ diffLines diff, '\n' ∉ line := by
  intro line mem
  obtain ⟨file, -, mem⟩ := List.mem_flatMap.mp mem
  exact file_one file line mem

end Newlines
end DevopsCli.Review.Diff
