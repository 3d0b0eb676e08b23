import DevopsCli.Lib.PyLines
import DevopsCli.Lib.Separated

/- The words of a text, and the text that is folded on one line: its words with one blank
   between two of them. -/
namespace DevopsCli.PyStr
open Separated

def wordsFrom (word : Str) : Str → List Str
  | [] => if word = [] then [] else [word]
  | c :: rest =>
    if isSpace c then
      if word = [] then wordsFrom [] rest else word :: wordsFrom [] rest
    else wordsFrom (word ++ [c]) rest

def words (text : Str) : List Str := wordsFrom [] text

theorem mem_splitOn_clear {text part : Str} {c : Char} (mem : part ∈ text.splitOn c) : c ∉ part := by
  induction text generalizing part with
  | nil =>
    rw [List.splitOn_nil, List.mem_singleton] at mem
    rw [mem]
    exact List.not_mem_nil
  | cons d rest ih =>
    rw [List.splitOn_cons_eq_if_modifyHead] at mem
    split at mem
    · rcases List.mem_cons.mp mem with rfl | later
      · exact List.not_mem_nil
      · exact ih later
    · next differs =>
      have other : c ≠ d := fun same => differs (by simp [same])
      obtain ⟨first, others, split⟩ := List.exists_cons_of_ne_nil (List.splitOn_ne_nil c rest)
      rw [split] at mem ih
      rcases List.mem_cons.mp mem with rfl | later
      · rw [List.mem_cons, not_or]
        exact ⟨other, ih List.mem_cons_self⟩
      · exact ih (List.mem_cons_of_mem _ later)

theorem trimmed_ends {first last : Str} (head : ∀ c ∈ first.head?, ¬isSpace c)
    (end_ : ∀ c ∈ last.getLast?, ¬isSpace c) (some_ : first ≠ []) (ends : last ≠ []) :
    Trimmed isSpace (first ++ last) := by
  constructor
  · rwa [List.head?_append_of_ne_nil _ some_]
  · rwa [List.getLast?_append_of_ne_nil _ ends]

theorem trimmed_iff (text : Str) : Trimmed isSpace text ↔ strip text = text := by
  constructor
  · rintro ⟨first, last⟩
    have lead : text.dropWhile isSpace = text := by
      rw [List.dropWhile_eq_self_iff]
      intro long
      exact first _ (by rw [List.head?_eq_getElem?, List.getElem?_eq_getElem long]; rfl)
    rw [strip, lead, rstrip, List.rdropWhile_eq_self_iff]
    exact fun some_ => last _ (List.getLast?_eq_some_getLast some_)
  · intro same
    rw [← same]
    constructor
    · intro c first
      have lead : (text.dropWhile isSpace).head? = some c := by
        obtain ⟨rest, whole⟩ : strip text <+: text.dropWhile isSpace :=
          List.rdropWhile_prefix isSpace _
        rw [← whole, List.head?_append, first]
        rfl
      have plain := List.head?_dropWhile_not isSpace text
      rw [lead] at plain
      simpa using plain
    · intro c last
      have some_ : strip text ≠ [] := by
        intro none
        rw [none] at last
        cases last
      have end_ := List.rdropWhile_last_not isSpace (text.dropWhile isSpace) some_
      rw [List.getLast?_eq_some_getLast some_] at last
      cases last
      exact end_

theorem trimmed_strip (text : Str) : Trimmed isSpace (strip text) :=
  (trimmed_iff _).mpr (strip_strip text)

/-- A text on one line: trimmed, and with no blank character but the space. -/
structure Folded (text : Str) : Prop where
  trimmed : Trimmed isSpace text
  spaces : ∀ c ∈ text, isSpace c = true → c = ' '

def IsWord (word : Str) : Prop := word ≠ [] ∧ ∀ c ∈ word, isSpace c = false

theorem wordsFrom_solid {word : Str} (solid : ∀ c ∈ word, isSpace c = false) (before rest : Str) :
    wordsFrom before (word ++ rest) = wordsFrom (before ++ word) rest := by
  induction word generalizing before with
  | nil => rw [List.nil_append, List.append_nil]
  | cons c more ih =>
    obtain ⟨plain, later⟩ := List.forall_mem_cons.mp solid
    rw [List.cons_append, wordsFrom, plain, if_neg Bool.false_ne_true, ih later, List.append_assoc,
      List.singleton_append]

theorem words_join {parts : List Str} (all : ∀ word ∈ parts, IsWord word) :
    words (join [' '] parts) = parts := by
  unfold words
  induction parts with
  | nil => rfl
  | cons word rest ih =>
    obtain ⟨⟨some_, solid⟩, others⟩ := List.forall_mem_cons.mp all
    cases rest with
    | nil =>
      have whole := wordsFrom_solid solid [] []
      rw [List.append_nil, List.nil_append, wordsFrom, if_neg some_] at whole
      rw [join, List.intercalate_singleton, whole]
    | cons next rest =>
      have blank : isSpace ' ' = true := rfl
      have next_ := ih others
      rw [join, List.intercalate_cons_cons, List.append_assoc, wordsFrom_solid solid,
        List.nil_append, List.singleton_append, wordsFrom, if_pos blank, if_neg some_]
      exact congrArg (word :: ·) next_

theorem isWord_of_mem_words {text word : Str} (mem : word ∈ words text) : IsWord word := by
  suffices scan : ∀ before, (∀ c ∈ before, isSpace c = false) →
      ∀ word ∈ wordsFrom before text, IsWord word from scan [] (by simp) word mem
  clear mem word
  induction text with
  | nil =>
    intro before solid word mem
    rw [wordsFrom] at mem
    split at mem
    · cases mem
    · rename_i some_
      rw [List.mem_singleton.mp mem]
      exact ⟨some_, solid⟩
  | cons c rest ih =>
    intro before solid word mem
    rw [wordsFrom] at mem
    split at mem
    · split at mem
      · exact ih [] (by simp) word mem
      · rename_i some_
        rcases List.mem_cons.mp mem with rfl | later
        · exact ⟨some_, solid⟩
        · exact ih [] (by simp) word later
    · rename_i inside
      refine ih (before ++ [c]) ?_ word mem
      intro d held
      rcases List.mem_append.mp held with old | new
      · exact solid d old
      · rw [List.mem_singleton.mp new]
        exact Bool.eq_false_iff.mpr inside

theorem IsWord.folded {word : Str} (is_word : IsWord word) : Folded word where
  trimmed := by
    constructor
    · intro c first
      simp [is_word.2 c (List.mem_of_mem_head? first)]
    · intro c last
      simp [is_word.2 c (List.mem_of_mem_getLast? last)]
  spaces c mem space := by simp [is_word.2 c mem] at space

theorem folded_join {parts : List Str} (all : ∀ word ∈ parts, IsWord word) :
    Folded (join [' '] parts) ∧ (join [' '] parts = [] → parts = []) := by
  induction parts with
  | nil => exact ⟨⟨trimmed_nil, by simp [join]⟩, fun _ => rfl⟩
  | cons word rest ih =>
    obtain ⟨first, all⟩ := List.forall_mem_cons.mp all
    obtain ⟨folded, empty⟩ := ih all
    cases rest with
    | nil => simpa [join] using ⟨first.folded, first.1⟩
    | cons second rest =>
      have later : join [' '] (second :: rest) ≠ [] := fun none => by simpa using empty none
      have whole : join [' '] (word :: second :: rest) = word ++ ' ' :: join [' '] (second :: rest) :=
        rfl
      rw [whole]
      refine ⟨⟨?_, ?_⟩, by simp⟩
      · refine trimmed_ends first.folded.trimmed.1 ?_ first.1 (by simp)
        intro c last
        refine folded.trimmed.2 c ?_
        rwa [← List.singleton_append, List.getLast?_append_of_ne_nil _ later] at last
      · intro c mem space
        rcases List.mem_append.mp mem with inside | mem
        · exact first.folded.spaces c inside space
        · rcases List.mem_cons.mp mem with same | inside
          · exact same
          · exact folded.spaces c inside space

theorem folded_words (text : Str) : Folded (join [' '] (words text)) :=
  (folded_join fun _ => isWord_of_mem_words).1

theorem Folded.no_break {text : Str} (folded : Folded text) : ∀ c ∈ text, c ≠ '\n' ∧ c ≠ '\r' := by
  intro c mem
  constructor
  · rintro rfl
    exact absurd (folded.spaces _ mem (by decide)) (by decide)
  · rintro rfl
    exact absurd (folded.spaces _ mem (by decide)) (by decide)

theorem Folded.rdropWhile {text : Str} (folded : Folded text) (p : Char → Bool)
    (space : p ' ' = true) : Folded (text.rdropWhile p) := by
  have inside : ∀ c ∈ text.rdropWhile p, c ∈ text := fun c mem =>
    (List.rdropWhile_prefix p text).subset mem
  refine ⟨⟨?_, ?_⟩, fun c mem => folded.spaces c (inside c mem)⟩
  · intro c first
    obtain ⟨rest, whole⟩ := List.rdropWhile_prefix p text
    refine folded.trimmed.1 c ?_
    rw [← whole, List.head?_append, first]
    rfl
  · intro c last blank
    have same := folded.spaces c (inside c (List.mem_of_mem_getLast? last)) blank
    have some_ : text.rdropWhile p ≠ [] := by
      intro none
      rw [none] at last
      cases last
    have end_ := List.rdropWhile_last_not p text some_
    rw [List.getLast?_eq_some_getLast some_] at last
    cases last
    rw [same] at end_
    exact end_ space

end DevopsCli.PyStr
