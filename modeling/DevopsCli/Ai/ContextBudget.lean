import DevopsCli.Lib.PyStr
import DevopsCli.Lib.Tokenizer
import DevopsCli.Rag.Chunker

/- The token budget of a prompt, ai/context_budget.py. The tokenizer is tiktoken's, and it can be
   missing or raise. -/
namespace DevopsCli.Ai.ContextBudget
open PyStr Rag

inductive TokenCountError where
  | noEncoding
  | notCounted
  | notTruncated
  -- What the tokenizer itself raises.
  | tokenizer
  deriving DecidableEq

section Budget
variable {Token : Type} (encoding : Option (Encoding Token))

def countTokens (text : Str) : Except TokenCountError Nat :=
  if text = [] then .ok 0
  else
    match encoding with
    | none => .error .noEncoding
    | some e =>
      match e.encode text with
      | none => .error .notCounted
      | some tokens => .ok tokens.length

def encodeText (e : Encoding Token) (text : Str) : Except TokenCountError (List Token) :=
  (e.encode text).elim (.error .tokenizer) .ok

def truncateToTokenLimit (text : Str) (maxTokens : Int) (suffix : Str) :
    Except TokenCountError Str :=
  if text = [] ∨ maxTokens ≤ 0 then .ok []
  else do
    let currTokens ← countTokens encoding text
    if (currTokens : Int) ≤ maxTokens then .ok text
    else
      match encoding with
      | none => .error .notTruncated
      | some e => do
        let tokens ← encodeText e text
        let suffixTokens ← encodeText e suffix
        let budget := (max 0 (maxTokens - suffixTokens.length)).toNat
        let decodedStr ← (e.decode (tokens.take budget)).elim (.error .tokenizer) .ok
        .ok (decodedStr ++ suffix)

/-- The warning near the limit writes to the log only. -/
def validateAndBudgetPrompt (text : Str) (maxTokens : Int) (suffix : Str) :
    Except TokenCountError (Str × Bool) :=
  if text = [] then .ok (text, false)
  else do
    let tokCount ← countTokens encoding text
    if maxTokens < tokCount then do
      let condensed ← truncateToTokenLimit encoding text maxTokens suffix
      .ok (condensed, true)
    else .ok (text, false)

end Budget

section Law
variable {Token : Type} (tok : Tokenizer Token Char)

def encodingOf : Encoding Token where
  encode := fun text => some (tok.encode text)
  decode := fun tokens => some (tok.decode tokens)

structure InBudget (text suffix : Str) (maxTokens : Int) : Prop where
  truncated : ∃ out, truncateToTokenLimit (some (encodingOf tok)) text maxTokens suffix = .ok out ∧
    ∃ n, countTokens (some (encodingOf tok)) out = .ok n ∧ (n : Int) ≤ maxTokens
  unchanged : (tok.size text : Int) ≤ maxTokens →
    truncateToTokenLimit (some (encodingOf tok)) text maxTokens suffix = .ok text
  validated : ∃ out condensed,
    validateAndBudgetPrompt (some (encodingOf tok)) text maxTokens suffix = .ok (out, condensed) ∧
    (∃ n, countTokens (some (encodingOf tok)) out = .ok n ∧ (n : Int) ≤ maxTokens) ∧
    (condensed = true ↔ maxTokens < tok.size text)

def room (text suffix : Str) (maxTokens : Int) : List Token :=
  (tok.encode text).take (maxTokens - tok.size suffix).toNat

variable {tok} {text suffix : Str} {maxTokens : Int}

theorem countTokens_size (text : Str) :
    countTokens (some (encodingOf tok)) text = .ok (tok.size text) := by
  unfold countTokens
  split
  · next empty => rw [empty, tok.size_nil]
  · rfl

theorem truncate_short (positive : 0 < maxTokens) (fits : (tok.size text : Int) ≤ maxTokens) :
    truncateToTokenLimit (some (encodingOf tok)) text maxTokens suffix = .ok text := by
  unfold truncateToTokenLimit
  split
  · next none_ =>
    rcases none_ with empty | zero
    · rw [empty]
    · omega
  · rw [countTokens_size]
    exact if_pos fits

theorem ne_nil_of_long (positive : 0 < maxTokens) (large : maxTokens < tok.size text) :
    text ≠ [] := by
  rintro rfl
  rw [tok.size_nil] at large
  omega

theorem truncate_long (positive : 0 < maxTokens) (large : maxTokens < tok.size text) :
    truncateToTokenLimit (some (encodingOf tok)) text maxTokens suffix =
      .ok (tok.decode (room tok text suffix maxTokens) ++ suffix) := by
  have budget : (max 0 (maxTokens - tok.size suffix)).toNat = (maxTokens - tok.size suffix).toNat := by
    omega
  unfold truncateToTokenLimit
  rw [if_neg (by simp only [ne_nil_of_long positive large, false_or]; omega), countTokens_size]
  simp only [bind, Except.bind]
  rw [if_neg (by omega)]
  simp only [encodeText, encodingOf, Option.elim]
  rw [room, ← budget]
  rfl

theorem validate_short (fits : (tok.size text : Int) ≤ maxTokens) :
    validateAndBudgetPrompt (some (encodingOf tok)) text maxTokens suffix = .ok (text, false) := by
  unfold validateAndBudgetPrompt
  split
  · rfl
  · rw [countTokens_size]
    exact if_neg (by omega)

theorem validate_long (positive : 0 < maxTokens) (large : maxTokens < tok.size text) :
    validateAndBudgetPrompt (some (encodingOf tok)) text maxTokens suffix =
      .ok (tok.decode (room tok text suffix maxTokens) ++ suffix, true) := by
  unfold validateAndBudgetPrompt
  rw [if_neg (ne_nil_of_long positive large), countTokens_size]
  simp only [bind, Except.bind]
  rw [if_pos large, truncate_long positive large]

theorem condensed_size_le (steady : tok.Steady text suffix)
    (within : (tok.size suffix : Int) ≤ maxTokens) :
    (tok.size (tok.decode (room tok text suffix maxTokens) ++ suffix) : Int) ≤ maxTokens := by
  have joined := steady.joined (maxTokens - tok.size suffix).toNat
  rw [room]
  omega

theorem condensed_size_gt (beyond : maxTokens < tok.size suffix) :
    maxTokens < tok.size (tok.decode (room tok text suffix maxTokens) ++ suffix) := by
  have none_ : (maxTokens - tok.size suffix).toNat = 0 := by omega
  rwa [room, none_, List.take_zero, tok.decode_nil, List.nil_append]

theorem inBudget_short (positive : 0 < maxTokens) (fits : (tok.size text : Int) ≤ maxTokens) :
    InBudget tok text suffix maxTokens where
  truncated := ⟨text, truncate_short positive fits, _, countTokens_size _, fits⟩
  unchanged _ := truncate_short positive fits
  validated := ⟨text, false, validate_short fits, ⟨_, countTokens_size _, fits⟩,
    iff_of_false Bool.false_ne_true (by omega)⟩

theorem inBudget_long_iff (positive : 0 < maxTokens) (large : maxTokens < tok.size text) :
    InBudget tok text suffix maxTokens ↔
      (tok.size (tok.decode (room tok text suffix maxTokens) ++ suffix) : Int) ≤ maxTokens := by
  constructor
  · intro law
    obtain ⟨out, cut, n, counted, within⟩ := law.truncated
    rw [truncate_long positive large] at cut
    obtain rfl := Except.ok.inj cut
    rw [countTokens_size] at counted
    obtain rfl := Except.ok.inj counted
    exact within
  · intro within
    exact ⟨⟨_, truncate_long positive large, _, countTokens_size _, within⟩, fun _ => by omega,
      ⟨_, true, validate_long positive large, ⟨_, countTokens_size _, within⟩,
        iff_of_true rfl large⟩⟩

/-- A text that fits, or a suffix that does, is needed with every tokenizer; with one that makes no
    new tokens at the cut and at the seam it is enough. -/
theorem truncate_in_budget (positive : 0 < maxTokens) :
    (InBudget tok text suffix maxTokens →
      (tok.size text : Int) ≤ maxTokens ∨ (tok.size suffix : Int) ≤ maxTokens) ∧
    ((tok.size text : Int) ≤ maxTokens ∨
      (tok.size suffix : Int) ≤ maxTokens ∧ tok.Steady text suffix →
      InBudget tok text suffix maxTokens) := by
  constructor
  · intro law
    by_contra neither
    obtain ⟨large, beyond⟩ := not_or.mp neither
    have within := (inBudget_long_iff positive (Int.not_le.mp large)).mp law
    exact absurd within (Int.not_le.mpr (condensed_size_gt (Int.not_le.mp beyond)))
  · intro holds
    rcases Int.lt_or_le maxTokens (tok.size text) with large | fits
    · obtain ⟨within, steady⟩ := holds.resolve_left (by omega)
      exact (inBudget_long_iff positive large).mpr (condensed_size_le steady within)
    · exact inBudget_short positive fits

end Law

section Words

def words : Str → List Str
  | [] => []
  | c :: rest =>
    match words rest with
    | [] => [[c]]
    | [] :: later => [c] :: later
    | (' ' :: word) :: later => [c] :: (' ' :: word) :: later
    | (d :: word) :: later => (c :: d :: word) :: later

theorem flatten_words (text : Str) : (words text).flatten = text := by
  induction text with
  | nil => rfl
  | cons c rest ih =>
    unfold words
    split
    · next none_ => rw [← ih, none_]; rfl
    · next later eq => rw [← ih, eq]; rfl
    · next word later eq => rw [← ih, eq]; rfl
    · next d word later _ eq => rw [← ih, eq]; rfl

def wordTokenizer : Tokenizer Str Char where
  encode := words
  decode := List.flatten
  decode_encode := flatten_words
  encode_nil := rfl

theorem words_head (text : Str) : (words text).head?.bind List.head? = text.head? := by
  fun_cases words text <;> rfl

theorem length_words_cons (c : Char) (rest : Str) : (words (c :: rest)).length =
    (words rest).length + if rest.head? = none ∨ rest.head? = some ' ' then 1 else 0 := by
  cases rest with
  | nil => rfl
  | cons d rest =>
    have head := words_head (d :: rest)
    rw [words]
    split
    · next none_ => simp [none_] at head
    · next later eq => simp [eq] at head
    · next word later eq =>
      rw [eq] at head ⊢
      rw [← head]
      rfl
    · next e word later other eq =>
      rw [eq] at head ⊢
      rw [← head, if_neg]
      · rfl
      · rintro (none_ | space)
        · cases none_
        · exact other (Option.some.inj space)

theorem length_words_append (a b : Str) :
    (words (a ++ b)).length ≤ (words a).length + (words b).length := by
  induction a with
  | nil => simp
  | cons c a ih =>
    rw [List.cons_append, length_words_cons, length_words_cons]
    cases a with
    | nil =>
      have one : (if (List.head? ([] ++ b)) = none ∨ List.head? ([] ++ b) = some ' ' then 1 else 0) ≤ 1 := by
        split <;> omega
      simp only [List.nil_append, List.head?_nil, true_or, ↓reduceIte] at one ih ⊢
      omega
    | cons d a =>
      have same : (d :: a ++ b).head? = (d :: a).head? := rfl
      rw [same]
      omega

theorem steady_words : wordTokenizer.Steady "a b c".toList " d".toList where
  cut n := by
    match n with
    | 0 => decide
    | 1 => decide
    | 2 => decide
    | n + 3 =>
      rw [List.take_of_length_le (by simp +arith [wordTokenizer, words])]
      exact Nat.le_add_left 3 n
  seam before := length_words_append before _

/-- The text is cut after its first word. -/
theorem truncate_in_budget_two_words :
    InBudget wordTokenizer "a b c".toList " d".toList 2 :=
  (truncate_in_budget (by decide)).2 (.inr ⟨by decide, steady_words⟩)

/-- A suffix of two tokens in a budget of one. -/
theorem suffix_over_budget : ¬InBudget wordTokenizer "a b".toList " c d".toList 1 := by
  intro law
  have within := (inBudget_long_iff (by decide) (by decide)).mp law
  revert within
  decide

end Words
end DevopsCli.Ai.ContextBudget
