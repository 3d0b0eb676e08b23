import Mathlib

/- The places of a text where a pattern is found, from the left on, and what stands between them.
   Nothing here is about one program. -/
namespace DevopsCli.Matches
variable {α β γ : Type}

/-- What is read at the head of a text, and the text after it. -/
abbrev Pattern (α β : Type) := List α → Option (β × List α)

variable (pattern : Pattern α β)

def scan : Nat → List α → List (β ⊕ α)
  | 0, _ => []
  | _ + 1, [] => []
  | fuel + 1, c :: cs =>
    match pattern (c :: cs) with
    | some (found, rest) => .inl found :: scan fuel rest
    | none => .inr c :: scan fuel cs

def finditer (text : List α) : List β := (scan pattern text.length text).filterMap Sum.getLeft?

def cut (text : List α) : List α := (scan pattern text.length text).filterMap Sum.getRight?

/-- The pattern reads something from each text that it is found in. -/
def Consumes : Prop :=
  ∀ text found rest, pattern text = some (found, rest) → rest.length < text.length

variable {pattern} {text : List α}

section Scan
variable {c : α} {cs rest : List α} {found : β} {fuel : Nat}

theorem scan_found (reads : pattern (c :: cs) = some (found, rest)) :
    scan pattern (fuel + 1) (c :: cs) = .inl found :: scan pattern fuel rest := by
  rw [scan, reads]

theorem scan_missed (misses : pattern (c :: cs) = none) :
    scan pattern (fuel + 1) (c :: cs) = .inr c :: scan pattern fuel cs := by
  rw [scan, misses]

/-- What holds of the empty text and at each place holds of the pieces of a text. -/
theorem scan_induction (consumes : Consumes pattern)
    {motive : List α → List (β ⊕ α) → Prop} (empty : motive [] [])
    (found : ∀ c cs found rest pieces, pattern (c :: cs) = some (found, rest) →
      motive rest pieces → motive (c :: cs) (.inl found :: pieces))
    (missed : ∀ c cs pieces, pattern (c :: cs) = none → motive cs pieces →
      motive (c :: cs) (.inr c :: pieces))
    (text : List α) : motive text (scan pattern text.length text) := by
  have enough (fuel : Nat) (text : List α) (fits : text.length ≤ fuel) :
      motive text (scan pattern fuel text) := by
    induction fuel generalizing text with
    | zero =>
      obtain rfl := List.eq_nil_of_length_eq_zero (Nat.le_zero.mp fits)
      exact empty
    | succ fuel ih =>
      cases text with
      | nil => exact empty
      | cons c cs =>
        cases read : pattern (c :: cs) with
        | none =>
          rw [scan_missed read]
          exact missed c cs _ read (ih cs (Nat.le_of_succ_le_succ fits))
        | some pair =>
          obtain ⟨token, rest⟩ := pair
          rw [scan_found read]
          have shorter := consumes _ _ _ read
          exact found c cs token rest _ read (ih rest (by omega))
  exact enough _ text le_rfl

end Scan

theorem finditer_forall (consumes : Consumes pattern) {Good : β → Prop}
    (good : ∀ text found rest, pattern text = some (found, rest) → Good found) (text : List α) :
    ∀ found ∈ finditer pattern text, Good found := by
  refine scan_induction consumes
    (motive := fun _ pieces => ∀ found ∈ pieces.filterMap Sum.getLeft?, Good found) ?_ ?_ ?_ text
  · exact List.forall_mem_nil _
  · intro c cs found rest pieces read later
    exact List.forall_mem_cons.mpr ⟨good _ _ _ read, later⟩
  · intro c cs pieces _ later
    exact later

section Counts
variable (consumes : Consumes pattern) {p : α → Bool} (weight : β → Nat)
include consumes

theorem countP_text (exact : ∀ text found rest, pattern text = some (found, rest) →
      text.countP p = weight found + rest.countP p) (text : List α) :
    text.countP p = ((finditer pattern text).map weight).sum + (cut pattern text).countP p := by
  refine scan_induction consumes
    (motive := fun text pieces => text.countP p =
      ((pieces.filterMap Sum.getLeft?).map weight).sum + (pieces.filterMap Sum.getRight?).countP p)
    rfl ?_ ?_ text
  · intro c cs found rest pieces read later
    rw [exact _ _ _ read, later]
    simp only [List.filterMap_cons, Sum.getLeft?_inl, Sum.getRight?_inl, List.map_cons,
      List.sum_cons]
    omega
  · intro c cs pieces read later
    simp only [List.filterMap_cons, Sum.getLeft?_inr, Sum.getRight?_inr, List.countP_cons, later]
    omega

end Counts

section Found
variable (consumes : Consumes pattern)
include consumes

theorem finditer_ne_nil {old : List α} (reads : ∀ rest, (pattern (old ++ rest)).isSome)
    (some_ : old ≠ []) (here : old <:+: text) : finditer pattern text ≠ [] := by
  refine scan_induction consumes
    (motive := fun text pieces => old <:+: text → pieces.filterMap Sum.getLeft? ≠ []) ?_ ?_ ?_
    text here
  · intro inside
    exact absurd (List.infix_nil.mp inside) some_
  · intro c cs found rest pieces read later inside
    exact List.cons_ne_nil _ _
  · intro c cs pieces read later inside
    rcases List.infix_cons_iff.mp inside with head | tail
    · obtain ⟨rest, same⟩ := head
      have found := reads rest
      rw [same, read] at found
      exact absurd found Bool.false_ne_true
    · exact later tail

theorem finditer_map {other : Pattern α γ} {f : β → γ} {Good : β → Prop} {Blank : α → Prop}
    (reads : ∀ text found rest, pattern text = some (found, rest) → Good found →
      other text = some (f found, rest))
    (skips : ∀ c cs, Blank c → other (c :: cs) = none) (text : List α)
    (good : ∀ found ∈ finditer pattern text, Good found) (blank : ∀ c ∈ cut pattern text, Blank c) :
    finditer other text = (finditer pattern text).map f := by
  have enough (fuel : Nat) (text : List α) (fits : text.length ≤ fuel)
      (good : ∀ found ∈ (scan pattern fuel text).filterMap Sum.getLeft?, Good found)
      (blank : ∀ c ∈ (scan pattern fuel text).filterMap Sum.getRight?, Blank c) :
      (scan other fuel text).filterMap Sum.getLeft? =
        ((scan pattern fuel text).filterMap Sum.getLeft?).map f := by
    induction fuel generalizing text with
    | zero => rfl
    | succ fuel ih =>
      cases text with
      | nil => rfl
      | cons c cs =>
        cases read : pattern (c :: cs) with
        | none =>
          rw [scan_missed read] at good blank ⊢
          simp only [List.filterMap_cons, Sum.getLeft?_inr, Sum.getRight?_inr,
            List.forall_mem_cons] at good blank ⊢
          rw [scan_missed (skips c cs blank.1)]
          exact ih cs (Nat.le_of_succ_le_succ fits) good blank.2
        | some pair =>
          obtain ⟨token, rest⟩ := pair
          have shorter := consumes _ _ _ read
          rw [scan_found read] at good blank ⊢
          simp only [List.filterMap_cons, Sum.getLeft?_inl, Sum.getRight?_inl,
            List.forall_mem_cons] at good blank ⊢
          rw [scan_found (reads _ _ _ read good.1)]
          simp only [List.filterMap_cons, Sum.getLeft?_inl, List.map_cons]
          rw [ih rest (by simp only [List.length_cons] at shorter fits; omega) good.2 blank]
  exact enough _ text le_rfl good blank

end Found
end DevopsCli.Matches
