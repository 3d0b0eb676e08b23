import DevopsCli.Lib.Json

/- What the reader of JSON text does with a text inside a longer one: a value is read the same with
   more text behind it, and what is read passes from outside the strings to outside them. -/
namespace DevopsCli.Json
variable {F : Type} (floats : Floats F)

section Behind

/-- A text that ends the value before it: a comma or a new line comes first. -/
def Stops (s : List Char) : Prop := ∃ c rest, s = c :: rest ∧ (c = ',' ∨ c = '\n')

variable {cs s : List Char}

theorem Stops.head (stops : Stops s) (p : Char → Bool) (comma : p ',' = false)
    (line : p '\n' = false) : ∀ c ∈ s.head?, p c = false := by
  obtain ⟨c, rest, rfl, rfl | rfl⟩ := stops
  · intro d first
    obtain rfl := Option.some.inj first
    exact comma
  · intro d first
    obtain rfl := Option.some.inj first
    exact line

theorem while_append {p : Char → Bool} (stop : ∀ c ∈ s.head?, p c = false) (cs : List Char) :
    (cs ++ s).takeWhile p = cs.takeWhile p ∧ (cs ++ s).dropWhile p = cs.dropWhile p ++ s := by
  induction cs with
  | nil =>
    cases s with
    | nil => exact ⟨rfl, rfl⟩
    | cons c rest =>
      have out : p c = false := stop c rfl
      simp [out]
  | cons c cs ih =>
    by_cases inside : p c = true
    · simp [inside, ih.1, ih.2]
    · simp [inside]

theorem matchNatural_digits {c : Char} (zero : c ≠ '0') (cs : List Char) :
    matchNatural (c :: cs) =
      if ((c :: cs).takeWhile Char.isDigit).isEmpty then none
      else some ((c :: cs).takeWhile Char.isDigit, (c :: cs).dropWhile Char.isDigit) :=
  matchNatural.eq_2 _ fun _ same => zero (List.cons.inj same).1

theorem matchInteger_natural {c : Char} (minus : c ≠ '-') (cs : List Char) :
    matchInteger (c :: cs) = matchNatural (c :: cs) :=
  matchInteger.eq_2 _ fun _ same => minus (List.cons.inj same).1

theorem matchFraction_none {c : Char} (point : c ≠ '.') (cs : List Char) :
    matchFraction (c :: cs) = ([], c :: cs) :=
  matchFraction.eq_2 _ fun _ same => point (List.cons.inj same).1

theorem matchExponent_digits {c d : Char} (plus : d ≠ '+') (minus : d ≠ '-') (cs : List Char) :
    matchExponent (c :: d :: cs) =
      if (c = 'e' ∨ c = 'E') ∧ ((d :: cs).takeWhile Char.isDigit).isEmpty = false then
        (c :: (d :: cs).takeWhile Char.isDigit, (d :: cs).dropWhile Char.isDigit)
      else ([], c :: d :: cs) := by
  simp only [matchExponent]
  split
  · next same => exact absurd (List.cons.inj same).1 plus
  · next same => exact absurd (List.cons.inj same).1 minus
  · rfl

theorem matchNatural_append (stops : Stops s) (cs : List Char) :
    matchNatural (cs ++ s) = (matchNatural cs).map fun (digits, rest) => (digits, rest ++ s) := by
  obtain ⟨taken, dropped⟩ := while_append (stops.head Char.isDigit rfl rfl) cs
  cases cs with
  | nil => obtain ⟨c, rest, rfl, rfl | rfl⟩ := stops <;> rfl
  | cons c cs =>
    by_cases zero : c = '0'
    · subst zero
      rfl
    · rw [List.cons_append] at taken dropped ⊢
      rw [matchNatural_digits zero, matchNatural_digits zero, taken, dropped]
      split <;> rfl

theorem matchInteger_append (stops : Stops s) (cs : List Char) :
    matchInteger (cs ++ s) = (matchInteger cs).map fun (digits, rest) => (digits, rest ++ s) := by
  cases cs with
  | nil => obtain ⟨c, rest, rfl, rfl | rfl⟩ := stops <;> rfl
  | cons c cs =>
    by_cases minus : c = '-'
    · subst minus
      simp only [List.cons_append, matchInteger, matchNatural_append stops, Option.map_map]
      rfl
    · have natural := matchNatural_append stops (c :: cs)
      rw [List.cons_append] at natural ⊢
      rw [matchInteger_natural minus, matchInteger_natural minus, natural]

theorem matchFraction_append (stops : Stops s) (cs : List Char) :
    matchFraction (cs ++ s) = ((matchFraction cs).1, (matchFraction cs).2 ++ s) := by
  cases cs with
  | nil => obtain ⟨c, rest, rfl, rfl | rfl⟩ := stops <;> rfl
  | cons c cs =>
    obtain ⟨taken, dropped⟩ := while_append (stops.head Char.isDigit rfl rfl) cs
    by_cases point : c = '.'
    · subst point
      simp only [List.cons_append, matchFraction, taken, dropped]
      split <;> rfl
    · rw [List.cons_append, matchFraction_none point, matchFraction_none point]
      rfl

theorem matchExponent_append (stops : Stops s) (cs : List Char) :
    matchExponent (cs ++ s) = ((matchExponent cs).1, (matchExponent cs).2 ++ s) := by
  cases cs with
  | nil => obtain ⟨c, rest, rfl, rfl | rfl⟩ := stops <;> simp [matchExponent]
  | cons c cs =>
    cases cs with
    | nil => obtain ⟨d, rest, rfl, rfl | rfl⟩ := stops <;> simp [matchExponent]
    | cons d cs =>
      by_cases plus : d = '+'
      · obtain ⟨taken, dropped⟩ := while_append (stops.head Char.isDigit rfl rfl) cs
        subst plus
        simp only [List.cons_append, matchExponent, taken, dropped]
        split <;> rfl
      · by_cases minus : d = '-'
        · obtain ⟨taken, dropped⟩ := while_append (stops.head Char.isDigit rfl rfl) cs
          subst minus
          simp only [List.cons_append, matchExponent, taken, dropped]
          split <;> rfl
        · obtain ⟨taken, dropped⟩ := while_append (stops.head Char.isDigit rfl rfl) (d :: cs)
          rw [List.cons_append] at taken dropped
          rw [List.cons_append, List.cons_append, matchExponent_digits plus minus,
            matchExponent_digits plus minus, taken, dropped]
          split <;> rfl

theorem matchNumber_append (stops : Stops s) (cs : List Char) :
    matchNumber (cs ++ s) = (matchNumber cs).map fun (whole, fraction, exponent, rest) =>
      (whole, fraction, exponent, rest ++ s) := by
  unfold matchNumber
  rw [matchInteger_append stops, Option.map_map, Option.map_map]
  congr 1
  funext pair
  simp only [Function.comp_apply, matchFraction_append stops, matchExponent_append stops]

theorem skipSpace_append (some_ : skipSpace cs ≠ []) (s : List Char) :
    skipSpace (cs ++ s) = skipSpace cs ++ s := by
  induction cs with
  | nil => exact absurd rfl some_
  | cons c cs ih =>
    by_cases space : isSpace c = true
    · simp only [skipSpace, List.cons_append, List.dropWhile_cons, space, if_true] at some_ ih ⊢
      exact ih some_
    · simp [skipSpace, space]

end Behind

section Places

inductive Place where
  | outside
  | inside
  | escaped
  deriving DecidableEq, Repr

def Place.next : Place → Char → Option Place
  | .outside, c =>
    if c = '"' then some .inside else if c.toNat < 128 then some .outside else none
  | .inside, c =>
    if c = '"' then some .outside
    else if c = '\\' then some .escaped
    else if c < ' ' then none
    else some .inside
  | .escaped, c => if ' ' ≤ c ∧ c.toNat < 128 then some .inside else none

def Place.after (place : Place) (text : List Char) : Option Place := text.foldlM Place.next place

@[simp] theorem Place.after_nil (place : Place) : place.after [] = some place := rfl

@[simp] theorem Place.after_cons (place : Place) (c : Char) (text : List Char) :
    place.after (c :: text) = (place.next c).bind fun place => place.after text := rfl

theorem Place.after_append (place : Place) (first later : List Char) :
    place.after (first ++ later) = (place.after first).bind fun place => place.after later :=
  List.foldlM_append

def Passes (start finish : Place) (cs rest : List Char) : Prop :=
  ∃ used, cs = used ++ rest ∧ start.after used = some finish

variable {start middle finish : Place} {c : Char} {cs later rest : List Char}

theorem Passes.here (place : Place) (cs : List Char) : Passes place place cs cs := ⟨[], rfl, rfl⟩

theorem Passes.step (next : start.next c = some middle) (passes : Passes middle finish cs rest) :
    Passes start finish (c :: cs) rest := by
  obtain ⟨used, rfl, after⟩ := passes
  exact ⟨c :: used, rfl, by rw [Place.after_cons, next, Option.bind_some, after]⟩

theorem Passes.trans (first : Passes start middle cs later) (second : Passes middle finish later rest) :
    Passes start finish cs rest := by
  obtain ⟨used, rfl, after⟩ := first
  obtain ⟨used', rfl, after'⟩ := second
  refine ⟨used ++ used', (List.append_assoc ..).symm, ?_⟩
  rw [Place.after_append, after, Option.bind_some, after']

theorem passes_dropWhile {p : Char → Bool}
    (plain : ∀ c, p c = true → Place.outside.next c = some .outside) (cs : List Char) :
    Passes .outside .outside cs (cs.dropWhile p) := by
  induction cs with
  | nil => exact .here _ _
  | cons c cs ih =>
    rw [List.dropWhile_cons]
    split
    · next taken => exact ih.step (plain c taken)
    · exact .here _ _

theorem digit_outside (c : Char) (digit : c.isDigit = true) :
    Place.outside.next c = some .outside := by
  simp only [Char.isDigit, Bool.and_eq_true, decide_eq_true_eq] at digit
  have small : c.toNat < 128 := Nat.lt_of_le_of_lt (UInt32.le_iff_toNat_le.mp digit.2) (by decide)
  have quote : c ≠ '"' := by
    rintro rfl
    exact absurd digit.1 (by decide)
  rw [Place.next, if_neg quote, if_pos small]

theorem space_outside (c : Char) (space : isSpace c = true) :
    Place.outside.next c = some .outside := by
  simp only [isSpace, Bool.or_eq_true, beq_iff_eq] at space
  rcases space with ((rfl | rfl) | rfl) | rfl <;> rfl

theorem passes_skipSpace (cs : List Char) : Passes .outside .outside cs (skipSpace cs) :=
  passes_dropWhile space_outside cs

theorem passes_natural {digits : List Char} (found : matchNatural cs = some (digits, rest)) :
    Passes .outside .outside cs rest := by
  unfold matchNatural at found
  split at found
  · obtain ⟨_, rfl⟩ := Prod.mk.inj (Option.some.inj found)
    exact (Passes.here _ _).step rfl
  · split at found
    · cases found
    · obtain ⟨_, rfl⟩ := Prod.mk.inj (Option.some.inj found)
      exact passes_dropWhile digit_outside cs

theorem passes_integer {digits : List Char} (found : matchInteger cs = some (digits, rest)) :
    Passes .outside .outside cs rest := by
  unfold matchInteger at found
  split at found
  · obtain ⟨⟨natural, behind⟩, inner, same⟩ := Option.map_eq_some_iff.mp found
    obtain ⟨_, rfl⟩ := Prod.mk.inj same
    exact (passes_natural inner).step rfl
  · exact passes_natural found

theorem passes_fraction (cs : List Char) : Passes .outside .outside cs (matchFraction cs).2 := by
  unfold matchFraction
  split
  · split
    · exact .here _ _
    · exact (passes_dropWhile digit_outside _).step rfl
  · exact .here _ _

theorem passes_exponent (cs : List Char) : Passes .outside .outside cs (matchExponent cs).2 := by
  have letter (c : Char) (e : c = 'e' ∨ c = 'E') : Place.outside.next c = some .outside := by
    rcases e with rfl | rfl <;> rfl
  cases cs with
  | nil => exact .here _ _
  | cons c cs =>
    simp only [matchExponent]
    split
    all_goals
      split
      · next e =>
        have digits := passes_dropWhile digit_outside
        first
          | exact ((digits _).step rfl).step (letter c e.1)
          | exact (digits _).step (letter c e.1)
      · exact .here _ _

theorem passes_number {whole fraction exponent : List Char}
    (found : matchNumber cs = some (whole, fraction, exponent, rest)) :
    Passes .outside .outside cs rest := by
  obtain ⟨⟨digits, behind⟩, integer, same⟩ := Option.map_eq_some_iff.mp found
  simp only [Prod.mk.injEq] at same
  obtain ⟨_, _, _, rfl⟩ := same
  exact (passes_integer integer).trans ((passes_fraction _).trans (passes_exponent _))

theorem hexValue_inside {n : Nat} (found : hexValue c = some n) :
    Place.inside.next c = some .inside := by
  have between : '0' ≤ c ∧ c ≠ '\\' := by
    unfold hexValue at found
    split_ifs at found with digit lower upper
    · refine ⟨digit.1, ?_⟩
      rintro rfl
      exact absurd digit.2 (by decide)
    · refine ⟨le_trans (by decide) lower.1, ?_⟩
      rintro rfl
      exact absurd lower.1 (by decide)
    · refine ⟨le_trans (by decide) upper.1, ?_⟩
      rintro rfl
      exact absurd upper.2 (by decide)
  have quote : c ≠ '"' := by
    rintro rfl
    exact absurd between.1 (by decide)
  have printable : ¬c < ' ' := not_lt.mpr (le_trans (by decide) between.1)
  rw [Place.next, if_neg quote, if_neg between.2, if_neg printable]

theorem shortEscape_escaped {e : Char} (found : shortEscape e = some c) :
    Place.escaped.next e = some .inside := by
  unfold shortEscape at found
  split at found
  case h_9 => exact nomatch found
  all_goals rfl

theorem passes_pieces {pieces : List Piece} (found : scanPieces cs = some (pieces, rest)) :
    Passes .inside .outside cs rest := by
  fun_induction scanPieces cs generalizing pieces with
  | case1 => exact nomatch found
  | case2 text =>
    obtain ⟨_, rfl⟩ := Prod.mk.inj (Option.some.inj found)
    exact (Passes.here _ _).step rfl
  | case3 a b c d text ih =>
    simp only [Option.bind_eq_bind, Option.bind_eq_some_iff, readHex] at found
    obtain ⟨code, ⟨_, first, _, second, _, third, _, fourth, _⟩, ⟨others, behind⟩, inner, same⟩ := found
    obtain ⟨_, rfl⟩ := Prod.mk.inj (Option.some.inj same)
    have hex := (((ih inner).step (hexValue_inside fourth)).step (hexValue_inside third)).step
      (hexValue_inside second)
    exact ((hex.step (hexValue_inside first)).step rfl).step rfl
  | case4 e text _ ih =>
    simp only [Option.bind_eq_bind, Option.bind_eq_some_iff] at found
    obtain ⟨char, short, ⟨others, behind⟩, inner, same⟩ := found
    obtain ⟨_, rfl⟩ := Prod.mk.inj (Option.some.inj same)
    exact ((ih inner).step (shortEscape_escaped short)).step rfl
  | case5 => exact nomatch found
  | case6 c text quote _ _ plain ih =>
    simp only [Option.bind_eq_bind, Option.bind_eq_some_iff] at found
    obtain ⟨⟨others, behind⟩, inner, same⟩ := found
    obtain ⟨_, rfl⟩ := Prod.mk.inj (Option.some.inj same)
    obtain ⟨printable, backslash⟩ := not_or.mp plain
    refine (ih inner).step ?_
    rw [Place.next, if_neg quote, if_neg backslash, if_neg printable]

theorem passes_string {text : List Char} (found : scanString cs = some (text, rest)) :
    Passes .inside .outside cs rest := by
  simp only [scanString, Option.bind_eq_bind, Option.bind_eq_some_iff] at found
  obtain ⟨⟨pieces, behind⟩, scanned, joined, _, same⟩ := found
  obtain ⟨_, rfl⟩ := Prod.mk.inj (Option.some.inj same)
  exact passes_pieces scanned

end Places

section Values
variable {cs s rest : List Char}

theorem scanPieces_append {pieces : List Piece} (found : scanPieces cs = some (pieces, rest)) :
    scanPieces (cs ++ s) = some (pieces, rest ++ s) := by
  fun_induction scanPieces cs generalizing pieces with
  | case1 => cases found
  | case2 text =>
    obtain ⟨rfl, rfl⟩ := Prod.mk.inj (Option.some.inj found)
    rfl
  | case3 a b c d text ih =>
    simp only [Option.bind_eq_bind, Option.bind_eq_some_iff] at found
    obtain ⟨code, hex, ⟨others, behind⟩, inner, same⟩ := found
    obtain ⟨rfl, rfl⟩ := Prod.mk.inj (Option.some.inj same)
    simp only [List.cons_append, scanPieces, hex, ih inner]
    rfl
  | case4 e text _ ih =>
    simp only [Option.bind_eq_bind, Option.bind_eq_some_iff] at found
    obtain ⟨char, short, ⟨others, behind⟩, inner, same⟩ := found
    obtain ⟨rfl, rfl⟩ := Prod.mk.inj (Option.some.inj same)
    have no_unit (a b c d : Char) (rest : List Char) : e = 'u' → text ++ s = a :: b :: c :: d :: rest → False := by
      rintro rfl
      cases short
    rw [List.cons_append, List.cons_append, scanPieces.eq_4 _ _ no_unit, short, ih inner]
    rfl
  | case5 => cases found
  | case6 c text quote _ _ plain ih =>
    simp only [Option.bind_eq_bind, Option.bind_eq_some_iff] at found
    obtain ⟨⟨others, behind⟩, inner, same⟩ := found
    obtain ⟨rfl, rfl⟩ := Prod.mk.inj (Option.some.inj same)
    have backslash : c ≠ '\\' := fun same => plain (.inr same)
    rw [List.cons_append, scanPieces.eq_5 _ _ quote (fun _ _ _ _ _ same => absurd same backslash)
      (fun _ _ same => absurd same backslash), if_neg plain, ih inner]
    rfl

theorem scanString_append {text : List Char} (found : scanString cs = some (text, rest)) :
    scanString (cs ++ s) = some (text, rest ++ s) := by
  simp only [scanString, Option.bind_eq_bind, Option.bind_eq_some_iff] at found
  obtain ⟨⟨pieces, behind⟩, scanned, joined, join, same⟩ := found
  obtain ⟨rfl, rfl⟩ := Prod.mk.inj (Option.some.inj same)
  simp only [scanString, scanPieces_append scanned, Option.bind_eq_bind, Option.bind_some, join]
  rfl

/-- What a scan reads leads from outside the strings to outside them. -/
theorem scan_passes (fuel : Nat) :
    (∀ cs v rest, scanOnce floats fuel cs = some (v, rest) → Passes .outside .outside cs rest) ∧
    (∀ cs vs rest, scanElements floats fuel cs = some (vs, rest) →
      Passes .outside .outside cs rest) ∧
    (∀ cs ms rest, scanMembers floats fuel cs = some (ms, rest) →
      Passes .outside .outside cs rest) := by
  induction fuel with
  | zero => simp [scanOnce, scanElements, scanMembers]
  | succ fuel ih =>
    obtain ⟨values, elements, members⟩ := ih
    refine ⟨fun cs v rest scanned => ?_, fun cs vs rest scanned => ?_, fun cs ms rest scanned => ?_⟩
    · unfold scanOnce at scanned
      split at scanned
      · next number =>
        split at scanned <;> (obtain ⟨_, rfl⟩ := scanned; exact passes_number number)
      · split at scanned
        case h_1 =>
          obtain ⟨⟨text, behind⟩, inside, same⟩ := Option.map_eq_some_iff.mp scanned
          obtain ⟨_, rfl⟩ := Prod.mk.inj same
          exact (passes_string inside).step rfl
        case h_2 text _ =>
          have spaces := passes_skipSpace text
          split at scanned
          · next closed =>
            obtain ⟨_, rfl⟩ := scanned
            rw [closed] at spaces
            exact (spaces.trans ((Passes.here _ _).step rfl)).step rfl
          · obtain ⟨⟨pairs, behind⟩, inside, same⟩ := Option.map_eq_some_iff.mp scanned
            obtain ⟨_, rfl⟩ := Prod.mk.inj same
            exact (spaces.trans (members _ _ _ inside)).step rfl
        case h_3 text _ =>
          have spaces := passes_skipSpace text
          split at scanned
          · next closed =>
            obtain ⟨_, rfl⟩ := scanned
            rw [closed] at spaces
            exact (spaces.trans ((Passes.here _ _).step rfl)).step rfl
          · obtain ⟨⟨vs, behind⟩, inside, same⟩ := Option.map_eq_some_iff.mp scanned
            obtain ⟨_, rfl⟩ := Prod.mk.inj same
            exact (spaces.trans (elements _ _ _ inside)).step rfl
        case h_10 => cases scanned
        -- the names: each of their characters stands outside the strings
        all_goals obtain ⟨_, rfl⟩ := scanned
        · exact ⟨['n', 'u', 'l', 'l'], rfl, rfl⟩
        · exact ⟨['t', 'r', 'u', 'e'], rfl, rfl⟩
        · exact ⟨['f', 'a', 'l', 's', 'e'], rfl, rfl⟩
        · exact ⟨['N', 'a', 'N'], rfl, rfl⟩
        · exact ⟨['I', 'n', 'f', 'i', 'n', 'i', 't', 'y'], rfl, rfl⟩
        · exact ⟨['-', 'I', 'n', 'f', 'i', 'n', 'i', 't', 'y'], rfl, rfl⟩
    · simp only [scanElements, Option.bind_eq_bind, Option.bind_eq_some_iff] at scanned
      obtain ⟨⟨v, behind⟩, first, later⟩ := scanned
      have read := (values _ _ _ first).trans (passes_skipSpace behind)
      split at later
      · next comma =>
        obtain ⟨⟨others, _⟩, inside, same⟩ := Option.map_eq_some_iff.mp later
        obtain ⟨_, rfl⟩ := Prod.mk.inj same
        rw [comma] at read
        exact read.trans (((passes_skipSpace _).trans (elements _ _ _ inside)).step rfl)
      · next close =>
        obtain ⟨_, rfl⟩ := later
        rw [close] at read
        exact read.trans ((Passes.here _ _).step rfl)
      · cases later
    · unfold scanMembers at scanned
      split at scanned
      · next next_ text same =>
        obtain rfl : fuel = next_ := Nat.succ.inj same
        simp only [Option.bind_eq_bind, Option.bind_eq_some_iff] at scanned
        obtain ⟨⟨k, behind⟩, key, scanned⟩ := scanned
        have opened := ((passes_string key).trans (passes_skipSpace behind)).step
          (rfl : Place.outside.next '"' = some .inside)
        split at scanned
        · next colon =>
          simp only [Option.bind_eq_some_iff] at scanned
          obtain ⟨⟨v, behind'⟩, first, later⟩ := scanned
          rw [colon] at opened
          have value := (passes_skipSpace _).trans (values _ _ _ first)
          have read := opened.trans ((value.trans (passes_skipSpace behind')).step rfl)
          split at later
          · next comma =>
            obtain ⟨⟨others, _⟩, inside, same⟩ := Option.map_eq_some_iff.mp later
            obtain ⟨_, rfl⟩ := Prod.mk.inj same
            rw [comma] at read
            exact read.trans (((passes_skipSpace _).trans (members _ _ _ inside)).step rfl)
          · next close =>
            obtain ⟨_, rfl⟩ := later
            rw [close] at read
            exact read.trans ((Passes.here _ _).step rfl)
          · cases later
        · cases scanned
      · cases scanned

theorem scanMembers_nil (fuel : Nat) : scanMembers floats fuel [] = none := by cases fuel <;> rfl

theorem scanOnce_nil (fuel : Nat) : scanOnce floats fuel [] = none := by cases fuel <;> rfl

theorem scanElements_nil (fuel : Nat) : scanElements floats fuel [] = none := by
  cases fuel with
  | zero => rfl
  | succ fuel => rw [scanElements, scanOnce_nil, Option.bind_eq_bind, Option.bind_none]

theorem scan_append (stops : Stops s) (fuel : Nat) :
    (∀ cs v rest more, fuel ≤ more → scanOnce floats fuel cs = some (v, rest) →
      scanOnce floats more (cs ++ s) = some (v, rest ++ s)) ∧
    (∀ cs vs rest more, fuel ≤ more → scanElements floats fuel cs = some (vs, rest) →
      scanElements floats more (cs ++ s) = some (vs, rest ++ s)) ∧
    (∀ cs ms rest more, fuel ≤ more → scanMembers floats fuel cs = some (ms, rest) →
      scanMembers floats more (cs ++ s) = some (ms, rest ++ s)) := by
  induction fuel with
  | zero => simp [scanOnce, scanElements, scanMembers]
  | succ fuel ih =>
    obtain ⟨values, elements, members⟩ := ih
    refine ⟨fun cs v rest more enough scanned => ?_, fun cs vs rest more enough scanned => ?_,
      fun cs ms rest more enough scanned => ?_⟩
    all_goals
      obtain ⟨more, rfl⟩ : ∃ fewer, more = fewer + 1 := ⟨more - 1, by omega⟩
      replace enough : fuel ≤ more := by omega
    · have number := matchNumber_append stops cs
      unfold scanOnce at scanned
      split at scanned
      · next found =>
        rw [found] at number
        unfold scanOnce
        simp only [number, Option.map_some]
        split at scanned
        · next whole =>
          obtain ⟨rfl, rfl⟩ := scanned
          rw [if_pos whole]
        · next whole =>
          obtain ⟨rfl, rfl⟩ := scanned
          rw [if_neg whole]
      · next found =>
        rw [found, Option.map_none] at number
        unfold scanOnce
        simp only [number]
        clear number found
        split at scanned
        case h_1 =>
          obtain ⟨⟨text, behind⟩, inside, same⟩ := Option.map_eq_some_iff.mp scanned
          obtain ⟨rfl, rfl⟩ := Prod.mk.inj same
          simp only [List.cons_append, scanString_append inside, Option.map_some]
        case h_2 text =>
          simp only [List.cons_append]
          split at scanned
          · next closed =>
            obtain ⟨rfl, rfl⟩ := scanned
            rw [skipSpace_append (by simp [closed]), closed]
            rfl
          · next open_ =>
            obtain ⟨⟨pairs, behind⟩, inside, same⟩ := Option.map_eq_some_iff.mp scanned
            obtain ⟨rfl, rfl⟩ := Prod.mk.inj same
            have read := members _ _ _ more enough inside
            cases begun : skipSpace text with
            | nil => rw [begun, scanMembers_nil] at inside; cases inside
            | cons c cs =>
              rw [skipSpace_append (by simp [begun]), begun]
              rw [begun] at read
              split
              · next same => exact absurd begun (by rw [(List.cons.inj same).1]; exact open_ _)
              · rw [read, Option.map_some]
        case h_3 text =>
          simp only [List.cons_append]
          split at scanned
          · next closed =>
            obtain ⟨rfl, rfl⟩ := scanned
            rw [skipSpace_append (by simp [closed]), closed]
            rfl
          · next open_ =>
            obtain ⟨⟨vs, behind⟩, inside, same⟩ := Option.map_eq_some_iff.mp scanned
            obtain ⟨rfl, rfl⟩ := Prod.mk.inj same
            have read := elements _ _ _ more enough inside
            cases begun : skipSpace text with
            | nil => rw [begun, scanElements_nil] at inside; cases inside
            | cons c cs =>
              rw [skipSpace_append (by simp [begun]), begun]
              rw [begun] at read
              split
              · next same => exact absurd begun (by rw [(List.cons.inj same).1]; exact open_ _)
              · rw [read, Option.map_some]
        case h_10 => cases scanned
        all_goals
          obtain ⟨rfl, rfl⟩ := scanned
          rfl
    · simp only [scanElements, Option.bind_eq_bind, Option.bind_eq_some_iff] at scanned
      obtain ⟨⟨v, behind⟩, first, later⟩ := scanned
      rw [scanElements, values _ _ _ more enough first, Option.bind_eq_bind, Option.bind_some]
      split at later
      · next text comma =>
        obtain ⟨⟨others, _⟩, inside, same⟩ := Option.map_eq_some_iff.mp later
        obtain ⟨rfl, rfl⟩ := Prod.mk.inj same
        have some_ : skipSpace text ≠ [] := by
          intro none
          rw [none, scanElements_nil] at inside
          cases inside
        simp only [skipSpace_append (by simp [comma] : skipSpace behind ≠ []), comma,
          List.cons_append, skipSpace_append some_, elements _ _ _ more enough inside,
          Option.map_some]
      · next close =>
        obtain ⟨rfl, rfl⟩ := later
        simp only [skipSpace_append (by simp [close] : skipSpace behind ≠ []), close,
          List.cons_append]
      · cases later
    · unfold scanMembers at scanned
      split at scanned
      · next next_ text same =>
        obtain rfl : fuel = next_ := Nat.succ.inj same
        simp only [Option.bind_eq_bind, Option.bind_eq_some_iff] at scanned
        obtain ⟨⟨k, behind⟩, key, scanned⟩ := scanned
        split at scanned
        · next value colon =>
          simp only [Option.bind_eq_some_iff] at scanned
          obtain ⟨⟨v, behind'⟩, first, later⟩ := scanned
          have some_ : skipSpace value ≠ [] := by
            intro none
            rw [none, scanOnce_nil] at first
            cases first
          rw [List.cons_append, scanMembers, scanString_append key, Option.bind_eq_bind,
            Option.bind_some]
          simp only [skipSpace_append (by simp [colon] : skipSpace behind ≠ []), colon,
            List.cons_append, skipSpace_append some_, values _ _ _ more enough first,
            Option.bind_eq_bind, Option.bind_some]
          split at later
          · next key' comma =>
            obtain ⟨⟨others, _⟩, inside, same⟩ := Option.map_eq_some_iff.mp later
            obtain ⟨rfl, rfl⟩ := Prod.mk.inj same
            have more_ : skipSpace key' ≠ [] := by
              intro none
              rw [none, scanMembers_nil] at inside
              cases inside
            simp only [skipSpace_append (by simp [comma] : skipSpace behind' ≠ []), comma,
              List.cons_append, skipSpace_append more_, members _ _ _ more enough inside,
              Option.map_some]
          · next close =>
            obtain ⟨rfl, rfl⟩ := later
            simp only [skipSpace_append (by simp [close] : skipSpace behind' ≠ []), close,
              List.cons_append]
          · cases later
        · cases scanned
      · cases scanned

end Values

section Documents
variable {floats : Floats F} {cs s text behind : List Char} {v : Json F} {vs : List (Json F)}

theorem loads_scan (read : loads floats cs = some v) : ∃ rest,
    scanOnce floats (cs.length + 1) (skipSpace cs) = some (v, rest) ∧ skipSpace rest = [] := by
  unfold loads at read
  split at read
  · next value rest scanned =>
    split at read
    · next blank =>
      obtain rfl := Option.some.inj read
      exact ⟨rest, scanned, List.isEmpty_iff.mp blank⟩
    · cases read
  · cases read

theorem loads_outside (read : loads floats cs = some v) :
    Place.outside.after cs = some .outside := by
  obtain ⟨rest, scanned, blank⟩ := loads_scan read
  have value := (scan_passes floats _).1 _ _ _ scanned
  obtain ⟨used, same, after⟩ := ((passes_skipSpace cs).trans value).trans (passes_skipSpace rest)
  rw [blank, List.append_nil] at same
  rwa [same]

theorem skipSpace_ne_nil (read : loads floats cs = some v) : skipSpace cs ≠ [] := by
  intro none
  obtain ⟨rest, scanned, _⟩ := loads_scan read
  rw [none, scanOnce_nil] at scanned
  cases scanned

theorem skipSpace_all (blank : skipSpace cs = []) (s : List Char) :
    skipSpace (cs ++ s) = skipSpace s := by
  induction cs with
  | nil => rfl
  | cons c cs ih =>
    have space : isSpace c = true := by
      by_contra solid
      simp [skipSpace, solid] at blank
    rw [skipSpace, List.dropWhile_cons_of_pos space] at blank
    rw [List.cons_append, skipSpace, List.dropWhile_cons_of_pos space]
    exact ih blank

theorem scanOnce_document (read : loads floats cs = some v) (stops : Stops s) {fuel : Nat}
    (enough : cs.length < fuel) : ∃ rest,
    scanOnce floats fuel (skipSpace (cs ++ s)) = some (v, rest) ∧ skipSpace rest = skipSpace s := by
  obtain ⟨rest, scanned, blank⟩ := loads_scan read
  refine ⟨rest ++ s, ?_, skipSpace_all blank s⟩
  rw [skipSpace_append (skipSpace_ne_nil read)]
  exact (scan_append floats stops _).1 _ _ _ fuel enough scanned

theorem scanElements_last (read : loads floats text = some v) {fuel : Nat}
    (enough : text.length < fuel) :
    scanElements floats (fuel + 1) (skipSpace (text ++ ['\n', ']'])) = some ([v], []) := by
  obtain ⟨rest, scanned, close⟩ := scanOnce_document read ⟨'\n', [']'], rfl, .inr rfl⟩ enough
  have bracket : skipSpace rest = [']'] := close
  rw [scanElements, scanned, Option.bind_eq_bind, Option.bind_some]
  simp only [bracket]

theorem scanElements_more (read : loads floats text = some v) {fuel : Nat}
    (enough : text.length < fuel)
    (others : scanElements floats fuel (skipSpace behind) = some (vs, [])) :
    scanElements floats (fuel + 1) (skipSpace (text ++ ',' :: behind)) = some (v :: vs, []) := by
  obtain ⟨rest, scanned, close⟩ := scanOnce_document read ⟨',', behind, rfl, .inl rfl⟩ enough
  have comma : skipSpace rest = ',' :: behind := close
  rw [scanElements, scanned, Option.bind_eq_bind, Option.bind_some]
  simp only [comma, others, Option.map_some]

theorem scanElements_closed (fuel : Nat) (cs : List Char) :
    scanElements floats fuel (']' :: cs) = none := by
  cases fuel with
  | zero => rfl
  | succ fuel =>
    have no_value : scanOnce floats fuel (']' :: cs) = none := by cases fuel <;> rfl
    rw [scanElements, no_value, Option.bind_eq_bind, Option.bind_none]

theorem loads_array (read : scanElements floats (cs.length + 1) (skipSpace cs) = some (vs, [])) :
    loads floats ('[' :: cs) = some (.arr vs) := by
  have number : matchNumber ('[' :: cs) = none := rfl
  have scanned : scanOnce floats (cs.length + 2) ('[' :: cs) = some (arr vs, []) := by
    unfold scanOnce
    simp only [number]
    split
    · next closed =>
      rw [closed, scanElements_closed] at read
      cases read
    · rw [read, Option.map_some]
  have begun : skipSpace ('[' :: cs) = '[' :: cs := rfl
  rw [loads, begun, List.length_cons, scanned]
  rfl

end Documents
end DevopsCli.Json
