import Mathlib

/- The numbers and the strings of JSON text. Text is written in ASCII, each other character by
   its UTF-16 code units. -/
namespace DevopsCli.Json

section Numbers

def matchNatural : List Char → Option (List Char × List Char)
  | '0' :: rest => some (['0'], rest)
  | cs =>
    if (cs.takeWhile Char.isDigit).isEmpty then none
    else some (cs.takeWhile Char.isDigit, cs.dropWhile Char.isDigit)

def matchInteger : List Char → Option (List Char × List Char)
  | '-' :: cs => (matchNatural cs).map fun (digits, rest) => ('-' :: digits, rest)
  | cs => matchNatural cs

def matchFraction : List Char → List Char × List Char
  | '.' :: cs =>
    if (cs.takeWhile Char.isDigit).isEmpty then ([], '.' :: cs)
    else ('.' :: cs.takeWhile Char.isDigit, cs.dropWhile Char.isDigit)
  | cs => ([], cs)

def matchExponent : List Char → List Char × List Char
  | [] => ([], [])
  | c :: cs =>
    let (sign, digits) : List Char × List Char :=
      match cs with
      | '+' :: digits => (['+'], digits)
      | '-' :: digits => (['-'], digits)
      | digits => ([], digits)
    if (c = 'e' ∨ c = 'E') ∧ (digits.takeWhile Char.isDigit).isEmpty = false then
      (c :: sign ++ digits.takeWhile Char.isDigit, digits.dropWhile Char.isDigit)
    else ([], c :: cs)

/-- The whole part, the fraction and the exponent of a number, and the text after it. -/
def matchNumber (cs : List Char) : Option (List Char × List Char × List Char × List Char) :=
  (matchInteger cs).map fun (whole, rest) =>
    let (fraction, rest) := matchFraction rest
    let (exponent, rest) := matchExponent rest
    (whole, fraction, exponent, rest)

def readInt : List Char → Int
  | '-' :: digits => -Nat.ofDigitChars 10 digits 0
  | digits => Nat.ofDigitChars 10 digits 0

def intRepr (i : Int) : List Char :=
  if i < 0 then '-' :: Nat.toDigits 10 i.natAbs else Nat.toDigits 10 i.natAbs

def Closes (rest : List Char) : Prop :=
  ∀ c ∈ rest.head?, c.isDigit = false ∧ c ≠ '.' ∧ c ≠ 'e' ∧ c ≠ 'E'

theorem toDigits_head (n : Nat) (positive : 0 < n) :
    ∃ c cs, Nat.toDigits 10 n = c :: cs ∧ c ≠ '0' := by
  induction n using Nat.strong_induction_on with
  | _ n ih =>
    by_cases small : n < 10
    · refine ⟨n.digitChar, [], Nat.toDigits_of_lt_base small, ?_⟩
      interval_cases n <;> decide
    · obtain ⟨c, cs, same, first⟩ := ih (n / 10) (by omega) (by omega)
      exact ⟨c, cs ++ [(n % 10).digitChar], by
        rw [Nat.toDigits_of_base_le (by decide) (by omega), same, List.cons_append], first⟩

theorem takeWhile_digits {digits rest : List Char} (all : ∀ c ∈ digits, c.isDigit = true)
    (closes : Closes rest) :
    (digits ++ rest).takeWhile Char.isDigit = digits ∧
      (digits ++ rest).dropWhile Char.isDigit = rest := by
  rw [List.takeWhile_append_of_pos all, List.dropWhile_append_of_pos all]
  cases rest with
  | nil => simp
  | cons c rest => simp [(closes c rfl).1]

theorem matchNatural_toDigits (n : Nat) {rest : List Char} (closes : Closes rest) :
    matchNatural (Nat.toDigits 10 n ++ rest) = some (Nat.toDigits 10 n, rest) := by
  have all : ∀ c ∈ Nat.toDigits 10 n, c.isDigit = true :=
    fun c member => Nat.isDigit_of_mem_toDigits (by decide) (by decide) member
  obtain ⟨taken, dropped⟩ := takeWhile_digits all closes
  rcases Nat.eq_zero_or_pos n with rfl | positive
  · rfl
  · obtain ⟨c, cs, same, first⟩ := toDigits_head n positive
    rw [same, List.cons_append] at taken dropped ⊢
    unfold matchNatural
    split
    · rename_i zero
      exact absurd (List.cons.inj zero).1 first
    · rw [taken, dropped]
      rfl

theorem matchNumber_plain {cs whole rest : List Char} (closes : Closes rest)
    (integer : matchInteger cs = some (whole, rest)) :
    matchNumber cs = some (whole, [], [], rest) := by
  rw [matchNumber, integer]
  cases rest with
  | nil => rfl
  | cons c rest =>
    obtain ⟨_, point, e, E⟩ := closes c rfl
    have fraction : matchFraction (c :: rest) = ([], c :: rest) := by
      unfold matchFraction
      split
      · rename_i dot
        exact absurd (List.cons.inj dot).1 point
      · rfl
    simp [fraction, matchExponent, e, E]

theorem toDigits_not_minus (n : Nat) (rest cs : List Char) :
    Nat.toDigits 10 n ++ rest ≠ '-' :: cs := by
  intro same
  cases digits : Nat.toDigits 10 n with
  | nil => exact Nat.toDigits_ne_nil digits
  | cons c tail =>
    have digit : c.isDigit = true :=
      Nat.isDigit_of_mem_toDigits (by decide) (by decide) (digits ▸ List.mem_cons_self)
    rw [digits, List.cons_append, List.cons.injEq] at same
    exact absurd (same.1 ▸ digit) (by decide)

theorem intRepr_plain (i : Int) : '>' ∉ intRepr i := by
  have digits (n : Nat) : '>' ∉ Nat.toDigits 10 n := fun member =>
    absurd (Nat.isDigit_of_mem_toDigits (by decide) (by decide) member) (by decide)
  unfold intRepr
  split
  · simp [digits]
  · exact digits _

theorem intRepr_printable (i : Int) : ∀ c ∈ intRepr i, ' ' ≤ c := by
  have digits (n : Nat) : ∀ c ∈ Nat.toDigits 10 n, ' ' ≤ c := by
    intro c member
    have digit : c.isDigit = true := Nat.isDigit_of_mem_toDigits (by decide) (by decide) member
    simp only [Char.isDigit, Bool.and_eq_true, decide_eq_true_eq] at digit
    exact UInt32.le_trans (by decide : ' '.val ≤ '0'.val) digit.1
  unfold intRepr
  split
  · exact List.forall_mem_cons.mpr ⟨by decide, digits _⟩
  · exact digits _

theorem matchNumber_intRepr (i : Int) {rest : List Char} (closes : Closes rest) :
    matchNumber (intRepr i ++ rest) = some (intRepr i, [], [], rest) := by
  refine matchNumber_plain closes ?_
  unfold intRepr
  split
  · simp [matchInteger, matchNatural_toDigits _ closes]
  · unfold matchInteger
    split
    · rename_i minus
      exact absurd minus (toDigits_not_minus _ _ _)
    · exact matchNatural_toDigits _ closes

theorem readInt_intRepr (i : Int) : readInt (intRepr i) = i := by
  unfold intRepr
  split
  · simp only [readInt, Nat.ofDigitChars_ten_toDigits]
    omega
  · unfold readInt
    split
    · rename_i minus
      exact absurd minus (by simpa using toDigits_not_minus i.natAbs [] _)
    · rw [Nat.ofDigitChars_ten_toDigits]
      omega

end Numbers

section Strings

def hexDigits (n : Nat) : List Char :=
  [Nat.digitChar (n / 4096 % 16), Nat.digitChar (n / 256 % 16), Nat.digitChar (n / 16 % 16),
    Nat.digitChar (n % 16)]

def hexValue (c : Char) : Option Nat :=
  if '0' ≤ c ∧ c ≤ '9' then some (c.toNat - '0'.toNat)
  else if 'a' ≤ c ∧ c ≤ 'f' then some (c.toNat - 'a'.toNat + 10)
  else if 'A' ≤ c ∧ c ≤ 'F' then some (c.toNat - 'A'.toNat + 10)
  else none

def readHex (a b c d : Char) : Option Nat := do
  return 4096 * (← hexValue a) + 256 * (← hexValue b) + 16 * (← hexValue c) + (← hexValue d)

inductive Piece where
  | char (c : Char)
  | unit (code : Nat)
  deriving DecidableEq, Repr

def shortEscape : Char → Option Char
  | '"' => some '"'
  | '\\' => some '\\'
  | '/' => some '/'
  | 'b' => some '\x08'
  | 'f' => some '\x0c'
  | 'n' => some '\n'
  | 'r' => some '\r'
  | 't' => some '\t'
  | _ => none

def scanPieces : List Char → Option (List Piece × List Char)
  | [] => none
  | '"' :: rest => some ([], rest)
  | '\\' :: 'u' :: a :: b :: c :: d :: rest => do
    let code ← readHex a b c d
    let (pieces, rest) ← scanPieces rest
    return (.unit code :: pieces, rest)
  | '\\' :: c :: rest => do
    let char ← shortEscape c
    let (pieces, rest) ← scanPieces rest
    return (.char char :: pieces, rest)
  | c :: rest =>
    if c < ' ' ∨ c = '\\' then none
    else do
      let (pieces, rest) ← scanPieces rest
      return (.char c :: pieces, rest)

def charOf (code : Nat) : Option Char := if code.isValidChar then some (Char.ofNat code) else none

/-- The characters of a string. A surrogate without its partner is no character. -/
def joinPieces : List Piece → Option (List Char)
  | [] => some []
  | .char c :: pieces => (joinPieces pieces).map (c :: ·)
  | .unit high :: .unit low :: pieces =>
    if (0xd800 ≤ high ∧ high ≤ 0xdbff) ∧ 0xdc00 ≤ low ∧ low ≤ 0xdfff then do
      let c ← charOf (0x10000 + (high - 0xd800) * 1024 + (low - 0xdc00))
      return c :: (← joinPieces pieces)
    else do
      let c ← charOf high
      return c :: (← joinPieces (.unit low :: pieces))
  | .unit code :: pieces => do
    let c ← charOf code
    return c :: (← joinPieces pieces)

def scanString (cs : List Char) : Option (List Char × List Char) := do
  let (pieces, rest) ← scanPieces cs
  return (← joinPieces pieces, rest)

def escapeUnit (code : Nat) : List Char := ['\\', 'u'] ++ hexDigits code

def escapeChar (c : Char) : List Char :=
  match c with
  | '"' => ['\\', '"']
  | '\\' => ['\\', '\\']
  | '\x08' => ['\\', 'b']
  | '\x0c' => ['\\', 'f']
  | '\n' => ['\\', 'n']
  | '\r' => ['\\', 'r']
  | '\t' => ['\\', 't']
  | c =>
    if ' ' ≤ c ∧ c ≤ '~' then [c]
    else if c.toNat < 0x10000 then escapeUnit c.toNat
    else escapeUnit (0xd800 + (c.toNat - 0x10000) / 1024) ++
      escapeUnit (0xdc00 + (c.toNat - 0x10000) % 1024)

def escapeString (cs : List Char) : List Char := cs.flatMap escapeChar

def escapeGreater (cs : List Char) : List Char :=
  cs.flatMap fun c => if c = '>' then ['\\', 'u', '0', '0', '3', 'e'] else [c]

theorem escapeGreater_append (cs ds : List Char) :
    escapeGreater (cs ++ ds) = escapeGreater cs ++ escapeGreater ds := List.flatMap_append

theorem escapeGreater_id {cs : List Char} (plain : '>' ∉ cs) : escapeGreater cs = cs := by
  induction cs with
  | nil => rfl
  | cons c cs ih =>
    obtain ⟨first, later⟩ := not_or.mp (List.mem_cons.not.mp plain)
    have same : escapeGreater (c :: cs) = c :: escapeGreater cs := by
      simp [escapeGreater, Ne.symm first]
    rw [same, ih later]

theorem escapeChar_printable (c : Char) : ∀ d ∈ escapeChar c, ' ' ≤ d := by
  have digit (n : Nat) : ' ' ≤ Nat.digitChar (n % 16) := by
    have small : n % 16 < 16 := Nat.mod_lt _ (by decide)
    generalize n % 16 = d at small
    interval_cases d <;> decide
  have unit (n : Nat) : ∀ d ∈ escapeUnit n, ' ' ≤ d := by
    simp only [escapeUnit, hexDigits, List.cons_append, List.nil_append, List.forall_mem_cons, digit,
      true_and]
    simp
  unfold escapeChar
  split
  case h_8 =>
    split_ifs with printable small
    · simpa using printable.1
    · exact unit _
    · exact List.forall_mem_append.mpr ⟨unit _, unit _⟩
  all_goals simp

theorem escapeString_printable (cs : List Char) : ∀ d ∈ escapeString cs, ' ' ≤ d := by
  simp only [escapeString, List.mem_flatMap]
  rintro d ⟨c, _, member⟩
  exact escapeChar_printable c d member

theorem digitChar_hex (d : Nat) (small : d < 16) :
    hexValue (Nat.digitChar d) = some d ∧ Nat.digitChar d ≠ '>' := by
  interval_cases d <;> decide

theorem readHex_hexDigits (n : Nat) (small : n < 0x10000) :
    readHex (Nat.digitChar (n / 4096 % 16)) (Nat.digitChar (n / 256 % 16))
      (Nat.digitChar (n / 16 % 16)) (Nat.digitChar (n % 16)) = some n := by
  simp only [readHex, (digitChar_hex _ (Nat.mod_lt _ (by decide : 0 < 16))).1, Option.bind_eq_bind,
    Option.bind_some, Option.pure_def, Option.some.injEq]
  omega

theorem escapeUnit_plain (n : Nat) : '>' ∉ escapeUnit n := by
  have plain (d : Nat) : '>' ≠ Nat.digitChar (d % 16) :=
    (digitChar_hex _ (Nat.mod_lt _ (by decide))).2.symm
  simp [escapeUnit, hexDigits, plain]

theorem scan_unit (n : Nat) (small : n < 0x10000) (rest : List Char) :
    scanPieces (escapeUnit n ++ rest) =
      (scanPieces rest).map fun (pieces, rest) => (.unit n :: pieces, rest) := by
  simp only [escapeUnit, hexDigits, List.cons_append, List.nil_append, scanPieces,
    readHex_hexDigits n small]
  cases scanPieces rest <;> rfl

theorem charOf_toNat (c : Char) : charOf c.toNat = some c := by
  have valid : c.toNat.isValidChar := c.valid
  rw [charOf, if_pos valid, Char.ofNat_toNat]

theorem valid_not_surrogate (c : Char) : c.toNat < 0xd800 ∨ 0xdfff < c.toNat ∧ c.toNat < 0x110000 :=
  c.valid

structure ReadsAs (text : List Char) (c : Char) (pieces : List Piece) : Prop where
  scan : ∀ rest, scanPieces (text ++ rest) =
    (scanPieces rest).map fun (later, rest) => (pieces ++ later, rest)
  join : ∀ later, joinPieces (pieces ++ later) = (joinPieces later).map (c :: ·)

theorem reads_unit (c : Char) (small : c.toNat < 0x10000) :
    ReadsAs (escapeUnit c.toNat) c [.unit c.toNat] where
  scan := scan_unit c.toNat small
  join later := by
    have whole : ¬(0xd800 ≤ c.toNat ∧ c.toNat ≤ 0xdbff) := by
      have := valid_not_surrogate c
      omega
    rcases later with _ | ⟨_ | low, later⟩ <;>
      simp [joinPieces, charOf_toNat, whole, Option.map_eq_bind]

theorem reads_pair (c : Char) (large : 0x10000 ≤ c.toNat) :
    ReadsAs (escapeUnit (0xd800 + (c.toNat - 0x10000) / 1024) ++
      escapeUnit (0xdc00 + (c.toNat - 0x10000) % 1024)) c
      [.unit (0xd800 + (c.toNat - 0x10000) / 1024), .unit (0xdc00 + (c.toNat - 0x10000) % 1024)] := by
  have bound : c.toNat < 0x110000 := by
    have := valid_not_surrogate c
    omega
  have whole : 0x10000 + (0xd800 + (c.toNat - 0x10000) / 1024 - 0xd800) * 1024 +
      (0xdc00 + (c.toNat - 0x10000) % 1024 - 0xdc00) = c.toNat := by omega
  have pair : (0xd800 ≤ 0xd800 + (c.toNat - 0x10000) / 1024 ∧
      0xd800 + (c.toNat - 0x10000) / 1024 ≤ 0xdbff) ∧
      0xdc00 ≤ 0xdc00 + (c.toNat - 0x10000) % 1024 ∧
      0xdc00 + (c.toNat - 0x10000) % 1024 ≤ 0xdfff := by omega
  refine ⟨fun rest => ?_, fun later => ?_⟩
  · rw [List.append_assoc, scan_unit _ (by omega), scan_unit _ (by omega)]
    cases scanPieces rest <;> rfl
  · simp only [List.cons_append, List.nil_append, joinPieces, if_pos pair, whole, charOf_toNat]
    cases joinPieces later <;> rfl

theorem reads_plain (c : Char) (printable : ¬c < ' ') (quote : c ≠ '"') (backslash : c ≠ '\\') :
    ReadsAs [c] c [.char c] where
  scan rest := by
    rw [List.singleton_append, scanPieces]
    · simp only [printable, backslash, or_self, if_false]
      cases scanPieces rest <;> rfl
    · exact fun same => quote same
    · exact fun _ _ _ _ _ same => absurd same backslash
    · exact fun _ _ same => absurd same backslash
  join _ := rfl

theorem reads_short (e c : Char) (short : shortEscape e = some c) : ReadsAs ['\\', e] c [.char c] where
  scan rest := by
    rw [List.cons_append, List.cons_append, List.nil_append, scanPieces]
    · simp only [short, Option.bind_eq_bind, Option.bind_some]
      cases scanPieces rest <;> rfl
    · rintro _ _ _ _ _ rfl _
      exact nomatch short
  join _ := rfl

theorem reads_char (c : Char) : ∃ pieces, ReadsAs (escapeGreater (escapeChar c)) c pieces := by
  unfold escapeChar
  split
  · exact ⟨_, reads_short '"' _ rfl⟩
  · exact ⟨_, reads_short '\\' _ rfl⟩
  · exact ⟨_, reads_short 'b' _ rfl⟩
  · exact ⟨_, reads_short 'f' _ rfl⟩
  · exact ⟨_, reads_short 'n' _ rfl⟩
  · exact ⟨_, reads_short 'r' _ rfl⟩
  · exact ⟨_, reads_short 't' _ rfl⟩
  · rename_i quote backslash _ _ _ _ _
    by_cases printable : ' ' ≤ c ∧ c ≤ '~'
    · rw [if_pos printable]
      by_cases greater : c = '>'
      · subst greater
        exact ⟨_, reads_unit '>' (by decide)⟩
      · rw [escapeGreater_id (by simpa using Ne.symm greater)]
        exact ⟨_, reads_plain c (Char.not_lt.mpr printable.1) (fun same => quote same)
          fun same => backslash same⟩
    · rw [if_neg printable]
      split
      · rename_i small
        rw [escapeGreater_id (escapeUnit_plain _)]
        exact ⟨_, reads_unit c small⟩
      · rename_i large
        rw [escapeGreater_append, escapeGreater_id (escapeUnit_plain _),
          escapeGreater_id (escapeUnit_plain _)]
        exact ⟨_, reads_pair c (Nat.le_of_not_lt large)⟩

theorem scanString_escape (cs rest : List Char) :
    scanString (escapeGreater (escapeString cs) ++ '"' :: rest) = some (cs, rest) := by
  have pieces : ∃ pieces, scanPieces (escapeGreater (escapeString cs) ++ '"' :: rest) =
      some (pieces, rest) ∧ joinPieces pieces = some cs := by
    induction cs with
    | nil => exact ⟨[], by simp [escapeGreater, escapeString, scanPieces], rfl⟩
    | cons c cs ih =>
      obtain ⟨later, scanned, joined⟩ := ih
      obtain ⟨first, reads⟩ := reads_char c
      refine ⟨first ++ later, ?_, ?_⟩
      · rw [escapeString, List.flatMap_cons, escapeGreater_append, List.append_assoc, reads.scan,
          ← escapeString, scanned]
        rfl
      · rw [reads.join, joined]
        rfl
  obtain ⟨pieces, scanned, joined⟩ := pieces
  simp [scanString, scanned, joined]

end Strings
end DevopsCli.Json
