import DevopsCli.Lib.PyStr

/- The decimal digits of Unicode: the characters of \d, which int reads. The table beyond ASCII comes
   from outside. -/
namespace DevopsCli.PyStr

structure Decimals where
  digit : Char → Option Nat
  ascii : ∀ c : Char, c.toNat < 128 → digit c = if c.isDigit then some (c.toNat - 48) else none

namespace Decimals
variable (decimals : Decimals)

def isDigit (c : Char) : Bool := (decimals.digit c).isSome

def number (run : Str) : Nat := run.foldl (fun n c => 10 * n + (decimals.digit c).getD 0) 0

def leading (text : Str) : Option (Nat × Str) :=
  let run := text.takeWhile decimals.isDigit
  if run = [] then none else some (decimals.number run, text.dropWhile decimals.isDigit)

theorem digit_of_ascii {c : Char} (digit : c.isDigit = true) :
    decimals.digit c = some (c.toNat - 48) := by
  have below : c.toNat < 128 := by
    simp only [Char.isDigit, Bool.and_eq_true, decide_eq_true_eq, UInt32.le_iff_toNat_le] at digit
    have : c.toNat = c.val.toNat := rfl
    have : '9'.val.toNat = 57 := rfl
    omega
  rw [decimals.ascii c below, if_pos digit]

theorem not_digit {c : Char} (below : c.toNat < 128) (other : c.isDigit = false) :
    decimals.isDigit c = false := by
  rw [isDigit, decimals.ascii c below, other]
  rfl

theorem digits_isDigit (n : Nat) : ∀ c ∈ digits n, decimals.isDigit c = true := by
  intro c mem
  rw [isDigit, decimals.digit_of_ascii (Nat.isDigit_of_mem_toDigits (by decide) (by decide) mem)]
  rfl

theorem digits_ne_nil (n : Nat) : digits n ≠ [] := Nat.toDigits_ne_nil

theorem number_digits (n : Nat) : decimals.number (digits n) = n := by
  have same : ∀ (run : Str) (start : Nat), (∀ c ∈ run, c.isDigit = true) →
      run.foldl (fun n c => 10 * n + (decimals.digit c).getD 0) start =
        Nat.ofDigitChars 10 run start := by
    intro run
    induction run with
    | nil => exact fun _ _ => rfl
    | cons c run ih =>
      intro start all
      rw [List.foldl_cons, decimals.digit_of_ascii (all c List.mem_cons_self), Option.getD_some,
        ih _ fun c mem => all c (List.mem_cons_of_mem _ mem), Nat.ofDigitChars_cons]
      rfl
  rw [number, same (digits n) 0 fun c mem =>
    Nat.isDigit_of_mem_toDigits (by decide) (by decide) mem]
  exact Nat.ofDigitChars_ten_toDigits

section Run
variable {n : Nat} {c : Char} {rest : Str}

theorem takeWhile_digits (stop : decimals.isDigit c = false) :
    (digits n ++ c :: rest).takeWhile decimals.isDigit = digits n := by
  rw [List.takeWhile_append_of_pos (decimals.digits_isDigit n), List.takeWhile_cons_of_neg (by simp [stop]),
    List.append_nil]

theorem dropWhile_digits (stop : decimals.isDigit c = false) :
    (digits n ++ c :: rest).dropWhile decimals.isDigit = c :: rest := by
  rw [List.dropWhile_append_of_pos (decimals.digits_isDigit n), List.dropWhile_cons_of_neg (by simp [stop])]

theorem leading_digits (stop : decimals.isDigit c = false) :
    decimals.leading (digits n ++ c :: rest) = some (n, c :: rest) := by
  rw [leading, takeWhile_digits _ stop, dropWhile_digits _ stop, if_neg (digits_ne_nil n),
    number_digits]

end Run
end Decimals
end DevopsCli.PyStr
