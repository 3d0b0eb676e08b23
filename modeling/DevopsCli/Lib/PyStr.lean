import Mathlib

/- The methods of Python's strings on lists of characters. -/
namespace DevopsCli.PyStr

abbrev Str := List Char

instance (text : Str) (texts : List Str) : Decidable (text ∈ texts) := inferInstance

/-- The characters of str.isspace, which strip takes away. -/
def isSpace (c : Char) : Bool :=
  let n := c.toNat
  (9 ≤ n && n ≤ 13) || (28 ≤ n && n ≤ 32) || n == 0x85 || n == 0xa0 || n == 0x1680 ||
    (0x2000 ≤ n && n ≤ 0x200a) || n == 0x2028 || n == 0x2029 || n == 0x202f || n == 0x205f ||
    n == 0x3000

def rstrip (text : Str) : Str := text.rdropWhile isSpace

def strip (text : Str) : Str := rstrip (text.dropWhile isSpace)

def isBreak (c : Char) : Bool :=
  let n := c.toNat
  (10 ≤ n && n ≤ 13) || (28 ≤ n && n ≤ 30) || n == 0x85 || n == 0x2028 || n == 0x2029

def splitlinesFrom (line : Str) : Str → List Str
  | [] => if line = [] then [] else [line]
  | '\r' :: '\n' :: rest => line :: splitlinesFrom [] rest
  | c :: rest => if isBreak c then line :: splitlinesFrom [] rest else splitlinesFrom (line ++ [c]) rest

def splitlines (text : Str) : List Str := splitlinesFrom [] text

def join (separator : Str) (parts : List Str) : Str := List.intercalate separator parts

def digits (n : Nat) : Str := Nat.toDigits 10 n

/-- The numbers of range(0, total, step) for a positive step. -/
def starts (total step : Nat) : List Nat := (List.range ((total + step - 1) / step)).map (· * step)

end DevopsCli.PyStr
