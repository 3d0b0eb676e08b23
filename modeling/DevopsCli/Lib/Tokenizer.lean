import Mathlib

/- Tokenizers of texts over any characters: whole texts read back, and what joining two texts does
   to the number of tokens. Nothing here is about one program. -/
namespace DevopsCli

universe u v

structure Tokenizer (Token : Type u) (C : Type v) where
  encode : List C → List Token
  decode : List Token → List C
  decode_encode : ∀ text, decode (encode text) = text
  encode_nil : encode [] = []

namespace Tokenizer
variable {Token : Type u} {C : Type v} (tok : Tokenizer Token C)

def size (text : List C) : Nat := (tok.encode text).length

@[simp] theorem size_nil : tok.size [] = 0 := by
  rw [size, tok.encode_nil, List.length_nil]

theorem decode_nil : tok.decode [] = [] := by
  have back := tok.decode_encode []
  rwa [tok.encode_nil] at back

/-- No cut of the text makes more tokens than it holds, and no text makes more tokens with the suffix
    behind it than both apart. -/
structure Steady (text suffix : List C) : Prop where
  cut : ∀ n, tok.size (tok.decode ((tok.encode text).take n)) ≤ n
  seam : ∀ before, tok.size (before ++ suffix) ≤ tok.size before + tok.size suffix

theorem Steady.joined {tok : Tokenizer Token C} {text suffix : List C} (steady : tok.Steady text suffix)
    (n : Nat) :
    tok.size (tok.decode ((tok.encode text).take n) ++ suffix) ≤ n + tok.size suffix :=
  calc tok.size (tok.decode ((tok.encode text).take n) ++ suffix)
      ≤ tok.size (tok.decode ((tok.encode text).take n)) + tok.size suffix := steady.seam _
    _ ≤ n + tok.size suffix := Nat.add_le_add_right (steady.cut n) _

end Tokenizer
end DevopsCli
