import DevopsCli.Lib.PyLines

/- Lines with a line feed at their ends, and the carriage return that may stand before it. -/
namespace DevopsCli.PyStr

def textOfLines (lines : List Str) : Str := lines.flatMap (· ++ ['\n'])

def chomp (line : Str) : Str := if line.getLast? = some '\r' then line.dropLast else line

/-- Nothing but its end breaks the line, with a line feed or with a carriage return before it. -/
def ReadsWhole (line : Str) : Prop := Unbroken (chomp line)

theorem textOfLines_flatten (lines : List Str) :
    (lines.map (· ++ ['\n'])).flatten = textOfLines lines := by
  rw [textOfLines, List.flatMap_def]

theorem chomp_append (front : Str) {c : Char} (plain : c ≠ '\r') (line : Str) :
    chomp (front ++ c :: line) = front ++ c :: chomp line := by
  unfold chomp
  cases line with
  | nil => simp [plain]
  | cons next line =>
    rw [List.getLast?_append_of_ne_nil _ (List.cons_ne_nil _ _), List.getLast?_cons_cons]
    split
    · rw [List.dropLast_append_of_ne_nil (List.cons_ne_nil _ _), List.dropLast_cons_cons]
    · rfl

theorem chomp_plain {line : Str} (plain : '\r' ∉ line) : chomp line = line := by
  rw [chomp, if_neg]
  exact fun last => plain (List.mem_of_getLast? last)

theorem splitlines_chomp {line : Str} (whole : ReadsWhole line) (rest : Str) :
    splitlines (line ++ '\n' :: rest) = chomp line :: splitlines rest := by
  by_cases last : line.getLast? = some '\r'
  · have cut : line = chomp line ++ ['\r'] := by
      rw [chomp, if_pos last]
      obtain ⟨front, rfl⟩ := List.getLast?_eq_some_iff.mp last
      rw [List.dropLast_concat]
    have unbroken : Unbroken (chomp line) := whole
    conv_lhs => rw [cut]
    rw [splitlines, List.append_assoc, splitlinesFrom_unbroken unbroken]
    rfl
  · have same : chomp line = line := if_neg last
    rw [ReadsWhole, same] at whole
    rw [splitlines_cons whole, same]

theorem splitlines_text {lines : List Str} (whole : ∀ line ∈ lines, ReadsWhole line) :
    splitlines (textOfLines lines) = lines.map chomp := by
  induction lines with
  | nil => rfl
  | cons line lines ih =>
    obtain ⟨first, later⟩ := List.forall_mem_cons.mp whole
    rw [textOfLines, List.flatMap_cons, List.append_assoc, List.singleton_append,
      splitlines_chomp first, ← textOfLines, ih later, List.map_cons]

theorem chomp_cons {c : Char} (plain : c ≠ '\r') (line : Str) : chomp (c :: line) = c :: chomp line :=
  chomp_append [] plain line

theorem chomp_begins (line : Str) : chomp line <+: line := by
  rw [chomp]
  split
  · exact List.dropLast_prefix line
  · exact List.prefix_refl line

end DevopsCli.PyStr
