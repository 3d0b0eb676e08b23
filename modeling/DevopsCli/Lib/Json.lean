import DevopsCli.Lib.JsonText

/- JSON values, the text of a value, and the reading of text. An object is kept in the order of
   its keys, each key once, so equal objects are equal lists and a text is written sorted. -/
namespace DevopsCli

inductive Json (F : Type) where
  | null
  | bool (value : Bool)
  | int (value : Int)
  | float (value : F)
  | nan
  | infinity (negative : Bool)
  | str (value : List Char)
  | arr (elements : List (Json F))
  | obj (members : List (List Char × Json F))

/-- The text of a finite float, and its value. The text is a number with a fraction or an
    exponent, whatever follows that does not go on the number. -/
structure Floats (F : Type) where
  repr : F → List Char
  read : List Char → F
  number : ∀ f rest, Json.Closes rest → ∃ whole fraction exponent,
    Json.matchNumber (repr f ++ rest) = some (whole, fraction, exponent, rest) ∧
      whole ++ fraction ++ exponent = repr f ∧ (fraction.isEmpty && exponent.isEmpty) = false
  plain : ∀ f, ∀ c ∈ repr f, ' ' ≤ c ∧ c ≠ '>'
  read_repr : ∀ f, read (repr f) = f

namespace Json
variable {F : Type} (floats : Floats F)

abbrev Members (F : Type) := List (List Char × Json F)

def insertKey (members : Members F) (key : List Char) (value : Json F) : Members F :=
  match members with
  | [] => [(key, value)]
  | (k, v) :: rest =>
    if key = k then (key, value) :: rest
    else if key < k then (key, value) :: (k, v) :: rest
    else (k, v) :: insertKey rest key value

def dict (pairs : Members F) : Members F :=
  pairs.foldl (fun members pair => insertKey members pair.1 pair.2) []

def KeysOrdered (members : Members F) : Prop := members.Pairwise fun a b => a.1 < b.1

mutual
def Ordered : Json F → Prop
  | .arr elements => OrderedElements elements
  | .obj members => KeysOrdered members ∧ OrderedMembers members
  | _ => True

def OrderedElements : List (Json F) → Prop
  | [] => True
  | v :: rest => v.Ordered ∧ OrderedElements rest

def OrderedMembers : Members F → Prop
  | [] => True
  | (_, v) :: rest => v.Ordered ∧ OrderedMembers rest
end

mutual
def dumps : Json F → List Char
  | .null => ['n', 'u', 'l', 'l']
  | .bool true => ['t', 'r', 'u', 'e']
  | .bool false => ['f', 'a', 'l', 's', 'e']
  | .int i => intRepr i
  | .float f => floats.repr f
  | .nan => ['N', 'a', 'N']
  | .infinity false => ['I', 'n', 'f', 'i', 'n', 'i', 't', 'y']
  | .infinity true => ['-', 'I', 'n', 'f', 'i', 'n', 'i', 't', 'y']
  | .str s => '"' :: (escapeString s ++ ['"'])
  | .arr elements => '[' :: (dumpsElements elements ++ [']'])
  | .obj members => '{' :: (dumpsMembers members ++ ['}'])

def dumpsElements : List (Json F) → List Char
  | [] => []
  | [v] => dumps v
  | v :: rest => dumps v ++ (',' :: ' ' :: dumpsElements rest)

def dumpsMembers : Members F → List Char
  | [] => []
  | [(k, v)] => '"' :: (escapeString k ++ ('"' :: ':' :: ' ' :: dumps v))
  | (k, v) :: rest =>
    '"' :: (escapeString k ++ ('"' :: ':' :: ' ' :: (dumps v ++ (',' :: ' ' :: dumpsMembers rest))))
end

def isSpace (c : Char) : Bool := c == ' ' || c == '\t' || c == '\n' || c == '\r'

def skipSpace (cs : List Char) : List Char := cs.dropWhile isSpace

mutual
def scanOnce : Nat → List Char → Option (Json F × List Char)
  | 0, _ => none
  | fuel + 1, cs =>
    match matchNumber cs with
    | some (whole, fraction, exponent, rest) =>
      if fraction.isEmpty && exponent.isEmpty then some (.int (readInt whole), rest)
      else some (.float (floats.read (whole ++ fraction ++ exponent)), rest)
    | none =>
      match cs with
      | '"' :: rest => (scanString rest).map fun (s, rest) => (.str s, rest)
      | '{' :: rest =>
        match skipSpace rest with
        | '}' :: rest => some (.obj [], rest)
        | rest => (scanMembers fuel rest).map fun (pairs, rest) => (.obj (dict pairs), rest)
      | '[' :: rest =>
        match skipSpace rest with
        | ']' :: rest => some (.arr [], rest)
        | rest => (scanElements fuel rest).map fun (elements, rest) => (.arr elements, rest)
      | 'n' :: 'u' :: 'l' :: 'l' :: rest => some (.null, rest)
      | 't' :: 'r' :: 'u' :: 'e' :: rest => some (.bool true, rest)
      | 'f' :: 'a' :: 'l' :: 's' :: 'e' :: rest => some (.bool false, rest)
      | 'N' :: 'a' :: 'N' :: rest => some (.nan, rest)
      | 'I' :: 'n' :: 'f' :: 'i' :: 'n' :: 'i' :: 't' :: 'y' :: rest => some (.infinity false, rest)
      | '-' :: 'I' :: 'n' :: 'f' :: 'i' :: 'n' :: 'i' :: 't' :: 'y' :: rest =>
        some (.infinity true, rest)
      | _ => none

def scanElements : Nat → List Char → Option (List (Json F) × List Char)
  | 0, _ => none
  | fuel + 1, cs => do
    let (v, rest) ← scanOnce fuel cs
    match skipSpace rest with
    | ',' :: rest => (scanElements fuel (skipSpace rest)).map fun (vs, rest) => (v :: vs, rest)
    | ']' :: rest => some ([v], rest)
    | _ => none

def scanMembers : Nat → List Char → Option (Members F × List Char)
  | fuel + 1, '"' :: cs => do
    let (k, rest) ← scanString cs
    match skipSpace rest with
    | ':' :: rest => do
      let (v, rest) ← scanOnce fuel (skipSpace rest)
      match skipSpace rest with
      | ',' :: rest => (scanMembers fuel (skipSpace rest)).map fun (ms, rest) => ((k, v) :: ms, rest)
      | '}' :: rest => some ([(k, v)], rest)
      | _ => none
    | _ => none
  | _, _ => none
end

/-- The value of a text, or nothing where the text is no JSON document. -/
def loads (cs : List Char) : Option (Json F) :=
  match scanOnce floats (cs.length + 1) (skipSpace cs) with
  | some (v, rest) => if (skipSpace rest).isEmpty then some v else none
  | none => none

section Objects
variable {members : Members F} {key : List Char} {value : Json F}

theorem insertKey_last (greater : ∀ m ∈ members, m.1 < key) :
    insertKey members key value = members ++ [(key, value)] := by
  induction members with
  | nil => rfl
  | cons m rest ih =>
    obtain ⟨k, v⟩ := m
    obtain ⟨first, later⟩ := List.forall_mem_cons.mp greater
    simp [insertKey, first.ne', lt_asymm first, ih later]

theorem mem_insertKey {m : List Char × Json F} (member : m ∈ insertKey members key value) :
    m = (key, value) ∨ m ∈ members := by
  induction members with
  | nil => simpa [insertKey] using member
  | cons first rest ih =>
    obtain ⟨k, v⟩ := first
    unfold insertKey at member
    split_ifs at member with same before
    · exact (List.mem_cons.mp member).imp_right (List.mem_cons_of_mem _)
    · exact List.mem_cons.mp member
    · rcases List.mem_cons.mp member with rfl | later
      · exact .inr List.mem_cons_self
      · exact (ih later).imp_right (List.mem_cons_of_mem _)

theorem insertKey_ordered (ordered : KeysOrdered members) :
    KeysOrdered (insertKey members key value) := by
  induction members with
  | nil => simp [insertKey, KeysOrdered]
  | cons first rest ih =>
    obtain ⟨k, v⟩ := first
    obtain ⟨smallest, others⟩ := List.pairwise_cons.mp ordered
    unfold insertKey
    split_ifs with same before
    · subst same
      exact List.pairwise_cons.mpr ⟨smallest, others⟩
    · refine List.pairwise_cons.mpr ⟨fun m member => ?_, ordered⟩
      rcases List.mem_cons.mp member with rfl | later
      · exact before
      · exact before.trans (smallest m later)
    · refine List.pairwise_cons.mpr ⟨fun m member => ?_, ih others⟩
      rcases mem_insertKey member with rfl | later
      · exact lt_of_le_of_ne (not_lt.mp before) (Ne.symm same)
      · exact smallest m later

theorem insertKey_orderedMembers (value_ordered : value.Ordered) (ordered : OrderedMembers members) :
    OrderedMembers (insertKey members key value) := by
  induction members with
  | nil => exact ⟨value_ordered, trivial⟩
  | cons first rest ih =>
    obtain ⟨k, v⟩ := first
    unfold insertKey
    split_ifs
    · exact ⟨value_ordered, ordered.2⟩
    · exact ⟨value_ordered, ordered⟩
    · exact ⟨ordered.1, ih ordered.2⟩

theorem dict_ordered (ordered : KeysOrdered members) : dict members = members := by
  have from_ (acc : Members F) (all : KeysOrdered (acc ++ members)) :
      members.foldl (fun members pair => insertKey members pair.1 pair.2) acc = acc ++ members := by
    induction members generalizing acc with
    | nil => simp
    | cons m rest ih =>
      have greater : ∀ a ∈ acc, a.1 < m.1 := fun a member =>
        (List.pairwise_append.mp all).2.2 a member m List.mem_cons_self
      have all' : KeysOrdered ((acc ++ [m]) ++ rest) := by simpa using all
      rw [List.foldl_cons, insertKey_last greater, ih (List.pairwise_cons.mp ordered).2 _ all']
      simp
  exact from_ [] ordered

theorem dict_keysOrdered (pairs : Members F) : KeysOrdered (dict pairs) := by
  have from_ (acc : Members F) (ordered : KeysOrdered acc) :
      KeysOrdered (pairs.foldl (fun members pair => insertKey members pair.1 pair.2) acc) := by
    induction pairs generalizing acc with
    | nil => exact ordered
    | cons pair rest ih => exact ih _ (insertKey_ordered ordered)
  exact from_ [] List.Pairwise.nil

theorem dict_orderedMembers {pairs : Members F} (each : OrderedMembers pairs) :
    OrderedMembers (dict pairs) := by
  have from_ (acc : Members F) (ordered : OrderedMembers acc) :
      OrderedMembers (pairs.foldl (fun members pair => insertKey members pair.1 pair.2) acc) := by
    induction pairs generalizing acc with
    | nil => exact ordered
    | cons pair rest ih => exact ih each.2 _ (insertKey_orderedMembers each.1 ordered)
  exact from_ [] trivial

end Objects

theorem scan_ordered (fuel : Nat) :
    (∀ cs v rest, scanOnce floats fuel cs = some (v, rest) → v.Ordered) ∧
    (∀ cs vs rest, scanElements floats fuel cs = some (vs, rest) → OrderedElements vs) ∧
    (∀ cs ms rest, scanMembers floats fuel cs = some (ms, rest) → OrderedMembers ms) := by
  induction fuel with
  | zero => simp [scanOnce, scanElements, scanMembers]
  | succ fuel ih =>
    obtain ⟨values, elements, members⟩ := ih
    refine ⟨fun cs v rest scanned => ?_, fun cs vs rest scanned => ?_, fun cs ms rest scanned => ?_⟩
    · unfold scanOnce at scanned
      split at scanned
      · split at scanned <;> (obtain ⟨rfl, _⟩ := scanned; trivial)
      · split at scanned
        case h_2 =>
          split at scanned
          · obtain ⟨rfl, _⟩ := scanned
            exact ⟨List.Pairwise.nil, trivial⟩
          · obtain ⟨⟨pairs, rest⟩, inside, same⟩ := Option.map_eq_some_iff.mp scanned
            obtain ⟨rfl, _⟩ := Prod.mk.inj same
            exact ⟨dict_keysOrdered pairs, dict_orderedMembers (members _ _ _ inside)⟩
        case h_3 =>
          split at scanned
          · obtain ⟨rfl, _⟩ := scanned
            trivial
          · obtain ⟨⟨vs, rest⟩, inside, same⟩ := Option.map_eq_some_iff.mp scanned
            obtain ⟨rfl, _⟩ := Prod.mk.inj same
            exact elements _ _ _ inside
        case h_1 =>
          obtain ⟨⟨s, rest⟩, _, same⟩ := Option.map_eq_some_iff.mp scanned
          obtain ⟨rfl, _⟩ := Prod.mk.inj same
          trivial
        case h_10 => exact nomatch scanned
        all_goals
          obtain ⟨rfl, _⟩ := scanned
          trivial
    · simp only [scanElements, Option.bind_eq_bind, Option.bind_eq_some_iff] at scanned
      obtain ⟨⟨v, rest'⟩, first, later⟩ := scanned
      split at later
      · obtain ⟨⟨others, rest''⟩, inside, same⟩ := Option.map_eq_some_iff.mp later
        obtain ⟨rfl, _⟩ := Prod.mk.inj same
        exact ⟨values _ _ _ first, elements _ _ _ inside⟩
      · obtain ⟨rfl, _⟩ := later
        exact ⟨values _ _ _ first, trivial⟩
      · exact nomatch later
    · unfold scanMembers at scanned
      split at scanned
      · rename_i next_ _ same
        obtain rfl : fuel = next_ := Nat.succ.inj same
        simp only [Option.bind_eq_bind, Option.bind_eq_some_iff] at scanned
        obtain ⟨⟨k, rest'⟩, _, scanned⟩ := scanned
        split at scanned
        · simp only [Option.bind_eq_some_iff] at scanned
          obtain ⟨⟨v, rest''⟩, first, later⟩ := scanned
          split at later
          · obtain ⟨⟨others, _⟩, inside, same⟩ := Option.map_eq_some_iff.mp later
            obtain ⟨rfl, _⟩ := Prod.mk.inj same
            exact ⟨values _ _ _ first, members _ _ _ inside⟩
          · obtain ⟨rfl, _⟩ := later
            exact ⟨values _ _ _ first, trivial⟩
          · exact nomatch later
        · exact nomatch scanned
      · exact nomatch scanned

section RoundTrip

mutual
def size : Json F → Nat
  | .arr elements => 1 + sizeElements elements
  | .obj members => 1 + sizeMembers members
  | _ => 1

def sizeElements : List (Json F) → Nat
  | [] => 0
  | v :: rest => 1 + v.size + sizeElements rest

def sizeMembers : Members F → Nat
  | [] => 0
  | (_, v) :: rest => 1 + v.size + sizeMembers rest
end

theorem closes_of {c : Char} {rest : List Char}
    (closer : c.isDigit = false ∧ c ≠ '.' ∧ c ≠ 'e' ∧ c ≠ 'E') : Closes (c :: rest) := by
  simpa [Closes] using closer

theorem matchNumber_head {cs : List Char} (found : matchNumber cs ≠ none) :
    ∃ c rest, cs = c :: rest ∧ (c = '-' ∨ c.isDigit = true) := by
  cases cs with
  | nil => exact absurd rfl found
  | cons c rest =>
    refine ⟨c, rest, rfl, ?_⟩
    by_contra other
    obtain ⟨minus, digit⟩ := not_or.mp other
    refine found ?_
    have zero : c ≠ '0' := by
      rintro rfl
      exact digit rfl
    have natural : matchNatural (c :: rest) = none := by
      unfold matchNatural
      split
      · exact absurd (List.cons.inj ‹_›).1 zero
      · simp [digit]
    have integer : matchInteger (c :: rest) = none := by
      unfold matchInteger
      split
      · exact absurd (List.cons.inj ‹_›).1 minus
      · exact natural
    simp [matchNumber, integer]

theorem scanOnce_int (i : Int) {rest : List Char} (closes : Closes rest) (fuel : Nat) :
    scanOnce floats (fuel + 1) (intRepr i ++ rest) = some (.int i, rest) := by
  unfold scanOnce
  simp [matchNumber_intRepr i closes, readInt_intRepr]

theorem scanOnce_float (f : F) {rest : List Char} (closes : Closes rest) (fuel : Nat) :
    scanOnce floats (fuel + 1) (floats.repr f ++ rest) = some (.float f, rest) := by
  obtain ⟨whole, fraction, exponent, found, same, parts⟩ := floats.number f rest closes
  unfold scanOnce
  simp only [found, parts, same, floats.read_repr, Bool.false_eq_true, if_false]

theorem dumps_head (v : Json F) : ∃ c cs, escapeGreater (dumps floats v) = c :: cs ∧
    isSpace c = false ∧ c ≠ ']' := by
  have number {cs : List Char} (plain : '>' ∉ cs) (found : matchNumber cs ≠ none) :
      ∃ c rest, escapeGreater cs = c :: rest ∧ isSpace c = false ∧ c ≠ ']' := by
    obtain ⟨c, rest, rfl, head⟩ := matchNumber_head found
    refine ⟨c, rest, escapeGreater_id plain, ?_⟩
    rcases head with rfl | digit
    · decide
    · constructor
      · simp only [isSpace, Bool.or_eq_false_iff, beq_eq_false_iff_ne]
        refine ⟨⟨⟨?_, ?_⟩, ?_⟩, ?_⟩ <;> rintro rfl <;> exact absurd digit (by decide)
      · rintro rfl
        exact absurd digit (by decide)
  have closed : Closes [] := nofun
  cases v with
  | int i =>
    refine number (intRepr_plain i) ?_
    rw [dumps, ← List.append_nil (intRepr i), matchNumber_intRepr i closed]
    simp
  | float f =>
    refine number (fun member => (floats.plain f _ member).2 rfl) ?_
    obtain ⟨_, _, _, found, _⟩ := floats.number f [] closed
    rw [dumps, ← List.append_nil (floats.repr f), found]
    simp
  | bool value => cases value <;> exact ⟨_, _, rfl, rfl, by decide⟩
  | infinity negative => cases negative <;> exact ⟨_, _, rfl, rfl, by decide⟩
  | null => exact ⟨_, _, rfl, rfl, by decide⟩
  | nan => exact ⟨_, _, rfl, rfl, by decide⟩
  | str s => exact ⟨_, _, rfl, rfl, by decide⟩
  | arr elements => exact ⟨_, _, rfl, rfl, by decide⟩
  | obj members => exact ⟨_, _, rfl, rfl, by decide⟩

theorem escapeGreater_cons {c : Char} (other : c ≠ '>') (cs : List Char) :
    escapeGreater (c :: cs) = c :: escapeGreater cs := by
  simp [escapeGreater, other]

theorem size_one_le (v : Json F) (one : v.size = 1) :
    v.size ≤ (escapeGreater (dumps floats v)).length := by
  obtain ⟨c, cs, same, _⟩ := dumps_head floats v
  simp [one, same]

mutual
theorem size_le_length : ∀ v : Json F, v.size ≤ (escapeGreater (dumps floats v)).length
  | .arr elements => by
    have inside := sizeElements_le_length elements
    simp only [size, dumps, escapeGreater_cons, escapeGreater_append, ne_eq, Char.reduceEq,
      not_false_eq_true, List.length_cons, List.length_append]
    omega
  | .obj members => by
    have inside := sizeMembers_le_length members
    simp only [size, dumps, escapeGreater_cons, escapeGreater_append, ne_eq, Char.reduceEq,
      not_false_eq_true, List.length_cons, List.length_append]
    omega
  | .null => size_one_le floats .null rfl
  | .bool value => size_one_le floats (.bool value) rfl
  | .int i => size_one_le floats (.int i) rfl
  | .float f => size_one_le floats (.float f) rfl
  | .nan => size_one_le floats .nan rfl
  | .infinity negative => size_one_le floats (.infinity negative) rfl
  | .str s => size_one_le floats (.str s) rfl

theorem sizeElements_le_length : ∀ vs : List (Json F),
    sizeElements vs ≤ (escapeGreater (dumpsElements floats vs)).length + 1
  | [] => by simp [sizeElements]
  | [v] => by
    have first := size_le_length v
    simp only [sizeElements, dumpsElements]
    omega
  | v :: w :: rest => by
    have first := size_le_length v
    have later := sizeElements_le_length (w :: rest)
    simp only [sizeElements, dumpsElements, escapeGreater_cons, escapeGreater_append, ne_eq,
      Char.reduceEq, not_false_eq_true, List.length_cons, List.length_append] at later ⊢
    omega

theorem sizeMembers_le_length : ∀ ms : Members F,
    sizeMembers ms ≤ (escapeGreater (dumpsMembers floats ms)).length + 1
  | [] => by simp [sizeMembers]
  | [(k, v)] => by
    have first := size_le_length v
    simp only [sizeMembers, dumpsMembers, escapeGreater_cons, escapeGreater_append, ne_eq,
      Char.reduceEq, not_false_eq_true, List.length_cons, List.length_append]
    omega
  | (k, v) :: m :: rest => by
    have first := size_le_length v
    have later := sizeMembers_le_length (m :: rest)
    simp only [sizeMembers, dumpsMembers, escapeGreater_cons, escapeGreater_append, ne_eq,
      Char.reduceEq, not_false_eq_true, List.length_cons, List.length_append] at later ⊢
    omega
end

theorem skipSpace_cons {c : Char} (space : isSpace c = false) (cs : List Char) :
    skipSpace (c :: cs) = c :: cs := by
  simp [skipSpace, space]

theorem skipSpace_blank (cs : List Char) : skipSpace (' ' :: cs) = skipSpace cs := rfl

theorem skipSpace_text (v : Json F) (rest : List Char) :
    skipSpace (escapeGreater (dumps floats v) ++ rest) = escapeGreater (dumps floats v) ++ rest := by
  obtain ⟨c, cs, same, space, _⟩ := dumps_head floats v
  simp [skipSpace, same, space]

theorem dumpsElements_head (v : Json F) (vs : List (Json F)) :
    ∃ c cs, escapeGreater (dumpsElements floats (v :: vs)) = c :: cs ∧ isSpace c = false ∧
      c ≠ ']' := by
  obtain ⟨c, cs, same, head⟩ := dumps_head floats v
  cases vs with
  | nil => exact ⟨c, cs, same, head⟩
  | cons w vs =>
    refine ⟨c, cs ++ escapeGreater (',' :: ' ' :: dumpsElements floats (w :: vs)), ?_, head⟩
    simp [dumpsElements, escapeGreater_append, same]

theorem dumpsMembers_head (m : List Char × Json F) (ms : Members F) :
    ∃ cs, escapeGreater (dumpsMembers floats (m :: ms)) = '"' :: cs := by
  cases ms <;> exact ⟨_, rfl⟩

theorem scanOnce_arr (fuel : Nat) {c : Char} {cs : List Char} (space : isSpace c = false)
    (opens : c ≠ ']') : scanOnce floats (fuel + 1) ('[' :: c :: cs) =
      (scanElements floats fuel (c :: cs)).map fun (elements, rest) => (arr elements, rest) := by
  have begun : scanOnce floats (fuel + 1) ('[' :: c :: cs) =
      match skipSpace (c :: cs) with
      | ']' :: rest => some (arr [], rest)
      | rest => (scanElements floats fuel rest).map fun (elements, rest) => (arr elements, rest) :=
    rfl
  rw [begun, skipSpace_cons space]
  split
  · exact absurd (List.cons.inj ‹_›).1 opens
  · rfl

mutual
theorem scan_dumps : ∀ (v : Json F) (fuel : Nat) (rest : List Char), v.size ≤ fuel →
    Closes rest → v.Ordered →
    scanOnce floats fuel (escapeGreater (dumps floats v) ++ rest) = some (v, rest)
  | v, 0, _, enough, _, _ => absurd enough (by cases v <;> simp [size])
  | .null, _ + 1, _, _, _, _ => rfl
  | .bool true, _ + 1, _, _, _, _ => rfl
  | .bool false, _ + 1, _, _, _, _ => rfl
  | .nan, _ + 1, _, _, _, _ => rfl
  | .infinity true, _ + 1, _, _, _, _ => rfl
  | .infinity false, _ + 1, _, _, _, _ => rfl
  | .int i, fuel + 1, rest, _, closes, _ => by
    rw [dumps, escapeGreater_id (intRepr_plain i), scanOnce_int floats i closes]
  | .float f, fuel + 1, rest, _, closes, _ => by
    rw [dumps, escapeGreater_id (fun member => (floats.plain f _ member).2 rfl), scanOnce_float floats f closes]
  | .str s, fuel + 1, rest, _, _, _ => by
    have text : escapeGreater (dumps floats (.str s)) ++ rest =
        '"' :: (escapeGreater (escapeString s) ++ '"' :: rest) := by
      simp [dumps, escapeGreater]
    have scanned := scanString_escape s rest
    rw [text]
    show (scanString _).map _ = _
    rw [scanned]
    rfl
  | .arr [], _ + 1, _, _, _, _ => rfl
  | .arr (v :: vs), fuel + 1, rest, enough, _, ordered => by
    have inside := scan_elements (v :: vs) fuel rest (by simp) (by rw [size] at enough; omega)
      ordered
    have text : escapeGreater (dumps floats (.arr (v :: vs))) ++ rest =
        '[' :: (escapeGreater (dumpsElements floats (v :: vs)) ++ ']' :: rest) := by
      simp [dumps, escapeGreater]
    obtain ⟨c, cs, same, space, opens⟩ := dumpsElements_head floats v vs
    rw [text]
    rw [same, List.cons_append] at inside ⊢
    rw [scanOnce_arr floats fuel space opens, inside]
    rfl
  | .obj [], _ + 1, _, _, _, _ => rfl
  | .obj (m :: ms), fuel + 1, rest, enough, _, ordered => by
    have inside := scan_members (m :: ms) fuel rest (by simp) (by rw [size] at enough; omega)
      ordered.2
    have text : escapeGreater (dumps floats (.obj (m :: ms))) ++ rest =
        '{' :: (escapeGreater (dumpsMembers floats (m :: ms)) ++ '}' :: rest) := by
      simp [dumps, escapeGreater]
    obtain ⟨cs, same⟩ := dumpsMembers_head floats m ms
    rw [text]
    rw [same, List.cons_append] at inside ⊢
    show (scanMembers floats fuel _).map _ = _
    rw [inside]
    simp [dict_ordered ordered.1]

theorem scan_elements : ∀ (vs : List (Json F)) (fuel : Nat) (rest : List Char), vs ≠ [] →
    sizeElements vs ≤ fuel → OrderedElements vs →
    scanElements floats fuel (escapeGreater (dumpsElements floats vs) ++ ']' :: rest) =
      some (vs, rest)
  | [], _, _, some_, _, _ => absurd rfl some_
  | _ :: _, 0, _, _, enough, _ => absurd enough (by simp [sizeElements])
  | [v], fuel + 1, rest, _, enough, ordered => by
    have first := scan_dumps v fuel (']' :: rest) (by simp [sizeElements] at enough; omega)
      (closes_of (by decide)) ordered.1
    simp [dumpsElements, scanElements, first, skipSpace, isSpace]
  | v :: w :: vs, fuel + 1, rest, _, enough, ordered => by
    simp only [sizeElements] at enough
    have text : escapeGreater (dumpsElements floats (v :: w :: vs)) ++ ']' :: rest =
        escapeGreater (dumps floats v) ++ ',' :: ' ' ::
          (escapeGreater (dumpsElements floats (w :: vs)) ++ ']' :: rest) := by
      simp [dumpsElements, escapeGreater]
    have first := scan_dumps v fuel (',' :: ' ' ::
      (escapeGreater (dumpsElements floats (w :: vs)) ++ ']' :: rest)) (by omega)
      (closes_of (by decide)) ordered.1
    have later := scan_elements (w :: vs) fuel rest (by simp) (by simp only [sizeElements]; omega)
      ordered.2
    obtain ⟨c, cs, same, space, _⟩ := dumpsElements_head floats w vs
    rw [same, List.cons_append] at text first later
    rw [text, scanElements, first]
    simp [skipSpace_cons, skipSpace_blank, isSpace, skipSpace_cons space, later]

theorem scan_members : ∀ (ms : Members F) (fuel : Nat) (rest : List Char), ms ≠ [] →
    sizeMembers ms ≤ fuel → OrderedMembers ms →
    scanMembers floats fuel (escapeGreater (dumpsMembers floats ms) ++ '}' :: rest) =
      some (ms, rest)
  | [], _, _, some_, _, _ => absurd rfl some_
  | _ :: _, 0, _, _, enough, _ => absurd enough (by simp [sizeMembers])
  | [(k, v)], fuel + 1, rest, _, enough, ordered => by
    have text : escapeGreater (dumpsMembers floats [(k, v)]) ++ '}' :: rest =
        '"' :: (escapeGreater (escapeString k) ++ '"' :: ':' :: ' ' ::
          (escapeGreater (dumps floats v) ++ '}' :: rest)) := by
      simp [dumpsMembers, escapeGreater]
    have first := scan_dumps v fuel ('}' :: rest) (by simp [sizeMembers] at enough; omega)
      (closes_of (by decide)) ordered.1
    have kept := skipSpace_text floats v ('}' :: rest)
    rw [text, scanMembers, scanString_escape]
    simp [skipSpace_cons, skipSpace_blank, isSpace, kept, first]
  | (k, v) :: m :: ms, fuel + 1, rest, _, enough, ordered => by
    simp only [sizeMembers] at enough
    obtain ⟨cs, same⟩ := dumpsMembers_head floats m ms
    have text : escapeGreater (dumpsMembers floats ((k, v) :: m :: ms)) ++ '}' :: rest =
        '"' :: (escapeGreater (escapeString k) ++ '"' :: ':' :: ' ' ::
          (escapeGreater (dumps floats v) ++ ',' :: ' ' ::
            (escapeGreater (dumpsMembers floats (m :: ms)) ++ '}' :: rest))) := by
      simp [dumpsMembers, escapeGreater]
    have first := scan_dumps v fuel (',' :: ' ' ::
      (escapeGreater (dumpsMembers floats (m :: ms)) ++ '}' :: rest)) (by omega)
      (closes_of (by decide)) ordered.1
    have later := scan_members (m :: ms) fuel rest (by simp) (by simp only [sizeMembers]; omega)
      ordered.2
    have kept := skipSpace_text floats v (',' :: ' ' ::
      (escapeGreater (dumpsMembers floats (m :: ms)) ++ '}' :: rest))
    rw [same, List.cons_append] at text first later kept
    rw [text, scanMembers, scanString_escape]
    simp [skipSpace_cons, skipSpace_blank, isSpace, kept, first, later]
end

theorem loads_ordered {cs : List Char} {v : Json F} (read : loads floats cs = some v) :
    v.Ordered := by
  unfold loads at read
  split at read
  · rename_i v' rest scanned
    split at read
    · exact Option.some.inj read ▸ (scan_ordered floats _).1 _ _ _ scanned
    · exact nomatch read
  · exact nomatch read

theorem loads_dumps (v : Json F) (ordered : v.Ordered) :
    loads floats (escapeGreater (dumps floats v)) = some v := by
  have enough : v.size ≤ (escapeGreater (dumps floats v)).length + 1 :=
    (size_le_length floats v).trans (Nat.le_succ _)
  have scanned := scan_dumps floats v _ [] enough nofun ordered
  have kept := skipSpace_text floats v []
  rw [List.append_nil] at scanned kept
  rw [loads, kept, scanned]
  rfl

end RoundTrip

section Printable

mutual
theorem dumps_printable : ∀ v : Json F, ∀ c ∈ dumps floats v, ' ' ≤ c
  | .null => by simp [dumps]
  | .bool true => by simp [dumps]
  | .bool false => by simp [dumps]
  | .nan => by simp [dumps]
  | .infinity true => by simp [dumps]
  | .infinity false => by simp [dumps]
  | .int i => intRepr_printable i
  | .float f => fun c member => (floats.plain f c member).1
  | .str s => by
    simpa [dumps, or_imp, forall_and] using escapeString_printable s
  | .arr vs => by
    simpa [dumps, or_imp, forall_and] using elements_printable vs
  | .obj ms => by
    simpa [dumps, or_imp, forall_and] using members_printable ms

theorem elements_printable : ∀ vs : List (Json F), ∀ c ∈ dumpsElements floats vs, ' ' ≤ c
  | [] => by simp [dumpsElements]
  | [v] => dumps_printable v
  | v :: w :: vs => by
    have first := dumps_printable v
    have later := elements_printable (w :: vs)
    simp only [dumpsElements, List.forall_mem_append, List.forall_mem_cons]
    exact ⟨first, by decide, by decide, later⟩

theorem members_printable : ∀ ms : Members F, ∀ c ∈ dumpsMembers floats ms, ' ' ≤ c
  | [] => by simp [dumpsMembers]
  | [(k, v)] => by
    have first := dumps_printable v
    simp only [dumpsMembers, List.forall_mem_append, List.forall_mem_cons]
    exact ⟨by decide, escapeString_printable k, by decide, by decide, by decide, first⟩
  | (k, v) :: m :: ms => by
    have first := dumps_printable v
    have later := members_printable (m :: ms)
    simp only [dumpsMembers, List.forall_mem_append, List.forall_mem_cons]
    exact ⟨by decide, escapeString_printable k, by decide, by decide, by decide, first, by decide,
      by decide, later⟩
end

theorem text_printable (v : Json F) : ∀ c ∈ escapeGreater (dumps floats v), ' ' ≤ c := by
  simp only [escapeGreater, List.mem_flatMap]
  rintro c ⟨d, member, part⟩
  split at part
  · exact (by simp : ∀ c ∈ ['\\', 'u', '0', '0', '3', 'e'], ' ' ≤ c) c part
  · exact List.mem_singleton.mp part ▸ dumps_printable floats v d member

end Printable

def zeroFloats : Floats Unit where
  repr _ := ['0', '.', '0']
  read _ := ()
  number _ rest closes := by
    refine ⟨['0'], ['.', '0'], [], ?_, rfl, rfl⟩
    obtain ⟨taken, dropped⟩ := takeWhile_digits (by simp : ∀ c ∈ ['0'], c.isDigit = true) closes
    have fraction : matchFraction ('.' :: '0' :: rest) = (['.', '0'], rest) := by
      simp only [List.singleton_append] at taken dropped
      simp [matchFraction, taken, dropped]
    have exponent : matchExponent rest = ([], rest) := by
      cases rest with
      | nil => rfl
      | cons c rest => simp [matchExponent, (closes c rfl).2.2]
    simp [matchNumber, matchInteger, matchNatural, fraction, exponent]
  plain _ := by simp
  read_repr _ := rfl

end Json
end DevopsCli
