import DevopsCli.Lib.Json

/- The job record of an issue, roadmap/stores/store.py: the block at the end of the body that
   holds a JSON object, its write and its read. The warnings of an unreadable record are left out. -/
namespace DevopsCli.Roadmap
open Json

abbrev Text := List Char

/-- The lines of a text, each with the place where it starts. A line ends at a newline or at a
    carriage return; the two together are one end. -/
def linesFrom (start : Nat) : Text → List (Nat × Text)
  | [] => [(start, [])]
  | c :: rest =>
    if c = '\n' ∨ c = '\r' ∧ rest.head? ≠ some '\n' then (start, []) :: linesFrom (start + 1) rest
    else (linesFrom (start + 1) rest).modifyHead fun line =>
      (start, if c = '\r' then line.2 else c :: line.2)

def lines (body : Text) : List (Nat × Text) := linesFrom 0 body

def lineStarts (body : Text) : List Nat := (lines body).map Prod.fst

def splitLines (body : Text) : List Text := (lines body).map Prod.snd

structure Token where
  type : String
  level : Nat
  map : Option (Nat × Nat)
  deriving DecidableEq, Repr

def lastBlock (tokens : List Token) : Option Token := tokens.reverse.find? fun token => token.level = 0

def IsComment (line : Text) : Prop :=
  ∃ inside, line = ['<', '!', '-', '-'] ++ inside ++ ['-', '-', '>']

/-- A fence or an HTML block that is open: the type of its token and its first line. -/
structure Opening where
  type : String
  first : Nat
  deriving DecidableEq, Repr

/-- The Markdown parser reads lines, and follows the block structure of CommonMark: a fence, and
    an HTML block that a blank line does not end, is open to its closing line or to the end of the
    document, and a comment of one line after a blank line is a block of its own. -/
structure CommonMark where
  parse : List Text → List Token
  /-- The block at the top level that is open after these lines. -/
  openAtEnd : List Text → Option Opening
  blank_keeps : ∀ before, openAtEnd (before ++ [[]]) = openAtEnd before
  open_begins : ∀ before opening, openAtEnd before = some opening →
    ∃ line, before[opening.first]? = some line ∧ line ≠ []
  open_runs_on : ∀ before opening comment, openAtEnd before = some opening → IsComment comment →
    lastBlock (parse (before ++ [comment])) =
      some ⟨opening.type, 0, some (opening.first, before.length + 1)⟩
  comment_block : ∀ before comment, openAtEnd before = none →
    before = [] ∨ before.getLast? = some [] → IsComment comment →
    lastBlock (parse (before ++ [comment])) =
      some ⟨"html_block", 0, some (before.length, before.length + 1)⟩

structure Held (F : Type) where
  members : Members F
  keys : KeysOrdered members
  values : OrderedMembers members

namespace Held
variable {F : Type}

def empty : Held F := ⟨[], List.Pairwise.nil, trivial⟩

def set (held : Held F) (key : Text) (value : Option Text) : Held F where
  members := insertKey held.members key (value.elim .null .str)
  keys := insertKey_ordered held.keys
  values := insertKey_orderedMembers (by cases value <;> trivial) held.values

def merged (held : Held F) (changes : List (Text × Option Text)) : Held F :=
  changes.foldl (fun held change => held.set change.1 change.2) held

@[ext] theorem ext {a b : Held F} (same : a.members = b.members) : a = b := by
  cases a
  cases b
  cases same
  rfl

end Held

def recordMarker : Text :=
  ['d', 'e', 'v', 'o', 'p', 's', '-', 'r', 'o', 'a', 'd', 'm', 'a', 'p', '-', 'r', 'e', 'c', 'o',
    'r', 'd']

def recordPrefix : Text := ['<', '!', '-', '-', ' '] ++ recordMarker ++ [' ']

def recordSuffix : Text := [' ', '-', '-', '>']

def matchRecord (text : Text) : Option Text :=
  let rest := text.drop recordPrefix.length
  if recordPrefix.isPrefixOf text && recordSuffix.isSuffixOf rest then
    some (rest.take (rest.length - recordSuffix.length))
  else none

def isSpace (c : Char) : Bool :=
  let n := c.toNat
  (9 ≤ n && n ≤ 13) || (28 ≤ n && n ≤ 32) || n == 0x85 || n == 0xa0 || n == 0x1680 ||
    (0x2000 ≤ n && n ≤ 0x200a) || n == 0x2028 || n == 0x2029 || n == 0x202f || n == 0x205f ||
    n == 0x3000

def strip (text : Text) : Text := (text.dropWhile isSpace).rdropWhile isSpace

def withoutSeparator (rest : Text) : Text :=
  if ['\r', '\n', '\r', '\n'].isSuffixOf rest then rest.take (rest.length - 4)
  else if ['\n', '\n'].isSuffixOf rest then rest.take (rest.length - 2)
  else rest

section
variable {F : Type} (md : CommonMark) (floats : Floats F)

/-- The start and the end of the last block of the body, when it is HTML. -/
def recordBlockSpan (body : Text) : Option (Nat × Nat) :=
  match lastBlock (md.parse (splitLines body)) with
  | some ⟨"html_block", _, some (first, after)⟩ =>
    let starts := lineStarts body
    some (starts.getD first body.length,
      if after < starts.length then starts.getD after body.length else body.length)
  | _ => none

def splitRecord (body : Text) : Text × Held F :=
  match recordBlockSpan md body with
  | none => (body, .empty)
  | some (start, stop) =>
    match matchRecord (strip ((body.take stop).drop start)) with
    | none => (body, .empty)
    | some record =>
      let rest := withoutSeparator (body.take start)
      match read : loads floats record with
      | some (.obj members) =>
        (rest, ⟨members, (loads_ordered floats read).1, (loads_ordered floats read).2⟩)
      | _ => (rest, .empty)

def encodeJobRecord (held : Held F) (changes : List (Text × Option Text)) : Text :=
  recordPrefix ++ escapeGreater (dumps floats (.obj (held.merged changes).members)) ++ recordSuffix

def withRecord (body : Text) : Option Text → Text
  | none => body
  | some block => if body.isEmpty then block else body ++ ['\n', '\n'] ++ block

end

section Lines

theorem linesFrom_unbroken {block : Text} (unbroken : ∀ c ∈ block, c ≠ '\n' ∧ c ≠ '\r') (start : Nat) :
    linesFrom start block = [(start, block)] := by
  induction block generalizing start with
  | nil => rfl
  | cons c rest ih =>
    obtain ⟨⟨newline, return_⟩, later⟩ := List.forall_mem_cons.mp unbroken
    simp [linesFrom, newline, return_, ih later]

/-- A newline after a body ends its last line. The lines of the body alone are the same ones, or
    have an empty line more where the body ends with a carriage return. -/
theorem lines_newline (body : Text) (start : Nat) : ∃ first rest,
    (∀ more, linesFrom start (body ++ '\n' :: more) =
      ((start, first) :: rest) ++ linesFrom (start + body.length + 1) more) ∧
    (∀ line ∈ (start, first) :: rest, line.1 + line.2.length ≤ start + body.length) ∧
    (linesFrom start body = (start, first) :: rest ∨
      linesFrom start body = ((start, first) :: rest) ++ [(start + body.length, [])]) := by
  induction body generalizing start with
  | nil => exact ⟨[], [], fun more => by simp [linesFrom], by simp, .inl rfl⟩
  | cons c body ih =>
    obtain ⟨first, rest, split, inside, alone⟩ := ih (start + 1)
    have next (more : Text) : (body ++ '\n' :: more).head? = (body ++ ['\n']).head? := by
      cases body <;> rfl
    have place : start + 1 + body.length = start + (c :: body).length := by
      rw [List.length_cons]
      omega
    rw [place] at inside alone
    by_cases ends : c = '\n' ∨ c = '\r' ∧ (body ++ ['\n']).head? ≠ some '\n'
    · refine ⟨[], (start + 1, first) :: rest, fun more => ?_, ?_, ?_⟩
      · rw [List.cons_append, linesFrom, if_pos (by rwa [next]), split, place]
        rfl
      · exact List.forall_mem_cons.mpr ⟨by simp, inside⟩
      · have alone_ends : c = '\n' ∨ c = '\r' ∧ body.head? ≠ some '\n' := by
          cases body with
          | nil => exact .inl (by simpa using ends)
          | cons d body => exact ends
        rw [linesFrom, if_pos alone_ends]
        exact alone.imp (congrArg _) (congrArg _)
    · refine ⟨if c = '\r' then first else c :: first, rest, fun more => ?_, ?_, ?_⟩
      · rw [List.cons_append, linesFrom, if_neg (by rwa [next]), split, place]
        rfl
      · obtain ⟨head, later⟩ := List.forall_mem_cons.mp inside
        refine List.forall_mem_cons.mpr ⟨?_, later⟩
        split <;> simp only [List.length_cons] at head ⊢ <;> omega
      · cases body with
        | nil =>
          obtain ⟨rfl, rfl⟩ : first = [] ∧ rest = [] := by
            rcases alone with alone | alone <;> simp [linesFrom] at alone
            exact alone
          by_cases return_ : c = '\r'
          · exact .inr (by simp [linesFrom, return_])
          · have newline : c ≠ '\n' := fun same => ends (.inl same)
            exact .inl (by simp [linesFrom, return_, newline])
        | cons d body =>
          have alone_ends : ¬(c = '\n' ∨ c = '\r' ∧ (d :: body).head? ≠ some '\n') := ends
          rw [linesFrom, if_neg alone_ends]
          exact alone.imp (fun same => by rw [same]; rfl) fun same => by rw [same]; rfl

theorem withoutSeparator_newlines (body : Text) :
    withoutSeparator (body ++ ['\n', '\n']) = body := by
  have windows : ['\r', '\n', '\r', '\n'].isSuffixOf (body ++ ['\n', '\n']) = false := by
    rw [Bool.eq_false_iff, ne_eq, List.isSuffixOf_iff_suffix]
    rintro ⟨before, same⟩
    have halves : (before ++ ['\r', '\n']) ++ ['\r', '\n'] = body ++ ['\n', '\n'] := by
      simpa using same
    exact absurd (List.append_inj' halves rfl).2 (by decide)
  have newlines : ['\n', '\n'].isSuffixOf (body ++ ['\n', '\n']) = true :=
    List.isSuffixOf_iff_suffix.mpr ⟨body, rfl⟩
  simp [withoutSeparator, windows, newlines]

structure Written (md : CommonMark) (body block : Text) (before : List (Nat × Text)) (rest : Text) :
    Prop where
  text : withRecord body (some block) = rest ++ block
  lines : lines (withRecord body (some block)) = before ++ [(rest.length, block)]
  blank : before.map Prod.snd = [] ∨ (before.map Prod.snd).getLast? = some []
  opened : md.openAtEnd (before.map Prod.snd) = md.openAtEnd (splitLines body)
  inside : ∀ line ∈ before, line.2 ≠ [] → line.1 < body.length
  separator : withoutSeparator rest = body
  longer : body.length ≤ rest.length

theorem withRecord_written (md : CommonMark) (body : Text) {block : Text}
    (unbroken : ∀ c ∈ block, c ≠ '\n' ∧ c ≠ '\r') :
    ∃ before rest, Written md body block before rest := by
  cases body with
  | nil =>
    refine ⟨[], [], rfl, linesFrom_unbroken unbroken 0, .inl rfl, ?_, nofun, rfl, le_rfl⟩
    exact (md.blank_keeps []).symm
  | cons c body =>
    obtain ⟨first, rest, split, inside, alone⟩ := lines_newline (c :: body) 0
    rw [Nat.zero_add] at split inside alone
    have blank : linesFrom ((c :: body).length + 1) ('\n' :: block) =
        [((c :: body).length + 1, []), ((c :: body).length + 2, block)] := by
      rw [linesFrom, if_pos (.inl rfl), linesFrom_unbroken unbroken]
    refine ⟨((0, first) :: rest) ++ [((c :: body).length + 1, [])], c :: body ++ ['\n', '\n'], ?_, ?_,
      ?_, ?_, ?_, ?_, ?_⟩
    · simp [withRecord]
    · have text : withRecord (c :: body) (some block) = c :: body ++ '\n' :: '\n' :: block := by
        simp [withRecord]
      rw [text, lines, split, blank]
      simp
    · right
      rw [List.map_append]
      exact List.getLast?_concat
    · rcases alone with alone | alone
      · rw [List.map_append, splitLines, lines, alone]
        exact md.blank_keeps _
      · rw [splitLines, lines, alone]
        simp
    · intro line member some_
      rcases List.mem_append.mp member with member | last
      · have bound := inside line member
        have positive := List.length_pos_of_ne_nil some_
        omega
      · exact absurd (by rw [List.mem_singleton.mp last]) some_
    · exact withoutSeparator_newlines (c :: body)
    · simp

end Lines

section Block
variable {F : Type} (md : CommonMark) (floats : Floats F) (body : Text) (held : Held F)
  (changes : List (Text × Option Text))

theorem encoded_unbroken : ∀ c ∈ encodeJobRecord floats held changes, c ≠ '\n' ∧ c ≠ '\r' := by
  have printable {c : Char} (at_ : ' ' ≤ c) : c ≠ '\n' ∧ c ≠ '\r' := by
    constructor <;> (rintro rfl; exact absurd at_ (by decide))
  simp only [encodeJobRecord, List.forall_mem_append]
  exact ⟨⟨by simp [recordPrefix, recordMarker], fun c member => printable (text_printable floats _ c member)⟩,
    by simp [recordSuffix]⟩

theorem encoded_comment : IsComment (encodeJobRecord floats held changes) :=
  ⟨[' '] ++ recordMarker ++ [' '] ++
    escapeGreater (dumps floats (.obj (held.merged changes).members)) ++ [' '], by
    simp [encodeJobRecord, recordPrefix, recordSuffix]⟩

theorem strip_encoded :
    strip (encodeJobRecord floats held changes) = encodeJobRecord floats held changes := by
  have whole : encodeJobRecord floats held changes = '<' :: (['!', '-', '-', ' '] ++ recordMarker ++
      [' '] ++ escapeGreater (dumps floats (.obj (held.merged changes).members)) ++
      [' ', '-', '-']) ++ ['>'] := by
    simp [encodeJobRecord, recordPrefix, recordSuffix]
  have first (cs : Text) : ('<' :: cs).dropWhile isSpace = '<' :: cs :=
    List.dropWhile_cons_of_neg (by decide)
  rw [whole, strip, List.cons_append, first, ← List.cons_append,
    List.rdropWhile_concat_neg _ _ _ (by decide)]

theorem matchRecord_encoded : matchRecord (encodeJobRecord floats held changes) =
    some (escapeGreater (dumps floats (.obj (held.merged changes).members))) := by
  generalize same : escapeGreater (dumps floats (.obj (held.merged changes).members)) = text
  have begins : recordPrefix.isPrefixOf (recordPrefix ++ text ++ recordSuffix) = true := by
    rw [List.append_assoc]
    exact List.isPrefixOf_iff_prefix.mpr (List.prefix_append _ _)
  have rest : (recordPrefix ++ text ++ recordSuffix).drop recordPrefix.length =
      text ++ recordSuffix := by
    rw [List.append_assoc, List.drop_left]
  have ends : recordSuffix.isSuffixOf (text ++ recordSuffix) = true :=
    List.isSuffixOf_iff_suffix.mpr (List.suffix_append _ _)
  rw [encodeJobRecord, same, matchRecord]
  simp only [rest, begins, ends, Bool.and_self, if_true]
  simp

theorem merged_ordered : (Json.obj (held.merged changes).members).Ordered :=
  ⟨(held.merged changes).keys, (held.merged changes).values⟩

theorem span_of_block {text : Text} {before : List (Nat × Text)} {start first : Nat} {block : Text}
    (split : lines text = before ++ [(start, block)])
    (last : lastBlock (md.parse (splitLines text)) =
      some ⟨"html_block", 0, some (first, before.length + 1)⟩) :
    recordBlockSpan md text = some ((lineStarts text).getD first text.length, text.length) := by
  have count : (lineStarts text).length = before.length + 1 := by simp [lineStarts, split]
  rw [recordBlockSpan, last]
  simp [count]

theorem splitRecord_of_block {text record : Text} {start stop : Nat} {members : Members F}
    (span : recordBlockSpan md text = some (start, stop))
    (block : matchRecord (strip ((text.take stop).drop start)) = some record)
    (read : loads floats record = some (.obj members)) :
    (splitRecord md floats text).1 = withoutSeparator (text.take start) ∧
      (splitRecord md floats text).2.members = members := by
  unfold splitRecord
  simp only [span, block]
  split
  · rename_i found same
    rw [read] at same
    cases same
    exact ⟨rfl, rfl⟩
  · rename_i other
    exact absurd read (other members)

theorem splitRecord_body (text : Text) :
    (splitRecord md floats text).1 = text ∨ ∃ start stop,
      recordBlockSpan md text = some (start, stop) ∧
        (splitRecord md floats text).1 = withoutSeparator (text.take start) := by
  unfold splitRecord
  split
  · exact .inl rfl
  · rename_i start stop span
    split
    · exact .inl rfl
    · refine .inr ⟨start, stop, span, ?_⟩
      split <;> rfl

theorem withoutSeparator_length (text : Text) : (withoutSeparator text).length ≤ text.length := by
  unfold withoutSeparator
  split_ifs <;> simp

theorem record_read_back (closed : md.openAtEnd (splitLines body) = none) :
    splitRecord md floats (withRecord body (some (encodeJobRecord floats held changes))) =
      (body, held.merged changes) := by
  obtain ⟨before, rest, written⟩ := withRecord_written md body
    (encoded_unbroken floats held changes)
  have last := md.comment_block _ _ (written.opened.trans closed) written.blank
    (encoded_comment floats held changes)
  have parsed : splitLines (withRecord body (some (encodeJobRecord floats held changes))) =
      before.map Prod.snd ++ [encodeJobRecord floats held changes] := by
    simp [splitLines, written.lines]
  rw [← parsed, List.length_map] at last
  have span := span_of_block md written.lines last
  have start : (lineStarts (withRecord body (some (encodeJobRecord floats held changes)))).getD
      before.length (withRecord body (some (encodeJobRecord floats held changes))).length =
        rest.length := by
    simp [lineStarts, written.lines]
  rw [start] at span
  have block : matchRecord (strip (((withRecord body (some (encodeJobRecord floats held changes))).take
      (withRecord body (some (encodeJobRecord floats held changes))).length).drop rest.length)) =
        some (escapeGreater (dumps floats (.obj (held.merged changes).members))) := by
    rw [List.take_length, written.text, List.drop_left, strip_encoded, matchRecord_encoded]
  obtain ⟨first, second⟩ := splitRecord_of_block md floats span block
    (loads_dumps floats _ (merged_ordered held changes))
  rw [written.text, List.take_left, written.separator] at first
  rw [← written.text] at first
  exact Prod.ext first (Held.ext second)

theorem body_not_read_back (opening : Opening)
    (opened : md.openAtEnd (splitLines body) = some opening) :
    (splitRecord md floats (withRecord body (some (encodeJobRecord floats held changes)))).1 ≠
      body := by
  obtain ⟨before, rest, written⟩ := withRecord_written md body
    (encoded_unbroken floats held changes)
  have stays := written.opened.trans opened
  have last := md.open_runs_on _ _ _ stays (encoded_comment floats held changes)
  have parsed : splitLines (withRecord body (some (encodeJobRecord floats held changes))) =
      before.map Prod.snd ++ [encodeJobRecord floats held changes] := by
    simp [splitLines, written.lines]
  rw [← parsed, List.length_map] at last
  obtain ⟨line, at_, some_⟩ := md.open_begins _ _ stays
  rw [List.getElem?_map] at at_
  obtain ⟨place, found, rfl⟩ := Option.map_eq_some_iff.mp at_
  intro same
  rcases splitRecord_body md floats (withRecord body (some (encodeJobRecord floats held changes)))
    with whole | ⟨start, stop, span, cut⟩
  · have lengths := congrArg List.length (whole.symm.trans same)
    have longer := written.longer
    rw [written.text] at lengths
    simp [encodeJobRecord, recordPrefix] at lengths
    omega
  · have start_ : start = place.1 := by
      unfold recordBlockSpan at span
      rw [last] at span
      split at span
      · rename_i first after same
        simp only [Option.some.injEq, Token.mk.injEq, Prod.mk.injEq] at same
        obtain ⟨_, _, rfl, rfl⟩ := same
        have begins := (Prod.mk.inj (Option.some.inj span)).1
        rw [← begins, lineStarts, written.lines, List.getD_eq_getElem?_getD, List.getElem?_map,
          List.getElem?_append_left (List.getElem?_eq_some_iff.mp found).1, found]
        rfl
      · exact nomatch span
    have inside := written.inside place (List.mem_of_getElem? found) some_
    have short := withoutSeparator_length
      ((withRecord body (some (encodeJobRecord floats held changes))).take start)
    rw [← cut, same, List.length_take] at short
    omega

/-- The record survives its own write just when the body leaves no fence and no HTML block open. -/
theorem job_record_round_trip :
    splitRecord md floats (withRecord body (some (encodeJobRecord floats held changes))) =
      (body, held.merged changes) ↔ md.openAtEnd (splitLines body) = none := by
  constructor
  · intro same
    rw [Option.eq_none_iff_forall_ne_some]
    intro opening opened
    exact body_not_read_back md floats body held changes opening opened (congrArg Prod.fst same)
  · exact record_read_back md floats body held changes

end Block

section Fences

/-- A reading of lines that knows only fences, comments and paragraphs. -/
inductive Reading where
  | closed (last : Option Token)
  | opened (fence : Bool) (first : Nat)
  deriving DecidableEq, Repr

def isFence (line : Text) : Bool := ['~', '~', '~'].isPrefixOf line

def beginsComment (line : Text) : Bool := ['<', '!', '-', '-'].isPrefixOf line

def endsComment (line : Text) : Bool := ['-', '-', '>'].isSuffixOf line

def blockType (fence : Bool) : String := if fence then "fence" else "html_block"

def Reading.read (reading : Reading) (number : Nat) (line : Text) : Reading :=
  match reading with
  | .opened fence first =>
    if (if fence then isFence line else endsComment line) then
      .closed (some ⟨blockType fence, 0, some (first, number + 1)⟩)
    else .opened fence first
  | .closed last =>
    if isFence line then .opened true number
    else if beginsComment line then
      if endsComment line then .closed (some ⟨blockType false, 0, some (number, number + 1)⟩)
      else .opened false number
    else if line.isEmpty then .closed last
    else .closed (some ⟨"paragraph_close", 0, none⟩)

def readingsFrom (number : Nat) (reading : Reading) : List Text → Reading
  | [] => reading
  | line :: rest => readingsFrom (number + 1) (reading.read number line) rest

def reading (lines : List Text) : Reading := readingsFrom 0 (.closed none) lines

theorem reading_push (lines : List Text) (line : Text) :
    reading (lines ++ [line]) = (reading lines).read lines.length line := by
  have from_ (number : Nat) (start : Reading) : readingsFrom number start (lines ++ [line]) =
      (readingsFrom number start lines).read (number + lines.length) line := by
    induction lines generalizing number start with
    | nil => rfl
    | cons first rest ih =>
      rw [List.cons_append, readingsFrom, ih, readingsFrom, List.length_cons]
      congr 1
      omega
  rw [reading, from_, Nat.zero_add]
  rfl

theorem reading_opened {lines : List Text} {fence : Bool} {first : Nat}
    (opened : reading lines = .opened fence first) :
    ∃ line, lines[first]? = some line ∧ line ≠ [] := by
  induction lines using List.reverseRecOn generalizing fence first with
  | nil => exact nomatch opened
  | append_singleton lines line ih =>
    have earlier {fence : Bool} {first : Nat} (still : reading lines = .opened fence first) :
        ∃ found, (lines ++ [line])[first]? = some found ∧ found ≠ [] := by
      obtain ⟨found, at_, some_⟩ := ih still
      exact ⟨found, (List.getElem?_append_left (List.getElem?_eq_some_iff.mp at_).1).trans at_, some_⟩
    rw [reading_push] at opened
    cases before : reading lines with
    | opened fence' first' =>
      have same : fence' = fence ∧ first' = first := by
        simp only [before, Reading.read] at opened
        split_ifs at opened <;> exact Reading.opened.inj opened
      exact same.2 ▸ earlier before
    | closed last =>
      have some_ : reading lines = .closed last → line ≠ [] := by
        rintro - rfl
        simp [before, Reading.read, isFence, beginsComment, List.isPrefixOf] at opened
      have here : first = lines.length := by
        simp only [before, Reading.read] at opened
        split_ifs at opened <;> exact (Reading.opened.inj opened).2.symm
      exact ⟨line, by simp [here], some_ before⟩

theorem comment_marks {line : Text} (comment : IsComment line) :
    isFence line = false ∧ beginsComment line = true ∧ endsComment line = true := by
  obtain ⟨inside, rfl⟩ := comment
  refine ⟨rfl, rfl, ?_⟩
  exact List.isSuffixOf_iff_suffix.mpr (List.suffix_append _ _)

def fences : CommonMark where
  parse lines :=
    match reading lines with
    | .closed last => last.toList
    | .opened fence first => [⟨blockType fence, 0, some (first, lines.length)⟩]
  openAtEnd lines :=
    match reading lines with
    | .closed _ => none
    | .opened fence first => some ⟨blockType fence, first⟩
  blank_keeps before := by
    have kept : reading (before ++ [[]]) = reading before := by
      rw [reading_push]
      cases reading before with
      | closed last => rfl
      | opened fence first => cases fence <;> rfl
    rw [kept]
  open_begins before opening opened := by
    cases at_ : reading before with
    | closed last => simp [at_] at opened
    | opened fence first =>
      simp only [at_, Option.some.injEq] at opened
      exact opened ▸ reading_opened at_
  open_runs_on before opening comment opened is_comment := by
    obtain ⟨fence_, _, ends⟩ := comment_marks is_comment
    cases at_ : reading before with
    | closed last => simp [at_] at opened
    | opened fence first =>
      simp only [at_, Option.some.injEq] at opened
      subst opened
      cases fence <;> simp [reading_push, at_, Reading.read, fence_, ends, lastBlock]
  comment_block before comment closed _ is_comment := by
    obtain ⟨fence_, begins, ends⟩ := comment_marks is_comment
    cases at_ : reading before with
    | opened fence first => simp [at_] at closed
    | closed last =>
      simp [reading_push, at_, Reading.read, fence_, begins, ends, lastBlock, blockType]

end Fences

def statusReady : List (Text × Option Text) :=
  [(['S', 't', 'a', 't', 'u', 's'], some ['R', 'e', 'a', 'd', 'y'])]

/-- A closed fence, then a line of text. -/
theorem job_record_round_trip_closed :
    let body : Text := ['~', '~', '~', '\n', 'x', '\r', '\n', '~', '~', '~', '\n', 'a']
    splitRecord fences zeroFloats
      (withRecord body (some (encodeJobRecord zeroFloats .empty statusReady))) =
        (body, Held.empty.merged statusReady) :=
  (job_record_round_trip fences zeroFloats _ .empty statusReady).mpr (by decide +kernel)

/-- A fence that the body leaves open takes the record in. -/
theorem open_fence_loses_record :
    ¬∀ (md : CommonMark) (body : Text) (held : Held Unit) (changes : List (Text × Option Text)),
      splitRecord md zeroFloats body = (body, .empty) →
      splitRecord md zeroFloats
        (withRecord body (some (encodeJobRecord zeroFloats held changes))) =
          (body, held.merged changes) := by
  intro claim
  let body : Text := ['~', '~', '~', '\n', 'x']
  have kept := claim fences body .empty statusReady rfl
  have opened : fences.openAtEnd (splitLines body) = some ⟨"fence", 0⟩ := by decide +kernel
  exact body_not_read_back fences zeroFloats body .empty statusReady _ opened
    (congrArg Prod.fst kept)

end DevopsCli.Roadmap
