import DevopsCli.Lib.PyStr

/- The numbered groups of a tasks.md, roadmap/step_files.py. The tokens of markdown-it and
   the digits of Unicode come from outside. -/
namespace DevopsCli.Implement.StepFiles
open PyStr

structure Span where
  type : String
  content : Str

structure Token where
  type : String
  tag : String := ""
  level : Nat := 0
  map : Option (Nat × Nat) := none
  content : Str := []
  children : List Span := []

structure Reader where
  parse : Str → List Token
  digit : Char → Option (Option Nat)

def box : Str := ['[', ' ', ']']
def ticked : Str := ['[', 'x', ']']
def tickedUpper : Str := ['[', 'X', ']']
def checkboxes : List Str := [box, ticked, tickedUpper]

def commandMark : Str := "$ ".toList
def verificationMark : Str := "Verification:".toList
def failsOnBase : Str := "fails on the base".toList

structure GroupTask where
  text : Str
  ticked : Bool
  verification : List Str := []
  paths : List Str := []
  failsOnBase : Bool := false
  line : Int := -1

structure TaskGroup where
  number : Nat
  title : Str
  tasks : List GroupTask
  text : Str
  line : Int := -1

def fileLines : Str → List Str
  | [] => []
  | '\r' :: '\n' :: rest => ['\r', '\n'] :: fileLines rest
  | c :: rest =>
    if c = '\n' ∨ c = '\r' then [c] :: fileLines rest
    else
      match fileLines rest with
      | [] => [[c]]
      | line :: lines => (c :: line) :: lines

def codeSpans (inline_ : Token) : List Str :=
  (inline_.children.filter (·.type = "code_inline")).map (·.content)

def listItemsFrom (tokens : List Token) (start : Nat) : List (Token × Nat) → List (List Token)
  | [] => []
  | (token, index) :: rest =>
    if token.type = "list_item_open" ∧ token.level = 1 then listItemsFrom tokens index rest
    else if token.type = "list_item_close" ∧ token.level = 1 then
      (tokens.drop start).take (index + 1 - start) :: listItemsFrom tokens start rest
    else listItemsFrom tokens start rest

def listItems (tokens : List Token) : List (List Token) := listItemsFrom tokens 0 tokens.zipIdx

/-- The keys of a dict in the order of their first entry. -/
def fromkeys (names : List Str) : List Str :=
  names.foldl (fun seen name => if name ∈ seen then seen else seen ++ [name]) []

def taskOf (item : List Token) : Option GroupTask :=
  match item.filter (·.type = "inline") with
  | [] => none
  | first :: rest =>
    let mark := first.content.take 3
    if mark ∉ checkboxes then none
    else
      let checks := rest.filter fun line => verificationMark.isPrefixOf line.content
      some
        { text := first.content
          ticked := mark ≠ box
          verification := ((checks.flatMap codeSpans).filter commandMark.isPrefixOf).map
            (·.drop commandMark.length)
          paths := codeSpans first
          failsOnBase := checks.any fun line => failsOnBase.isSuffixOf line.content
          line := (first.map.map fun lines => (lines.1 : Int)).getD (-1) }

structure Heading where
  index : Nat
  line : Nat
  text : Str

def headings (tokens : List Token) (tag : String) : List Heading :=
  tokens.zipIdx.filterMap fun entry =>
    if entry.1.type = "heading_open" ∧ entry.1.tag = tag ∧ entry.1.level = 0 then
      entry.1.map.map fun lines =>
        ⟨entry.2, lines.1, ((tokens[entry.2 + 1]?).map (·.content)).getD []⟩
    else none

def partition (separator : Str) : Str → Option (Str × Str)
  | [] => if separator = [] then some ([], []) else none
  | c :: rest =>
    if separator.isPrefixOf (c :: rest) then some ([], (c :: rest).drop separator.length)
    else (partition separator rest).map fun parts => (c :: parts.1, parts.2)

def replaceFirst (old new : Str) : Str → Str
  | [] => if old = [] then new else []
  | c :: rest =>
    if old.isPrefixOf (c :: rest) then new ++ (c :: rest).drop old.length
    else c :: replaceFirst old new rest

/-- The index that Python reads at, or nothing where it raises. -/
def index? (length : Nat) (at_ : Int) : Option Nat :=
  if 0 ≤ at_ ∧ at_ < length then some at_.toNat
  else if at_ < 0 ∧ -length ≤ at_ then some (at_ + length).toNat
  else none

def tickLines (lines : List Str) : List Int → Option (List Str)
  | [] => some lines
  | at_ :: more =>
    (index? lines.length at_).bind fun n =>
      tickLines (lines.modify n (replaceFirst box ticked)) more

section Reading
variable (reader : Reader)

def isdigit (text : Str) : Bool := text ≠ [] && text.all fun c => (reader.digit c).isSome

def maxDigits : Nat := 4300

/-- The number that int reads in digits, or nothing where it raises: a digit may be no decimal. -/
def int (text : Str) : Option Nat :=
  if maxDigits < text.length then none
  else (text.mapM fun c => (reader.digit c).join).map (List.foldl (10 * · + ·) 0)

def endOf (tokens : List Token) (lines : List Str) : List Heading → Nat × Nat
  | [] => (tokens.length, lines.length)
  | next :: _ => (next.index, next.line)

def groupsOf (tokens : List Token) (lines : List Str) : List Heading → Option (List TaskGroup)
  | [] => some []
  | heading :: later =>
    match partition ". ".toList heading.text with
    | none => groupsOf tokens lines later
    | some (number, title) =>
      if isdigit reader number = false then groupsOf tokens lines later
      else
        let end_ := endOf tokens lines later
        let section_ := (tokens.drop heading.index).take (end_.1 - heading.index)
        (int reader number).bind fun number =>
          (groupsOf tokens lines later).map fun groups =>
            { number := number
              title := title
              tasks := (listItems section_).filterMap taskOf
              text := rstrip (join ['\n'] ((lines.drop heading.line).take (end_.2 - heading.line)))
              line := heading.line } :: groups

def parseTaskGroups (tasksMd : Str) : Option (List TaskGroup) :=
  let tokens := reader.parse tasksMd
  let lines := (fileLines tasksMd).map (List.rdropWhile fun c => c = '\r' || c = '\n')
  groupsOf reader tokens lines (headings tokens "h2")

end Reading

section Lines

theorem fileLines_flatten (text : Str) : (fileLines text).flatten = text := by
  induction text using fileLines.induct with
  | case1 => rfl
  | case2 rest ih => simp [fileLines, ih]
  | case3 c rest noPair end_ ih => rw [fileLines, if_pos end_]; simp [ih]; exact noPair
  | case4 c rest noPair inside none_ ih =>
    rw [fileLines, if_neg inside, none_]
    · rw [none_] at ih
      simpa using ih
    · exact noPair
  | case5 c rest noPair inside line lines more ih =>
    rw [fileLines, if_neg inside, more]
    · rw [more] at ih
      simpa using ih
    · exact noPair

/-- Two characters that end a line alike. -/
def EndsAlike (c d : Char) : Prop := (c = '\n' ↔ d = '\n') ∧ (c = '\r' ↔ d = '\r')

theorem endsAlike_refl (c : Char) : EndsAlike c c := ⟨Iff.rfl, Iff.rfl⟩

theorem fileLines_pair (rest : Str) :
    fileLines ('\r' :: '\n' :: rest) = ['\r', '\n'] :: fileLines rest := by
  simp [fileLines]

theorem fileLines_end {c : Char} {rest : Str} (end_ : c = '\n' ∨ c = '\r')
    (noPair : c = '\r' → ∀ later, rest ≠ '\n' :: later) :
    fileLines (c :: rest) = [c] :: fileLines rest := by
  rw [fileLines, if_pos end_]
  exact fun later first => noPair first later

theorem fileLines_inside {c : Char} (rest : Str) (inside : ¬ (c = '\n' ∨ c = '\r')) :
    fileLines (c :: rest) =
      match fileLines rest with
      | [] => [[c]]
      | line :: lines => (c :: line) :: lines := by
  rw [fileLines, if_neg inside]
  exact fun later first => absurd (Or.inr first) inside

theorem fileLines_lengths {text other : Str} (alike : List.Forall₂ EndsAlike text other) :
    (fileLines text).map List.length = (fileLines other).map List.length := by
  induction text using fileLines.induct generalizing other with
  | case1 =>
    cases alike
    rfl
  | case2 rest ih =>
    obtain ⟨c, others, first, tail, rfl⟩ := List.forall₂_cons_left_iff.mp alike
    obtain ⟨d, later, second, tails, rfl⟩ := List.forall₂_cons_left_iff.mp tail
    obtain rfl := first.2.mp rfl
    obtain rfl := second.1.mp rfl
    simp only [fileLines_pair, List.map_cons, ih tails, List.length_cons, List.length_nil]
  | case3 c rest noPair end_ ih =>
    obtain ⟨d, others, first, tail, rfl⟩ := List.forall₂_cons_left_iff.mp alike
    have ends : d = '\n' ∨ d = '\r' := end_.imp first.1.mp first.2.mp
    have apart : d = '\r' → ∀ later, others ≠ '\n' :: later := by
      rintro return_ later rfl
      obtain ⟨e, more, second, -, rfl⟩ := List.forall₂_cons_right_iff.mp tail
      exact noPair more (first.2.mpr return_) (by rw [second.1.mpr rfl])
    rw [fileLines_end end_ fun return_ later same => noPair later return_ same,
      fileLines_end ends apart, List.map_cons, List.map_cons, ih tail]
    rfl
  | case4 c rest noPair inside none_ ih =>
    obtain ⟨d, others, first, tail, rfl⟩ := List.forall₂_cons_left_iff.mp alike
    have inside' : ¬ (d = '\n' ∨ d = '\r') := fun ends => inside (ends.imp first.1.mpr first.2.mpr)
    have same := ih tail
    rw [none_, List.map_nil, eq_comm, List.map_eq_nil_iff] at same
    simp [fileLines_inside _ inside, fileLines_inside _ inside', none_, same]
  | case5 c rest noPair inside line lines more ih =>
    obtain ⟨d, others, first, tail, rfl⟩ := List.forall₂_cons_left_iff.mp alike
    have inside' : ¬ (d = '\n' ∨ d = '\r') := fun ends => inside (ends.imp first.1.mpr first.2.mpr)
    have same := ih tail
    rw [more] at same
    rw [fileLines_inside _ inside, fileLines_inside _ inside', more]
    cases found : fileLines others with
    | nil => simp [found] at same
    | cons line' lines' =>
      rw [found, List.map_cons, List.map_cons, List.cons_eq_cons] at same
      simp [same.1, same.2]

theorem fileLines_edited {text : Str} {lines : List Str}
    (alike : List.Forall₂ (List.Forall₂ EndsAlike) (fileLines text) lines) :
    fileLines lines.flatten = lines := by
  have texts : List.Forall₂ EndsAlike text lines.flatten := by
    have := List.rel_flatten alike
    rwa [fileLines_flatten] at this
  have lengths : (fileLines text).map List.length = lines.map List.length :=
    List.forall₂_eq_eq_eq ▸ List.forall₂_map_left_iff.mpr
      (List.forall₂_map_right_iff.mpr (alike.imp fun _ _ same => same.length_eq))
  rw [List.eq_iff_flatten_eq, fileLines_flatten]
  exact ⟨rfl, (fileLines_lengths texts).symm.trans lengths⟩

/-- The first box of a line ticked, and nothing else. -/
def BoxTicked (was now : Str) : Prop :=
  ∃ before after, was = before ++ box ++ after ∧ now = before ++ ticked ++ after ∧
    ¬ box <:+: before

structure OnlyTicks (lines edited : List Str) (at_ : List Nat) : Prop where
  length : edited.length = lines.length
  others : ∀ n, n ∉ at_ → edited[n]? = lines[n]?
  boxes : ∀ n ∈ at_, ∃ was now, lines[n]? = some was ∧ edited[n]? = some now ∧ BoxTicked was now

theorem onlyTicks_nil (lines : List Str) : OnlyTicks lines lines [] where
  length := rfl
  others _ _ := rfl
  boxes _ none_ := absurd none_ List.not_mem_nil

theorem OnlyTicks.congr {lines edited : List Str} {at_ places : List Nat}
    (ticks : OnlyTicks lines edited at_) (same : ∀ n, n ∈ at_ ↔ n ∈ places) :
    OnlyTicks lines edited places where
  length := ticks.length
  others n out := ticks.others n fun inside => out ((same n).mp inside)
  boxes n inside := ticks.boxes n ((same n).mpr inside)

def hasBox (line : Str) : Bool := decide (box <:+: line)

theorem replaceFirst_box {line : Str} (has : box <:+: line) :
    BoxTicked line (replaceFirst box ticked line) := by
  induction line with
  | nil => simp [box] at has
  | cons c rest ih =>
    rw [replaceFirst]
    by_cases here : box.isPrefixOf (c :: rest) = true
    · obtain ⟨after, whole⟩ := List.isPrefixOf_iff_prefix.mp here
      refine ⟨[], after, whole.symm, ?_, by simp [box]⟩
      rw [if_pos here, ← whole, List.drop_left, List.nil_append]
    · have later : box <:+: rest := by
        rcases List.infix_cons_iff.mp has with first | later
        · exact absurd (List.isPrefixOf_iff_prefix.mpr first) here
        · exact later
      obtain ⟨before, after, was, now, first⟩ := ih later
      refine ⟨c :: before, after, by rw [was]; rfl, by rw [if_neg here, now]; rfl, ?_⟩
      intro inside
      rcases List.infix_cons_iff.mp inside with start | inside
      · refine here (List.isPrefixOf_iff_prefix.mpr (start.trans ?_))
        rw [was, List.append_assoc]
        exact ⟨box ++ after, by simp⟩
      · exact first inside

theorem replaceFirst_alike (line : Str) :
    List.Forall₂ EndsAlike line (replaceFirst box ticked line) := by
  induction line with
  | nil => exact .nil
  | cons c rest ih =>
    rw [replaceFirst]
    split
    · rename_i here
      obtain ⟨after, whole⟩ := List.isPrefixOf_iff_prefix.mp here
      rw [← whole, List.drop_left]
      refine List.rel_append ?_ (List.forall₂_same.mpr fun c _ => endsAlike_refl c)
      refine .cons (endsAlike_refl _) (.cons ?_ (.cons (endsAlike_refl _) .nil))
      simp [EndsAlike]
    · exact .cons (endsAlike_refl c) ih

theorem index?_natCast {length n : Nat} (inside : n < length) :
    index? length (n : Int) = some n := by
  rw [index?, if_pos ⟨by omega, by omega⟩, Int.toNat_natCast]

theorem tickLines_only (lines : List Str) (places : List Nat) (once : places.Nodup)
    (boxes : ∀ n ∈ places, ∃ line, lines[n]? = some line ∧ box <:+: line) :
    ∃ edited, tickLines lines (places.map (↑)) = some edited ∧ OnlyTicks lines edited places := by
  induction places generalizing lines with
  | nil => exact ⟨lines, rfl, onlyTicks_nil lines⟩
  | cons n places ih =>
    obtain ⟨absent, once⟩ := List.nodup_cons.mp once
    obtain ⟨line, at_, has⟩ := boxes n List.mem_cons_self
    have inside : n < lines.length := (List.getElem?_eq_some_iff.mp at_).1
    have kept : ∀ m, m ≠ n → (lines.modify n (replaceFirst box ticked))[m]? = lines[m]? := by
      intro m other
      rw [List.getElem?_modify_ne _ _ other.symm]
    obtain ⟨edited, run, ticks⟩ := ih _ once fun m held => by
      rw [kept m fun same => absent (same ▸ held)]
      exact boxes m (List.mem_cons_of_mem n held)
    refine ⟨edited, ?_, ?_, fun m out => ?_, fun m held => ?_⟩
    · rw [List.map_cons, tickLines, index?_natCast inside]
      exact run
    · rw [ticks.length, List.length_modify]
    · obtain ⟨other, out⟩ := not_or.mp (List.mem_cons.not.mp out)
      rw [ticks.others m out, kept m other]
    · rcases List.mem_cons.mp held with rfl | held
      · refine ⟨line, replaceFirst box ticked line, at_, ?_, replaceFirst_box has⟩
        rw [ticks.others m absent, List.getElem?_modify, at_]
        simp
      · obtain ⟨was, now, old, new, ticked⟩ := ticks.boxes m held
        rw [kept m fun same => absent (same ▸ held)] at old
        exact ⟨was, now, old, new, ticked⟩

theorem forall₂_trans {α : Type} {R : α → α → Prop} (trans : ∀ a b c, R a b → R b c → R a c)
    {as bs cs : List α} (first : List.Forall₂ R as bs) (later : List.Forall₂ R bs cs) :
    List.Forall₂ R as cs := by
  induction first generalizing cs with
  | nil => exact later
  | cons one _ ih =>
    obtain ⟨c, rest, two, tail, rfl⟩ := List.forall₂_cons_left_iff.mp later
    exact .cons (trans _ _ _ one two) (ih tail)

theorem forall₂_modify {α : Type} {R : α → α → Prop} (same : ∀ a, R a a) {f : α → α}
    (edit : ∀ a, R a (f a)) (as : List α) (n : Nat) : List.Forall₂ R as (as.modify n f) := by
  induction as generalizing n with
  | nil => rw [List.modify_nil]; exact .nil
  | cons a as ih =>
    cases n with
    | zero => exact .cons (edit a) (List.forall₂_same.mpr fun a _ => same a)
    | succ n => exact .cons (same a) (ih n)

theorem tickLines_alike {lines edited : List Str} {at_ : List Int}
    (run : tickLines lines at_ = some edited) :
    List.Forall₂ (List.Forall₂ EndsAlike) lines edited := by
  have same : ∀ line : Str, List.Forall₂ EndsAlike line line := fun line =>
    List.forall₂_same.mpr fun c _ => endsAlike_refl c
  induction at_ generalizing lines with
  | nil => exact Option.some.inj run ▸ List.forall₂_same.mpr fun line _ => same line
  | cons n at_ ih =>
    obtain ⟨m, -, run⟩ := Option.bind_eq_some_iff.mp run
    refine forall₂_trans (fun a b c first later => ?_)
      (forall₂_modify same replaceFirst_alike lines m) (ih run)
    exact forall₂_trans (fun a b c one two =>
      ⟨one.1.trans two.1, one.2.trans two.2⟩) first later

theorem fileLines_ticked {text : Str} {edited : List Str} {at_ : List Int}
    (run : tickLines (fileLines text) at_ = some edited) : fileLines edited.flatten = edited :=
  fileLines_edited (tickLines_alike run)

theorem tickLines_append (lines : List Str) (first later : List Int) :
    tickLines lines (first ++ later) = (tickLines lines first).bind (tickLines · later) := by
  induction first generalizing lines with
  | nil => rfl
  | cons at_ first ih =>
    simp only [List.cons_append, tickLines, Option.bind_assoc, ih]

end Lines
end DevopsCli.Implement.StepFiles
