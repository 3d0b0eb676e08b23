import DevopsCli.Lib.JsonScan
import DevopsCli.Lib.PyLines

/- Items streamed as one JSON array and as JSON lines. The array form indents the text of an item
   at each line end, also at one inside a string. -/
namespace DevopsCli.Output
open PyStr

inductive Item (Model Plain Other : Type) where
  /-- A Pydantic model. -/
  | model (m : Model)
  /-- A mapping, a list, a text, a number, a boolean or nothing. -/
  | plain (p : Plain)
  | other (o : Other)

structure Renderers (Model Plain Other : Type) where
  modelDumpJson : Model → Str
  dumps : Plain → Str
  str : Other → Plain
  maskSecrets : Str → Str

namespace Renderers
variable {Model Plain Other F : Type} (r : Renderers Model Plain Other)

def raw : Item Model Plain Other → Str
  | .model m => r.modelDumpJson m
  | .plain p => r.dumps p
  | .other o => r.dumps (r.str o)

def dumpObject (obj : Item Model Plain Other) : Str := r.maskSecrets (r.raw obj)

def indent (rendered : Str) : Str :=
  join ['\n'] ((splitlines rendered).map fun line => ' ' :: ' ' :: line)

/-- The chunks from an item on, the closing bracket last. -/
def arrayChunks (first : Bool) : List (Item Model Plain Other) → List Str
  | [] => [['\n', ']']]
  | item :: items =>
    (if first then [] else [[',', '\n']]) ++ indent (r.dumpObject item) :: arrayChunks false items

def streamJsonArray (items : List (Item Model Plain Other)) : List Str :=
  ['[', '\n'] :: r.arrayChunks true items

def streamJsonl (items : List (Item Model Plain Other)) : List Str :=
  items.map fun item => r.dumpObject item ++ ['\n']

end Renderers

def linesOf (text : Str) : List Str := (text.splitOn '\n').dropLast

section Values
variable {F : Type}

mutual
def holds (c : Char) : Json F → Bool
  | .str value => value.contains c
  | .arr elements => elementsHold c elements
  | .obj members => membersHold c members
  | _ => false

def elementsHold (c : Char) : List (Json F) → Bool
  | [] => false
  | v :: rest => holds c v || elementsHold c rest

def membersHold (c : Char) : Json.Members F → Bool
  | [] => false
  | (k, v) :: rest => k.contains c || holds c v || membersHold c rest
end

/-- The line ends of splitlines that JSON text may hold inside a string. -/
def hiddenBreaks : List Char := ['\x85', '\u2028', '\u2029']

end Values

/-- The renderers write JSON on one line. The text of a model holds the characters of its strings as
    they are, the text of json.dumps is in ASCII. -/
structure WritesJson {Model Plain Other F : Type} (floats : Floats F)
    (r : Renderers Model Plain Other) (modelValue : Model → Json F) (plainValue : Plain → Json F) :
    Prop where
  model : ∀ m, Json.loads floats (r.modelDumpJson m) = some (modelValue m)
  modelLine : ∀ m, ∀ c ∈ r.modelDumpJson m, ' ' ≤ c
  modelHolds : ∀ m c, 128 ≤ c.toNat → (c ∈ r.modelDumpJson m ↔ holds c (modelValue m) = true)
  plain : ∀ p, Json.loads floats (r.dumps p) = some (plainValue p)
  plainLine : ∀ p, ∀ c ∈ r.dumps p, ' ' ≤ c ∧ c.toNat < 128

def itemValue {Model Plain Other F : Type} (r : Renderers Model Plain Other)
    (modelValue : Model → Json F) (plainValue : Plain → Json F) : Item Model Plain Other → Json F
  | .model m => modelValue m
  | .plain p => plainValue p
  | .other o => plainValue (r.str o)

/-- The array of the stream is the JSON of the values, and so is each of its JSON lines. -/
def Streamed {Model Plain Other F : Type} (floats : Floats F) (r : Renderers Model Plain Other)
    (items : List (Item Model Plain Other)) (values : List (Json F)) : Prop :=
  Json.loads floats (r.streamJsonArray items).flatten = some (.arr values) ∧
    (linesOf (r.streamJsonl items).flatten).map (Json.loads floats) = values.map some

section Indent
variable {text : Str}

theorem hidden_break {c : Char} (printable : ' ' ≤ c) : isBreak c = true ↔ c ∈ hiddenBreaks := by
  have low : 32 ≤ c.toNat := UInt32.le_iff_toNat_le.mp printable
  have same (d : Char) : c = d ↔ c.toNat = d.toNat := Char.toNat_inj.symm
  simp only [isBreak, hiddenBreaks, Bool.or_eq_true, Bool.and_eq_true, decide_eq_true_eq,
    beq_iff_eq, List.mem_cons, List.not_mem_nil, or_false, same]
  have first : ('\x85' : Char).toNat = 0x85 := rfl
  have second : ('\u2028' : Char).toNat = 0x2028 := rfl
  have third : ('\u2029' : Char).toNat = 0x2029 := rfl
  omega

theorem indent_unbroken (unbroken : Unbroken text) (some_ : text ≠ []) :
    Renderers.indent text = ' ' :: ' ' :: text := by
  rw [Renderers.indent, splitlines_line unbroken, if_neg some_, List.map_singleton]
  exact List.intercalate_singleton

theorem splitlines_ne_nil (some_ : text ≠ []) : splitlines text ≠ [] := by
  cases text with
  | nil => exact absurd rfl some_
  | cons c rest =>
    have from_ (line rest : Str) (begun : line ≠ []) : splitlinesFrom line rest ≠ [] := by
      fun_induction splitlinesFrom line rest with
      | case1 => exact absurd rfl begun
      | case2 => exact List.cons_ne_nil _ _
      | case3 => exact List.cons_ne_nil _ _
      | case4 => exact List.cons_ne_nil _ _
      | case5 _ _ _ _ _ ih => exact ih (by simp)
    rw [splitlines]
    unfold splitlinesFrom
    split
    · exact absurd ‹_› (List.cons_ne_nil _ _)
    · exact List.cons_ne_nil _ _
    · split
      · exact List.cons_ne_nil _ _
      · exact from_ _ _ (by simp)

theorem indent_broken {before after : Str} {c : Char} (unbroken : Unbroken before)
    (break_ : isBreak c = true) (feed : c ≠ '\r') (some_ : after ≠ []) :
    ∃ more, Renderers.indent (before ++ c :: after) = ' ' :: ' ' :: before ++ '\n' :: more := by
  have cut : splitlines (before ++ c :: after) = before :: splitlines after := by
    rw [splitlines, splitlinesFrom_unbroken unbroken, List.nil_append, splitlinesFrom, if_pos break_]
    · rfl
    · exact fun _ same => absurd same feed
  obtain ⟨line, lines, rest⟩ := List.exists_cons_of_ne_nil (splitlines_ne_nil some_)
  refine ⟨join ['\n'] ((line :: lines).map fun line => ' ' :: ' ' :: line), ?_⟩
  rw [Renderers.indent, cut, rest, List.map_cons]
  exact join_cons_cons _ _ _

end Indent

section Stream
variable {Model Plain Other F : Type} {floats : Floats F} {r : Renderers Model Plain Other}
  {modelValue : Model → Json F} {plainValue : Plain → Json F}
  {items : List (Item Model Plain Other)} {item : Item Model Plain Other}

theorem WritesJson.raw_loads (written : WritesJson floats r modelValue plainValue)
    (item : Item Model Plain Other) :
    Json.loads floats (r.raw item) = some (itemValue r modelValue plainValue item) := by
  cases item with
  | model m => exact written.model m
  | plain p => exact written.plain p
  | other o => exact written.plain (r.str o)

theorem WritesJson.raw_printable (written : WritesJson floats r modelValue plainValue)
    (item : Item Model Plain Other) : ∀ c ∈ r.raw item, ' ' ≤ c := by
  intro c member
  cases item with
  | model m => exact written.modelLine m c member
  | plain p => exact (written.plainLine p c member).1
  | other o => exact (written.plainLine _ c member).1

def Item.Clear (modelValue : Model → Json F) (item : Item Model Plain Other) : Prop :=
  ∀ m, item = .model m → ∀ c ∈ hiddenBreaks, holds c (modelValue m) = false

theorem hidden_large {c : Char} (hidden : c ∈ hiddenBreaks) : 128 ≤ c.toNat := by
  simp only [hiddenBreaks, List.mem_cons, List.not_mem_nil, or_false] at hidden
  rcases hidden with rfl | rfl | rfl <;> decide

theorem clear_iff (written : WritesJson floats r modelValue plainValue) :
    item.Clear modelValue ↔ Unbroken (r.raw item) := by
  have ascii (p : Plain) : Unbroken (r.dumps p) := by
    intro c member
    obtain ⟨printable, small⟩ := written.plainLine p c member
    by_contra break_
    have large := hidden_large ((hidden_break printable).mp (Bool.eq_true_of_not_eq_false break_))
    omega
  cases item with
  | model m =>
    constructor
    · intro clear c member
      by_contra break_
      have hidden := (hidden_break (written.modelLine m c member)).mp
        (Bool.eq_true_of_not_eq_false break_)
      have held := (written.modelHolds m c (hidden_large hidden)).mp member
      exact absurd held (by rw [clear m rfl c hidden]; exact Bool.false_ne_true)
    · rintro unbroken _ ⟨⟩ c hidden
      by_contra held
      have member := (written.modelHolds m c (hidden_large hidden)).mpr
        (Bool.eq_true_of_not_eq_false held)
      have break_ := (hidden_break (written.modelLine m c member)).mpr hidden
      exact absurd break_ (by rw [unbroken c member]; exact Bool.false_ne_true)
  | plain p => exact ⟨fun _ => ascii p, nofun⟩
  | other o => exact ⟨fun _ => ascii (r.str o), nofun⟩

theorem raw_ne_nil (written : WritesJson floats r modelValue plainValue)
    (item : Item Model Plain Other) : r.raw item ≠ [] := by
  intro empty
  have skipped := Json.skipSpace_ne_nil (written.raw_loads item)
  rw [empty] at skipped
  exact skipped rfl

def Quiet (r : Renderers Model Plain Other) (items : List (Item Model Plain Other)) : Prop :=
  ∀ item ∈ items, r.maskSecrets (r.raw item) = r.raw item

theorem chunks_behind (next : Item Model Plain Other) (items : List (Item Model Plain Other)) :
    (r.arrayChunks false (next :: items)).flatten =
      ',' :: '\n' :: (r.arrayChunks true (next :: items)).flatten := rfl

theorem chunks_clear (written : WritesJson floats r modelValue plainValue)
    (quiet : r.maskSecrets (r.raw item) = r.raw item) (clear : item.Clear modelValue)
    (items : List (Item Model Plain Other)) :
    (r.arrayChunks true (item :: items)).flatten =
      ' ' :: ' ' :: (r.raw item ++ (r.arrayChunks false items).flatten) := by
  have indented : Renderers.indent (r.dumpObject item) = ' ' :: ' ' :: r.raw item := by
    rw [Renderers.dumpObject, quiet]
    exact indent_unbroken ((clear_iff written).mp clear) (raw_ne_nil written item)
  rw [Renderers.arrayChunks, if_pos rfl, List.nil_append, List.flatten_cons, indented]
  rfl

theorem elements_read (written : WritesJson floats r modelValue plainValue) (quiet : Quiet r items)
    (clear : ∀ item ∈ items, item.Clear modelValue) (some_ : items ≠ []) (fuel : Nat)
    (enough : (r.arrayChunks true items).flatten.length ≤ fuel) :
    Json.scanElements floats fuel (Json.skipSpace (r.arrayChunks true items).flatten) =
      some (items.map (itemValue r modelValue plainValue), []) := by
  induction items generalizing fuel with
  | nil => exact absurd rfl some_
  | cons item items ih =>
    obtain ⟨first, later⟩ := List.forall_mem_cons.mp quiet
    obtain ⟨clear_first, clear_later⟩ := List.forall_mem_cons.mp clear
    have text := chunks_clear written first clear_first items
    have read := written.raw_loads item
    rw [text] at enough ⊢
    rw [Json.skipSpace_blank, Json.skipSpace_blank]
    simp only [List.length_cons, List.length_append] at enough
    obtain ⟨fuel, rfl⟩ : ∃ fewer, fuel = fewer + 1 := ⟨fuel - 1, by omega⟩
    cases items with
    | nil => exact Json.scanElements_last read (by omega)
    | cons next items =>
      rw [chunks_behind] at enough ⊢
      simp only [List.length_cons] at enough
      have others := ih later clear_later (List.cons_ne_nil _ _) fuel (by omega)
      exact Json.scanElements_more read (by omega) others

theorem array_read (written : WritesJson floats r modelValue plainValue) (quiet : Quiet r items)
    (clear : ∀ item ∈ items, item.Clear modelValue) :
    Json.loads floats (r.streamJsonArray items).flatten =
      some (.arr (items.map (itemValue r modelValue plainValue))) := by
  cases items with
  | nil => rfl
  | cons item items =>
    have text : (r.streamJsonArray (item :: items)).flatten =
        '[' :: '\n' :: (r.arrayChunks true (item :: items)).flatten := rfl
    have elements (fuel : Nat) := elements_read written quiet clear (List.cons_ne_nil _ _) fuel
    rw [text]
    exact Json.loads_array (elements _ (by simp only [List.length_cons]; omega))

theorem first_break {text : Str} (broken : ¬Unbroken text) :
    ∃ before c after, text = before ++ c :: after ∧ Unbroken before ∧ isBreak c = true := by
  induction text with
  | nil => exact absurd (List.forall_mem_nil _) broken
  | cons c rest ih =>
    by_cases break_ : isBreak c = true
    · exact ⟨[], c, rest, rfl, List.forall_mem_nil _, break_⟩
    · have plain : isBreak c = false := Bool.eq_false_iff.mpr break_
      have later : ¬Unbroken rest := fun all => broken (List.forall_mem_cons.mpr ⟨plain, all⟩)
      obtain ⟨before, d, after, rfl, unbroken, found⟩ := ih later
      exact ⟨c :: before, d, after, rfl, List.forall_mem_cons.mpr ⟨plain, unbroken⟩, found⟩

/-- In a document a character that is not in ASCII stands inside a string. -/
theorem hidden_inside {before after : Str} {c : Char} (large : 128 ≤ c.toNat)
    (outside : Json.Place.outside.after (before ++ c :: after) = some .outside) :
    Json.Place.outside.after before = some .inside ∧ after ≠ [] := by
  have differs (d : Char) (small : d.toNat < 128) : c ≠ d := by
    rintro rfl
    omega
  rw [Json.Place.after_append] at outside
  obtain ⟨place, passed, rest⟩ := Option.bind_eq_some_iff.mp outside
  obtain ⟨next, moved, last⟩ := Option.bind_eq_some_iff.mp rest
  cases place with
  | outside =>
    rw [Json.Place.next, if_neg (differs '"' (by decide)), if_neg (by omega)] at moved
    cases moved
  | escaped =>
    rw [Json.Place.next, if_neg (by omega)] at moved
    cases moved
  | inside =>
    refine ⟨passed, ?_⟩
    rintro rfl
    rw [Json.Place.next, if_neg (differs '"' (by decide)), if_neg (differs '\\' (by decide))] at moved
    split at moved
    · cases moved
    · obtain rfl := Option.some.inj moved
      cases last

theorem array_broken (written : WritesJson floats r modelValue plainValue) (quiet : Quiet r items)
    (broken : ¬∀ item ∈ items, item.Clear modelValue) :
    Json.Place.outside.after (r.arrayChunks true items).flatten = none := by
  induction items with
  | nil => exact absurd (List.forall_mem_nil _) broken
  | cons item items ih =>
    obtain ⟨first, later⟩ := List.forall_mem_cons.mp quiet
    have outside := Json.loads_outside (written.raw_loads item)
    by_cases clear : item.Clear modelValue
    · have rest : ¬∀ item ∈ items, item.Clear modelValue := fun all =>
        broken (List.forall_mem_cons.mpr ⟨clear, all⟩)
      rw [chunks_clear written first clear]
      cases items with
      | nil => exact absurd (List.forall_mem_nil _) rest
      | cons next items =>
        rw [chunks_behind]
        have blanks (text : Str) : Json.Place.outside.after (' ' :: ' ' :: text) =
          Json.Place.outside.after text := rfl
        rw [blanks, Json.Place.after_append, outside, Option.bind_some]
        exact ih later rest
    · have unbroken := (clear_iff written).not.mp clear
      obtain ⟨before, c, after, text, plain, break_⟩ := first_break unbroken
      have printable := written.raw_printable item c (by rw [text]; simp)
      have hidden := (hidden_break printable).mp break_
      obtain ⟨inside, some_⟩ := hidden_inside (hidden_large hidden) (text ▸ outside)
      have feed : c ≠ '\r' := by
        rintro rfl
        exact absurd printable (by decide)
      obtain ⟨more, indented⟩ := indent_broken plain break_ feed some_
      have chunks : (r.arrayChunks true (item :: items)).flatten =
          Renderers.indent (r.dumpObject item) ++ (r.arrayChunks false items).flatten := rfl
      have blanks (text : Str) : Json.Place.outside.after (' ' :: ' ' :: text) =
        Json.Place.outside.after text := rfl
      rw [chunks, Renderers.dumpObject, first, text, indented, Json.Place.after_append]
      rw [List.cons_append, List.cons_append, blanks, Json.Place.after_append, inside]
      rfl

theorem lines_read (written : WritesJson floats r modelValue plainValue) (quiet : Quiet r items) :
    linesOf (r.streamJsonl items).flatten = items.map r.raw := by
  induction items with
  | nil => rfl
  | cons item items ih =>
    obtain ⟨first, later⟩ := List.forall_mem_cons.mp quiet
    have text : (r.streamJsonl (item :: items)).flatten =
        r.raw item ++ '\n' :: (r.streamJsonl items).flatten := by
      rw [Renderers.streamJsonl, List.map_cons, List.flatten_cons, Renderers.dumpObject, first,
        List.append_assoc]
      rfl
    have line : '\n' ∉ r.raw item := fun member =>
      absurd (written.raw_printable item _ member) (by decide)
    have rest := ih later
    rw [linesOf] at rest ⊢
    rw [text, List.splitOn_append_cons_self_of_not_mem line,
      List.dropLast_cons_of_ne_nil (List.splitOn_ne_nil _ _), rest, List.map_cons]

/-- Items are streamed as the JSON of their values exactly when no text and no key of a model holds
    a hidden line end. -/
theorem streamed_iff (written : WritesJson floats r modelValue plainValue) (quiet : Quiet r items) :
    Streamed floats r items (items.map (itemValue r modelValue plainValue)) ↔
      ∀ m, .model m ∈ items → ∀ c ∈ hiddenBreaks, holds c (modelValue m) = false := by
  have models : (∀ item ∈ items, item.Clear modelValue) ↔
      ∀ m, .model m ∈ items → ∀ c ∈ hiddenBreaks, holds c (modelValue m) = false := by
    constructor
    · intro clear m member
      exact clear _ member m rfl
    · rintro clear item member m rfl
      exact clear m member
  rw [← models]
  constructor
  · rintro ⟨array, _⟩
    by_contra broken
    have text : (r.streamJsonArray items).flatten =
        '[' :: '\n' :: (r.arrayChunks true items).flatten := rfl
    have outside := Json.loads_outside array
    have opened (text : Str) : Json.Place.outside.after ('[' :: '\n' :: text) =
      Json.Place.outside.after text := rfl
    rw [text, opened, array_broken written quiet broken] at outside
    exact nomatch outside
  · intro clear
    refine ⟨array_read written quiet clear, ?_⟩
    rw [lines_read written quiet, List.map_map, List.map_map]
    exact List.map_congr_left fun item _ => written.raw_loads item

end Stream

section Named
variable (c : Char)

def named : Renderers Unit Bool Empty where
  modelDumpJson _ := ['{', '"', 'n', '"', ':', '"', c, '"', '}']
  dumps value := if value then ['t', 'r', 'u', 'e'] else ['f', 'a', 'l', 's', 'e']
  str := nofun
  maskSecrets text := text

def namedValue (_ : Unit) : Json Unit := .obj [(['n'], .str [c])]

variable {c}

theorem named_writes (large : 128 ≤ c.toNat)
    (read : Json.loads Json.zeroFloats ((named c).modelDumpJson ()) = some (namedValue c ())) :
    WritesJson Json.zeroFloats (named c) (namedValue c) .bool where
  model _ := read
  modelLine _ d member := by
    have itself : ' ' ≤ c := by
      rw [Char.le_def, UInt32.le_iff_toNat_le]
      exact le_trans (by decide : 32 ≤ 128) large
    simp only [named, List.mem_cons, List.not_mem_nil, or_false] at member
    rcases member with rfl | rfl | rfl | rfl | rfl | rfl | rfl | rfl | rfl
    case inr.inr.inr.inr.inr.inr.inl => exact itself
    all_goals decide
  modelHolds _ d wide := by
    have differs (e : Char) (small : e.toNat < 128) : d ≠ e := by
      rintro rfl
      omega
    simp [named, namedValue, holds, membersHold, differs]
  plain value := by cases value <;> rfl
  plainLine value d member := by
    cases value
    all_goals
      simp only [named, if_true, Bool.false_eq_true, if_false, List.mem_cons, List.not_mem_nil,
        or_false] at member
      rcases member with rfl | rfl | rfl | rfl | rfl <;> decide

theorem streamed_accent :
    Streamed Json.zeroFloats (named 'é') [.model (), .plain true]
      [.obj [(['n'], .str ['é'])], .bool true] :=
  (streamed_iff (named_writes (c := 'é') (by decide) rfl) (fun _ _ => rfl)).mpr (by
    rintro ⟨⟩ _ c hidden
    simp only [hiddenBreaks, List.mem_cons, List.not_mem_nil, or_false] at hidden
    rcases hidden with rfl | rfl | rfl <;> decide)

/-- A line separator in a text of a model: the lines are read back, the array is no JSON. -/
theorem separator_not_streamed :
    WritesJson Json.zeroFloats (named '\u2028') (namedValue '\u2028') .bool ∧
      Quiet (named '\u2028') [.model ()] ∧
      ¬Streamed Json.zeroFloats (named '\u2028') [.model ()] [namedValue '\u2028' ()] := by
  refine ⟨named_writes (by decide) rfl, fun _ _ => rfl, ?_⟩
  rintro ⟨array, _⟩
  have none : Json.loads Json.zeroFloats ((named '\u2028').streamJsonArray [.model ()]).flatten =
      none := rfl
  exact nomatch none.symm.trans array

end Named
end DevopsCli.Output
