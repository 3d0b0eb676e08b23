import DevopsCli.Lib.PyStr
import DevopsCli.Roadmap.JobRecord

/- The store of one issue, roadmap/stores/store.py and github_store.py: its fields as label
   families, and the writes that check what the issue holds now. -/
namespace DevopsCli.Roadmap
open Json

inductive ItemField where
  | status
  | priority
  | value
  | effort
  | owner
  deriving DecidableEq, Repr

instance : Fintype ItemField where
  elems := {.status, .priority, .value, .effort, .owner}
  complete field := by cases field <;> decide

def ItemField.name : ItemField → Text
  | .status => ['S', 't', 'a', 't', 'u', 's']
  | .priority => ['P', 'r', 'i', 'o', 'r', 'i', 't', 'y']
  | .value => ['V', 'a', 'l', 'u', 'e']
  | .effort => ['E', 'f', 'f', 'o', 'r', 't']
  | .owner => ['O', 'w', 'n', 'e', 'r']

def sizeOptions : List Text := [['H', 'i', 'g', 'h'], ['M', 'e', 'd', 'i', 'u', 'm'], ['L', 'o', 'w']]

def ItemField.choices : ItemField → List Text
  | .status => [['N', 'e', 'w'], ['R', 'e', 'a', 'd', 'y'], ['P', 'l', 'a', 'n', 'n', 'e', 'd'],
      ['I', 'n', ' ', 'P', 'r', 'o', 'g', 'r', 'e', 's', 's'],
      ['I', 'n', ' ', 'R', 'e', 'v', 'i', 'e', 'w'], ['B', 'l', 'o', 'c', 'k', 'e', 'd']]
  | .priority => [['P', '0', '-', 'C', 'r', 'i', 't', 'i', 'c', 'a', 'l'],
      ['P', '1', '-', 'H', 'i', 'g', 'h'], ['P', '2', '-', 'M', 'e', 'd', 'i', 'u', 'm'],
      ['P', '3', '-', 'L', 'o', 'w']]
  | .value => sizeOptions
  | .effort => sizeOptions
  | .owner => [['S', 'e', 'r', 'v', 'i', 'c', 'e'], ['A', 'g', 'e', 'n', 't'],
      ['H', 'u', 'm', 'a', 'n']]

/-- The lower case of a character, as far as a comparison with ASCII text can tell: of the
    characters that are left as they are, none has an ASCII character in its lower case. -/
def lowerChar (c : Char) : Text :=
  if 'A' ≤ c ∧ c ≤ 'Z' then [Char.ofNat (c.toNat + 32)]
  else if c.toNat = 0x212a then ['k']
  else if c.toNat = 0x130 then ['i', Char.ofNat 0x307]
  else [c]

def lower (text : Text) : Text := text.flatMap lowerChar

def familyPrefix (field : ItemField) : Text := lower field.name ++ ['/']

def labelSlug (value : Text) : Text := (lower value).map fun c => if c = ' ' then '-' else c

def fieldLabel (field : ItemField) (value : Text) : Text := familyPrefix field ++ labelSlug value

def heldValues (labels : List Text) (field : ItemField) : List Text :=
  field.choices.filter fun value => fieldLabel field value ∈ labels.map lower

abbrev JobRecord := ItemField → Option Text

/-- The value of a family with more than one label is the first that the record does not name. -/
def fieldValue (labels : List Text) (record : JobRecord) (field : ItemField) : Option Text :=
  let held := heldValues labels field
  match held.filter fun value => some value ≠ record field with
  | [] => held.head?
  | value :: _ => some value

def inFamily (field : ItemField) (label : Text) : Bool := (familyPrefix field).isPrefixOf (lower label)

def relabeled (labels : List Text) (field : ItemField) (value : Option Text) : List Text :=
  let kept := labels.filter fun label => !inFamily field label
  match value with
  | none => kept
  | some value => kept ++ [fieldLabel field value]

inductive StoreError where
  | fieldValueUnknown (field : ItemField) (value : Text)
  | itemChanged (field : ItemField) (read now : Option Text)
  | readFailed
  | writeFailed
  deriving DecidableEq, Repr

def requireValue (field : ItemField) : Option Text → Except StoreError Unit
  | none => .ok ()
  | some value =>
    if value ∈ field.choices then .ok () else .error (.fieldValueUnknown field value)

/-- Refuses a write where the issue holds now what the store did not read, unless the issue
    holds already what is written. -/
def requireUnchanged (field : ItemField) (read now value : Option Text) : Except StoreError Unit :=
  if read = now ∨ value = now then .ok () else .error (.itemChanged field read now)

structure Issue where
  labels : List Text
  body : Text
  deriving DecidableEq

/-- How GitHub takes the requests of one call: it may make a write and not answer it. -/
inductive Answer where
  | unread
  | failed (made : Bool)
  | done
  deriving DecidableEq

def Answer.made : Answer → Bool
  | .unread => false
  | .failed made => made
  | .done => true

def Answer.read (answer : Answer) (issue : Issue) : Except StoreError Issue :=
  if answer = .unread then .error .readFailed else .ok issue

structure IssueRecord where
  labels : List Text
  record : JobRecord

abbrev Item := ItemField → Option Text

def itemOf (issue : IssueRecord) : Item := fieldValue issue.labels issue.record

def selectItem (issue : IssueRecord) : Option Item :=
  if (itemOf issue .priority).isSome then some (itemOf issue) else none

/-- A store: the listing of every issue, when it is read, with this issue when it is in it, and
    the value last written to each field. -/
structure Store where
  all : Option (Option IssueRecord) := none
  written : ItemField → Option (Option Text) := fun _ => none

section
variable {F : Type} (md : CommonMark) (floats : Floats F)

def decodeJobRecord (held : Held F) : JobRecord := fun field =>
  match held.members.lookup field.name with
  | some (.str value) => some value
  | _ => none

def Issue.record (issue : Issue) : IssueRecord :=
  ⟨issue.labels, decodeJobRecord (splitRecord md floats issue.body).2⟩

def Issue.fieldNow (issue : Issue) (field : ItemField) : Option Text :=
  itemOf (issue.record md floats) field

def Issue.edited (issue : Issue) (changes : List (Text × Option Text))
    (labels : Option (List Text)) : Issue where
  labels := labels.getD issue.labels
  body :=
    let (body, held) := splitRecord md floats issue.body
    withRecord body (some (encodeJobRecord floats held changes))

def Issue.rewritten (issue : Issue) (body : Text) : Issue where
  labels := issue.labels
  body :=
    let (_, held) := splitRecord md floats issue.body
    withRecord body (if held.members.isEmpty then none else some (encodeJobRecord floats held []))

def Issue.withField (issue : Issue) (field : ItemField) (value : Option Text)
    (marks : List (Text × Option Text)) : Issue :=
  issue.edited md floats ((field.name, value) :: marks) (some (relabeled issue.labels field value))

namespace Store
variable (store : Store)

/-- The value of a field that a write is checked against. -/
def lastRead (item : Item) (field : ItemField) : Option Text :=
  (store.written field).getD (item field)

def checkField (found : Except StoreError Issue) (item : Item) (field : ItemField)
    (value : Option Text) : Except StoreError Issue := do
  requireValue field value
  let issue ← found
  requireUnchanged field (store.lastRead item field) (issue.fieldNow md floats field) value
  return issue

def keep (answer : Issue) : Store := { store with all := store.all.map fun _ => some (answer.record md floats) }

def wrote (answer : Issue) (field : ItemField) (value : Option Text) : Store :=
  { store.keep md floats answer with written := Function.update store.written field (some value) }

/-- The listing after its first read. A listing may lack an issue that was opened after it. -/
def everyIssue (issue : Issue) (listed : Bool) : Store :=
  match store.all with
  | some _ => store
  | none => { store with all := some (if listed then some (issue.record md floats) else none) }

def keptLabels (change : List Text → List Text) : Store :=
  { store with all := store.all.map (Option.map fun kept => { kept with labels := change kept.labels }) }

end Store
end

def addLabel (label : Text) (labels : List Text) : List Text :=
  if label ∈ labels then labels else labels ++ [label]

def removeLabel (label : Text) (labels : List Text) : List Text := labels.filter (· ≠ label)

theorem mem_addLabel {label other : Text} {labels : List Text} :
    other ∈ addLabel label labels ↔ other = label ∨ other ∈ labels := by
  unfold addLabel
  split
  · next held => exact ⟨.inr, fun either => either.elim (· ▸ held) id⟩
  · simp [or_comm]

theorem mem_removeLabel {label other : Text} {labels : List Text} :
    other ∈ removeLabel label labels ↔ other ∈ labels ∧ other ≠ label := by
  simp [removeLabel]

theorem lower_append (a b : Text) : lower (a ++ b) = lower a ++ lower b := by simp [lower]

theorem fieldLabel_inFamily (field : ItemField) (value : Text) :
    inFamily field (fieldLabel field value) = true := by
  have small : lower (familyPrefix field) = familyPrefix field := by cases field <;> decide
  rw [inFamily, fieldLabel, lower_append, small]
  exact List.isPrefixOf_iff_prefix.mpr (List.prefix_append _ _)

theorem lower_fieldLabel {field : ItemField} {value : Text} (valid : value ∈ field.choices) :
    lower (fieldLabel field value) = fieldLabel field value := by
  cases field <;> revert value <;> decide +kernel

theorem inFamily_of_lower {field : ItemField} {label value : Text}
    (spelled : lower label = fieldLabel field value) : inFamily field label = true := by
  rw [inFamily, spelled, fieldLabel]
  exact List.isPrefixOf_iff_prefix.mpr (List.prefix_append _ _)

theorem familyPrefix_apart {field other : ItemField}
    (begins : familyPrefix field <+: familyPrefix other) : field = other := by
  cases field <;> cases other <;> first | rfl | exact absurd begins (by decide)

theorem inFamily_unique {field other : ItemField} {label : Text} (mine : inFamily field label = true)
    (its : inFamily other label = true) : field = other := by
  have mine := List.isPrefixOf_iff_prefix.mp mine
  have its := List.isPrefixOf_iff_prefix.mp its
  rcases List.prefix_or_prefix_of_prefix mine its with first | first
  · exact familyPrefix_apart first
  · exact (familyPrefix_apart first).symm

theorem mem_relabeled {labels : List Text} {field : ItemField} {value : Option Text} {label : Text} :
    label ∈ relabeled labels field value ↔
      if inFamily field label then value.map (fieldLabel field) = some label else label ∈ labels := by
  cases value with
  | none => cases family : inFamily field label <;> simp [relabeled, family]
  | some value =>
    by_cases same : label = fieldLabel field value
    · simp [relabeled, same, fieldLabel_inFamily]
    · cases family : inFamily field label <;> simp [relabeled, family, same, Ne.symm same]

theorem heldValues_relabeled {field : ItemField} {value : Text} (valid : value ∈ field.choices)
    (labels : List Text) : heldValues (relabeled labels field (some value)) field = [value] := by
  have only (other : Text) : fieldLabel field other ∈ (relabeled labels field (some value)).map lower ↔
      fieldLabel field other = fieldLabel field value := by
    rw [List.mem_map]
    constructor
    · rintro ⟨label, held, spelled⟩
      rw [mem_relabeled, if_pos (inFamily_of_lower spelled)] at held
      obtain rfl := Option.some.inj held
      exact spelled.symm.trans (lower_fieldLabel valid)
    · intro same
      refine ⟨fieldLabel field value, ?_, (lower_fieldLabel valid).trans same.symm⟩
      simp [mem_relabeled, fieldLabel_inFamily]
  simp only [heldValues, only]
  clear only
  cases field <;> revert value <;> decide +kernel

theorem heldValues_cleared (labels : List Text) (field : ItemField) :
    heldValues (relabeled labels field none) field = [] := by
  rw [heldValues, List.filter_eq_nil_iff]
  intro value _ held
  obtain ⟨label, kept, spelled⟩ := List.mem_map.mp (of_decide_eq_true held)
  rw [mem_relabeled, if_pos (inFamily_of_lower spelled)] at kept
  cases kept

theorem fieldValue_single {labels : List Text} {record : JobRecord} {field : ItemField}
    (single : (heldValues labels field).length ≤ 1) :
    fieldValue labels record field = (heldValues labels field).head? := by
  rw [fieldValue]
  match heldValues labels field, single with
  | [], _ => rfl
  | [value], _ => by_cases named : some value = record field <;> simp [named]

theorem requireValue_ok {field : ItemField} {value : Text}
    (valid : requireValue field (some value) = .ok ()) : value ∈ field.choices := by
  by_contra unknown
  rw [requireValue, if_neg unknown] at valid
  cases valid

/-- The value that was written is read, whatever the record names. -/
theorem fieldValue_relabeled {field : ItemField} {value : Option Text}
    (valid : requireValue field value = .ok ()) (labels : List Text) (record : JobRecord) :
    fieldValue (relabeled labels field value) record field = value := by
  cases value with
  | none =>
    have cleared := heldValues_cleared labels field
    rw [fieldValue_single (by rw [cleared]; exact Nat.zero_le 1), cleared]
    rfl
  | some value =>
    have held := heldValues_relabeled (requireValue_ok valid) labels
    rw [fieldValue_single (by rw [held]; exact le_rfl), held]
    rfl

theorem heldValues_other {field other : ItemField} (apart : other ≠ field) (labels : List Text)
    (value : Option Text) :
    heldValues (relabeled labels field value) other = heldValues labels other := by
  have outside {label : Text} {choice : Text} (spelled : lower label = fieldLabel other choice) :
      ¬inFamily field label = true := fun inside =>
    apart (inFamily_unique (inFamily_of_lower spelled) inside)
  have same (choice : Text) : fieldLabel other choice ∈ (relabeled labels field value).map lower ↔
      fieldLabel other choice ∈ labels.map lower := by
    rw [List.mem_map, List.mem_map]
    refine exists_congr fun label => and_congr_left fun spelled => ?_
    rw [mem_relabeled, if_neg (outside spelled)]
  simp only [heldValues, same]

theorem fieldValue_other {field other : ItemField} (apart : other ≠ field) (labels : List Text)
    (record : JobRecord) (value : Option Text) :
    fieldValue (relabeled labels field value) (Function.update record field value) other =
      fieldValue labels record other := by
  simp only [fieldValue, heldValues_other apart, Function.update_of_ne apart]

theorem relabeled_outside (labels : List Text) (field : ItemField) (value : Option Text) :
    (relabeled labels field value).filter (fun label => !inFamily field label) =
      labels.filter fun label => !inFamily field label := by
  cases value with
  | none => simp [relabeled]
  | some value => simp [relabeled, List.filter_append, fieldLabel_inFamily]

theorem relabeled_inside (labels : List Text) (field : ItemField) (value : Option Text) :
    (relabeled labels field value).filter (inFamily field) =
      (value.map (fieldLabel field)).toList := by
  have none_ : (labels.filter fun label => !inFamily field label).filter (inFamily field) = [] := by
    simp [List.filter_filter]
  cases value with
  | none => exact none_
  | some value =>
    rw [relabeled, List.filter_append, none_, List.nil_append, List.filter_singleton, fieldLabel_inFamily]
    rfl

/-- After a write of one field the labels and the record give that field its value and the other
    fields theirs, whatever labels a person left; the labels of the other families stand in
    their order, and one of this family at most is left. -/
theorem field_write_reads_back (labels : List Text) (record : JobRecord) (field : ItemField)
    (value : Option Text) (valid : requireValue field value = .ok ()) :
    (∀ other, fieldValue (relabeled labels field value) (Function.update record field value) other =
      if other = field then value else fieldValue labels record other) ∧
    (relabeled labels field value).filter (fun label => !inFamily field label) =
      labels.filter (fun label => !inFamily field label) ∧
    ((relabeled labels field value).filter (inFamily field)).length ≤ 1 := by
  refine ⟨fun other => ?_, relabeled_outside labels field value, ?_⟩
  · split
    · next same =>
      rw [same]
      exact fieldValue_relabeled valid labels _
    · next apart => exact fieldValue_other apart labels record value
  · rw [relabeled_inside]
    cases value with
    | none => exact Nat.zero_le 1
    | some value => exact le_rfl

/-- Two labels of the Status family in other cases, with one that the record names. -/
theorem field_write_reads_back_status :
    let labels : List Text := ["Status/New".toList, "bug".toList, "STATUS/READY".toList,
      "effort/high".toList]
    let record : JobRecord := fun field => if field = .status then some "New".toList else none
    fieldValue labels record .status = some "Ready".toList ∧
      fieldValue (relabeled labels .status (some "Blocked".toList))
        (Function.update record .status (some "Blocked".toList)) .status = some "Blocked".toList ∧
      ((relabeled labels .status (some "Blocked".toList)).filter (inFamily .status)).length ≤ 1 := by
  intro labels record
  have written := field_write_reads_back labels record .status (some "Blocked".toList)
    (by decide +kernel)
  exact ⟨by decide +kernel, (written.1 .status).trans (if_pos rfl), written.2.2⟩

section
variable {F : Type} {md : CommonMark} {floats : Floats F}

theorem fieldNow_withField {field : ItemField} {value : Option Text}
    (valid : requireValue field value = .ok ()) (issue : Issue) (marks : List (Text × Option Text)) :
    (issue.withField md floats field value marks).fieldNow md floats field = value := by
  exact fieldValue_relabeled valid issue.labels _

end

end DevopsCli.Roadmap
