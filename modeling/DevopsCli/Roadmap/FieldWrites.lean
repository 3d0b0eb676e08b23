import DevopsCli.Lib.Run
import DevopsCli.Roadmap.Store

/- One store over one issue, which other people change between its calls. Each set_field is
   kept with the value that the store last knew and the value that it met. -/
namespace DevopsCli.Roadmap
open Json Run

structure ItemRead where
  item : Item
  at_ : Nat

structure FieldWrite where
  value : Option Text
  at_ : Nat

structure FieldCall where
  known : Option Text
  now : Option Text
  value : Option Text
  result : Except StoreError Unit

namespace FieldCall
variable (call : FieldCall)

def returned : Bool :=
  match call.result with
  | .ok () => true
  | .error _ => false

def raisedChanged : Bool :=
  match call.result with
  | .error (.itemChanged ..) => true
  | _ => false

/-- A call that changes the field replaces the value the store last knew, and one that finds
    that value does not raise. -/
def Right : Prop :=
  (call.returned = true → call.value ≠ call.now → call.now = call.known) ∧
    (call.now = call.known → call.raisedChanged = false)

instance : Decidable call.Right := inferInstanceAs (Decidable (_ ∧ _))

end FieldCall

structure Desk where
  issue : Issue
  store : Store := {}
  lastWrite : ItemField → Option FieldWrite := fun _ => none
  readings : List ItemRead := []
  calls : List FieldCall := []
  clock : Nat := 0

inductive Event where
  | people (issue : Issue)
  | item
  | items (listed : Bool)
  | issues (listed : Bool)
  | setField (place : Nat) (field : ItemField) (value : Option Text)
      (marks : List (Text × Option Text)) (answer : Answer)
  | setMarks (marks : List (Text × Option Text)) (answer : Answer)
  | writeIssueBody (body : Text) (answer : Answer)
  -- set_title and close, whose answers are kept.
  | edit (answer : Answer)
  | labelIssue (label : Text) (answer : Answer)
  | unlabelIssue (label : Text) (answer : Answer)

namespace Desk
variable {F : Type} (md : CommonMark) (floats : Floats F) (s : Desk)

/-- The value of the field that the store last knew: that of the item, when it was read after
    the last write of the field, and else the value written. -/
def known (reading : ItemRead) (field : ItemField) : Option Text :=
  match s.lastWrite field with
  | none => reading.item field
  | some write => if write.at_ < reading.at_ then reading.item field else write.value

def give (item : Option Item) : Desk :=
  { s with readings := (item.map fun item => ⟨item, s.clock⟩).toList ++ s.readings }

def listing (listed : Bool) : Desk :=
  { s with store := s.store.everyIssue md floats s.issue listed }

def setField (reading : ItemRead) (field : ItemField) (value : Option Text)
    (marks : List (Text × Option Text)) (answer : Answer) : Except StoreError Unit × Desk :=
  match s.store.checkField md floats (answer.read s.issue) reading.item field value with
  | .error error => (.error error, s)
  | .ok issue =>
    let edited := issue.withField md floats field value marks
    if answer = .done then
      (.ok (), { s with
        issue := edited
        store := s.store.wrote md floats edited field value
        lastWrite := Function.update s.lastWrite field (some ⟨value, s.clock⟩) })
    else (.error .writeFailed, { s with issue := if answer.made then edited else s.issue })

def call (reading : ItemRead) (field : ItemField) (value : Option Text)
    (marks : List (Text × Option Text)) (answer : Answer) : FieldCall where
  known := s.known reading field
  now := s.issue.fieldNow md floats field
  value := value
  result := (s.setField md floats reading field value marks answer).1

def patch (edited : Issue) (answer : Answer) : Desk :=
  { s with
    issue := if answer.made then edited else s.issue
    store := if answer = .done then s.store.keep md floats edited else s.store }

def relabel (change : List Text → List Text) (answer : Answer) : Desk :=
  { s with
    issue := if answer.made then { s.issue with labels := change s.issue.labels } else s.issue
    store := if answer = .done then s.store.keptLabels change else s.store }

def perform : Event → Option Desk
  | .people issue => some { s with issue }
  -- Also backlog, open_items and the items of a milestone, which read the issue as it is.
  | .item => some (s.give (selectItem (s.issue.record md floats)))
  | .items listed =>
    let s := s.listing md floats listed
    some (s.give (s.store.all.join.bind selectItem))
  | .issues listed =>
    let s := s.listing md floats listed
    some (s.give (s.store.all.join.map itemOf))
  | .setField place field value marks answer =>
    s.readings[place]?.map fun reading =>
      { (s.setField md floats reading field value marks answer).2 with
        calls := s.call md floats reading field value marks answer :: s.calls }
  | .setMarks marks answer => some (s.patch md floats (s.issue.edited md floats marks none) answer)
  | .writeIssueBody body answer =>
    some (s.patch md floats (s.issue.rewritten md floats body) answer)
  | .edit answer => some (s.patch md floats s.issue answer)
  | .labelIssue label answer => some (s.relabel (addLabel label) answer)
  | .unlabelIssue label answer => some (s.relabel (removeLabel label) answer)

def step (s : Desk) (event : Event) : Option Desk :=
  (s.perform md floats event).map fun t => { t with clock := s.clock + 1 }

/-- The condition of a set_field: the item was not read after the last write of the field with
    another value than was written, or the field holds neither of the two values now, or it
    holds the value written now and the write is not answered. -/
def Sees (s : Desk) : Event → Prop
  | .setField place field value _ answer =>
    ∀ reading ∈ s.readings[place]?, ∀ write ∈ s.lastWrite field,
      write.at_ < reading.at_ → reading.item field ≠ write.value →
      requireValue field value = .ok () → answer ≠ .unread →
      let now := s.issue.fieldNow md floats field
      value ≠ now → now ≠ reading.item field ∧ (now = write.value → answer ≠ .done)
  | _ => True

instance (event : Event) : Decidable (Sees md floats s event) := by
  cases event <;> unfold Sees <;> infer_instance

def Remembers (s : Desk) : Prop :=
  ∀ field, s.store.written field = (s.lastWrite field).map FieldWrite.value

section Calls
variable {md floats} {s : Desk} {reading : ItemRead} {field : ItemField} {value : Option Text}
  {marks : List (Text × Option Text)} {answer : Answer}

theorem checkField_eq {found : Except StoreError Issue} {item : Item}
    (valid : requireValue field value = .ok ()) :
    s.store.checkField md floats found item field value =
      found.bind fun issue =>
        let now := issue.fieldNow md floats field
        if s.store.lastRead item field = now ∨ value = now then .ok issue
        else .error (.itemChanged field (s.store.lastRead item field) now) := by
  simp only [Store.checkField, valid, requireUnchanged, bind, Except.bind, pure, Except.pure]
  cases found with
  | error error => rfl
  | ok issue =>
    by_cases passes : s.store.lastRead item field = issue.fieldNow md floats field ∨
        value = issue.fieldNow md floats field <;> simp [passes]

theorem setField_invalid {error : StoreError} (invalid : requireValue field value = .error error) :
    s.setField md floats reading field value marks answer = (.error error, s) := by
  simp [setField, Store.checkField, invalid, bind, Except.bind]

theorem requireValue_error {error : StoreError} (invalid : requireValue field value = .error error) :
    ∃ value, error = .fieldValueUnknown field value := by
  cases value with
  | none => simp [requireValue] at invalid
  | some value =>
    by_cases known : value ∈ field.choices
    · simp [requireValue, known] at invalid
    · exact ⟨value, by simpa [requireValue, known] using invalid.symm⟩

theorem call_returned_iff :
    (s.call md floats reading field value marks answer).returned = true ↔
      requireValue field value = .ok () ∧ answer = .done ∧
        (s.store.lastRead reading.item field = s.issue.fieldNow md floats field ∨
          value = s.issue.fieldNow md floats field) := by
  cases valid : requireValue field value with
  | error error => simp [FieldCall.returned, call, setField_invalid valid]
  | ok =>
    simp only [FieldCall.returned, call, setField, checkField_eq valid]
    cases answer with
    | unread => simp [Answer.read, Except.bind]
    | _ =>
      by_cases passes : s.store.lastRead reading.item field = s.issue.fieldNow md floats field ∨
          value = s.issue.fieldNow md floats field <;> simp [Answer.read, Except.bind, passes]

theorem call_raisedChanged_iff :
    (s.call md floats reading field value marks answer).raisedChanged = true ↔
      requireValue field value = .ok () ∧ answer ≠ .unread ∧
        ¬(s.store.lastRead reading.item field = s.issue.fieldNow md floats field ∨
          value = s.issue.fieldNow md floats field) := by
  cases valid : requireValue field value with
  | error error =>
    obtain ⟨value, rfl⟩ := requireValue_error valid
    simp [FieldCall.raisedChanged, call, setField_invalid valid]
  | ok =>
    simp only [FieldCall.raisedChanged, call, setField, checkField_eq valid]
    cases answer with
    | unread => simp [Answer.read, Except.bind]
    | _ =>
      by_cases passes : s.store.lastRead reading.item field = s.issue.fieldNow md floats field ∨
          value = s.issue.fieldNow md floats field <;> simp [Answer.read, Except.bind, passes]

/-- When a call is right: by what the store remembers of the field, what it last knew, and
    what the issue holds now. -/
theorem call_right_iff :
    (s.call md floats reading field value marks answer).Right ↔
      (requireValue field value = .ok () → answer ≠ .unread →
        let now := s.issue.fieldNow md floats field
        let read := s.store.lastRead reading.item field
        value ≠ now → (read = now → answer = .done → now = s.known reading field) ∧
          (now = s.known reading field → read = now)) := by
  rw [FieldCall.Right, ← Bool.not_eq_true, call_returned_iff, call_raisedChanged_iff]
  change ((_ ∧ _ ∧ _) → value ≠ s.issue.fieldNow md floats field →
    s.issue.fieldNow md floats field = s.known reading field) ∧
      (s.issue.fieldNow md floats field = s.known reading field → ¬(_ ∧ _ ∧ _)) ↔ _
  by_cases written : answer = .done
  · subst answer; tauto
  · tauto

theorem lastRead_eq_known (remembers : s.Remembers)
    (older : ∀ write ∈ s.lastWrite field, write.at_ < reading.at_ →
      reading.item field = write.value) :
    s.store.lastRead reading.item field = s.known reading field := by
  rw [Store.lastRead, remembers field, known]
  cases last : s.lastWrite field with
  | none => rfl
  | some write =>
    by_cases newer : write.at_ < reading.at_
    · simp [newer, older write last newer]
    · simp [newer]

theorem call_right_iff_sees (remembers : s.Remembers) :
    (s.call md floats reading field value marks answer).Right ↔
      ∀ write ∈ s.lastWrite field, write.at_ < reading.at_ → reading.item field ≠ write.value →
        requireValue field value = .ok () → answer ≠ .unread →
        let now := s.issue.fieldNow md floats field
        value ≠ now → now ≠ reading.item field ∧ (now = write.value → answer ≠ .done) := by
  rw [call_right_iff]
  by_cases newer : ∃ write ∈ s.lastWrite field, write.at_ < reading.at_ ∧
      reading.item field ≠ write.value
  · obtain ⟨write, last, later, other⟩ := newer
    have read : s.store.lastRead reading.item field = write.value := by
      simp [Store.lastRead, remembers field, Option.mem_def.mp last]
    have item : s.known reading field = reading.item field := by
      simp [known, Option.mem_def.mp last, later]
    simp only [read, item, Option.mem_def.mp last, Option.mem_def, Option.some.injEq, forall_eq',
      later, other, ne_eq, not_false_eq_true, true_imp_iff]
    grind
  · push Not at newer
    have same := lastRead_eq_known remembers newer
    simp only [same]
    refine iff_of_true (by tauto) fun write last later other => absurd (newer write last later) other

theorem step_cases {event : Event} {t : Desk} (taken : s.step md floats event = some t) :
    (s.Sees md floats event ∧ t.calls = s.calls ∧ t.store.written = s.store.written ∧
      t.lastWrite = s.lastWrite) ∨
    ∃ place field value marks answer reading,
      event = .setField place field value marks answer ∧ s.readings[place]? = some reading ∧
      t.calls = s.call md floats reading field value marks answer :: s.calls ∧
      t.store = (s.setField md floats reading field value marks answer).2.store ∧
      t.lastWrite = (s.setField md floats reading field value marks answer).2.lastWrite := by
  obtain ⟨u, performed, rfl⟩ := Option.map_eq_some_iff.mp taken
  cases event with
  | setField place field value marks answer =>
    obtain ⟨reading, found, rfl⟩ := Option.map_eq_some_iff.mp performed
    exact .inr ⟨place, field, value, marks, answer, reading, rfl, found, rfl, rfl, rfl⟩
  | setMarks _ answer | writeIssueBody _ answer | edit answer | labelIssue _ answer
  | unlabelIssue _ answer =>
    obtain rfl := Option.some.inj performed
    refine .inl ⟨trivial, rfl, ?_, rfl⟩
    by_cases answered : answer = .done <;>
      simp [patch, relabel, answered, Store.keep, Store.keptLabels]
  | items listed | issues listed =>
    obtain rfl := Option.some.inj performed
    refine .inl ⟨trivial, rfl, ?_, rfl⟩
    cases read : s.store.all <;> simp [give, listing, Store.everyIssue, read]
  | people issue | item =>
    obtain rfl := Option.some.inj performed
    exact .inl ⟨trivial, rfl, rfl, rfl⟩

theorem setField_remembers (remembers : s.Remembers) :
    (s.setField md floats reading field value marks answer).2.Remembers := by
  rw [setField]
  split
  · exact remembers
  · split
    · intro other
      by_cases same : other = field
      · subst other; simp [Store.wrote]
      · simpa [Store.wrote, Store.keep, same] using remembers other
    · exact remembers

theorem step_remembers {event : Event} {t : Desk} (remembers : s.Remembers)
    (taken : s.step md floats event = some t) : t.Remembers := by
  intro field
  rcases step_cases taken with ⟨_, _, written, last⟩ | ⟨_, _, _, _, _, _, _, _, _, store, last⟩
  · rw [written, last, remembers field]
  · rw [store, last, setField_remembers remembers field]

theorem step_right_iff {event : Event} {t : Desk} (remembers : s.Remembers)
    (taken : s.step md floats event = some t) :
    (∀ call ∈ t.calls, call.Right) ↔
      (∀ call ∈ s.calls, call.Right) ∧ s.Sees md floats event := by
  rcases step_cases taken with ⟨sees, calls, _, _⟩ | ⟨place, _, _, _, _, reading, rfl, found, calls, _⟩
  · simp [calls, sees]
  · simp only [calls, List.forall_mem_cons, call_right_iff_sees remembers, Sees, found,
      Option.mem_some_iff, forall_eq']
    exact and_comm

end Calls

/-- Every call of a run is right exactly when every set_field of it meets the condition. -/
theorem field_writes_right (issue : Issue) (events : List Event) (s : Desk)
    (run : exec (step md floats) { issue } events = some s) :
    (∀ call ∈ s.calls, call.Right) ↔ Meets (step md floats) (Sees md floats) { issue } events := by
  have right := exec_iff_meets Remembers (fun s => ∀ call ∈ s.calls, call.Right)
    (fun _ _ _ remembers taken => step_remembers remembers taken)
    (fun _ _ _ remembers taken => step_right_iff remembers taken)
    (fun _ => rfl) run
  simpa using right

def planned : Text := ['P', 'l', 'a', 'n', 'n', 'e', 'd']
def ready : Text := ['R', 'e', 'a', 'd', 'y']
def blocked : Text := ['B', 'l', 'o', 'c', 'k', 'e', 'd']

def placed : Issue where
  labels := [fieldLabel .priority ['P', '1', '-', 'H', 'i', 'g', 'h'], fieldLabel .status planned]
  body := []

def byPerson (status : Text) : Issue :=
  let written := placed.withField fences zeroFloats .status (some ready) []
  { written with labels := relabeled written.labels .status (some status) }

/-- The store writes Ready. A person writes Blocked, which the store reads, and then Planned,
    which it does not: it refuses to write Ready. -/
theorem field_writes_right_reached :
    ∃ s, exec (step fences zeroFloats) { issue := placed }
      [.item, .setField 0 .status (some ready) [] .done, .people (byPerson blocked), .item,
        .people (byPerson planned), .setField 0 .status (some ready) [] .done] = some s ∧
      ∀ call ∈ s.calls, call.Right := by
  let events : List Event :=
    [.item, .setField 0 .status (some ready) [] .done, .people (byPerson blocked), .item,
      .people (byPerson planned), .setField 0 .status (some ready) [] .done]
  have sees : Meets (step fences zeroFloats) (Sees fences zeroFloats) { issue := placed } events := by
    decide +kernel
  have reached : (exec (step fences zeroFloats) { issue := placed } events).isSome = true := by
    decide +kernel
  obtain ⟨s, ran⟩ := Option.isSome_iff_exists.mp reached
  exact ⟨s, ran, (field_writes_right fences zeroFloats _ events s ran).mpr sees⟩

/-- The store writes Ready. A person writes Blocked, which the store reads, and then Ready
    again. The store remembers its own Ready, and writes Planned over a change it did not see. -/
theorem unseen_change_reverted :
    ¬ ∀ (md : CommonMark) (issue : Issue) (events : List Event) (s : Desk),
      exec (step md zeroFloats) { issue } events = some s → ∀ call ∈ s.calls, call.Right := by
  intro right
  let events : List Event :=
    [.item, .setField 0 .status (some ready) [] .done, .people (byPerson blocked), .item,
      .people (byPerson ready), .setField 0 .status (some planned) [] .done]
  have reached : (exec (step fences zeroFloats) { issue := placed } events).any
      (fun s => decide (∃ call ∈ s.calls, ¬call.Right)) = true := by decide +kernel
  obtain ⟨s, ran, wrong⟩ := (Option.any_eq_true _ _).mp reached
  obtain ⟨call, made, wrong⟩ := of_decide_eq_true wrong
  exact wrong (right fences placed events s ran call made)

end Desk
end DevopsCli.Roadmap
