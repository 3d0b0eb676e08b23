import DevopsCli.Lib.Run
import DevopsCli.Roadmap.Store

/- The stores of one process over one issue. A set_field reads the issue and writes all of its
   labels in a second request, under the lock of the job record. label_issue and unlabel_issue
   change one label in one request, and take no lock. -/
namespace DevopsCli.Roadmap
open Json Run

structure Pending (Lane : Type) where
  lane : Lane
  found : Issue
  field : ItemField
  value : Option Text
  marks : List (Text × Option Text)

structure Lanes (Lane : Type) where
  issue : Issue
  stores : Lane → Store := fun _ => {}
  pending : Option (Pending Lane) := none
  labelled : List (Text × Bool) := []
  sets : List (ItemField × Option Text) := []

inductive Request (Lane : Type) where
  | read (lane : Lane) (item : Item) (field : ItemField) (value : Option Text)
      (marks : List (Text × Option Text)) (answer : Answer)
  | write (answer : Answer)
  | labelIssue (lane : Lane) (label : Text) (answer : Answer)
  | unlabelIssue (lane : Lane) (label : Text) (answer : Answer)

def setLabel (label : Text) (held : Bool) : List Text → List Text :=
  if held then addLabel label else removeLabel label

theorem mem_setLabel {label other : Text} {held : Bool} {labels : List Text} :
    other ∈ setLabel label held labels ↔ if other = label then held = true else other ∈ labels := by
  cases held <;> by_cases same : other = label <;>
    simp [setLabel, mem_addLabel, mem_removeLabel, same]

namespace Lanes
variable {Lane F : Type} [DecidableEq Lane] (md : CommonMark) (floats : Floats F) (s : Lanes Lane)

def setOne (lane : Lane) (label : Text) (held : Bool) (answer : Answer) : Lanes Lane :=
  { s with
    issue := if answer.made then { s.issue with labels := setLabel label held s.issue.labels }
      else s.issue
    stores := if answer = .done then
        Function.update s.stores lane ((s.stores lane).keptLabels (setLabel label held))
      else s.stores
    labelled := if answer.made then (label, held) :: s.labelled else s.labelled }

/-- The second request of a set_field, which gives the lock back. -/
def send (sent : Pending Lane) (answer : Answer) : Lanes Lane :=
  let edited := sent.found.withField md floats sent.field sent.value sent.marks
  { s with
    issue := if answer.made then edited else s.issue
    stores := if answer = .done then
        Function.update s.stores sent.lane
          ((s.stores sent.lane).wrote md floats edited sent.field sent.value)
      else s.stores
    pending := none
    sets := if answer.made then (sent.field, sent.value) :: s.sets else s.sets }

def step (s : Lanes Lane) : Request Lane → Option (Lanes Lane)
  | .read lane item field value marks answer =>
    match requireValue field value, s.pending with
    | .error _, _ => some s
    -- The lock is held.
    | .ok (), some _ => none
    | .ok (), none =>
      match (s.stores lane).checkField md floats (answer.read s.issue) item field value with
      | .error _ => some s
      | .ok found => some { s with pending := some ⟨lane, found, field, value, marks⟩ }
  | .write answer => s.pending.map fun sent => s.send md floats sent answer
  | .labelIssue lane label answer => some (s.setOne lane label true answer)
  | .unlabelIssue lane label answer => some (s.setOne lane label false answer)

def lastLabel (label : Text) : Option Bool := s.labelled.lookup label

def lastSet (field : ItemField) : Option (Option Text) := s.sets.lookup field

/-- Each label is as the last write of it left it, and each family holds exactly the label of
    the last value set. -/
structure Right : Prop where
  labels : ∀ label held, s.lastLabel label = some held → (label ∈ s.issue.labels ↔ held = true)
  families : ∀ field value, s.lastSet field = some value → ∀ label, inFamily field label = true →
    (label ∈ s.issue.labels ↔ value.map (fieldLabel field) = some label)

def Followed (label : Text) : Prop :=
  (s.lastLabel label).isSome = true ∨
    ∃ field, inFamily field label = true ∧ (s.lastSet field).isSome = true

def Agrees (label : Text) (held : Bool) : Prop :=
  ∀ field, inFamily field label = true → ∀ value ∈ s.lastSet field,
    (held = true ↔ value.map (fieldLabel field) = some label)

/-- The issue holds the labels that the set_field read, outside its family, as far as calls have
    written them, and the labels written inside its family agree with the value. -/
def Unmoved (sent : Pending Lane) : Prop :=
  (∀ label, inFamily sent.field label = false → s.Followed label →
    (label ∈ sent.found.labels ↔ label ∈ s.issue.labels)) ∧
  ∀ label, inFamily sent.field label = true → ∀ held ∈ s.lastLabel label,
    (held = true ↔ sent.value.map (fieldLabel sent.field) = some label)

instance (label : Text) : Decidable (s.Followed label) := inferInstanceAs (Decidable (_ ∨ _))

instance (label : Text) (held : Bool) : Decidable (s.Agrees label held) :=
  inferInstanceAs (Decidable (∀ _, _))

omit [DecidableEq Lane] in
theorem unmoved_iff (sent : Pending Lane) :
    ((∀ label ∈ sent.found.labels ++ s.issue.labels, inFamily sent.field label = false →
        s.Followed label → (label ∈ sent.found.labels ↔ label ∈ s.issue.labels)) ∧
      ∀ written ∈ s.labelled, inFamily sent.field written.1 = true →
        ∀ held ∈ s.lastLabel written.1,
          (held = true ↔ sent.value.map (fieldLabel sent.field) = some written.1)) ↔
      s.Unmoved sent := by
  constructor
  · rintro ⟨outside, inside⟩
    refine ⟨fun label apart followed => ?_, fun label family held last => ?_⟩
    · by_cases near : label ∈ sent.found.labels ++ s.issue.labels
      · exact outside label near apart followed
      · simp only [List.mem_append, not_or] at near
        exact iff_of_false near.1 near.2
    · obtain ⟨later, earlier, whole, _⟩ := List.lookup_eq_some_iff.mp last
      exact inside (label, held) (by simp [whole]) family held last
  · rintro ⟨outside, inside⟩
    exact ⟨fun label _ => outside label, fun written _ => inside written.1⟩

instance (sent : Pending Lane) : Decidable (s.Unmoved sent) :=
  decidable_of_iff _ (s.unmoved_iff sent)

def Fits (s : Lanes Lane) : Request Lane → Prop
  | .read .. => True
  | .write answer => answer.made = true → ∀ sent ∈ s.pending, s.Unmoved sent
  | .labelIssue _ label answer => answer.made = true → s.Agrees label true
  | .unlabelIssue _ label answer => answer.made = true → s.Agrees label false

instance (s : Lanes Lane) (request : Request Lane) : Decidable (s.Fits request) := by
  cases request <;> unfold Fits <;> infer_instance

section Steps
variable {md floats} {s : Lanes Lane} {lane : Lane} {label : Text} {held : Bool}
  {sent : Pending Lane} {answer : Answer}

theorem lastLabel_setOne (made : answer.made = true) (other : Text) :
    (s.setOne lane label held answer).lastLabel other =
      if other = label then some held else s.lastLabel other := by
  by_cases same : other = label <;>
    simp [lastLabel, setOne, made, List.lookup_cons, same, beq_eq_false_iff_ne.mpr]

theorem lastSet_send (made : answer.made = true) (field : ItemField) :
    (s.send md floats sent answer).lastSet field =
      if field = sent.field then some sent.value else s.lastSet field := by
  by_cases same : field = sent.field <;>
    simp [lastSet, send, made, List.lookup_cons, same, beq_eq_false_iff_ne.mpr]

/-- The labels of the issue after the write of a set_field. -/
theorem mem_send (made : answer.made = true) (label : Text) :
    label ∈ (s.send md floats sent answer).issue.labels ↔
      if inFamily sent.field label then sent.value.map (fieldLabel sent.field) = some label
      else label ∈ sent.found.labels := by
  simp [send, made, Issue.withField, Issue.edited, mem_relabeled]

omit [DecidableEq Lane] in
theorem right_congr {s t : Lanes Lane} (labels : t.issue.labels = s.issue.labels)
    (labelled : t.labelled = s.labelled) (sets : t.sets = s.sets) : t.Right ↔ s.Right := by
  constructor <;> rintro ⟨named, families⟩ <;>
    refine ⟨?_, ?_⟩ <;> simp only [lastLabel, lastSet, labels, labelled, sets] at * <;> assumption

theorem setOne_right_iff (right : s.Right) (made : answer.made = true) :
    (s.setOne lane label held answer).Right ↔ s.Agrees label held := by
  have now (other : Text) : other ∈ (s.setOne lane label held answer).issue.labels ↔
      if other = label then held = true else other ∈ s.issue.labels := by
    simp [setOne, made, mem_setLabel]
  constructor
  · intro after field family value last
    have kept := after.families field value last label family
    rwa [now, if_pos rfl] at kept
  · intro agrees
    refine ⟨fun other left last => ?_, fun field value last other family => ?_⟩
    · rw [lastLabel_setOne made] at last
      rw [now]
      by_cases same : other = label
      · simp only [same, ↓reduceIte, Option.some.injEq] at last ⊢; rw [last]
      · simp only [same, ↓reduceIte] at last ⊢; exact right.labels other left last
    · rw [now]
      by_cases same : other = label
      · subst other; simpa using agrees field family value last
      · simpa [same] using right.families field value last other family

theorem send_right_iff (right : s.Right) (made : answer.made = true) :
    (s.send md floats sent answer).Right ↔ s.Unmoved sent := by
  constructor
  · rintro ⟨named, families⟩
    refine ⟨fun label outside followed => ?_, fun label inside held last => ?_⟩
    · rcases followed with labelled | ⟨field, family, set_⟩
      · obtain ⟨held, last⟩ := Option.isSome_iff_exists.mp labelled
        have after := named label held last
        rw [mem_send made, if_neg (by simp [outside])] at after
        exact after.trans (right.labels label held last).symm
      · obtain ⟨value, last⟩ := Option.isSome_iff_exists.mp set_
        have other : field ≠ sent.field := by
          rintro rfl; exact absurd family (by simp [outside])
        have after := families field value (by rwa [lastSet_send made, if_neg other]) label family
        rw [mem_send made, if_neg (by simp [outside])] at after
        exact after.trans (right.families field value last label family).symm
    · have after := named label held last
      rw [mem_send made, if_pos inside] at after
      exact after.symm
  · rintro ⟨outside, inside⟩
    refine ⟨fun label held last => ?_, fun field value last label family => ?_⟩
    · rw [mem_send made]
      have last : s.lastLabel label = some held := last
      cases mine : inFamily sent.field label
      · exact (outside label mine (.inl (by simp [last]))).trans (right.labels label held last)
      · exact (inside label mine held last).symm
    · rw [lastSet_send made] at last
      rw [mem_send made]
      by_cases same : field = sent.field
      · subst field
        obtain rfl := Option.some.inj ((if_pos rfl).symm.trans last)
        rw [if_pos family]
      · rw [if_neg same] at last
        have apart : inFamily sent.field label = false :=
          Bool.eq_false_iff.mpr fun mine => same (inFamily_unique family mine)
        rw [if_neg (by simp [apart])]
        exact (outside label apart (.inr ⟨field, family, by simp [last]⟩)).trans
          (right.families field value last label family)

theorem setOne_unmade (made : answer.made = false) :
    (s.setOne lane label held answer).Right ↔ s.Right :=
  right_congr (by simp [setOne, made]) (by simp [setOne, made]) rfl

theorem send_unmade (made : answer.made = false) :
    (s.send md floats sent answer).Right ↔ s.Right :=
  right_congr (by simp [send, made]) rfl (by simp [send, made])

theorem step_right_iff {request : Request Lane} {t : Lanes Lane} (right : s.Right)
    (taken : s.step md floats request = some t) : t.Right ↔ s.Fits request := by
  cases request with
  | read lane item field value marks answer =>
    refine iff_of_true ?_ trivial
    simp only [step] at taken
    split at taken
    · exact Option.some.inj taken ▸ right
    · exact nomatch taken
    · split at taken <;> obtain rfl := Option.some.inj taken
      · exact right
      · refine (right_congr ?_ ?_ ?_).mpr right <;> rfl
  | write answer =>
    obtain ⟨sent, pending, rfl⟩ := Option.map_eq_some_iff.mp taken
    simp only [Fits, pending, Option.mem_some_iff, forall_eq']
    cases made : answer.made
    · exact iff_of_true ((send_unmade made).mpr right) (by simp)
    · simpa using send_right_iff right made
  | labelIssue lane label answer | unlabelIssue lane label answer =>
    obtain rfl := Option.some.inj taken
    simp only [Fits]
    cases made : answer.made
    · exact iff_of_true ((setOne_unmade made).mpr right) (by simp)
    · simpa using setOne_right_iff right made

end Steps

/-- Every state that a run passes is right exactly when each of its requests meets the
    condition. -/
theorem label_writes_kept (issue : Issue) (requests : List (Request Lane)) (s : Lanes Lane)
    (run : exec (step md floats) { issue } requests = some s) :
    Meets (step md floats) Fits { issue } requests ↔
      ∀ done_ rest, requests = done_ ++ rest →
        ∀ t, exec (step md floats) { issue } done_ = some t → t.Right :=
  meets_iff_reached Right (fun _ _ _ right taken => step_right_iff right taken)
    ⟨fun _ _ last => (nomatch last), fun _ _ last => (nomatch last)⟩ run

def bare : Issue := ⟨[], []⟩
def noFields : Item := fun _ => none

def ready : Text := ['R', 'e', 'a', 'd', 'y']
def stale : Text := ['s', 't', 'a', 'l', 'e']

/-- One lane sets the Status, the other one labels the issue after it and takes the label back. -/
theorem label_writes_kept_reached :
    let requests : List (Request Bool) :=
      [.read false noFields .status (some ready) [] .done, .write .done,
        .labelIssue true stale .done, .read false noFields .owner none [] .done, .write .done,
        .unlabelIssue true stale .done]
    ∀ done_ rest, requests = done_ ++ rest →
      ∀ t, exec (step fences zeroFloats) { issue := bare } done_ = some t → t.Right := by
  intro requests
  have fits : Meets (step fences zeroFloats) Fits { issue := bare } requests := by decide +kernel
  have reached : (exec (step fences zeroFloats) { issue := bare } requests).isSome = true := by
    decide +kernel
  obtain ⟨s, ran⟩ := Option.isSome_iff_exists.mp reached
  exact (label_writes_kept fences zeroFloats bare requests s ran).mp fits

/-- One lane labels the issue between the read and the write of a set_field of the other, which
    writes back the labels that it read. -/
theorem label_lost_in_window :
    ¬ ∀ (md : CommonMark) (issue : Issue) (requests : List (Request Bool)) (s : Lanes Bool),
      exec (step md zeroFloats) { issue } requests = some s → s.pending.isNone = true →
        s.Right := by
  intro kept
  let requests : List (Request Bool) :=
    [.read false noFields .status (some ready) [] .done, .labelIssue true stale .done, .write .done]
  have reached : (exec (step fences zeroFloats) { issue := bare } requests).any
      (fun s => s.pending.isNone && decide (s.lastLabel stale = some true ∧ stale ∉ s.issue.labels)) =
        true := by decide +kernel
  obtain ⟨s, ran, lost⟩ := (Option.any_eq_true _ _).mp reached
  obtain ⟨returned, lost⟩ := (Bool.and_eq_true _ _).mp lost
  obtain ⟨last, lost⟩ := of_decide_eq_true lost
  exact lost (((kept fences bare requests s ran returned).labels stale true last).mpr rfl)

end Lanes
end DevopsCli.Roadmap
