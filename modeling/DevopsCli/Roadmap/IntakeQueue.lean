import Mathlib

/- Which candidates intake decides, and what it keeps of them, intake/intake.py: the queue of a
   limited round, the record after a round and after a scoped update, and runs of both. A time is
   a whole number of microseconds. -/
namespace DevopsCli.Roadmap.IntakeQueue

structure Subject where
  number : Nat
  updatedAt : Option Int
  deriving DecidableEq

structure Listing where
  subjects : List Subject
  distinct : (subjects.map Subject.number).Nodup

structure Waiting where
  updatedAt : Option Int
  decidedAt : Int
  deriving DecidableEq

abbrev Waits := Nat → Option Waiting

structure IntakeRecord where
  pending : Bool := false
  waiting : Waits := fun _ => none

structure IntakePlan where
  decided : List Subject
  missing : List Nat := []
  left : List Nat := []
  freshLeft : Bool := false
  othersFresh : Bool := false

def fresh (subject : Subject) (waiting : Waits) : Bool :=
  match waiting subject.number with
  | none => true
  | some before => decide (before.updatedAt ≠ subject.updatedAt)

def decidedAt (waiting : Waits) (subject : Subject) : Int :=
  ((waiting subject.number).map Waiting.decidedAt).getD 0

/-- The candidates this run decides, the asked-for numbers that are none, and the others. -/
def subjectsOf (listing : Listing) (issues : List Nat) : List Subject × List Nat × List Subject :=
  let found := listing.subjects
  if issues = [] then (found, [], [])
  else
    let chosen := found.filter fun subject => subject.number ∈ issues
    let others := found.filter fun subject => subject.number ∉ issues
    let missing := issues.dedup.filter fun number => number ∉ chosen.map Subject.number
    (chosen, missing.insertionSort (· ≤ ·), others)

def renewed (subjects : List Subject) (waiting : Waits) : List Subject :=
  (subjects.filter fun subject => fresh subject waiting).insertionSort
    fun a b => a.number ≤ b.number

def waited (subjects : List Subject) (waiting : Waits) : List Subject :=
  (subjects.filter fun subject => !fresh subject waiting).insertionSort
    fun a b => decidedAt waiting a ≤ decidedAt waiting b

def ordered (subjects : List Subject) (waiting : Waits) : List Subject :=
  renewed subjects waiting ++ waited subjects waiting

structure Queue where
  decided : List Subject
  left : List Nat
  freshLeft : Bool

/-- The first limit candidates: the fresh ones by number, then the others by how long they wait. -/
def queue (subjects : List Subject) (waiting : Waits) (limit : Nat) : Queue where
  decided := (ordered subjects waiting).take limit
  left := ((ordered subjects waiting).drop limit).map Subject.number
  freshLeft := decide (limit < (renewed subjects waiting).length)

def planIntake (listing : Listing) (issues : List Nat) (limit : Option Nat)
    (waiting : Option Waits) : IntakePlan :=
  let (subjects, missing, others) := subjectsOf listing issues
  let queue : Queue := match limit with
    | none => ⟨subjects, [], false⟩
    | some limit => queue subjects (waiting.getD fun _ => none) limit
  { decided := queue.decided
    missing := missing
    left := queue.left
    freshLeft := queue.freshLeft
    othersFresh := waiting.any fun waiting => others.any fun other => fresh other waiting }

def IntakePlan.entries (plan : IntakePlan) (now : Int) : Waits := fun number =>
  (plan.decided.find? fun subject => subject.number = number).map fun subject =>
    ⟨subject.updatedAt, now⟩

namespace IntakeRecord
variable (record : IntakeRecord)

def after (plan : IntakePlan) (now : Int) : IntakeRecord where
  pending := plan.freshLeft
  waiting number :=
    (plan.entries now number).or (if number ∈ plan.left then record.waiting number else none)

def merged (plan : IntakePlan) (now : Int) : IntakeRecord where
  pending := record.pending || plan.othersFresh
  waiting number := (plan.entries now number).or (record.waiting number)

end IntakeRecord

inductive Event where
  | round (listing : Listing) (now : Int)
  | update (listing : Listing) (number : Nat) (now : Int)

namespace Event

def listing : Event → Listing
  | .round listing _ => listing
  | .update listing _ _ => listing

def time : Event → Int
  | .round _ now => now
  | .update _ _ now => now

def plan (limit : Nat) (record : IntakeRecord) : Event → IntakePlan
  | .round listing _ => planIntake listing [] (some limit) (some record.waiting)
  | .update listing number _ => planIntake listing [number] none (some record.waiting)

def next (limit : Nat) (record : IntakeRecord) : Event → IntakeRecord
  | .round listing now => record.after (plan limit record (.round listing now)) now
  | .update listing number now => record.merged (plan limit record (.update listing number now)) now

def decides (limit : Nat) (record : IntakeRecord) (event : Event) : List Subject :=
  (event.plan limit record).decided

end Event

def run (limit : Nat) (record : IntakeRecord) (events : List Event) : IntakeRecord :=
  events.foldl (fun record event => event.next limit record) record

section Queue
variable {subjects : List Subject} {waiting : Waits} {limit : Nat} {subject other : Subject}

theorem mem_renewed : subject ∈ renewed subjects waiting ↔
    subject ∈ subjects ∧ fresh subject waiting = true := by
  rw [renewed, List.mem_insertionSort, List.mem_filter]

theorem mem_waited : subject ∈ waited subjects waiting ↔
    subject ∈ subjects ∧ fresh subject waiting = false := by
  rw [waited, List.mem_insertionSort, List.mem_filter, Bool.not_eq_true']

theorem mem_ordered : subject ∈ ordered subjects waiting ↔ subject ∈ subjects := by
  rw [ordered, List.mem_append, mem_renewed, mem_waited, ← and_or_left]
  cases fresh subject waiting <;> simp

theorem decided_or_left (limit : Nat) (listed : subject ∈ subjects) :
    subject ∈ (ordered subjects waiting).take limit ∨
      subject ∈ (ordered subjects waiting).drop limit := by
  rw [← List.mem_append, List.take_append_drop]
  exact mem_ordered.mpr listed

/-- A fresh candidate is left only where more than limit are fresh. -/
theorem fresh_left (left : subject ∈ (ordered subjects waiting).drop limit)
    (new : fresh subject waiting = true) : limit < (renewed subjects waiting).length := by
  by_contra few
  rw [ordered, List.drop_append, List.drop_eq_nil_of_le (not_lt.mp few), List.nil_append] at left
  have old := (mem_waited.mp (List.mem_of_mem_drop left)).2
  rw [new] at old
  cases old

theorem decided_fresh (many : limit < (renewed subjects waiting).length)
    (decided : subject ∈ (ordered subjects waiting).take limit) : fresh subject waiting = true := by
  rw [ordered, List.take_append_of_le_length many.le] at decided
  exact (mem_renewed.mp (List.mem_of_mem_take decided)).2

theorem waited_sorted : (waited subjects waiting).Pairwise
    fun a b => decidedAt waiting a ≤ decidedAt waiting b := by
  have total : Std.Total fun a b : Subject => decidedAt waiting a ≤ decidedAt waiting b :=
    ⟨fun a b => le_total _ _⟩
  have trans : IsTrans Subject fun a b => decidedAt waiting a ≤ decidedAt waiting b :=
    ⟨fun a b c ab bc => ab.trans bc⟩
  exact List.pairwise_insertionSort _ _

theorem decided_waited (old : fresh subject waiting = false)
    (decided : subject ∈ (ordered subjects waiting).take limit)
    (left : other ∈ (ordered subjects waiting).drop limit) :
    decidedAt waiting subject ≤ decidedAt waiting other := by
  have few : (renewed subjects waiting).length ≤ limit := by
    by_contra many
    have new := decided_fresh (not_le.mp many) decided
    rw [old] at new
    cases new
  rw [ordered, List.take_append, List.mem_append] at decided
  rw [ordered, List.drop_append, List.drop_eq_nil_of_le few, List.nil_append] at left
  rcases decided with new | first
  · have new := (mem_renewed.mp (List.mem_of_mem_take new)).2
    rw [old] at new
    cases new
  · have sorted := @waited_sorted subjects waiting
    rw [← List.take_append_drop (limit - (renewed subjects waiting).length) (waited subjects waiting),
      List.pairwise_append] at sorted
    exact sorted.2.2 _ first _ left

end Queue

section Events
variable {limit number : Nat} {record : IntakeRecord} {listing : Listing} {now : Int}
  {event : Event} {subject other : Subject}

theorem decides_listed (decided : subject ∈ event.decides limit record) :
    subject ∈ event.listing.subjects := by
  cases event with
  | round listing now => exact mem_ordered.mp (List.mem_of_mem_take decided)
  | update listing number now => exact (List.mem_filter.mp decided).1

theorem Listing.same (listed : subject ∈ listing.subjects) (its : other ∈ listing.subjects)
    (same : subject.number = other.number) : subject = other :=
  List.inj_on_of_nodup_map listing.distinct listed its same

theorem entries_decided (decided : subject ∈ event.decides limit record) :
    (event.plan limit record).entries event.time subject.number =
      some ⟨subject.updatedAt, event.time⟩ := by
  rw [IntakePlan.entries]
  rcases found : (event.plan limit record).decided.find? fun other => other.number = subject.number
    with _ | other
  · have none_ := List.find?_eq_none.mp found subject decided
    simp at none_
  · have same : other.number = subject.number := by simpa using List.find?_some found
    rw [found, Listing.same (decides_listed (List.mem_of_find?_eq_some found)) (decides_listed decided)
      same]
    rfl

theorem entries_other (apart : ∀ subject ∈ event.decides limit record, subject.number ≠ number) :
    (event.plan limit record).entries event.time number = none := by
  rw [IntakePlan.entries, List.find?_eq_none.mpr]
  · rfl
  · intro subject decided
    simpa using apart subject decided

theorem next_decided (decided : subject ∈ event.decides limit record) :
    (event.next limit record).waiting subject.number = some ⟨subject.updatedAt, event.time⟩ := by
  have entry := entries_decided decided
  cases event with
  | round listing now => exact congrArg (Option.or · _) entry
  | update listing number now => exact congrArg (Option.or · _) entry

theorem next_other (apart : ∀ subject ∈ event.decides limit record, subject.number ≠ number) :
    (event.next limit record).waiting number = record.waiting number ∨
      (event.next limit record).waiting number = none := by
  have entry := entries_other apart
  cases event with
  | round listing now =>
    have held : ((Event.round listing now).next limit record).waiting number =
        if number ∈ ((Event.round listing now).plan limit record).left then record.waiting number
        else none := congrArg (Option.or · _) entry
    rw [held]
    split
    · exact Or.inl rfl
    · exact Or.inr rfl
  | update listing issue now => exact Or.inl (congrArg (Option.or · _) entry)

theorem fresh_congr {waiting waits : Waits} (same : waiting subject.number = waits subject.number) :
    fresh subject waiting = fresh subject waits := by
  rw [fresh, fresh, same]

theorem decided_not_fresh (decided : subject ∈ event.decides limit record) :
    fresh subject (event.next limit record).waiting = false := by
  rw [fresh, next_decided decided]
  simp

theorem not_decided_apart (listed : subject ∈ event.listing.subjects)
    (undecided : subject ∉ event.decides limit record) :
    ∀ other ∈ event.decides limit record, other.number ≠ subject.number := by
  intro other decided same
  rw [Listing.same (decides_listed decided) listed same] at decided
  exact undecided decided

theorem fresh_pending (listed : subject ∈ event.listing.subjects)
    (new : fresh subject (event.next limit record).waiting = true) :
    (event.next limit record).pending = true := by
  have undecided : subject ∉ event.decides limit record := by
    intro decided
    rw [decided_not_fresh decided] at new
    cases new
  have apart := not_decided_apart listed undecided
  cases event with
  | round listing now =>
    have left : subject ∈ (ordered listing.subjects record.waiting).drop limit :=
      (decided_or_left limit listed).resolve_left undecided
    have kept : ((Event.round listing now).next limit record).waiting subject.number =
        record.waiting subject.number :=
      (congrArg (Option.or · _) (entries_other apart)).trans
        (if_pos (List.mem_map_of_mem left))
    rw [fresh_congr kept] at new
    exact decide_eq_true (fresh_left left new)
  | update listing number now =>
    have kept : ((Event.update listing number now).next limit record).waiting subject.number =
        record.waiting subject.number := congrArg (Option.or · _) (entries_other apart)
    rw [fresh_congr kept] at new
    have others : subject ∈ listing.subjects.filter fun other => other.number ∉ [number] := by
      refine List.mem_filter.mpr ⟨listed, decide_eq_true fun named => undecided ?_⟩
      exact List.mem_filter.mpr ⟨listed, decide_eq_true named⟩
    have seen : ((Event.update listing number now).plan limit record).othersFresh = true :=
      List.any_eq_true.mpr ⟨subject, others, new⟩
    change (record.pending || ((Event.update listing number now).plan limit record).othersFresh) = true
    rw [seen, Bool.or_true]

/-- Where a round decides a candidate that waits, it decides every fresh one. -/
theorem fresh_first (decided : subject ∈ (Event.round listing now).decides limit record)
    (old : fresh subject record.waiting = false) (listed : other ∈ listing.subjects)
    (new : fresh other record.waiting = true) :
    other ∈ (Event.round listing now).decides limit record := by
  refine (decided_or_left limit listed).resolve_right fun left => ?_
  exact Bool.false_ne_true (old.symm.trans (decided_fresh (fresh_left left new) decided))

end Events

def DecidedIn (limit number : Nat) : IntakeRecord → List Event → Prop
  | _, [] => False
  | record, event :: rest =>
    (∃ subject ∈ event.decides limit record, subject.number = number) ∨
      DecidedIn limit number (event.next limit record) rest

def decideDecidedIn (limit number : Nat) :
    (record : IntakeRecord) → (events : List Event) → Decidable (DecidedIn limit number record events)
  | _, [] => .isFalse id
  | record, event :: rest =>
    have := decideDecidedIn limit number (event.next limit record) rest
    inferInstanceAs (Decidable ((∃ subject ∈ event.decides limit record, subject.number = number) ∨
      DecidedIn limit number (event.next limit record) rest))

instance (limit number : Nat) (record : IntakeRecord) (events : List Event) :
    Decidable (DecidedIn limit number record events) := decideDecidedIn limit number record events

def Increasing (events : List Event) : Prop := events.Pairwise fun a b => a.time < b.time

instance (events : List Event) : Decidable (Increasing events) :=
  inferInstanceAs (Decidable (events.Pairwise fun a b => a.time < b.time))

section Runs
variable {limit number : Nat} {record : IntakeRecord} {events : List Event} {event : Event}
  {now : Int}

def Entry (record : IntakeRecord) (number : Nat) (p : Int → Prop) : Prop :=
  ∀ entry, record.waiting number = some entry → p entry.decidedAt

theorem next_entry {p : Int → Prop} (held : Entry record number p)
    (own : (∃ subject ∈ event.decides limit record, subject.number = number) → p event.time) :
    Entry (event.next limit record) number p := by
  intro entry found
  by_cases decided : ∃ subject ∈ event.decides limit record, subject.number = number
  · obtain ⟨subject, mem, rfl⟩ := decided
    rw [next_decided mem] at found
    obtain rfl := Option.some.inj found
    exact own ⟨subject, mem, rfl⟩
  · have apart : ∀ subject ∈ event.decides limit record, subject.number ≠ number :=
      fun subject mem same => decided ⟨subject, mem, same⟩
    rcases next_other apart with same | dropped
    · exact held entry (same.symm.trans found)
    · rw [dropped] at found
      cases found

theorem run_entry {p : Int → Prop} (held : Entry record number p)
    (times : ∀ event ∈ events, p event.time) : Entry (run limit record events) number p := by
  induction events generalizing record with
  | nil => exact held
  | cons event rest ih =>
    obtain ⟨here, later⟩ := List.forall_mem_cons.mp times
    exact ih (next_entry held fun _ => here) later

theorem run_undecided {p : Int → Prop} (held : Entry record number p)
    (undecided : ¬DecidedIn limit number record events) : Entry (run limit record events) number p := by
  induction events generalizing record with
  | nil => exact held
  | cons event rest ih =>
    obtain ⟨here, later⟩ := not_or.mp undecided
    exact ih (next_entry held fun decided => absurd decided here) later

theorem decidedIn_append {first rest : List Event} :
    DecidedIn limit number record (first ++ rest) ↔
      DecidedIn limit number record first ∨ DecidedIn limit number (run limit record first) rest := by
  induction first generalizing record with
  | nil => simp [DecidedIn, run]
  | cons event first ih =>
    rw [List.cons_append, DecidedIn, DecidedIn, ih, or_assoc]
    rfl

theorem fresh_entry {subject : Subject} (old : fresh subject record.waiting = false) :
    ∃ entry, record.waiting subject.number = some entry ∧
      decidedAt record.waiting subject = entry.decidedAt := by
  rw [fresh] at old
  rw [decidedAt]
  cases held : record.waiting subject.number with
  | none =>
    rw [held] at old
    cases old
  | some entry => exact ⟨entry, rfl, rfl⟩

/-- From one decision of a candidate to its next by a round with no fresh one, each candidate of
    that round is decided. -/
theorem between_decisions {first : Event} {between : List Event} {listing : Listing}
    {subject other : Subject} (before : ∀ number, Entry record number (· < first.time))
    (increasing : Increasing (first :: (between ++ [.round listing now])))
    (decided : subject ∈ first.decides limit record)
    (again : subject ∈ (Event.round listing now).decides limit (run limit record (first :: between)))
    (old : ∀ c ∈ listing.subjects, fresh c (run limit record (first :: between)).waiting = false)
    (listed : other ∈ listing.subjects) :
    DecidedIn limit other.number record (first :: (between ++ [.round listing now])) := by
  rw [← List.cons_append, decidedIn_append]
  by_contra never
  obtain ⟨undecided, left⟩ := not_or.mp never
  have later : ∀ event ∈ between, first.time ≤ event.time := fun event mem =>
    ((List.pairwise_cons.mp increasing).1 event (List.mem_append_left _ mem)).le
  -- The entry of the first candidate is as late as its decision, that of the other is not.
  have mine : Entry (run limit record (first :: between)) subject.number (first.time ≤ ·) := by
    refine @run_entry _ _ (first.next limit record) _ _ ?_ later
    intro entry found
    rw [next_decided decided] at found
    obtain rfl := Option.some.inj found
    exact le_rfl
  have its := run_undecided (before other.number) undecided
  have listed_own := decides_listed again
  obtain ⟨own, own_found, own_at⟩ := fresh_entry (old subject listed_own)
  obtain ⟨entry, found, at_⟩ := fresh_entry (old other listed)
  have waits : other ∈ (ordered listing.subjects
      (run limit record (first :: between)).waiting).drop limit :=
    (decided_or_left limit listed).resolve_left fun taken => left (Or.inl ⟨other, taken, rfl⟩)
  have sooner := decided_waited (old subject listed_own) again waits
  rw [own_at, at_] at sooner
  have := mine own own_found
  have := its entry found
  omega

end Runs
/-- After each event of a run a candidate that it listed and that is fresh makes intake due; no
    round decides a candidate that waits while a fresh one is left; and where the times of the
    events increase, each candidate of a round with no fresh one is decided from one decision of
    another to its next by that round. -/
theorem intake_fair (limit : Nat) (events : List Event) :
    (∀ before event rest, events = before ++ event :: rest →
      let record := run limit {} before
      (∀ c ∈ event.listing.subjects, fresh c (event.next limit record).waiting = true →
        (event.next limit record).pending = true) ∧
      ∀ listing now, event = .round listing now → ∀ c ∈ event.decides limit record,
        fresh c record.waiting = false → ∀ other ∈ listing.subjects,
          fresh other record.waiting = true → other ∈ event.decides limit record) ∧
    (Increasing events → ∀ before first between listing now rest subject,
      events = before ++ first :: (between ++ .round listing now :: rest) →
      let record := run limit {} before
      let last := run limit record (first :: between)
      subject ∈ first.decides limit record →
      subject ∈ (Event.round listing now).decides limit last →
      (∀ c ∈ listing.subjects, fresh c last.waiting = false) →
      ∀ other ∈ listing.subjects,
        DecidedIn limit other.number record (first :: (between ++ [.round listing now]))) := by
  constructor
  · intro before event rest _
    refine ⟨fun c listed new => fresh_pending listed new, ?_⟩
    rintro listing now rfl c decided old other listed new
    exact fresh_first decided old listed new
  · rintro increasing before first between listing now rest subject rfl record last decided again
      old other listed
    obtain ⟨earlier, span, across⟩ := List.pairwise_append.mp increasing
    refine between_decisions (fun number => run_entry ?_ ?_) ?_ decided again old listed
    · rintro entry ⟨⟩
    · exact fun event mem => across event mem first List.mem_cons_self
    · exact span.sublist (((List.Sublist.refl between).append
        ((List.nil_sublist rest).cons_cons _)).cons_cons first)

def three : Listing := ⟨[⟨1, none⟩, ⟨2, none⟩, ⟨3, none⟩], by decide⟩

def deliveries : List Event := [.update three 2 0, .update three 1 1, .update three 3 2]

/-- In two rounds of two candidates each the first is decided twice, and so is each other once. -/
theorem intake_fair_three :
    let record := run 2 {} deliveries
    DecidedIn 2 3 record [.round three 10, .round three 20] ∧
      DecidedIn 2 2 record [.round three 10, .round three 20] := by
  have between := (intake_fair 2 (deliveries ++ [.round three 10, .round three 20])).2
    (by decide) deliveries (.round three 10) [] three 20 [] ⟨1, none⟩ rfl (by decide +kernel)
    (by decide +kernel) (by decide +kernel)
  exact ⟨between ⟨3, none⟩ (by decide), between ⟨2, none⟩ (by decide)⟩

/-- A candidate that one round decides before another may wait while the next round decides the
    other again; and where the clock is set back, one is decided twice and another not at all. -/
theorem candidate_decided_again :
    (¬∀ (events : List Event), Increasing events → ∀ before first between listing now rest subject,
      events = before ++ first :: (between ++ .round listing now :: rest) →
      subject ∈ first.decides 2 (run 2 {} before) →
      subject ∈ (Event.round listing now).decides 2 (run 2 {} (before ++ first :: between)) →
      ∀ other ∈ listing.subjects, other ≠ subject →
        DecidedIn 2 other.number (run 2 {} (before ++ [first])) (between ++ [.round listing now])) ∧
    ¬∀ (events : List Event), ∀ before first between listing now rest subject,
      events = before ++ first :: (between ++ .round listing now :: rest) →
      subject ∈ first.decides 1 (run 1 {} before) →
      subject ∈ (Event.round listing now).decides 1 (run 1 {} (before ++ first :: between)) →
      ∀ other ∈ listing.subjects,
        DecidedIn 1 other.number (run 1 {} before) (first :: (between ++ [.round listing now])) := by
  constructor
  · intro fair
    have second := fair (deliveries ++ [.round three 10, .round three 20]) (by decide) deliveries
      (.round three 10) [] three 20 [] ⟨1, none⟩ rfl (by decide +kernel) (by decide +kernel) ⟨2, none⟩
      (by decide) (by decide)
    exact absurd second (by decide +kernel)
  · intro fair
    have third := fair (deliveries ++ [.round three (-2), .round three (-1)]) deliveries
      (.round three (-2)) [] three (-1) [] ⟨2, none⟩ rfl (by decide +kernel) (by decide +kernel)
      ⟨3, none⟩ (by decide)
    exact absurd third (by decide +kernel)

end DevopsCli.Roadmap.IntakeQueue
