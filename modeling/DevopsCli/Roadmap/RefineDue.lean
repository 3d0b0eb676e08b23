import DevopsCli.Lib.Run

/- When refine is due, roadmap/run.py: the triage lane places items and the model lane refines them,
   each with one round at a time, over one schedule.json. A write of the file keeps what the other
   lane wrote, so it is one step; the other rows of the lanes write only their own success. -/
namespace DevopsCli.Roadmap.RefineDue
open Run

abbrev TriggerKey := String × String × String

structure Change where
  kind : String
  number : Nat
  actor : Option String
  at_ : Int

structure DueCheck where
  changes : List Change
  now : Int
  lastSuccess : Option Int

structure JobRow where
  name : String
  interval : Option Int := none
  batchKeys : List TriggerKey := []
  firstRunDue : Bool := false
  dueRule : Option (DueCheck → Bool) := none

abbrev Schedule := String → Option Int

def dueStamp : String := "refine_due"

def recordSuccess (schedule : Schedule) (job : String) (at_ : Int) : Schedule :=
  fun key => if key = job then some at_ else schedule key

structure Reads where
  batch : List TriggerKey
  changes : List Change
  now : Int

def intervalDue (row : JobRow) (last : Option Int) (now : Int) : Bool :=
  match last, row.interval with
  | none, _ => row.firstRunDue
  | some _, none => false
  | some last, some interval => interval ≤ now - last

def batchMatches (batch : List TriggerKey) (row : JobRow) : Bool := row.batchKeys.any (· ∈ batch)

def stampDue (schedule : Schedule) (last : Option Int) : Bool :=
  match schedule dueStamp, last with
  | none, _ => false
  | some _, none => true
  | some due, some last => last < due

def isDue (schedule : Schedule) (reads : Reads) (row : JobRow) : Bool :=
  let last := schedule row.name
  if intervalDue row last reads.now || batchMatches reads.batch row then true
  else if row.name = "refine" && stampDue schedule last then true
  else
    match row.dueRule with
    | none => false
    | some rule =>
      rule ⟨reads.changes.filter (last.getD reads.now ≤ ·.at_), reads.now, last⟩

def refineRow (interval : Int) : JobRow where
  name := "refine"
  interval := some interval
  firstRunDue := true

structure IntakeRound where
  start : Int
  ofDelivery : Bool
  -- The last write of a critical or P0 item is done; the round has stamped.
  placed : Bool := false
  stamped : Bool := false

structure Placement where
  start : Int
  lastWrite : Int

/-- What a poll of the model lane found: whether an item waits for a refine round that started
    after it was placed, and whether refine was due. -/
structure PollResult where
  waits : Bool
  due : Bool

structure Service where
  clock : Int
  schedule : Schedule
  intake : Option IntakeRound := none
  refine : Option Int := none
  waiting : List Placement := []
  polls : List PollResult := []

inductive ServiceEvent where
  | intakeStarts (ofDelivery : Bool) (now : Int)
  | places (now : Int)
  | stamps
  | intakeEnds
  -- A failed placement, a refused write or a lost process.
  | intakeFails
  | polls (reads : Reads) (suspended : Bool)
  | refineSucceeds
  | refineFails
  | otherSucceeds (job : String) (at_ : Int)

def step (row : JobRow) (s : Service) : ServiceEvent → Option Service
  | .intakeStarts ofDelivery now =>
    match s.intake with
    | some _ => none
    | none =>
      if s.clock ≤ now then
        some { s with clock := now, intake := some { start := now, ofDelivery := ofDelivery } }
      else none
  | .places now =>
    match s.intake with
    | none => none
    | some round =>
      if s.clock ≤ now ∧ round.stamped = false then
        some { s with
          clock := now
          intake := some { round with placed := true }
          waiting := s.waiting ++ [⟨round.start, now⟩] }
      else none
  | .stamps =>
    match s.intake with
    | none => none
    | some round =>
      if round.placed = true ∧ round.stamped = false then
        some { s with
          schedule := recordSuccess s.schedule dueStamp round.start
          intake := some { round with stamped := true } }
      else none
  | .intakeEnds =>
    match s.intake with
    | none => none
    | some round =>
      if round.placed = round.stamped then
        some { s with
          intake := none
          schedule := if round.ofDelivery then s.schedule
            else recordSuccess s.schedule "intake" round.start }
      else none
  | .intakeFails => s.intake.map fun _ => { s with intake := none }
  | .polls reads suspended =>
    match s.refine with
    | some _ => none
    | none =>
      if s.clock ≤ reads.now then
        let due := isDue s.schedule reads row
        some { s with
          clock := reads.now
          polls := s.polls ++ [⟨!s.waiting.isEmpty, due⟩]
          refine := if due && !suspended then some reads.now else none }
      else none
  | .refineSucceeds =>
    s.refine.map fun start =>
      { s with
        refine := none
        schedule := recordSuccess s.schedule "refine" start
        waiting := s.waiting.filter (start ≤ ·.lastWrite) }
  | .refineFails => s.refine.map fun _ => { s with refine := none }
  | .otherSucceeds job at_ =>
    if job = "refine" ∨ job = dueStamp then none
    else some { s with schedule := recordSuccess s.schedule job at_ }

/-- No refine round that started since an intake round did succeeds before or after the round
    places an item that the refine round did not see; a round that has placed one stamps before
    the next poll, and before it fails. -/
def Ordered (s : Service) : ServiceEvent → Prop
  | .places _ => ∀ round ∈ s.intake, ∀ last ∈ s.schedule "refine", last < round.start
  | .refineSucceeds => ∀ start ∈ s.refine, ∀ placement ∈ s.waiting,
      start ≤ placement.lastWrite → start < placement.start
  | .polls _ _ | .intakeFails => ∀ round ∈ s.intake, round.placed = true → round.stamped = true
  | _ => True

instance (s : Service) : (event : ServiceEvent) → Decidable (Ordered s event)
  | .places _ => inferInstanceAs (Decidable (∀ round ∈ s.intake, ∀ last ∈ s.schedule "refine",
      last < round.start))
  | .refineSucceeds => inferInstanceAs (Decidable (∀ start ∈ s.refine, ∀ placement ∈ s.waiting,
      start ≤ placement.lastWrite → start < placement.start))
  | .polls _ _ | .intakeFails => inferInstanceAs (Decidable (∀ round ∈ s.intake,
      round.placed = true → round.stamped = true))
  | .intakeStarts _ _ | .stamps | .intakeEnds | .refineFails | .otherSucceeds _ _ => .isTrue trivial

section Schedule
variable {schedule : Schedule}

theorem recordSuccess_same (schedule : Schedule) (job : String) (at_ : Int) :
    recordSuccess schedule job at_ job = some at_ := by simp [recordSuccess]

theorem recordSuccess_other (schedule : Schedule) {job key : String} (other : key ≠ job) (at_ : Int) :
    recordSuccess schedule job at_ key = schedule key := by simp [recordSuccess, other]

theorem isDue_of_stamp {row : JobRow} (refine : row.name = "refine") {due : Int}
    (stamped : schedule dueStamp = some due) (later : ∀ last ∈ schedule "refine", last < due)
    (reads : Reads) : isDue schedule reads row = true := by
  have stamp : stampDue schedule (schedule "refine") = true := by
    cases last : schedule "refine" with
    | none => simp [stampDue, stamped]
    | some last' => simpa [stampDue, stamped] using later last' last
  simp [isDue, refine, stamp]

end Schedule

/-- Each item that waits was placed by a round that started after the last success of refine, and
    the stamp is not before it, unless its round has still to stamp. -/
structure Kept (s : Service) : Prop where
  last : ∀ placement ∈ s.waiting, ∀ last ∈ s.schedule "refine", last < placement.start
  stamped : ∀ placement ∈ s.waiting, (∃ round ∈ s.intake, round.placed = true ∧ round.stamped = false) ∨
    ∃ due ∈ s.schedule dueStamp, placement.start ≤ due
  begun : ∀ round ∈ s.intake, ∀ placement ∈ s.waiting, placement.start ≤ round.start
  clock : ∀ placement ∈ s.waiting, placement.start ≤ s.clock
  running : ∀ round ∈ s.intake, round.start ≤ s.clock
  polls : ∀ result ∈ s.polls, result.waits = true → result.due = true

section Steps
variable {row : JobRow} {s t : Service}

theorem stamped_of (kept : Kept s)
    (settled : ∀ round ∈ s.intake, round.placed = true → round.stamped = true) :
    ∀ placement ∈ s.waiting, ∃ due ∈ s.schedule dueStamp, placement.start ≤ due := by
  intro placement mem
  rcases kept.stamped placement mem with ⟨round, running, placed, open_⟩ | stamped
  · rw [settled round running placed] at open_
    exact absurd open_ (by simp)
  · exact stamped

theorem intakeStarts_kept (kept : Kept s) {ofDelivery : Bool} {now : Int}
    (taken : step row s (.intakeStarts ofDelivery now) = some t) : Kept t := by
  rw [step] at taken
  split at taken
  · exact absurd taken (by simp)
  · rename_i idle
    split at taken
    · rename_i later
      obtain rfl := Option.some.inj taken
      have stamped := stamped_of kept (by simp [idle])
      exact {
        last := kept.last
        stamped := fun placement mem => Or.inr (stamped placement mem)
        begun := by
          intro round held placement mem
          obtain rfl := Option.some.inj held
          exact (kept.clock placement mem).trans later
        clock := fun placement mem => (kept.clock placement mem).trans later
        running := by
          intro other held
          obtain rfl := Option.some.inj held
          exact le_rfl
        polls := kept.polls }
    · exact absurd taken (by simp)

theorem places_kept (kept : Kept s) {now : Int} (ordered : Ordered s (.places now))
    (taken : step row s (.places now) = some t) : Kept t := by
  rw [step] at taken
  split at taken
  · exact absurd taken (by simp)
  · rename_i round running
    split at taken
    · rename_i allowed
      obtain rfl := Option.some.inj taken
      have both : ∀ placement ∈ s.waiting ++ [⟨round.start, now⟩], placement ∈ s.waiting ∨
          placement = ⟨round.start, now⟩ := fun placement mem => by simpa using mem
      exact {
        last := fun placement mem => by
          rcases both placement mem with old | rfl
          · exact kept.last placement old
          · exact ordered round running
        stamped := fun placement mem => Or.inl ⟨_, rfl, rfl, allowed.2⟩
        begun := by
          intro other held placement mem
          obtain rfl := Option.some.inj held
          rcases both placement mem with old | rfl
          · exact kept.begun round running placement old
          · exact le_rfl
        clock := fun placement mem => by
          rcases both placement mem with old | rfl
          · exact (kept.clock placement old).trans allowed.1
          · exact (kept.running round running).trans allowed.1
        running := by
          intro other held
          obtain rfl := Option.some.inj held
          exact (kept.running round running).trans allowed.1
        polls := kept.polls }
    · exact absurd taken (by simp)

theorem stamps_kept (kept : Kept s) (taken : step row s .stamps = some t) : Kept t := by
  rw [step] at taken
  split at taken
  · exact absurd taken (by simp)
  · rename_i round running
    split at taken
    · obtain rfl := Option.some.inj taken
      exact {
        last := kept.last
        stamped := fun placement mem =>
          Or.inr ⟨round.start, recordSuccess_same s.schedule dueStamp round.start,
            kept.begun round running placement mem⟩
        begun := by
          intro other held
          obtain rfl := Option.some.inj held
          exact kept.begun round running
        clock := kept.clock
        running := by
          intro other held
          obtain rfl := Option.some.inj held
          exact kept.running round running
        polls := kept.polls }
    · exact absurd taken (by simp)

theorem schedule_kept (kept : Kept s) {schedule : Schedule}
    (refine : schedule "refine" = s.schedule "refine") (due : schedule dueStamp = s.schedule dueStamp)
    (settled : ∀ round ∈ s.intake, round.placed = true → round.stamped = true) :
    Kept { s with intake := none, schedule := schedule } where
  last := by simpa only [refine] using kept.last
  stamped placement mem := Or.inr (by simpa only [due] using stamped_of kept settled placement mem)
  begun := by simp
  clock := kept.clock
  running := by simp
  polls := kept.polls

theorem intakeEnds_kept (kept : Kept s) (taken : step row s .intakeEnds = some t) : Kept t := by
  rw [step] at taken
  split at taken
  · exact absurd taken (by simp)
  · rename_i round running
    split at taken
    · rename_i whole
      obtain rfl := Option.some.inj taken
      have settled : ∀ other ∈ s.intake, other.placed = true → other.stamped = true := by
        rintro other held placed
        rw [running] at held
        obtain rfl := Option.some.inj held
        rw [← whole, placed]
      split
      · exact schedule_kept kept rfl rfl settled
      · exact schedule_kept kept (recordSuccess_other s.schedule (by decide) _)
          (recordSuccess_other s.schedule (by decide) _) settled
    · exact absurd taken (by simp)

theorem polls_kept (refine : row.name = "refine") (kept : Kept s) {reads : Reads} {suspended : Bool}
    (ordered : Ordered s (.polls reads suspended))
    (taken : step row s (.polls reads suspended) = some t) : Kept t := by
  rw [step] at taken
  split at taken
  · exact absurd taken (by simp)
  · split at taken
    · rename_i later
      obtain rfl := Option.some.inj taken
      have due : s.waiting ≠ [] → isDue s.schedule reads row = true := by
        intro waits
        obtain ⟨placement, mem⟩ := List.exists_mem_of_ne_nil _ waits
        obtain ⟨due, stamp, bound⟩ := stamped_of kept ordered placement mem
        exact isDue_of_stamp refine stamp
          (fun last held => (kept.last placement mem last held).trans_le bound) reads
      exact {
        last := kept.last
        stamped := kept.stamped
        begun := kept.begun
        clock := fun placement mem => (kept.clock placement mem).trans later
        running := fun round running => (kept.running round running).trans later
        polls := fun result mem waits => by
          rcases List.mem_append.mp mem with old | new
          · exact kept.polls result old waits
          · obtain rfl := List.mem_singleton.mp new
            exact due (by simpa using waits) }
    · exact absurd taken (by simp)

theorem refineSucceeds_kept (kept : Kept s) (ordered : Ordered s .refineSucceeds)
    (taken : step row s .refineSucceeds = some t) : Kept t := by
  obtain ⟨start, running, rfl⟩ := Option.map_eq_some_iff.mp taken
  have held : ∀ placement ∈ s.waiting.filter (start ≤ ·.lastWrite), placement ∈ s.waiting :=
    fun placement mem => (List.mem_filter.mp mem).1
  have due : recordSuccess s.schedule "refine" start dueStamp = s.schedule dueStamp :=
    recordSuccess_other s.schedule (by decide) _
  exact {
    last := fun placement mem last success => by
      obtain ⟨waits, unseen⟩ := List.mem_filter.mp mem
      have same : some start = some last := (recordSuccess_same s.schedule "refine" start).symm.trans success
      obtain rfl := Option.some.inj same
      exact ordered start running placement waits (by simpa using unseen)
    stamped := fun placement mem => by
      simp only [due]
      exact kept.stamped placement (held placement mem)
    begun := fun round running placement mem => kept.begun round running placement (held placement mem)
    clock := fun placement mem => kept.clock placement (held placement mem)
    running := kept.running
    polls := kept.polls }

theorem step_kept (refine : row.name = "refine") {event : ServiceEvent} (kept : Kept s)
    (ordered : Ordered s event) (taken : step row s event = some t) : Kept t := by
  cases event with
  | intakeStarts ofDelivery now => exact intakeStarts_kept kept taken
  | places now => exact places_kept kept ordered taken
  | stamps => exact stamps_kept kept taken
  | intakeEnds => exact intakeEnds_kept kept taken
  | intakeFails =>
    obtain ⟨round, -, rfl⟩ := Option.map_eq_some_iff.mp taken
    exact schedule_kept kept rfl rfl ordered
  | polls reads suspended => exact polls_kept refine kept ordered taken
  | refineSucceeds => exact refineSucceeds_kept kept ordered taken
  | refineFails =>
    obtain ⟨start, -, rfl⟩ := Option.map_eq_some_iff.mp taken
    exact ⟨kept.last, kept.stamped, kept.begun, kept.clock, kept.running, kept.polls⟩
  | otherSucceeds job at_ =>
    rw [step] at taken
    split at taken
    · exact absurd taken (by simp)
    · rename_i other
      obtain rfl := Option.some.inj taken
      obtain ⟨refine, due⟩ := not_or.mp other
      have same := recordSuccess_other s.schedule (Ne.symm refine) at_
      have stamp := recordSuccess_other s.schedule (Ne.symm due) at_
      exact {
        last := by simpa only [same] using kept.last
        stamped := by simpa only [stamp] using kept.stamped
        begun := kept.begun
        clock := kept.clock
        running := kept.running
        polls := kept.polls }

end Steps

/-- In every run whose steps are ordered, from any schedule, each poll that finds an item waiting
    finds refine due. -/
theorem placed_item_makes_refine_due (row : JobRow) (refine : row.name = "refine") (clock : Int)
    (schedule : Schedule) (events : List ServiceEvent) (s : Service)
    (run : exec (step row) { clock := clock, schedule := schedule } events = some s)
    (ordered : Meets (step row) Ordered { clock := clock, schedule := schedule } events) :
    ∀ result ∈ s.polls, result.waits = true → result.due = true :=
  (exec_invariant Kept (fun _ _ _ kept ordered taken => step_kept refine kept ordered taken)
    ⟨by simp, by simp, by simp, by simp, by simp, by simp⟩ ordered run).polls

def poll (now : Int) : ServiceEvent := .polls ⟨[], [], now⟩ false

/-- A refine round runs before an intake round places an item, and the poll after it finds refine
    due. -/
theorem placed_item_makes_refine_due_later : ∃ s : Service, s.polls.length = 2 ∧
    ∀ result ∈ s.polls, result.waits = true → result.due = true := by
  let events : List ServiceEvent :=
    [poll 1, .refineSucceeds, .intakeStarts false 2, .places 3, .stamps, .intakeEnds, poll 4]
  let start : Service := { clock := 0, schedule := fun _ => none }
  have reached : (exec (step (refineRow 3600)) start events).any (fun s => s.polls.length = 2) =
      true := by decide +kernel
  obtain ⟨s, ran, two⟩ := (Option.any_eq_true _ _).mp reached
  have ordered : Meets (step (refineRow 3600)) Ordered start events := by decide +kernel
  exact ⟨s, by simpa using two,
    placed_item_makes_refine_due (refineRow 3600) rfl 0 (fun _ => none) events s ran ordered⟩

/-- A refine round starts after an intake round did and succeeds after the item was placed: the
    stamp is older than the success, and the next poll finds refine not due. -/
theorem slow_intake_is_missed : ¬ ∀ (row : JobRow) (_ : row.name = "refine") (clock : Int)
    (schedule : Schedule) (events : List ServiceEvent) (s : Service),
    exec (step row) { clock := clock, schedule := schedule } events = some s →
      ∀ result ∈ s.polls, result.waits = true → result.due = true := by
  intro always
  let events : List ServiceEvent :=
    [.intakeStarts false 10, poll 11, .places 13, .refineSucceeds, .stamps, .intakeEnds, poll 15]
  have reached : (exec (step (refineRow 3600)) { clock := 0, schedule := fun _ => none } events).any
      (fun s => s.polls.any fun result => result.waits && !result.due) = true := by decide +kernel
  obtain ⟨s, ran, missed⟩ := (Option.any_eq_true _ _).mp reached
  obtain ⟨result, mem, found⟩ := List.any_eq_true.mp missed
  have due := always (refineRow 3600) rfl 0 (fun _ => none) events s ran result mem
  cases waits : result.waits <;> simp_all

end DevopsCli.Roadmap.RefineDue
