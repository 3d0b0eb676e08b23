import DevopsCli.Lib.Run
import DevopsCli.Roadmap.FieldWrites

/- The claim of one Item, roadmap/claim.py, made and released by agents, people and Service
   jobs, each with a store of its own. A read of the Item is one step, and so is a set_field.
   The owner of the Item is logged before and after each step. -/
namespace DevopsCli.Roadmap.Claim
open Json Run

abbrev Marks := List (Text × Option Text)

def service : Text := ['S', 'e', 'r', 'v', 'i', 'c', 'e']

inductive Claimant where
  | agent
  | human
  deriving DecidableEq, Repr

def Claimant.owner : Claimant → Text
  | .agent => ['A', 'g', 'e', 'n', 't']
  | .human => ['H', 'u', 'm', 'a', 'n']

structure ClaimPlan where
  current : Option Text
  target : Option Text

inductive ClaimError where
  | notItem
  | closed
  | held (owner : Text)

def claimedBy (item : Item) : Option Text :=
  match item .owner with
  | none => none
  | some owner => if owner = service then none else some (lower owner)

def readItem : Option Item → Except ClaimError Item
  | none => .error .notItem
  | some item => .ok item

/-- Whether the target may own an Item: a release, a free Item, the owner that holds it, or a
    person taking the Item from the Service. -/
def allowed (item : Item) (target : Option Text) : Bool :=
  let current := item .owner
  target = none || current = none || current = target ||
    (current = some service && target = some Claimant.human.owner)

def requireAllowed (item : Item) (target : Option Text) : Except ClaimError Unit :=
  if allowed item target then .ok () else .error (.held (lower ((item .owner).getD [])))

def planClaim (found : Option Item) (closed : Bool) (claimant : Option Claimant) :
    Except ClaimError ClaimPlan := do
  let item ← readItem found
  let target := claimant.map Claimant.owner
  if target.isSome && closed then .error .closed
  requireAllowed item target
  return ⟨item .owner, target⟩

/-- What a call does after its read of the Item. -/
inductive Pending where
  -- apply_claim writes the target.
  | apply (item : Item) (target : Option Text)
  -- service_claim writes its own owner.
  | claim (item : Item) (marks : Marks)
  -- service_release clears its own owner, or writes the owner that it read.
  | release (item : Item) (marks : Marks)
  -- service_release reads the Item again after a write that was refused.
  | again (marks : Marks)
  | setMarks (marks : Marks)

def applyClaim (found : Option Item) (plan : ClaimPlan) : Except ClaimError (Option Pending) := do
  let item ← readItem found
  requireAllowed item plan.target
  return if item .owner = plan.target then none else some (.apply item plan.target)

def serviceClaim (found : Option Item) (marks : Marks) : Except ClaimError (Option Pending) := do
  let item ← readItem found
  return if (claimedBy item).isSome then none else some (.claim item marks)

def serviceRelease (found : Option Item) (marks : Marks) : Except ClaimError (Option Pending) := do
  let item ← readItem found
  return some (if (item .owner).isSome then .release item marks else .setMarks marks)

def releaseAgain (found : Option Item) (marks : Marks) : Except ClaimError (Option Pending) := do
  let _ ← readItem found
  return some (.setMarks marks)

/-- The owner that service_release writes beside its marks. -/
def kept (item : Item) : Option Text := if item .owner = some service then none else item .owner

def Pending.write : Pending → Option (Item × Option Text × Marks)
  | .apply item target => some (item, target, [])
  | .claim item marks => some (item, some service, marks)
  | .release item marks => some (item, kept item, marks)
  | .again _ | .setMarks _ => none

def Pending.refused : Pending → Option Marks
  | .again marks => some marks
  | _ => none

def Pending.marks : Pending → Option Marks
  | .setMarks marks => some marks
  | _ => none

/-- What is left to do after a set_field: a refused release reads the Item again. -/
def Pending.next : Pending → Except StoreError Unit → Option Pending
  | .release _ marks, .error (.itemChanged ..) => some (.again marks)
  | _, _ => none

inductive Operation where
  | claim (owner : Text)
  | release
  | serviceClaim
  | serviceRelease
  deriving DecidableEq

def Pending.operation : Pending → Operation
  | .apply _ (some owner) => .claim owner
  | .apply _ none => .release
  | .claim _ _ => .serviceClaim
  | .release _ _ | .again _ | .setMarks _ => .serviceRelease

def Pending.read : Pending → Option Text
  | .apply item _ | .claim item _ | .release item _ => item .owner
  | .again _ | .setMarks _ => none

structure Move where
  by_ : Option Operation
  read : Option Text
  before : Option Text
  after : Option Text

namespace Move
variable (move : Move)

def Change : Option Operation → Prop
  | some (.claim owner) => move.after = some owner ∧
      (move.before = none ∨ move.before = some service ∧ owner = Claimant.human.owner)
  | some .release => move.after = none ∧ move.before = move.read
  | some .serviceClaim => move.before = none ∧ move.after = some service
  | some .serviceRelease => move.before = some service ∧ move.after = none
  | none => False

def Lawful : Prop := move.after = move.before ∨ move.Change move.by_

/-- The claim of an agent or a person stays, or a release by hand that read it clears it. -/
def KeepsClaim : Prop :=
  ∀ claimant : Claimant, move.before = some claimant.owner →
    move.after = some claimant.owner ∨
      move.after = none ∧ move.by_ = some .release ∧ move.read = some claimant.owner

theorem Lawful.keepsClaim {move : Move} (lawful : move.Lawful) : move.KeepsClaim := by
  intro claimant held
  have apart : claimant.owner ≠ service := by cases claimant <;> decide
  rcases lawful with same | change
  · exact .inl (same.trans held)
  · rw [Change.eq_def, held] at change
    cases by_ : move.by_ with
    | none => simp [by_] at change
    | some operation =>
      cases operation with
      | release =>
        simp only [by_] at change
        exact .inr ⟨change.1, rfl, change.2.symm⟩
      | _ => simp [by_, apart] at change

end Move

inductive Party where
  | hand (claimant : Claimant)
  | service

structure Client where
  store : Store := {}
  plan : Option ClaimPlan := none
  pending : Option Pending := none

structure System (Id : Type) where
  issue : Issue
  closed : Bool := false
  clients : Id → Client := fun _ => {}
  moves : List Move := []

inductive Event (Id : Type) where
  | plan (who : Id) (claimant : Option Claimant)
  | apply (who : Id)
  | claim (who : Id) (marks : Marks)
  | release (who : Id) (marks : Marks)
  | again (who : Id)
  | setField (who : Id) (answer : Answer)
  | setMarks (who : Id) (answer : Answer)

def Event.who {Id : Type} : Event Id → Id
  | .plan who _ | .apply who | .claim who _ | .release who _ | .again who | .setField who _
  | .setMarks who _ => who

namespace System
variable {F Id : Type} [DecidableEq Id] (md : CommonMark) (floats : Floats F) (party : Id → Party)
  (s : System Id)

def owner : Option Text := s.issue.fieldNow md floats .owner

def item : Option Item := selectItem (s.issue.record md floats)

def put (who : Id) (client : Client) : System Id :=
  { s with clients := Function.update s.clients who client }

def goOn (who : Id) (next : Except ClaimError (Option Pending)) : System Id :=
  s.put who { s.clients who with pending := next.toOption.join }

def written (store : Store) (item : Item) (value : Option Text) (marks : Marks) (answer : Answer) :
    Except StoreError Unit × Desk :=
  Desk.setField md floats { issue := s.issue, store } ⟨item, 0⟩ .owner value marks answer

def perform : Event Id → Option (System Id)
  | .plan who claimant =>
    match party who with
    | .hand name =>
      if claimant = none ∨ claimant = some name then
        let plan := (planClaim (s.item md floats) s.closed claimant).toOption
        some (s.put who { s.clients who with plan, pending := none })
      else none
    | .service => none
  | .apply who =>
    (s.clients who).plan.map fun plan => s.goOn who (applyClaim (s.item md floats) plan)
  | .claim who marks =>
    match party who with
    | .service => some (s.goOn who (serviceClaim (s.item md floats) marks))
    | .hand _ => none
  | .release who marks =>
    match party who with
    | .service => some (s.goOn who (serviceRelease (s.item md floats) marks))
    | .hand _ => none
  | .again who =>
    ((s.clients who).pending.bind Pending.refused).map fun marks =>
      s.goOn who (releaseAgain (s.item md floats) marks)
  | .setField who answer => do
    let client := s.clients who
    let pending ← client.pending
    let (item, value, marks) ← pending.write
    let (result, desk) := s.written md floats client.store item value marks answer
    some { s.put who { client with store := desk.store, pending := pending.next result } with
      issue := desk.issue }
  | .setMarks who answer =>
    ((s.clients who).pending.bind Pending.marks).map fun marks =>
      let edited := s.issue.edited md floats marks none
      let store := (s.clients who).store
      { s.put who { s.clients who with
          store := if answer = .done then store.keep md floats edited else store
          pending := none } with
        issue := if answer.made then edited else s.issue }

def writes : Event Id → Bool
  | .setField .. | .setMarks .. => true
  | _ => false

def move (event : Event Id) (t : System Id) : Move where
  by_ := if writes event then (s.clients event.who).pending.map Pending.operation else none
  read := (s.clients event.who).pending.bind Pending.read
  before := s.owner md floats
  after := t.owner md floats

def step (s : System Id) (event : Event Id) : Option (System Id) :=
  (s.perform md floats party event).map fun t => { t with moves := s.move md floats event t :: s.moves }

end System
end DevopsCli.Roadmap.Claim
