import Mathlib

/- RequestBudget of server/service.py. Times and time differences are whole microseconds, as
   datetime and timedelta hold them. A function that holds the lock takes each clock reading
   it makes, and whether the write of the record succeeded. The gauges and logs are left out. -/
namespace DevopsCli.Server

/-- The deque: the time of each request in the window and the requests it counts. -/
abbrev RequestsSent := List (Int × Nat)

inductive Record where
  | missing
  | kept (sent : RequestsSent)
  | unreadable (reason : String)
  deriving DecidableEq, Repr

def readStateRecord : Record → Except String RequestsSent
  | .missing => .ok []
  | .kept sent => .ok sent
  | .unreadable reason => .error reason

/-- A record that cannot be written is one log line, and the file stays as it was. -/
def keepStateRecord (written : Bool) (payload : RequestsSent) (record : Record) : Record :=
  if written then .kept payload else record

structure RequestBudget where
  limit : Nat
  window : Int
  keepsRecord : Bool
  admitted : Nat
  rounds : Nat
  sent : RequestsSent
  holding : Bool
  closed : Bool
  deriving DecidableEq, Repr

def budgetWaitSlice : Int := 1000000

namespace RequestBudget

def spentLocked (b : RequestBudget) (now : Int) : RequestBudget × Nat :=
  let cutoff := now - b.window
  let sent := b.sent.dropWhile fun e => decide (e.1 ≤ cutoff)
  ({ b with sent := sent }, (sent.map Prod.snd).sum)

def init (limit : Nat) (window : Int) (keepsRecord : Bool) (record : Record) (now : Int) :
    Except String RequestBudget := do
  let kept ← if keepsRecord then readStateRecord record else pure []
  let b : RequestBudget := ⟨limit, window, keepsRecord, 0, 0, kept, false, false⟩
  return (b.spentLocked now).1

/-- How one turn of the loop of admit ends: with the place given, with a wait before the next
    turn, or with the error of a closed budget. The source indexes the oldest request when the
    window is full, which fails on an empty one. -/
inductive Turn where
  | admitted
  | waits (atMost : Int)
  | stopping (spent limit : Nat)
  | indexError
  deriving DecidableEq, Repr

def persist (b : RequestBudget) (written : Bool) (record : Record) : Record :=
  if b.keepsRecord then keepStateRecord written b.sent record else record

def admitTurn (b : RequestBudget) (record : Record) (checked at_ : Int) (written : Bool) :
    Turn × RequestBudget × Record :=
  let (b, spent) := b.spentLocked checked
  if spent < b.limit then
    let b := { b with sent := b.sent ++ [(at_, 1)], admitted := b.admitted + 1 }
    (.admitted, b, b.persist written record)
  else
    match b.sent with
    | [] => (.indexError, b, record)
    | (oldest, _) :: _ =>
      let wait := oldest + b.window - at_
      if b.closed then (.stopping spent b.limit, b, record)
      else (.waits (min (max wait 0) budgetWaitSlice), b, record)

def refund (b : RequestBudget) (record : Record) (now : Int) (written : Bool) :
    RequestBudget × Record :=
  let (b, _) := b.spentLocked now
  match b.sent.getLast? with
  | none => (b, record)
  | some (at_, count) =>
    let rest := b.sent.dropLast
    let sent := if count > 1 then rest ++ [(at_, count - 1)] else rest
    let b := { b with sent := sent, admitted := b.admitted - 1 }
    (b, b.persist written record)

def close (b : RequestBudget) : RequestBudget := { b with closed := true }

def countRound (b : RequestBudget) : RequestBudget := { b with rounds := b.rounds + 1 }

def spent (b : RequestBudget) (now : Int) : RequestBudget × Nat := b.spentLocked now

def holds (b : RequestBudget) (now : Int) : RequestBudget × Bool × Bool :=
  let (b, spent) := b.spentLocked now
  let holding := decide (b.limit ≤ spent)
  let began := holding && !b.holding
  ({ b with holding := holding }, holding, began)

def pollInterval (b : RequestBudget) (configured : ℚ) (roundsPerPoll : Nat) : ℚ :=
  if b.rounds = 0 then configured
  else
    let cost : ℚ := b.admitted / b.rounds
    let needed : ℚ := b.window / 1000000 * roundsPerPoll * cost / b.limit
    max configured ⌈needed⌉

section Spec
variable (b : RequestBudget) (record : Record) (now checked at_ : Int) (written : Bool)

theorem spentLocked_sent :
    (b.spentLocked now).1.sent = b.sent.dropWhile fun e => decide (e.1 ≤ now - b.window) := rfl

theorem spentLocked_spent :
    (b.spentLocked now).2 = ((b.spentLocked now).1.sent.map Prod.snd).sum := rfl

theorem admitTurn_room (room : (b.spentLocked checked).2 < b.limit) :
    b.admitTurn record checked at_ written =
      (.admitted,
        { (b.spentLocked checked).1 with
          sent := (b.spentLocked checked).1.sent ++ [(at_, 1)], admitted := b.admitted + 1 },
        if b.keepsRecord then
          keepStateRecord written ((b.spentLocked checked).1.sent ++ [(at_, 1)]) record
        else record) := by
  simp only [admitTurn]
  exact if_pos room

theorem admitTurn_full (full : b.limit ≤ (b.spentLocked checked).2) :
    (b.admitTurn record checked at_ written).1 ≠ .admitted ∧
      (b.admitTurn record checked at_ written).2 = ((b.spentLocked checked).1, record) := by
  simp only [admitTurn]
  split
  · rename_i room
    exact absurd room (not_lt.mpr full)
  · split
    · simp
    · split <;> simp

theorem refund_empty (empty : (b.spentLocked now).1.sent = []) :
    b.refund record now written = ((b.spentLocked now).1, record) := by
  simp [refund, empty]

theorem refund_newest {rest : RequestsSent} {newest : Int}
    (window : (b.spentLocked now).1.sent = rest ++ [(newest, 1)]) :
    b.refund record now written =
      ({ (b.spentLocked now).1 with sent := rest, admitted := b.admitted - 1 },
        if b.keepsRecord then keepStateRecord written rest record else record) := by
  simp only [refund, window]
  simp only [List.getLast?_append, List.getLast?_singleton, Option.some_or,
    List.dropLast_concat]
  rfl

end Spec
end RequestBudget
end DevopsCli.Server
