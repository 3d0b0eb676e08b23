import DevopsCli.Lib.Run

/- One lane of one repository, server/service.py: its triggers coalesce into the next batch, its
   scoped tasks run one by one, and one thread runs both. The condition of the lane is held from
   the first check of a wait to the end of the pop, so a look at the queue is one step; the pause
   answers each of its two checks for itself. -/
namespace DevopsCli.Server
open Run

section Counts
variable {Key : Type} [DecidableEq Key]

def bump (key : Key) : List (Key × Nat) → List (Key × Nat)
  | [] => [(key, 1)]
  | (other, n) :: rest => if key = other then (other, n + 1) :: rest else (other, n) :: bump key rest

def tally (counts : List (Key × Nat)) (key : Key) : Nat := (counts.lookup key).getD 0

theorem tally_cons (key other : Key) (n : Nat) (rest : List (Key × Nat)) :
    tally ((other, n) :: rest) key = if key = other then n else tally rest key := by
  by_cases same : key = other <;> simp [tally, List.lookup_cons, same, beq_eq_false_iff_ne.mpr]

theorem tally_bump (key other : Key) (counts : List (Key × Nat)) :
    tally (bump key counts) other = tally counts other + if other = key then 1 else 0 := by
  induction counts with
  | nil => rw [bump, tally_cons]; simp [tally]
  | cons entry rest ih =>
    obtain ⟨held, n⟩ := entry
    rw [bump]
    by_cases same : key = held
    · subst held
      rw [if_pos rfl, tally_cons, tally_cons]
      by_cases asked : other = key <;> simp [asked]
    · rw [if_neg same, tally_cons, tally_cons, ih]
      by_cases asked : other = held
      · subst held; simp [Ne.symm same]
      · simp [asked]

end Counts

abbrev TriggerKey := String × String × String

structure TriggerBatch where
  counts : List (TriggerKey × Nat)
  firstAt : Int
  lastAt : Int

inductive Work where
  | task (arrival : Nat)
  | batch (triggers : TriggerBatch)

/-- The triggers of one key in a batch; a scoped task has none. -/
def Work.triggers (key : TriggerKey) : Work → Nat
  | .task _ => 0
  | .batch handed => tally handed.counts key

def Work.arrival : Work → Option Nat
  | .task arrival => some arrival
  | .batch _ => none

inductive Thread where
  | waiting
  -- The wait gave nothing.
  | idle
  | taken (work : Work)
  | running (work : Work)
  | ended
  | crashed

structure RepoWorker where
  pendingCounts : List (TriggerKey × Nat) := []
  pendingScoped : List Nat := []
  firstAt : Option Int := none
  lastAt : Option Int := none
  stopped : Bool := false
  thread : Thread := .waiting
  /-- What was asked of the lane: each trigger, and how many scoped tasks. -/
  enqueued : List TriggerKey := []
  arrived : Nat := 0
  /-- What the lane handed over, what began, and what came to its end, in order. -/
  handed : List Work := []
  begun : List Work := []
  done_ : List Work := []

inductive LaneEvent where
  | enqueue (key : TriggerKey) (now : Int)
  | enqueueScoped
  | look (holdsFirst holdsAgain : Bool) (now : Int)
  | turn
  | begins
  -- The thread ends when what follows the job raises.
  | finishes (raises : Bool)
  | stop

namespace LaneEvent

def trigger : LaneEvent → Option TriggerKey
  | .enqueue key _ => some key
  | _ => none

def isScoped : LaneEvent → Bool
  | .enqueueScoped => true
  | _ => false

def isFinish : LaneEvent → Bool
  | .finishes _ => true
  | _ => false

end LaneEvent

namespace RepoWorker
variable (w : RepoWorker)

def enqueue (key : TriggerKey) (now : Int) : RepoWorker :=
  { w with
    firstAt := if w.pendingCounts = [] then some now else w.firstAt
    lastAt := some now
    pendingCounts := bump key w.pendingCounts
    enqueued := w.enqueued ++ [key] }

def enqueueScoped : RepoWorker :=
  { w with pendingScoped := w.pendingScoped ++ [w.arrived], arrived := w.arrived + 1 }

def hasRunnableBatch (holds : Bool) : Bool :=
  (!w.pendingScoped.isEmpty || !w.pendingCounts.isEmpty) && !holds

def take (work : Work) : RepoWorker :=
  { w with thread := .taken work, handed := w.handed ++ [work] }

/-- One look at the queue: the thread waits on, or leaves the wait with a task, a batch or
    nothing. -/
def waitForNextBatch (holdsFirst holdsAgain : Bool) (now : Int) : RepoWorker :=
  if !w.hasRunnableBatch holdsFirst && !w.stopped then w
  else if !w.hasRunnableBatch holdsAgain then { w with thread := .idle }
  else
    match w.pendingScoped with
    | first :: rest => { w.take (.task first) with pendingScoped := rest }
    | [] =>
      { w.take (.batch ⟨w.pendingCounts, w.firstAt.getD now, w.lastAt.getD now⟩) with
        pendingCounts := []
        firstAt := none
        lastAt := none }

def step (w : RepoWorker) : LaneEvent → Option RepoWorker
  | .enqueue key now => some (w.enqueue key now)
  | .enqueueScoped => some w.enqueueScoped
  | .look holdsFirst holdsAgain now =>
    match w.thread with
    | .waiting => some (w.waitForNextBatch holdsFirst holdsAgain now)
    | _ => none
  | .turn =>
    match w.thread with
    | .idle => some { w with thread := if w.stopped then .ended else .waiting }
    | _ => none
  | .begins =>
    match w.thread with
    | .taken work => some { w with thread := .running work, begun := w.begun ++ [work] }
    | _ => none
  | .finishes raises =>
    match w.thread with
    | .running work =>
      some { w with
        thread := if raises then .crashed else .waiting
        done_ := w.done_ ++ [work] }
    | _ => none
  | .stop => some { w with stopped := true }

def inHand : List Work :=
  match w.thread with
  | .taken work => [work]
  | _ => []

def running : List Work :=
  match w.thread with
  | .running work => [work]
  | _ => []

def started (w : RepoWorker) : List LaneEvent → List Work
  | [] => []
  | .begins :: events => w.inHand ++ ((w.step .begins).elim [] fun t => t.started events)
  | event :: events => (w.step event).elim [] fun t => t.started events

/-- Each trigger is pending or was handed over, in one batch; the scoped tasks were handed over
    in the order of arrival, and the rest of them is pending; what was handed over began once,
    in that order, unless the thread still holds it; one job runs at most. -/
structure Kept : Prop where
  counts : ∀ key, (w.handed.map (Work.triggers key)).sum + tally w.pendingCounts key =
    w.enqueued.count key
  order : w.handed.filterMap Work.arrival ++ w.pendingScoped = List.range w.arrived
  begun : w.handed = w.begun ++ w.inHand
  oneJob : w.begun = w.done_ ++ w.running

variable {w}

theorem enqueue_kept (kept : w.Kept) (key : TriggerKey) (now : Int) : (w.enqueue key now).Kept where
  counts other := by
    have before := kept.counts other
    simp only [enqueue, tally_bump, List.count_append, List.count_singleton]
    by_cases same : other = key
    · simp only [same, ↓reduceIte, beq_self_eq_true] at before ⊢
      omega
    · simp only [same, ↓reduceIte, beq_iff_eq, Ne.symm same] at before ⊢
      omega
  order := kept.order
  begun := kept.begun
  oneJob := kept.oneJob

theorem enqueueScoped_kept (kept : w.Kept) : w.enqueueScoped.Kept where
  counts := kept.counts
  order := by
    simp only [enqueueScoped]
    rw [← List.append_assoc, kept.order, List.range_succ]
  begun := kept.begun
  oneJob := kept.oneJob

theorem waitForNextBatch_kept (kept : w.Kept) (waits : w.thread = .waiting)
    (holdsFirst holdsAgain : Bool) (now : Int) :
    (w.waitForNextBatch holdsFirst holdsAgain now).Kept := by
  have begun : w.handed = w.begun := by simpa [inHand, waits] using kept.begun
  have oneJob : w.begun = w.done_ := by simpa [running, waits] using kept.oneJob
  rw [waitForNextBatch]
  split
  · exact kept
  · split
    · exact ⟨kept.counts, kept.order, by simp [inHand, begun], by simp [running, oneJob]⟩
    · cases tasks : w.pendingScoped with
      | cons first rest =>
        refine ⟨fun key => ?_, ?_, by simp [take, inHand, begun], by simp [take, running, oneJob]⟩
        · simpa [take, Work.triggers] using kept.counts key
        · simpa [take, List.filterMap_cons, Work.arrival, tasks] using kept.order
      | nil =>
        refine ⟨fun key => ?_, ?_, by simp [take, inHand, begun], by simp [take, running, oneJob]⟩
        · simpa [take, Work.triggers, tally] using kept.counts key
        · simpa [take, List.filterMap_cons, Work.arrival, tasks] using kept.order

theorem step_kept {event : LaneEvent} {t : RepoWorker} (kept : w.Kept)
    (taken : w.step event = some t) : t.Kept := by
  cases event with
  | enqueue key now => exact Option.some.inj taken ▸ enqueue_kept kept key now
  | enqueueScoped => exact Option.some.inj taken ▸ enqueueScoped_kept kept
  | stop => exact Option.some.inj taken ▸ ⟨kept.counts, kept.order, kept.begun, kept.oneJob⟩
  | look holdsFirst holdsAgain now =>
    cases thread : w.thread <;> simp only [step, thread, reduceCtorEq] at taken
    exact Option.some.inj taken ▸ waitForNextBatch_kept kept thread _ _ _
  | turn =>
    cases thread : w.thread <;> simp only [step, thread, reduceCtorEq] at taken
    obtain rfl := Option.some.inj taken
    have begun := kept.begun
    have oneJob := kept.oneJob
    refine ⟨kept.counts, kept.order, ?_, ?_⟩ <;> cases w.stopped <;>
      simp_all [inHand, running]
  | begins =>
    cases thread : w.thread <;> simp only [step, thread, reduceCtorEq] at taken
    obtain rfl := Option.some.inj taken
    have begun := kept.begun
    have oneJob := kept.oneJob
    refine ⟨kept.counts, kept.order, ?_, ?_⟩ <;> simp_all [inHand, running]
  | finishes raises =>
    cases thread : w.thread <;> simp only [step, thread, reduceCtorEq] at taken
    obtain rfl := Option.some.inj taken
    have begun := kept.begun
    have oneJob := kept.oneJob
    refine ⟨kept.counts, kept.order, ?_, ?_⟩ <;> cases raises <;> simp_all [inHand, running]

theorem waitForNextBatch_records (holdsFirst holdsAgain : Bool) (now : Int) :
    let t := w.waitForNextBatch holdsFirst holdsAgain now
    t.enqueued = w.enqueued ∧ t.arrived = w.arrived ∧ t.done_ = w.done_ ∧ t.begun = w.begun := by
  dsimp only [waitForNextBatch]
  split
  · exact ⟨rfl, rfl, rfl, rfl⟩
  · split
    · exact ⟨rfl, rfl, rfl, rfl⟩
    · cases w.pendingScoped <;> exact ⟨rfl, rfl, rfl, rfl⟩

theorem step_records {event : LaneEvent} {t : RepoWorker} (taken : w.step event = some t) :
    t.enqueued = w.enqueued ++ event.trigger.toList ∧
      t.arrived = w.arrived + [event].countP LaneEvent.isScoped ∧
      t.done_.length = w.done_.length + [event].countP LaneEvent.isFinish ∧
      t.begun ++ t.started events = w.begun ++ w.started (event :: events) := by
  cases event with
  | enqueue key now =>
    obtain rfl := Option.some.inj taken
    simp [enqueue, LaneEvent.trigger, LaneEvent.isScoped, LaneEvent.isFinish, started, step]
  | enqueueScoped =>
    obtain rfl := Option.some.inj taken
    simp [enqueueScoped, LaneEvent.trigger, LaneEvent.isScoped, LaneEvent.isFinish, started, step]
  | stop =>
    obtain rfl := Option.some.inj taken
    simp [LaneEvent.trigger, LaneEvent.isScoped, LaneEvent.isFinish, started, step]
  | look holdsFirst holdsAgain now =>
    cases thread : w.thread <;> simp only [step, thread, reduceCtorEq] at taken
    obtain rfl := Option.some.inj taken
    obtain ⟨asked, tasks, ends, begun⟩ := waitForNextBatch_records (w := w) holdsFirst holdsAgain now
    simp [LaneEvent.trigger, LaneEvent.isScoped, LaneEvent.isFinish, started, step, thread, asked,
      tasks, ends, begun]
  | turn =>
    cases thread : w.thread <;> simp only [step, thread, reduceCtorEq] at taken
    obtain rfl := Option.some.inj taken
    simp [LaneEvent.trigger, LaneEvent.isScoped, LaneEvent.isFinish, started, step, thread]
  | begins =>
    cases thread : w.thread <;> simp only [step, thread, reduceCtorEq] at taken
    obtain rfl := Option.some.inj taken
    simp [LaneEvent.trigger, LaneEvent.isScoped, LaneEvent.isFinish, started, step, thread, inHand]
  | finishes raises =>
    cases thread : w.thread <;> simp only [step, thread, reduceCtorEq] at taken
    obtain rfl := Option.some.inj taken
    simp [LaneEvent.trigger, LaneEvent.isScoped, LaneEvent.isFinish, started, step, thread]

theorem running_le_one (w : RepoWorker) : w.running.length ≤ 1 := by
  cases thread : w.thread <;> simp [running, thread]

theorem run_records {events : List LaneEvent} {t : RepoWorker} (run : exec step w events = some t) :
    t.enqueued = w.enqueued ++ events.filterMap LaneEvent.trigger ∧
      t.arrived = w.arrived + events.countP LaneEvent.isScoped ∧
      t.done_.length = w.done_.length + events.countP LaneEvent.isFinish ∧
      t.begun = w.begun ++ w.started events := by
  induction events generalizing w with
  | nil =>
    obtain rfl := Option.some.inj run
    exact ⟨(List.append_nil _).symm, rfl, rfl, (List.append_nil _).symm⟩
  | cons event events ih =>
    obtain ⟨u, first, rest⟩ := exec_cons.mp run
    obtain ⟨asked, tasks, ends, begun⟩ := step_records first
    obtain ⟨asked', tasks', ends', begun'⟩ := ih rest
    have whole : event :: events = [event] ++ events := rfl
    refine ⟨?_, ?_, ?_, begun'.trans begun⟩
    · rw [asked', asked, List.append_assoc, List.filterMap_cons]
      cases event.trigger <;> rfl
    · rw [tasks', tasks, whole, List.countP_append, Nat.add_assoc]
    · rw [ends', ends, whole, List.countP_append, Nat.add_assoc]

/-- At every point of every run of a lane, no trigger is lost and none is run twice. -/
theorem triggers_run_once (events : List LaneEvent) (w : RepoWorker)
    (run : exec step {} events = some w) :
    (∃ jobs, w.begun = w.done_ ++ jobs ∧ jobs.length ≤ 1) ∧
      w.begun = started {} events ∧ w.done_.length = events.countP LaneEvent.isFinish ∧
      w.handed = w.begun ++ w.inHand ∧
      w.handed.filterMap Work.arrival ++ w.pendingScoped =
        List.range (events.countP LaneEvent.isScoped) ∧
      ∀ key, (w.handed.map (Work.triggers key)).sum + tally w.pendingCounts key =
        (events.filterMap LaneEvent.trigger).count key := by
  have kept : w.Kept := exec_invariant_always (fun _ _ _ kept taken => step_kept kept taken)
    ⟨fun _ => rfl, rfl, rfl, rfl⟩ run
  obtain ⟨asked, tasks, ends, begun⟩ := run_records run
  have arrived : w.arrived = events.countP LaneEvent.isScoped := by simpa using tasks
  have counted : w.done_.length = events.countP LaneEvent.isFinish := by simpa using ends
  refine ⟨⟨w.running, kept.oneJob, running_le_one w⟩, begun, counted, kept.begun, ?_, fun key => ?_⟩
  · rw [kept.order, arrived]
  · rw [kept.counts, asked, List.nil_append]

/-- A task and a trigger come while a batch runs, and a stop ends the lane after both. -/
theorem triggers_run_once_stopped : ∃ w : RepoWorker, w.thread = .ended ∧
    (w.handed.map (Work.triggers ("webhook", "push", ""))).sum +
      tally w.pendingCounts ("webhook", "push", "") = 3 := by
  let push : TriggerKey := ("webhook", "push", "")
  let events : List LaneEvent :=
    [.enqueue push 1, .enqueue push 2, .look false false 3, .begins, .enqueueScoped, .enqueue push 4,
      .finishes false, .look false false 5, .begins, .finishes false, .look false true 6, .turn,
      .stop, .look true true 7, .turn]
  have reached : (exec step {} events).any (fun w => w.thread matches .ended) = true := by decide
  obtain ⟨w, ran, ended⟩ := (Option.any_eq_true _ _).mp reached
  refine ⟨w, ?_, (triggers_run_once events w ran).2.2.2.2.2 push⟩
  cases thread : w.thread <;> simp_all

end RepoWorker
end DevopsCli.Server
