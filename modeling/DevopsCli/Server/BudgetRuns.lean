import DevopsCli.Lib.Run
import DevopsCli.Lib.Window
import DevopsCli.Server.RequestBudget

/- Runs of one request budget: the requests it admits in every thread, the answers 304 that
   give a place back at any later time, and restarts that read the record. The requests of
   the run are kept beside the budget, which holds their times only. -/
namespace DevopsCli.Server
open DevopsCli.Run DevopsCli.Window

structure Request where
  admittedAt : Int
  refunded : Bool
  deriving DecidableEq, Repr

structure Service where
  budget : RequestBudget
  record : Record
  /-- The last reading of the clock. -/
  clock : Int
  requests : List Request
  deriving DecidableEq, Repr

inductive Call where
  | admitTurn (checked at_ : Int) (written : Bool)
  | refund (request : Nat) (now : Int) (written : Bool)
  | spent (now : Int)
  | holds (now : Int)
  | countRound
  | close
  | restart (now : Int)
  deriving DecidableEq, Repr

namespace Service

def admitTurn (s : Service) (checked at_ : Int) (written : Bool) : Service :=
  let (turn, budget, record) := s.budget.admitTurn s.record checked at_ written
  { budget := budget, record := record, clock := at_
    requests := if turn = .admitted then s.requests ++ [⟨at_, false⟩] else s.requests }

def refund (s : Service) (i : Nat) (r : Request) (now : Int) (written : Bool) : Service :=
  let (budget, record) := s.budget.refund s.record now written
  { budget := budget, record := record, clock := now
    requests := s.requests.set i { r with refunded := true } }

def step (s : Service) : Call → Option Service
  | .admitTurn checked at_ written =>
    if s.clock ≤ checked ∧ checked ≤ at_ then some (s.admitTurn checked at_ written) else none
  | .refund i now written =>
    match s.requests[i]? with
    | some r => if r.refunded = false ∧ s.clock ≤ now then some (s.refund i r now written) else none
    | none => none
  | .spent now =>
    if s.clock ≤ now then some { s with budget := (s.budget.spent now).1, clock := now } else none
  | .holds now =>
    if s.clock ≤ now then some { s with budget := (s.budget.holds now).1, clock := now } else none
  | .countRound => some { s with budget := s.budget.countRound }
  | .close => some { s with budget := s.budget.close }
  | .restart now =>
    if s.clock ≤ now then
      match RequestBudget.init s.budget.limit s.budget.window s.budget.keepsRecord s.record now with
      | .ok budget => some { s with budget := budget, clock := now }
      | .error _ => none
    else none

def start (limit : Nat) (window now : Int) : Service :=
  ⟨⟨limit, window, true, 0, 0, [], false, false⟩, .missing, now, []⟩

end Service

def counted (requests : List Request) : List Int :=
  (requests.filter fun r => !r.refunded).map Request.admittedAt

/-- No half-open interval as long as the window holds more counted requests than the limit. -/
def HardBudget (limit : Nat) (window : Int) (requests : List Request) : Prop :=
  ∀ a, (counted requests).countP (fun t => decide (a ≤ t ∧ t < a + window)) ≤ limit ∧
    (counted requests).countP (fun t => decide (a < t ∧ t ≤ a + window)) ≤ limit

/-- A refund takes the entry of the request it is for: the newest entry in the window is as
    old as that request, or the window is empty. A restart finds in the record what the
    budget holds in memory. -/
def TakesOwnEntry (s : Service) : Call → Prop
  | .refund i now _ =>
    ∀ newest ∈ (s.budget.spentLocked now).1.sent.getLast?,
      s.requests[i]?.map Request.admittedAt = some newest.1
  | .restart now =>
    ∀ kept ∈ (readStateRecord s.record).toOption,
      kept.dropWhile (fun e => decide (e.1 ≤ now - s.budget.window)) =
        (s.budget.spentLocked now).1.sent
  | _ => True

instance (s : Service) : (c : Call) → Decidable (TakesOwnEntry s c)
  | .refund i now _ =>
    inferInstanceAs (Decidable (∀ newest ∈ (s.budget.spentLocked now).1.sent.getLast?,
      s.requests[i]?.map Request.admittedAt = some newest.1))
  | .restart now =>
    inferInstanceAs (Decidable (∀ kept ∈ (readStateRecord s.record).toOption,
      kept.dropWhile (fun e => decide (e.1 ≤ now - s.budget.window)) =
        (s.budget.spentLocked now).1.sent))
  | .admitTurn _ _ _ | .spent _ | .holds _ | .countRound | .close => .isTrue trivial

theorem counted_snoc (requests : List Request) (at_ : Int) :
    counted (requests ++ [⟨at_, false⟩]) = counted requests ++ [at_] := by
  simp [counted]

theorem counted_set {requests : List Request} {i : Nat} {r : Request}
    (asked : requests[i]? = some r) (waits : r.refunded = false) :
    (counted requests).Perm
      (r.admittedAt :: counted (requests.set i { r with refunded := true })) := by
  induction requests generalizing i with
  | nil => simp at asked
  | cons first rest ih =>
    cases i with
    | zero =>
      simp only [List.getElem?_cons_zero, Option.some.injEq] at asked
      simp [counted, asked, waits]
    | succ i =>
      have inner := ih (by simpa using asked)
      simp only [counted, List.set_cons_succ, List.filter_cons] at inner ⊢
      split
      · exact (List.Perm.cons _ inner).trans (List.Perm.swap _ _ _)
      · exact inner

/-- The window holds the time of each counted request that a present or later cutoff leaves. -/
structure Tracks (window clock : Int) (sent : RequestsSent) (requests : List Request) :
    Prop where
  single : ∀ e ∈ sent, e.2 = 1
  faithful : ∀ cutoff, clock - window ≤ cutoff →
    ((sent.map Prod.fst).filter fun t => decide (cutoff < t)).Perm
      ((counted requests).filter fun t => decide (cutoff < t))

section Tracks
variable {window clock now : Int} {sent : RequestsSent} {requests : List Request}

theorem single_sum (single : ∀ e ∈ sent, e.2 = 1) : (sent.map Prod.snd).sum = sent.length := by
  induction sent with
  | nil => rfl
  | cons e sent ih =>
    have first := single e (by simp)
    have rest := ih fun e member => single e (by simp [member])
    simp only [List.map_cons, List.sum_cons, List.length_cons, first, rest]
    omega

theorem filter_times (sent : RequestsSent) (cutoff : Int) :
    (sent.map Prod.fst).filter (fun t => decide (cutoff < t)) =
      (sent.filter fun e => decide (cutoff < e.1)).map Prod.fst := by
  rw [List.filter_map]
  rfl

theorem tracks_drop (tracks : Tracks window clock sent requests) (later : clock ≤ now) :
    Tracks window now (sent.dropWhile fun e => decide (e.1 ≤ now - window)) requests := by
  constructor
  · intro e member
    exact tracks.single e ((List.dropWhile_sublist _).subset member)
  · intro cutoff past
    have before := tracks.faithful cutoff (by omega)
    rw [filter_times] at before ⊢
    rwa [filter_dropWhile Prod.fst past]

theorem tracks_later (tracks : Tracks window clock sent requests) (later : clock ≤ now) :
    Tracks window now sent requests :=
  ⟨tracks.single, fun cutoff past => tracks.faithful cutoff (by omega)⟩

theorem tracks_admitted (tracks : Tracks window clock sent requests) (at_ : Int) :
    Tracks window clock (sent ++ [(at_, 1)]) (requests ++ [⟨at_, false⟩]) := by
  constructor
  · intro e member
    rcases List.mem_append.mp member with old | new
    · exact tracks.single e old
    · rw [List.mem_singleton.mp new]
  · intro cutoff past
    simp only [counted_snoc, List.map_append, List.filter_append]
    exact (tracks.faithful cutoff past).append (List.Perm.refl _)

/-- A refund of the newest entry is a refund of the request that is as old. -/
theorem tracks_refund {i : Nat} {r : Request} (asked : requests[i]? = some r)
    (waits : r.refunded = false)
    (tracks : Tracks window clock (sent ++ [(r.admittedAt, 1)]) requests) :
    Tracks window clock sent (requests.set i { r with refunded := true }) := by
  constructor
  · intro e member
    exact tracks.single e (List.mem_append_left _ member)
  · intro cutoff past
    have counts := (counted_set asked waits).filter fun t => decide (cutoff < t)
    have before := (tracks.faithful cutoff past).trans counts
    rw [List.map_append, List.filter_append] at before
    have cancel := (List.perm_append_comm.trans before)
    simp only [List.map_cons, List.map_nil, List.filter_cons, List.filter_nil] at cancel
    split at cancel
    · exact List.Perm.cons_inv cancel
    · exact cancel

theorem tracks_refund_empty {i : Nat} {r : Request} (asked : requests[i]? = some r)
    (waits : r.refunded = false) (tracks : Tracks window clock [] requests) :
    Tracks window clock [] (requests.set i { r with refunded := true }) := by
  refine ⟨tracks.single, fun cutoff past => ?_⟩
  have counts := (counted_set asked waits).filter fun t => decide (cutoff < t)
  have before := (tracks.faithful cutoff past).trans counts
  simp only [List.map_nil, List.filter_nil, List.filter_cons] at before ⊢
  split at before
  · exact absurd before.length_eq (by simp)
  · exact before

theorem room_counted (tracks : Tracks window clock sent requests) :
    ((counted requests).filter fun t => decide (clock - window < t)).length ≤ sent.length := by
  rw [← (tracks.faithful (clock - window) (le_refl _)).length_eq]
  exact (List.length_filter_le _ _).trans (by simp)

end Tracks

structure Kept (limit : Nat) (window : Int) (s : Service) : Prop where
  sameLimit : s.budget.limit = limit
  sameWindow : s.budget.window = window
  recorded : s.budget.keepsRecord = true
  tracks : Tracks window s.clock s.budget.sent s.requests
  bounded : Bounded window limit (counted s.requests)

theorem start_kept (limit : Nat) (window now : Int) :
    Kept limit window (Service.start limit window now) where
  sameLimit := rfl
  sameWindow := rfl
  recorded := rfl
  tracks := ⟨by simp [Service.start], by simp [Service.start, counted]⟩
  bounded := bounded_nil window limit

theorem spent_kept {limit : Nat} {window : Int} {s : Service} (kept : Kept limit window s)
    {now : Int} (later : s.clock ≤ now) :
    Tracks window now (s.budget.spentLocked now).1.sent s.requests := by
  rw [RequestBudget.spentLocked_sent, kept.sameWindow]
  exact tracks_drop kept.tracks later

theorem admitTurn_kept {limit : Nat} {window : Int} {s : Service} (kept : Kept limit window s)
    {checked at_ : Int} {written : Bool} (later : s.clock ≤ checked) (after : checked ≤ at_) :
    Kept limit window (s.admitTurn checked at_ written) := by
  have live := spent_kept kept later
  rcases Nat.lt_or_ge (s.budget.spentLocked checked).2 s.budget.limit with room | full
  · simp only [Service.admitTurn, RequestBudget.admitTurn_room _ _ _ _ _ room, ↓reduceIte]
    refine ⟨kept.sameLimit, kept.sameWindow, kept.recorded, tracks_later (tracks_admitted live at_) after, ?_⟩
    have few := room_counted live
    rw [RequestBudget.spentLocked_spent, single_sum live.single, kept.sameLimit] at room
    rw [counted_snoc]
    exact bounded_snoc kept.bounded (by omega) (few.trans_lt room)
  · obtain ⟨refused, same⟩ := RequestBudget.admitTurn_full s.budget s.record checked at_ written full
    simp only [Service.admitTurn, same, if_neg refused]
    exact ⟨kept.sameLimit, kept.sameWindow, kept.recorded, tracks_later live after, kept.bounded⟩

theorem refund_kept {limit : Nat} {window : Int} {s : Service} (kept : Kept limit window s)
    {i : Nat} {r : Request} {now : Int} {written : Bool} (asked : s.requests[i]? = some r)
    (waits : r.refunded = false) (later : s.clock ≤ now)
    (own : TakesOwnEntry s (.refund i now written)) :
    Kept limit window (s.refund i r now written) := by
  have live := spent_kept kept later
  have bounded := bounded_of_cons (bounded_of_perm (counted_set asked waits) kept.bounded)
  rcases List.eq_nil_or_concat (s.budget.spentLocked now).1.sent with empty | ⟨rest, newest, last⟩
  · simp only [Service.refund, RequestBudget.refund_empty _ _ _ _ empty]
    rw [empty] at live
    refine ⟨kept.sameLimit, kept.sameWindow, kept.recorded, ?_, bounded⟩
    rw [empty]
    exact tracks_refund_empty asked waits live
  · have one : newest.2 = 1 := live.single newest (by simp [last])
    have same : r.admittedAt = newest.1 := by
      have := own newest (by simp [last])
      simpa [asked] using this
    have window' : (s.budget.spentLocked now).1.sent = rest ++ [(r.admittedAt, 1)] := by
      rw [last, List.concat_eq_append, same, ← one]
    simp only [Service.refund, RequestBudget.refund_newest _ _ _ _ window']
    rw [window'] at live
    exact ⟨kept.sameLimit, kept.sameWindow, kept.recorded, tracks_refund asked waits live, bounded⟩

theorem restart_kept {limit : Nat} {window : Int} {s : Service} (kept : Kept limit window s)
    {now : Int} {budget : RequestBudget} (later : s.clock ≤ now)
    (own : TakesOwnEntry s (.restart now))
    (read : RequestBudget.init s.budget.limit s.budget.window s.budget.keepsRecord s.record now =
      .ok budget) :
    Kept limit window { s with budget := budget, clock := now } := by
  cases found : readStateRecord s.record with
  | error reason => simp [RequestBudget.init, kept.recorded, found, bind, Except.bind] at read
  | ok entries =>
    have same := own entries (by simp [found, Except.toOption])
    simp only [RequestBudget.init, kept.recorded, found, bind, Except.bind, pure, Except.pure,
      ↓reduceIte, Except.ok.injEq] at read
    subst read
    refine ⟨kept.sameLimit, kept.sameWindow, rfl, ?_, kept.bounded⟩
    have live := spent_kept kept later
    rw [← same] at live
    exact live

theorem step_kept {limit : Nat} {window : Int} {s t : Service} {c : Call}
    (kept : Kept limit window s) (own : TakesOwnEntry s c) (taken : s.step c = some t) :
    Kept limit window t := by
  cases c with
  | admitTurn checked at_ written =>
    simp only [Service.step, Option.ite_none_right_eq_some, Option.some.injEq] at taken
    obtain ⟨⟨later, after⟩, rfl⟩ := taken
    exact admitTurn_kept kept later after
  | refund i now written =>
    simp only [Service.step] at taken
    split at taken
    · rename_i r asked
      simp only [Option.ite_none_right_eq_some, Option.some.injEq] at taken
      obtain ⟨⟨waits, later⟩, rfl⟩ := taken
      exact refund_kept kept asked waits later own
    · simp at taken
  | spent now =>
    simp only [Service.step, Option.ite_none_right_eq_some, Option.some.injEq] at taken
    obtain ⟨later, rfl⟩ := taken
    exact ⟨kept.sameLimit, kept.sameWindow, kept.recorded, spent_kept kept later, kept.bounded⟩
  | holds now =>
    simp only [Service.step, Option.ite_none_right_eq_some, Option.some.injEq] at taken
    obtain ⟨later, rfl⟩ := taken
    exact ⟨kept.sameLimit, kept.sameWindow, kept.recorded, spent_kept kept later, kept.bounded⟩
  | countRound =>
    simp only [Service.step, Option.some.injEq] at taken
    subst taken
    exact ⟨kept.sameLimit, kept.sameWindow, kept.recorded, kept.tracks, kept.bounded⟩
  | close =>
    simp only [Service.step, Option.some.injEq] at taken
    subst taken
    exact ⟨kept.sameLimit, kept.sameWindow, kept.recorded, kept.tracks, kept.bounded⟩
  | restart now =>
    simp only [Service.step, Option.ite_none_right_eq_some] at taken
    obtain ⟨later, taken⟩ := taken
    split at taken
    · rename_i budget read
      simp only [Option.some.injEq] at taken
      subst taken
      exact restart_kept kept later own read
    · simp at taken

theorem bounded_hard {limit : Nat} {window : Int} {requests : List Request}
    (bounded : Bounded window limit (counted requests)) : HardBudget limit window requests :=
  fun a => ⟨bounded _ (narrow_from a window), bounded _ (narrow_after a window)⟩

/-- The budget is hard in every run whose refunds each take the entry of their own request
    and whose restarts each find the record up to date. -/
theorem hourly_budget_hard (limit : Nat) (window now : Int) (calls : List Call) (s : Service)
    (own : Meets Service.step TakesOwnEntry (Service.start limit window now) calls)
    (run : exec Service.step (Service.start limit window now) calls = some s) :
    HardBudget limit window s.requests :=
  bounded_hard (exec_invariant (Kept limit window)
    (fun _ _ _ kept own taken => step_kept kept own taken)
    (start_kept limit window now) own run).bounded

/-- Two requests, the answer 304 of the second, and a third request after a restart. -/
theorem hourly_budget_hard_reached :
    HardBudget 2 10 [⟨0, false⟩, ⟨4, true⟩, ⟨6, false⟩] :=
  hourly_budget_hard 2 10 0
    [.admitTurn 0 0 true, .admitTurn 4 4 true, .refund 1 5 true, .restart 5, .admitTurn 6 6 true] _
    (by decide) rfl

/-- The first request leaves the window before its answer 304 comes. The refund takes the
    entry of the second, so a third is admitted while the window holds the second. -/
theorem hourly_budget_overrun :
    ¬ ∀ (limit : Nat) (window now : Int) (calls : List Call) (s : Service), 1 ≤ limit →
      exec Service.step (Service.start limit window now) calls = some s →
      HardBudget limit window s.requests := by
  intro hard
  have run := hard 1 10 0
    [.admitTurn 0 0 true, .admitTurn 10 10 true, .refund 0 11 true, .admitTurn 12 12 true] _
    (le_refl 1) rfl
  exact absurd (run 10).1 (by decide)

end DevopsCli.Server
