import DevopsCli.Roadmap.RoundStep

/- What one round of the due table does: which rows end, in what order, and what each of them
   leaves in the schedule, in the ledger and in the report. -/
namespace DevopsCli.Roadmap.Rounds
open RefineDue (dueStamp)
variable {limit : Nat}

/-- The row that asks for the checkout: the first that needs the clone. -/
def asksClone (ended : List DueRow) : Option DueRow := ended.find? (·.needsClone)

section First
variable (job : Job) (first : Option DueRow)

def cloneError : Option Exc := first.bind fun row => (job.answers row.name).checkout

def runs (row : DueRow) : Bool := !(row.needsClone && (cloneError job first).isSome)

def errorOf (row : DueRow) : Option Exc :=
  if runs job first row then (job.answers row.name).failure else cloneError job first

def refusedAt (row : DueRow) : Bool := (errorOf job first row).any Exc.identityRefused

def isFirst (row : DueRow) : Bool := first.any fun asked => asked.name == row.name

/-- What the records hold of a row once it ended: the ledger counts a row that ran, and the row
    that asked for the checkout. -/
def after (limit : Nat) (row : DueRow) (record : RowRecord) : RowRecord :=
  match errorOf job first row with
  | none => (some job.now, RowHeld.cleared)
  | some error =>
    if runs job first row || isFirst first row then missed limit job row error record else record

end First

def outcomesOf (before : List DueRow) (round : Round) : Outcomes :=
  fun name => if name ∈ names before then round.outcomes name else none

structure Wanted (job : Job) (records : Records limit) (round : Round) (before : List DueRow)
    (row : DueRow) : Prop where
  due : job.due row.name = true ∨ ∃ rule ∈ row.crossJobPredicate, rule (outcomesOf before round) = true
  allowed : records.ledger.suspended job.repo row.name (job.inputs row.name) = false

/-- The round from the records s to the records t, in which the rows ended. -/
structure RoundLaw (job : Job) (rows : List DueRow) (s : Records limit) (round : Round)
    (t : Records limit) (ended : List DueRow) : Prop where
  in_order : ended.Sublist rows
  exactly : ∀ before row rest, rows = before ++ row :: rest →
    (row ∈ ended ↔ Wanted job s round before row ∧
      ∀ earlier ∈ before, earlier ∈ ended → refusedAt job (asksClone ended) earlier = false)
  checkouts : round.checkouts = names (asksClone ended).toList
  ran : round.ran = names (ended.filter (runs job (asksClone ended)))
  failed : round.failed = names (ended.filter fun row => (errorOf job (asksClone ended) row).isSome)
  result : round.failed = [] → round.result = .ok (names ended)
  reported : (round.errors.flatMap Prod.fst).Perm round.failed
  named : ∀ entry ∈ round.errors, ∀ row ∈ ended, row.name ∈ entry.1 →
    errorOf job (asksClone ended) row = some entry.2
  counts : job.lane ≠ none → round.counts = ended.map fun row =>
    (row.name, ((errorOf job (asksClone ended) row).map failedResult).getD .success)
  left_ : ∀ row ∈ ended, t.row job.repo row.name =
    after job (asksClone ended) limit row (s.row job.repo row.name)
  kept : ∀ repo name, (repo = job.repo → name ∉ names ended ∧ name ≠ dueStamp) →
    t.row repo name = s.row repo name

section Extend
variable {job : Job} {ended : List DueRow} {row : DueRow}

theorem asksClone_append (others : List DueRow) :
    asksClone (ended ++ others) = (asksClone ended).or (asksClone others) := List.find?_append

theorem stays {β : Sort _} (f : Option DueRow → DueRow → β)
    (free : ∀ a b row, row.needsClone = false → f a row = f b row) (others : List DueRow)
    {x : DueRow} (member : x ∈ ended) : f (asksClone (ended ++ others)) x = f (asksClone ended) x := by
  cases needs : x.needsClone with
  | false => exact free _ _ x needs
  | true =>
    have some_ : (asksClone ended).isSome = true := List.find?_isSome.mpr ⟨x, member, needs⟩
    obtain ⟨first, found⟩ := Option.isSome_iff_exists.mp some_
    rw [asksClone_append, found]
    rfl

theorem runs_free (job : Job) (a b : Option DueRow) (row : DueRow) (free : row.needsClone = false) :
    runs job a row = runs job b row := by
  rw [runs, runs, free]
  rfl

theorem runs_alone {first : Option DueRow} (free : row.needsClone = false) :
    runs job first row = true := by
  rw [runs, free]
  rfl

theorem errorOf_free (job : Job) (a b : Option DueRow) (row : DueRow) (free : row.needsClone = false) :
    errorOf job a row = errorOf job b row := by
  rw [errorOf, errorOf, runs_alone free, runs_alone free]
  rfl

theorem after_free (job : Job) (limit : Nat) (record : RowRecord) (a b : Option DueRow) (row : DueRow)
    (free : row.needsClone = false) :
    after job a limit row record = after job b limit row record := by
  rw [after, after, errorOf_free job a b row free, runs_alone free, runs_alone free]
  rfl

theorem filter_extend (p : Option DueRow → DueRow → Bool)
    (free : ∀ a b row, row.needsClone = false → p a row = p b row) (row : DueRow) :
    names ((ended ++ [row]).filter (p (asksClone (ended ++ [row])))) =
      names (ended.filter (p (asksClone ended))) ++ push (p (asksClone (ended ++ [row])) row) row.name := by
  rw [List.filter_append, List.filter_congr fun x member => stays p free [row] member]
  cases kept : p (asksClone (ended ++ [row])) row with
  | true =>
    rw [List.filter_cons_of_pos kept, names, List.map_append]
    rfl
  | false =>
    rw [List.filter_cons_of_neg (Bool.eq_false_iff.mp kept), names, List.map_append]
    rfl

end Extend

/-- The error of the report that a row adds: all rows that share the lost clone have the one of the
    row that asked for it. -/
def entryOf (job : Job) (first : Option DueRow) (row : DueRow) : Option Entry :=
  if runs job first row then (job.answers row.name).failure.map (Entry.row row.name)
  else if isFirst first row then (cloneError job first).map Entry.clone
  else none

theorem entryOf_free (job : Job) (a b : Option DueRow) (row : DueRow) (free : row.needsClone = false) :
    entryOf job a row = entryOf job b row := by
  rw [entryOf, entryOf, runs_alone free, runs_alone free]
  rfl

/-- The round after the rows it visited. -/
structure Holds (job : Job) (visited : List DueRow) (s : Records limit) (round : Round)
    (t : Records limit) (ended : List DueRow) : Prop where
  in_order : ended.Sublist visited
  exactly : ∀ before row rest, visited = before ++ row :: rest →
    (row ∈ ended ↔ Wanted job s round before row)
  clone : round.clone = cloneOf job (asksClone ended)
  outcomes : ∀ name ∉ names visited, round.outcomes name = none
  checkouts : round.checkouts = names (asksClone ended).toList
  ran : round.ran = names (ended.filter (runs job (asksClone ended)))
  failed : round.failed = names (ended.filter fun row => (errorOf job (asksClone ended) row).isSome)
  succeeded : round.succeeded = names (ended.filter fun row =>
    runs job (asksClone ended) row && (job.answers row.name).returns)
  cloneJobs : round.cloneJobs = names (ended.filter fun row => !runs job (asksClone ended) row)
  entries : round.entries = ended.filterMap (entryOf job (asksClone ended))
  counts : job.lane ≠ none → round.counts = ended.map fun row =>
    (row.name, ((errorOf job (asksClone ended) row).map failedResult).getD .success)
  left_ : ∀ row ∈ ended, t.row job.repo row.name =
    after job (asksClone ended) limit row (s.row job.repo row.name)
  kept : ∀ repo name, (repo = job.repo → name ∉ names ended ∧ name ≠ dueStamp) →
    t.row repo name = s.row repo name

def Calm (job : Job) (ended : List DueRow) : Prop :=
  ∀ row ∈ ended, refusedAt job (asksClone ended) row = false

structure Joins (limit : Nat) (job : Job) (ended : List DueRow) (row : DueRow) (fate : Fate) : Prop where
  error : fate.error (job.answers row.name) = errorOf job (asksClone (ended ++ [row])) row
  runs : fate.runs = runs job (asksClone (ended ++ [row])) row
  shared : fate.shared = !Rounds.runs job (asksClone (ended ++ [row])) row
  entries : fate.entries job row = (entryOf job (asksClone (ended ++ [row])) row).toList
  leaves : ∀ record, fate.leaves limit job row record =
    after job (asksClone (ended ++ [row])) limit row record
  refused : Calm job ended → fate.refused (job.answers row.name) =
    refusedAt job (asksClone (ended ++ [row])) row

section Joins
variable {job : Job} {ended visited : List DueRow} {row : DueRow} {round : Round} {s t : Records limit}

theorem asksClone_old {first : DueRow} (found : asksClone ended = some first) (others : List DueRow) :
    asksClone (ended ++ others) = some first := by
  rw [asksClone_append, found]
  rfl

theorem asksClone_new (none_ : asksClone ended = none) (needs : row.needsClone = true) :
    asksClone (ended ++ [row]) = some row := by
  rw [asksClone_append, none_, asksClone, List.find?_cons_of_pos needs]
  rfl

theorem cloneOf_unmade {first : Option DueRow} (unmade : cloneOf job first = .unmade) : first = none := by
  cases first with
  | none => rfl
  | some asked =>
    rw [cloneOf] at unmade
    split at unmade <;> cases unmade

theorem cloneOf_lost {first : Option DueRow} {error : Exc} (lost : cloneOf job first = .lost error) :
    ∃ asked, first = some asked ∧ (job.answers asked.name).checkout = some error := by
  cases first with
  | none => cases lost
  | some asked =>
    rw [cloneOf] at lost
    split at lost
    · cases lost
    · next held answer =>
      cases lost
      exact ⟨asked, rfl, answer⟩

theorem joins_ran (runs_ : runs job (asksClone (ended ++ [row])) row = true) :
    Joins limit job ended row .ran where
  error := by
    rw [errorOf, runs_]
    rfl
  runs := runs_.symm
  shared := by
    rw [runs_]
    rfl
  entries := by
    rw [entryOf, runs_]
    rfl
  leaves record := by
    rw [Fate.leaves, after, errorOf, runs_]
    rfl
  refused _ := by
    rw [refusedAt, errorOf, runs_]
    rfl

theorem joins (holds : Holds job visited s round t ended) (fresh : row.name ∉ names visited)
    (ends : (fateOf job row round t).ends = true) :
    Joins limit job ended row (fateOf job row round t) := by
  cases fate : fateOf job row round t with
  | skipped =>
    rw [fate] at ends
    cases ends
  | lost error =>
    obtain ⟨needs, clone⟩ := lost_facts fate
    obtain ⟨first, found, answer⟩ := cloneOf_lost (holds.clone.symm.trans clone)
    have same := asksClone_old found [row]
    have member : first ∈ ended := List.mem_of_find?_eq_some found
    have apart : isFirst (some first) row = false := by
      rw [isFirst, Option.any_some, beq_eq_false_iff_ne]
      exact fun same => fresh (same ▸ List.mem_map_of_mem (holds.in_order.subset member))
    have runs_ : runs job (some first) row = false := by
      rw [runs, needs, cloneError, Option.bind_some, answer]
      rfl
    have error_ : cloneError job (some first) = some error := answer
    exact {
      error := by
        rw [same, errorOf, runs_, error_]
        rfl
      runs := by
        rw [same, runs_]
        rfl
      shared := by
        rw [same, runs_]
        rfl
      entries := by
        rw [same, entryOf, runs_, apart]
        rfl
      leaves := fun record => by
        rw [same, after, errorOf, runs_, error_, apart]
        rfl
      refused := fun calm => by
        have needs_first : first.needsClone = true := List.find?_some found
        have of_first := calm first member
        have runs_first : runs job (some first) first = false := by
          rw [runs, needs_first, error_]
          rfl
        rw [found, refusedAt, errorOf, runs_first, if_neg Bool.false_ne_true, error_] at of_first
        rw [same, refusedAt, errorOf, runs_, if_neg Bool.false_ne_true, error_, of_first]
        rfl }
  | unchecked error =>
    obtain ⟨needs, clone, answer⟩ := unchecked_facts fate
    have same := asksClone_new (cloneOf_unmade (holds.clone.symm.trans clone)) needs
    have error_ : cloneError job (some row) = some error := answer
    have runs_ : runs job (some row) row = false := by
      rw [runs, needs, error_]
      rfl
    have first : isFirst (some row) row = true := beq_self_eq_true row.name
    exact {
      error := by
        rw [same, errorOf, runs_, error_]
        rfl
      runs := by
        rw [same, runs_]
        rfl
      shared := by
        rw [same, runs_]
        rfl
      entries := by
        rw [same, entryOf, runs_, first, error_]
        rfl
      leaves := fun record => by
        rw [same, after, errorOf, runs_, error_, first]
        rfl
      refused := fun _ => by
        rw [same, refusedAt, errorOf, runs_, error_]
        rfl }
  | ran =>
    refine joins_ran ?_
    cases needs : row.needsClone with
    | false => exact runs_alone needs
    | true =>
      obtain ⟨clone, checkouts, -, ready, asked, unasked⟩ := checkout_ran fate
      have made := ready needs
      have none_ : cloneError job (asksClone (ended ++ [row])) = none := by
        cases found : asksClone ended with
        | none =>
          have unmade : round.clone = .unmade := by rw [holds.clone, found]; rfl
          have answer := (asked needs unmade).2.symm.trans made
          rw [asksClone_new found needs]
          rw [cloneOf] at answer
          split at answer
          · assumption
          · cases answer
        | some first =>
          rw [asksClone_old found]
          have held : round.clone = cloneOf job (some first) := by rw [holds.clone, found]
          have still : clone = round.clone := by
            refine (unasked (.inr ?_)).2
            rw [held, cloneOf]
            split <;> exact Clone.noConfusion
          rw [still, held, cloneOf] at made
          split at made
          · assumption
          · cases made
      rw [runs, none_, Option.isSome_none, Bool.and_false]
      rfl

theorem fresh_ended (holds : Holds job visited s round t ended) (fresh : row.name ∉ names visited) :
    row.name ∉ names ended := fun member => fresh ((holds.in_order.map _).subset member)

theorem outcomesOf_stays {before : List DueRow} {round' : Round} (inside : row.name ∉ names before)
    (same : ∀ name ≠ row.name, round'.outcomes name = round.outcomes name) :
    outcomesOf before round' = outcomesOf before round := by
  funext name
  rw [outcomesOf, outcomesOf]
  split
  · next member => exact same name fun own => inside (own ▸ member)
  · rfl

theorem suspended_stays (holds : Holds job visited s round t ended) (fresh : row.name ∉ names visited)
    (notStamp : row.name ≠ dueStamp) :
    t.ledger.suspended job.repo row.name (job.inputs row.name) =
      s.ledger.suspended job.repo row.name (job.inputs row.name) := by
  have same := holds.kept job.repo row.name fun _ => ⟨fresh_ended holds fresh, notStamp⟩
  rw [FailureLedger.suspended_held, FailureLedger.suspended_held]
  exact congrArg (fun record : RowRecord => record.2.suspended limit (job.inputs row.name)) same

theorem ends_iff_wanted (holds : Holds job visited s round t ended) (fresh : row.name ∉ names visited)
    (notStamp : row.name ≠ dueStamp) {round' : Round}
    (same : ∀ name ≠ row.name, round'.outcomes name = round.outcomes name) :
    (fateOf job row round t).ends = true ↔ Wanted job s round' visited row := by
  have outcomes : outcomesOf visited round' = round.outcomes := by
    rw [outcomesOf_stays fresh same]
    funext name
    rw [outcomesOf]
    split
    · rfl
    · next outside => exact (holds.outcomes name outside).symm
  have asks : (fateOf job row round t).ends = round.asks job row t := by
    cases asked : round.asks job row t with
    | false => rw [fateOf, if_neg (Bool.eq_false_iff.mp asked)]; rfl
    | true =>
      cases fate : fateOf job row round t with
      | skipped =>
        have ended := skipped_idle fate
        rw [asked] at ended
        cases ended
      | lost _ | unchecked _ | ran => rfl
  rw [asks, Round.asks, Bool.and_eq_true, Bool.or_eq_true, Bool.not_eq_true',
    suspended_stays holds fresh notStamp, Option.any_eq_true]
  constructor
  · rintro ⟨due, allowed⟩
    exact ⟨by rwa [outcomes], allowed⟩
  · rintro ⟨due, allowed⟩
    exact ⟨by rwa [outcomes] at due, allowed⟩

theorem split_concat {α : Type} {xs before rest : List α} {x y : α}
    (split : xs ++ [y] = before ++ x :: rest) :
    (before = xs ∧ x = y) ∨ ∃ rest', xs = before ++ x :: rest' := by
  rcases List.eq_nil_or_concat' rest with rfl | ⟨rest', z, rfl⟩
  · obtain ⟨rfl, same⟩ := List.append_inj' split rfl
    exact .inl ⟨rfl, (List.singleton_inj.mp same).symm⟩
  · rw [← List.cons_append, ← List.append_assoc] at split
    exact .inr ⟨rest', (List.append_inj' split rfl).1⟩

theorem Wanted.stays {before : List DueRow} {x : DueRow} {round' : Round}
    (same : outcomesOf before round' = outcomesOf before round) :
    Wanted job s round' before x ↔ Wanted job s round before x :=
  ⟨fun ⟨due, allowed⟩ => ⟨by rwa [same] at due, allowed⟩, fun ⟨due, allowed⟩ => ⟨by rwa [same], allowed⟩⟩

theorem exactly_step (holds : Holds job visited s round t ended) (fresh : row.name ∉ names visited)
    {round' : Round} (same : ∀ name ≠ row.name, round'.outcomes name = round.outcomes name)
    {ended' : List DueRow} (old : ∀ x ∈ visited, x ∈ ended' ↔ x ∈ ended)
    (new : row ∈ ended' ↔ Wanted job s round' visited row) :
    ∀ before x rest, visited ++ [row] = before ++ x :: rest →
      (x ∈ ended' ↔ Wanted job s round' before x) := by
  intro before x rest split
  rcases split_concat split with ⟨rfl, rfl⟩ | ⟨rest', rfl⟩
  · exact new
  · have outside : row.name ∉ names before := by
      intro inside
      refine fresh ?_
      rw [names, List.map_append]
      exact List.mem_append_left _ inside
    have member : x ∈ before ++ x :: rest' := by simp
    rw [old x member, holds.exactly before x rest' rfl]
    exact (Wanted.stays (outcomesOf_stays outside same)).symm

theorem holds_skipped (holds : Holds job visited s round t ended) (fresh : row.name ∉ names visited)
    (notStamp : row.name ≠ dueStamp) (skipped : (fateOf job row round t).ends = false) :
    Holds job (visited ++ [row]) s round t ended where
  in_order := holds.in_order.trans (List.sublist_append_left visited [row])
  exactly := by
    refine exactly_step holds fresh (fun _ _ => rfl) (fun _ _ => Iff.rfl) ?_
    rw [← ends_iff_wanted holds fresh notStamp fun _ _ => rfl]
    refine iff_of_false (fun member => ?_) (Bool.eq_false_iff.mp skipped)
    exact fresh_ended holds fresh (List.mem_map_of_mem member)
  clone := holds.clone
  outcomes name outside := holds.outcomes name fun inside => outside (by
    rw [names, List.map_append]
    exact List.mem_append_left _ inside)
  checkouts := holds.checkouts
  ran := holds.ran
  failed := holds.failed
  succeeded := holds.succeeded
  cloneJobs := holds.cloneJobs
  entries := holds.entries
  counts := holds.counts
  left_ := holds.left_
  kept := holds.kept

theorem holds_ended (holds : Holds job visited s round t ended) (fresh : row.name ∉ names visited)
    (unstamped : dueStamp ∉ names visited) (notStamp : row.name ≠ dueStamp) (ends : (fateOf job row round t).ends = true)
    {result : Bool × Round × Records limit}
    (stepped : Stepped job row (fateOf job row round t) round t result) :
    Holds job (visited ++ [row]) s result.2.1 result.2.2 (ended ++ [row]) := by
  have joins := joins holds fresh ends
  have other : ∀ x ∈ ended, x.name ≠ row.name :=
    fun x member same => fresh_ended holds fresh (same ▸ List.mem_map_of_mem member)
  have kept_own : t.row job.repo row.name = s.row job.repo row.name :=
    holds.kept job.repo row.name fun _ => ⟨fresh_ended holds fresh, notStamp⟩
  exact {
    in_order := holds.in_order.append (List.Sublist.refl [row])
    exactly := by
      refine exactly_step holds fresh stepped.outcomes (fun x member => ?_) ?_
      · rw [List.mem_append, List.mem_singleton]
        refine or_iff_left fun same => fresh ?_
        rw [← same]
        exact List.mem_map_of_mem member
      · rw [← ends_iff_wanted holds fresh notStamp stepped.outcomes]
        exact iff_of_true (by simp) ends
    clone := by
      cases found : asksClone ended with
      | none =>
        have unmade : round.clone = .unmade := by rw [holds.clone, found]; rfl
        cases needs : row.needsClone with
        | false =>
          rw [(stepped.unasked (.inl (by rw [ends, needs]; rfl))).2, holds.clone, asksClone_append, found,
            asksClone, List.find?_cons_of_neg (by rw [needs]; exact Bool.false_ne_true)]
          rfl
        | true =>
          rw [(stepped.asked (by rw [ends, needs]; rfl) unmade).2, asksClone_new found needs]
      | some first =>
        have made : round.clone ≠ .unmade := by
          rw [holds.clone, found]
          exact fun unmade => nomatch cloneOf_unmade unmade
        rw [(stepped.unasked (.inr made)).2, asksClone_old found, holds.clone, found]
    outcomes := by
      intro name outside
      rw [names, List.map_append, List.mem_append, not_or] at outside
      rw [stepped.outcomes name fun same => outside.2 (by simp [same])]
      exact holds.outcomes name outside.1
    checkouts := by
      cases found : asksClone ended with
      | none =>
        have unmade : round.clone = .unmade := by rw [holds.clone, found]; rfl
        cases needs : row.needsClone with
        | false =>
          rw [(stepped.unasked (.inl (by rw [ends, needs]; rfl))).1, holds.checkouts, asksClone_append,
            found, asksClone, List.find?_cons_of_neg (by rw [needs]; exact Bool.false_ne_true)]
          rfl
        | true =>
          rw [(stepped.asked (by rw [ends, needs]; rfl) unmade).1, holds.checkouts, asksClone_new found needs,
            found]
          rfl
      | some first =>
        have made : round.clone ≠ .unmade := by
          rw [holds.clone, found]
          exact fun unmade => nomatch cloneOf_unmade unmade
        rw [(stepped.unasked (.inr made)).1, asksClone_old found, holds.checkouts, found]
    ran := by
      rw [stepped.ran, holds.ran, joins.runs, filter_extend (runs job) (runs_free job)]
    failed := by
      rw [stepped.failed, holds.failed, joins.error,
        filter_extend (fun first row => (errorOf job first row).isSome)
          fun a b row free => congrArg Option.isSome (errorOf_free job a b row free)]
    succeeded := by
      rw [stepped.succeeded, holds.succeeded, joins.runs,
        filter_extend (fun first row => runs job first row && (job.answers row.name).returns)
          fun a b row free => congrArg (· && _) (runs_free job a b row free)]
    cloneJobs := by
      rw [stepped.cloneJobs, holds.cloneJobs, joins.shared,
        filter_extend (fun first row => !runs job first row)
          fun a b row free => congrArg Bool.not (runs_free job a b row free)]
    entries := by
      rw [stepped.entries, holds.entries, joins.entries, List.filterMap_append,
        List.filterMap_congr fun x member => stays (entryOf job) (entryOf_free job) [row] member]
      refine congrArg (_ ++ ·) ?_
      cases entry : entryOf job (asksClone (ended ++ [row])) row <;> simp [entry]
    counts := by
      intro inLane
      rw [stepped.counts inLane, if_pos ends, holds.counts inLane, joins.error, List.map_append]
      refine congrArg (· ++ _) (List.map_congr_left fun x member => ?_)
      rw [stays (errorOf job) (errorOf_free job) [row] member]
    left_ := by
      intro x member
      rcases List.mem_append.mp member with old | new
      · rw [stepped.others job.repo x.name fun _ => ⟨other x old, ?_⟩, holds.left_ x old]
        · exact (stays (fun first x => after job first limit x (s.row job.repo x.name))
            (fun a b x free => after_free job limit _ a b x free) [row] old).symm
        · exact fun same => unstamped (same ▸ List.mem_map_of_mem (holds.in_order.subset old))
      · rw [List.mem_singleton.mp new, stepped.own, joins.leaves, kept_own]
    kept := by
      intro repo name apart
      have outside : repo = job.repo → (name ∉ names ended ∧ name ≠ dueStamp) ∧ name ≠ row.name := by
        intro same
        have both := apart same
        rw [names, List.map_append, List.mem_append, not_or] at both
        exact ⟨⟨both.1.1, both.2⟩, fun own => both.1.2 (by simp [own])⟩
      rw [stepped.others repo name fun same => ⟨(outside same).2, (outside same).1.2⟩]
      exact holds.kept repo name fun same => (outside same).1 }

theorem holds_start (job : Job) (s : Records limit) : Holds job [] s {} s [] where
  in_order := .slnil
  exactly before row rest split := by
    have nonempty : before ++ row :: rest ≠ [] := by simp
    exact absurd split.symm nonempty
  clone := rfl
  outcomes _ _ := rfl
  checkouts := rfl
  ran := rfl
  failed := rfl
  succeeded := rfl
  cloneJobs := rfl
  entries := rfl
  counts _ := rfl
  left_ _ member := by cases member
  kept _ _ _ := rfl

theorem runRow_skipped (skipped : (fateOf job row round t).ends = false) :
    runRow job row round t = (true, round, t) := by
  have fate : fateOf job row round t = .skipped := by
    cases fate : fateOf job row round t with
    | skipped => rfl
    | lost _ | unchecked _ | ran =>
      rw [fate] at skipped
      cases skipped
  rw [runRow, if_neg (Bool.eq_false_iff.mp (skipped_idle fate))]

theorem refusedAt_free (job : Job) (a b : Option DueRow) (row : DueRow) (free : row.needsClone = false) :
    refusedAt job a row = refusedAt job b row := by
  rw [refusedAt, refusedAt, errorOf_free job a b row free]

theorem calm_extend (calm : Calm job ended) :
    ∀ x ∈ ended, refusedAt job (asksClone (ended ++ [row])) x = false := by
  intro x member
  rw [stays (refusedAt job) (refusedAt_free job) [row] member]
  exact calm x member

/-- After the rows of a round: all were visited and none ends it, or the last one visited does. -/
theorem executeRows_holds (rows : List DueRow) (holds : Holds job visited s round t ended)
    (calm : Calm job ended) (distinct : (names (visited ++ rows)).Nodup)
    (unstamped : dueStamp ∉ names (visited ++ rows)) :
    ∃ ended', (Holds job (visited ++ rows) s (executeRows job rows round t).1
        (executeRows job rows round t).2 ended' ∧ Calm job ended') ∨
      ∃ before last rest, rows = before ++ last :: rest ∧
        Holds job (visited ++ before ++ [last]) s (executeRows job rows round t).1
          (executeRows job rows round t).2 ended' ∧
        (∀ earlier ∈ ended', earlier ∈ visited ++ before → refusedAt job (asksClone ended') earlier = false) ∧
        last ∈ ended' ∧ refusedAt job (asksClone ended') last = true := by
  induction rows generalizing visited round t ended with
  | nil =>
    rw [List.append_nil]
    exact ⟨ended, .inl ⟨holds, calm⟩⟩
  | cons row rows ih =>
    have again : visited ++ row :: rows = visited ++ [row] ++ rows := by simp
    rw [again] at distinct unstamped
    have inside : row.name ∈ names (visited ++ [row] ++ rows) := by simp [names]
    have notStamp : row.name ≠ dueStamp := fun same => unstamped (same ▸ inside)
    have visited_unstamped : dueStamp ∉ names visited := fun member => unstamped (by
      rw [names, List.map_append, List.map_append]
      exact List.mem_append_left _ (List.mem_append_left _ member))
    have fresh : row.name ∉ names visited := by
      rw [names, List.append_assoc, List.map_append, List.nodup_append] at distinct
      exact fun member => distinct.2.2 _ member _ (by simp) rfl
    have stepped : Stepped job row (fateOf job row round t) round t (runRow job row round t) :=
      runRow_stepped notStamp
    cases ends : (fateOf job row round t).ends with
    | false =>
      have next := ih (holds_skipped holds fresh notStamp ends) calm distinct unstamped
      rw [executeRows, runRow_skipped ends, again]
      obtain ⟨ended', all | ⟨before, last, rest, split, last_holds, others⟩⟩ := next
      · exact ⟨ended', .inl all⟩
      · refine ⟨ended', .inr ⟨row :: before, last, rest, by rw [split]; rfl, ?_, ?_⟩⟩
        · simpa using last_holds
        · simpa using others
    | true =>
      have holds' := holds_ended holds fresh visited_unstamped notStamp ends stepped
      have goes := stepped.goes
      rw [(joins holds fresh ends).refused calm] at goes
      rw [executeRows]
      generalize runRow job row round t = result at stepped holds' goes ⊢
      obtain ⟨go, round', t'⟩ := result
      cases refused : refusedAt job (asksClone (ended ++ [row])) row with
      | true =>
        rw [refused] at goes
        obtain rfl : go = false := goes
        refine ⟨ended ++ [row], .inr ⟨[], row, rows, rfl, ?_, fun earlier member old => ?_, ?_, refused⟩⟩
        · rw [List.append_nil]
          exact holds'
        · rw [List.append_nil] at old
          refine calm_extend calm earlier ((List.mem_append.mp member).resolve_right fun new => fresh ?_)
          exact List.mem_singleton.mp new ▸ List.mem_map_of_mem old
        · exact List.mem_append_right _ List.mem_cons_self
      | false =>
        rw [refused] at goes
        obtain rfl : go = true := goes
        have calm' : Calm job (ended ++ [row]) := by
          intro x member
          rcases List.mem_append.mp member with old | new
          · exact calm_extend calm x old
          · rw [List.mem_singleton.mp new]
            exact refused
        have next := ih holds' calm' distinct unstamped
        rw [again]
        obtain ⟨ended', all | ⟨before, last, rest, split, last_holds, others⟩⟩ := next
        · exact ⟨ended', .inl all⟩
        · refine ⟨ended', .inr ⟨row :: before, last, rest, by rw [split]; rfl, ?_, ?_⟩⟩
          · simpa using last_holds
          · simpa using others

end Joins

theorem names_append (xs ys : List DueRow) : names (xs ++ ys) = names xs ++ names ys := List.map_append

theorem names_cons (x : DueRow) (xs : List DueRow) : names (x :: xs) = x.name :: names xs := rfl

section Report
variable {job : Job} {ended visited : List DueRow} {row : DueRow} {round : Round} {s t : Records limit}

def Entry.jobs (cloneJobs : List String) : Entry → List String
  | .clone _ => cloneJobs
  | .row name _ => [name]

theorem errors_jobs : round.errors.flatMap Prod.fst = round.entries.flatMap (Entry.jobs round.cloneJobs) := by
  rw [Round.errors, List.flatMap_map]
  refine congrArg (fun f => round.entries.flatMap f) (funext fun entry => ?_)
  cases entry <;> rfl

theorem own_jobs {first : Option DueRow} (cloneJobs : List String) {rows : List DueRow}
    (others : ∀ row ∈ rows, runs job first row = true ∨ isFirst first row = false) :
    (rows.filterMap (entryOf job first)).flatMap (Entry.jobs cloneJobs) =
      names (rows.filter fun row => runs job first row && (job.answers row.name).failure.isSome) := by
  induction rows with
  | nil => rfl
  | cons row rows ih =>
    have rest := ih fun other member => others other (List.mem_cons_of_mem _ member)
    rw [List.filterMap_cons, List.filter_cons]
    cases runs_ : runs job first row with
    | false =>
      have apart : isFirst first row = false := by
        rcases others row List.mem_cons_self with no | no
        · rw [runs_] at no
          cases no
        · exact no
      have none_ : entryOf job first row = none := by
        rw [entryOf, runs_, apart]
        rfl
      rw [none_]
      exact rest
    | true =>
      have own : entryOf job first row = (job.answers row.name).failure.map (Entry.row row.name) := by
        rw [entryOf, runs_]
        rfl
      rw [own]
      cases (job.answers row.name).failure with
      | none => exact rest
      | some error => exact congrArg (row.name :: ·) rest

theorem errorOf_isSome {first : Option DueRow} (row : DueRow) :
    (errorOf job first row).isSome =
      (!runs job first row || (runs job first row && (job.answers row.name).failure.isSome)) := by
  rw [errorOf]
  cases runs_ : runs job first row with
  | true => rfl
  | false =>
    rw [runs, Bool.not_eq_false', Bool.and_eq_true] at runs_
    exact runs_.2

theorem reported (holds : Holds job visited s round t ended) (distinct : (names ended).Nodup) :
    (round.errors.flatMap Prod.fst).Perm round.failed := by
  rw [errors_jobs, holds.entries, holds.failed]
  cases lost : cloneError job (asksClone ended) with
  | none =>
    have all : ∀ row, runs job (asksClone ended) row = true := by
      intro row
      rw [runs, lost, Option.isSome_none, Bool.and_false]
      rfl
    rw [own_jobs _ fun row _ => .inl (all row)]
    refine List.Perm.of_eq (congrArg names (List.filter_congr fun row _ => ?_))
    rw [errorOf_isSome, all]
    rfl
  | some error =>
    obtain ⟨first, found, answer⟩ := Option.bind_eq_some_iff.mp lost
    obtain ⟨needs, before, rest, split, free⟩ := List.find?_eq_some_iff_append.mp found
    have free_runs : ∀ row ∈ before, runs job (some first) row = true := by
      intro row member
      have none_ := free row member
      rw [Bool.not_eq_true'] at none_
      exact runs_alone none_
    have first_runs : runs job (some first) first = false := by
      rw [runs, needs, cloneError, Option.bind_some, answer]
      rfl
    have apart : ∀ row ∈ rest, isFirst (some first) row = false := by
      intro row member
      rw [isFirst, Option.any_some, beq_eq_false_iff_ne]
      rw [split, names, List.map_append, List.map_cons, List.nodup_append, List.nodup_cons] at distinct
      exact fun same => distinct.2.1.1 (same ▸ List.mem_map_of_mem member)
    have entry : entryOf job (some first) first = some (.clone error) := by
      have own : isFirst (some first) first = true := beq_self_eq_true first.name
      rw [entryOf, first_runs, own, cloneError, Option.bind_some, answer]
      rfl
    have jobs : round.cloneJobs = first.name :: names (rest.filter fun row => !runs job (some first) row) := by
      rw [holds.cloneJobs, found, split, List.filter_append, List.filter_cons_of_pos (by rw [first_runs]; rfl),
        List.filter_eq_nil_iff.mpr fun row member => by rw [free_runs row member]; exact Bool.false_ne_true]
      rfl
    rw [found]
    have own_before := @own_jobs job (some first) round.cloneJobs _
      fun row member => Or.inl (free_runs row member)
    have own_rest := @own_jobs job (some first) round.cloneJobs _
      fun row member => Or.inr (apart row member)
    have first_failed : (errorOf job (some first) first).isSome = true := by
      rw [errorOf_isSome, first_runs]
      rfl
    have before_failed : before.filter (fun row => (errorOf job (some first) row).isSome) =
        before.filter fun row => runs job (some first) row && (job.answers row.name).failure.isSome := by
      refine List.filter_congr fun row member => ?_
      rw [errorOf_isSome, free_runs row member]
      rfl
    have rest_failed : (names (rest.filter fun row => !runs job (some first) row) ++
        names (rest.filter fun row => runs job (some first) row && (job.answers row.name).failure.isSome)).Perm
          (names (rest.filter fun row => (errorOf job (some first) row).isSome)) := by
      have halves := List.filter_append_perm (fun row => !runs job (some first) row)
        (rest.filter fun row => (errorOf job (some first) row).isSome)
      rw [List.filter_filter, List.filter_filter] at halves
      rw [← names_append]
      refine List.Perm.trans (List.Perm.of_eq ?_) (halves.map fun row => row.name)
      refine congrArg (List.map _) (congrArg₂ (· ++ ·) ?_ ?_) <;>
        refine List.filter_congr fun row _ => ?_ <;>
        rw [errorOf_isSome] <;>
        cases runs job (some first) row <;> simp
    have first_kept : (first :: rest).filter (fun row => (errorOf job (some first) row).isSome) =
        first :: rest.filter fun row => (errorOf job (some first) row).isSome :=
      List.filter_cons_of_pos first_failed
    rw [split, List.filterMap_append, List.filterMap_cons, entry, List.flatMap_append, List.flatMap_cons,
      own_before, own_rest, Entry.jobs, jobs, List.filter_append, first_kept, before_failed, names_append,
      names_cons]
    exact List.Perm.append_left _ (List.Perm.cons _ rest_failed)

theorem named (holds : Holds job visited s round t ended) (distinct : (names ended).Nodup) :
    ∀ entry ∈ round.errors, ∀ row ∈ ended, row.name ∈ entry.1 →
      errorOf job (asksClone ended) row = some entry.2 := by
  intro entry member row inside named
  have unique : ∀ x ∈ ended, x.name = row.name → x = row :=
    fun x there same => List.inj_on_of_nodup_map distinct there inside same
  rw [Round.errors, holds.entries] at member
  obtain ⟨written, written_mem, rfl⟩ := List.mem_map.mp member
  obtain ⟨source, source_mem, made⟩ := List.mem_filterMap.mp written_mem
  rw [entryOf] at made
  cases runs_ : runs job (asksClone ended) source with
  | true =>
    rw [runs_] at made
    obtain ⟨error, failure, rfl⟩ := Option.map_eq_some_iff.mp made
    rw [← unique source source_mem (List.mem_singleton.mp named).symm, errorOf, runs_]
    exact failure
  | false =>
    rw [runs_, if_neg Bool.false_ne_true] at made
    split at made
    case isFalse => cases made
    obtain ⟨error, lost, rfl⟩ := Option.map_eq_some_iff.mp made
    change row.name ∈ round.cloneJobs at named
    rw [holds.cloneJobs] at named
    obtain ⟨shared, shared_mem, same⟩ := List.mem_map.mp named
    obtain ⟨there, idle⟩ := List.mem_filter.mp shared_mem
    rw [unique shared there same, Bool.not_eq_true'] at idle
    rw [errorOf, idle]
    exact lost

theorem ended_ok (holds : Holds job visited s round t ended) (none_ : round.failed = []) :
    round.result = .ok (names ended) := by
  have calm : ∀ row ∈ ended, (errorOf job (asksClone ended) row).isSome = false := by
    have empty := holds.failed.symm.trans none_
    rw [names, List.map_eq_nil_iff, List.filter_eq_nil_iff] at empty
    exact fun row member => Bool.eq_false_iff.mpr (empty row member)
  have all : ∀ row ∈ ended, (runs job (asksClone ended) row && (job.answers row.name).returns) = true := by
    intro row member
    have fine := calm row member
    rw [errorOf_isSome, Bool.or_eq_false_iff, Bool.not_eq_false'] at fine
    obtain ⟨runs_, fine⟩ := fine
    rw [runs_, Bool.true_and] at fine ⊢
    rw [Answer.failure] at fine
    rw [Answer.returns]
    split at fine
    · cases fine
    · rfl
  rw [Round.result, if_pos none_, holds.succeeded, List.filter_eq_self.mpr all]

end Report

theorem executeRows_law (job : Job) (rows : List DueRow) (s : Records limit)
    (distinct : (names rows).Nodup) (unstamped : dueStamp ∉ names rows) :
    ∃ ended, RoundLaw job rows s (executeRows job rows {} s).1 (executeRows job rows {} s).2 ended := by
  have calm : Calm job [] := fun row member => absurd member List.not_mem_nil
  obtain ⟨ended, found⟩ := executeRows_holds rows (holds_start job s) calm distinct unstamped
  refine ⟨ended, ?_⟩
  rcases found with ⟨holds, calm⟩ | ⟨before, last, rest, rfl, holds, others, last_mem, refused⟩
  · have ended_distinct : (names ended).Nodup := distinct.sublist (holds.in_order.map _)
    exact {
      in_order := holds.in_order
      exactly := fun before row rest split => by
        rw [holds.exactly before row rest split]
        exact (and_iff_left fun earlier _ member => calm earlier member).symm
      checkouts := holds.checkouts
      ran := holds.ran
      failed := holds.failed
      result := ended_ok holds
      reported := reported holds ended_distinct
      named := named holds ended_distinct
      counts := holds.counts
      left_ := holds.left_
      kept := holds.kept }
  · rw [List.nil_append] at holds others
    have whole : before ++ last :: rest = before ++ [last] ++ rest := by simp
    have in_order : ended.Sublist (before ++ last :: rest) := by
      rw [whole]
      exact holds.in_order.trans (List.sublist_append_left _ rest)
    have ended_distinct : (names ended).Nodup := distinct.sublist (in_order.map _)
    exact {
      in_order := in_order
      exactly := by
        intro earlier row later split
        rw [whole] at split
        have after_last : ∀ {round' : Round}, row ∈ rest → last ∈ earlier →
            (row ∈ ended ↔ Wanted job s round' earlier row ∧
              ∀ x ∈ earlier, x ∈ ended → refusedAt job (asksClone ended) x = false) := by
          intro round' row_mem last_before
          refine iff_of_false (fun member => ?_) fun both => ?_
          · rw [whole, names_append, List.nodup_append] at distinct
            exact distinct.2.2 _ (List.mem_map_of_mem (holds.in_order.subset member)) _
              (List.mem_map_of_mem row_mem) rfl
          · have calm := both.2 last last_before last_mem
            rw [refused] at calm
            cases calm
        -- The row was visited, or it comes after the row that ends the round.
        rcases List.append_eq_append_iff.mp split with ⟨tail, same, rest_eq⟩ | ⟨tail, same, later_eq⟩
        · exact after_last (by rw [rest_eq]; simp) (by rw [same]; simp)
        · cases tail with
          | nil =>
            refine after_last ?_ ?_
            · rw [← List.nil_append rest, ← later_eq]
              exact List.mem_cons_self
            · rw [← List.append_nil earlier, ← same]
              simp
          | cons x tail =>
            obtain ⟨rfl, -⟩ := List.cons_eq_cons.mp later_eq
            rw [holds.exactly earlier row tail same]
            refine (and_iff_left fun x inside member => others x member ?_).symm
            rcases split_concat same with ⟨rfl, -⟩ | ⟨tail', rfl⟩
            · exact inside
            · exact List.mem_append_left _ inside
      checkouts := holds.checkouts
      ran := holds.ran
      failed := holds.failed
      result := ended_ok holds
      reported := reported holds ended_distinct
      named := named holds ended_distinct
      counts := holds.counts
      left_ := holds.left_
      kept := holds.kept }

/-- A round of any table ends its rows in order, each at most once: those that are wanted, up to a
    refusal of the identity. Each failed row is named once in the report, with its own error or the
    one of the lost clone, and each row changes its own records only. -/
theorem executeDueRows_law (job : Job) (rows : List DueRow) (s : Records limit)
    (distinct : (names rows).Nodup) (unstamped : dueStamp ∉ names rows) :
    (executeDueRows job rows s).1 = (executeRows job rows {} s).1.result ∧
      ∃ ended, RoundLaw job rows s (executeRows job rows {} s).1 (executeDueRows job rows s).2 ended :=
  ⟨rfl, executeRows_law job rows s distinct unstamped⟩

theorem defaultDueTable_distinct (pending : Bool) : (names (defaultDueTable pending)).Nodup := by
  cases pending <;> decide

theorem defaultDueTable_unstamped (pending : Bool) : dueStamp ∉ names (defaultDueTable pending) := by
  cases pending <;> decide

def noRecords : Records 3 := ⟨fun _ _ => none, .empty⟩

def uncheckedJob : Job where
  repo := "o/r"
  lane := some "status"
  now := 0
  due _ := true
  inputs _ := ""
  answers _ := { checkout := some (.single (.other "GitOperationError") none) }

theorem executeDueRows_law_default :
    (executeDueRows uncheckedJob (defaultDueTable false) noRecords).1 =
        (executeRows uncheckedJob (defaultDueTable false) {} noRecords).1.result ∧
      ∃ ended, RoundLaw uncheckedJob (defaultDueTable false) noRecords
        (executeRows uncheckedJob (defaultDueTable false) {} noRecords).1
        (executeDueRows uncheckedJob (defaultDueTable false) noRecords).2 ended :=
  executeDueRows_law uncheckedJob (defaultDueTable false) noRecords (defaultDueTable_distinct false)
    (defaultDueTable_unstamped false)

end DevopsCli.Roadmap.Rounds
