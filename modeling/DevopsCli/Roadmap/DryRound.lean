import DevopsCli.Roadmap.RoundLaw

/- The dry run of a round against the round: it lists what the round runs when the ledger holds no
   failure and each row ends with a plain outcome. -/
namespace DevopsCli.Roadmap.Rounds
open RefineDue (dueStamp)
variable {limit : Nat}

/-- A row that runs to its end, and tells the later rows nothing. -/
structure Plain (answer : Answer) : Prop where
  checkout : answer.checkout = none
  runner : answer.runner = .ok none ∨ answer.runner = .ok (some {})
  unwritten : answer.unwritten = none

section Plain
variable {job : Job} {row : DueRow} {round : Round} {t : Records limit}

structure Smooth (round : Round) : Prop where
  failed : round.failed = []
  clone : ∀ error, round.clone ≠ .lost error

theorem Plain.failure {answer : Answer} (plain : Plain answer) : answer.failure = none := by
  rw [Answer.failure]
  rcases plain.runner with same | same
  · rw [same]
    exact plain.unwritten
  · rw [same]
    exact plain.unwritten

theorem plain_ran (plain : Plain (job.answers row.name)) (smooth : Smooth round)
    (asks : round.asks job row t = true) : fateOf job row round t = .ran := by
  rw [fateOf, if_pos asks]
  cases row.needsClone with
  | false => rfl
  | true =>
    cases clone : round.clone with
    | made => rfl
    | lost error => exact absurd clone (smooth.clone error)
    | unmade =>
      dsimp only
      rw [plain.checkout]

theorem plain_outcomes (plain : Plain (job.answers row.name)) (smooth : Smooth round)
    (asks : round.asks job row t = true) :
    (runRow job row round t).2.1.outcomes = Function.update round.outcomes row.name (some {}) := by
  have counted : ∀ (other : Round) result, (other.countJob job row result).outcomes = other.outcomes := by
    intro other result
    rw [Round.countJob]
    cases job.lane <;> rfl
  have checked : ∀ other error, round.checkout job row = (other, error) →
      error = none ∧ other.outcomes = round.outcomes := by
    intro other error same
    obtain ⟨clone, checkouts, checked, -⟩ := checkout_ran (plain_ran plain smooth asks)
    rw [checked] at same
    cases same
    exact ⟨rfl, rfl⟩
  have returned : ∀ (other : Round) (records : Records limit), other.outcomes = round.outcomes →
      (rowReturned job row {} (other.call row) records).2.1.outcomes =
        Function.update round.outcomes row.name (some {}) := by
    intro other records same
    rw [rowReturned, plain.unwritten]
    refine (counted _ _).trans ?_
    exact congrArg (fun held : Outcomes => Function.update held row.name (some {})) same
  have next : ∀ other error, round.checkout job row = (other, error) →
      (rowChecked job row (other, error) t).2.1.outcomes =
        Function.update round.outcomes row.name (some {}) := by
    intro other error same
    obtain ⟨rfl, outcomes⟩ := checked other error same
    rw [rowChecked, rowCalled]
    rcases plain.runner with runner | runner
    · rw [runner]
      exact returned other _ outcomes
    · rw [runner]
      exact returned other _ outcomes
  rw [runRow, if_pos asks]
  cases row.needsClone with
  | false => exact next _ _ rfl
  | true =>
    cases clone : round.clone with
    | made => exact next _ _ rfl
    | lost error => exact absurd clone (smooth.clone error)
    | unmade => exact next _ _ rfl

theorem plain_smooth (notStamp : row.name ≠ dueStamp) (plain : Plain (job.answers row.name))
    (smooth : Smooth round) (asks : round.asks job row t = true) : Smooth (runRow job row round t).2.1 := by
  have stepped : Stepped job row (fateOf job row round t) round t (runRow job row round t) :=
    runRow_stepped notStamp
  rw [plain_ran plain smooth asks] at stepped
  constructor
  · rw [stepped.failed, Fate.error, plain.failure, smooth.failed]
    rfl
  · intro error lost
    cases needs : row.needsClone with
    | false =>
      rw [(stepped.unasked (.inl (by rw [needs]; rfl))).2] at lost
      exact smooth.clone error lost
    | true =>
      cases clone : round.clone with
      | unmade =>
        rw [(stepped.asked (by rw [needs]; rfl) clone).2, cloneOf, plain.checkout] at lost
        cases lost
      | made =>
        rw [(stepped.unasked (.inr (by rw [clone]; exact Clone.noConfusion))).2] at lost
        exact smooth.clone error lost
      | lost held => exact smooth.clone held clone

end Plain

/-- Rows that are all plain, and of which the ledger suspends none, run as they are simulated. -/
theorem executeRows_plain (job : Job) (rows : List DueRow) (round : Round) (t : Records limit)
    (distinct : (names rows).Nodup) (unstamped : dueStamp ∉ names rows)
    (plain : ∀ row ∈ rows, Plain (job.answers row.name))
    (allowed : ∀ row ∈ rows, (t.row job.repo row.name).2.suspended limit (job.inputs row.name) = false)
    (smooth : Smooth round) :
    (executeRows job rows round t).1.failed = [] ∧
      (executeRows job rows round t).1.succeeded =
        round.succeeded ++ simulateRows job.due rows round.outcomes := by
  induction rows generalizing round t with
  | nil => exact ⟨smooth.failed, (List.append_nil _).symm⟩
  | cons row rows ih =>
    rw [names_cons, List.nodup_cons] at distinct
    rw [names_cons, List.mem_cons, not_or] at unstamped
    have own_plain := plain row List.mem_cons_self
    have later_plain : ∀ row ∈ rows, Plain (job.answers row.name) :=
      fun later member => plain later (List.mem_cons_of_mem _ member)
    have own_allowed : t.ledger.suspended job.repo row.name (job.inputs row.name) = false := by
      rw [FailureLedger.suspended_held]
      exact allowed row List.mem_cons_self
    have asks : round.asks job row t =
        (job.due row.name || row.crossJobPredicate.any (· round.outcomes)) := by
      rw [Round.asks, own_allowed, Bool.not_false, Bool.and_true]
    rw [executeRows, simulateRows]
    cases due : job.due row.name || row.crossJobPredicate.any (· round.outcomes) with
    | false =>
      rw [runRow, if_neg (by rw [asks, due]; exact Bool.false_ne_true), if_neg Bool.false_ne_true]
      exact ih round t distinct.2 unstamped.2 later_plain
        (fun later member => allowed later (List.mem_cons_of_mem _ member)) smooth
    | true =>
      have asked : round.asks job row t = true := asks.trans due
      have outcomes := plain_outcomes own_plain smooth asked
      have next_smooth := plain_smooth (Ne.symm unstamped.1) own_plain smooth asked
      have stepped : Stepped job row (fateOf job row round t) round t (runRow job row round t) :=
        runRow_stepped (Ne.symm unstamped.1)
      rw [plain_ran own_plain smooth asked] at stepped
      rw [if_pos rfl]
      generalize runRow job row round t = result at stepped outcomes next_smooth ⊢
      obtain ⟨go, round', t'⟩ := result
      have goes : go = true := by
        have goes := stepped.goes
        rw [Fate.refused, own_plain.failure] at goes
        exact goes
      have returns : (job.answers row.name).returns = true := by
        rw [Answer.returns]
        rcases own_plain.runner with same | same <;> rw [same]
      have succeeded : round'.succeeded = round.succeeded ++ [row.name] := by
        rw [stepped.succeeded, returns]
        rfl
      have later_allowed : ∀ later ∈ rows,
          (t'.row job.repo later.name).2.suspended limit (job.inputs later.name) = false := by
        intro later member
        rw [stepped.others job.repo later.name fun _ => ⟨?_, ?_⟩]
        · exact allowed later (List.mem_cons_of_mem _ member)
        · exact fun same => distinct.1 (same ▸ List.mem_map_of_mem member)
        · exact fun same => unstamped.2 (same ▸ List.mem_map_of_mem member)
      rw [goes]
      have rest := ih round' t' distinct.2 unstamped.2 later_plain later_allowed next_smooth
      refine ⟨rest.1, ?_⟩
      rw [rest.2, succeeded, outcomes, List.append_assoc]
      rfl

theorem fresh_allowed {ledger : FailureLedger limit} {repo name : String}
    (fresh : ledger.holdsFailure repo name = false) (current : String) :
    (ledger.held (repo, name)).suspended limit current = false := by
  rw [FailureLedger.holdsFailure_held, Option.isSome_eq_false_iff, Option.isNone_iff_eq_none] at fresh
  rw [RowHeld.suspended, fresh]
  rfl

theorem fresh_stamps {rows : List DueRow} {ledger : FailureLedger limit} {repo : String}
    (fresh : ∀ row ∈ rows, ledger.holdsFailure repo row.name = false) (due : String → Bool)
    (schedule : RefineDue.Schedule) (batch : List RefineDue.TriggerKey)
    (commentsSince : Option Int → Except Exc (List Comment)) :
    personCommentStamps rows due schedule ledger batch repo commentsSince = .ok fun _ => none := by
  have none_ : rows.filter (fun row => (due row.name || row.crossJobPredicate.isSome) &&
      ledger.holdsFailure repo row.name) = [] := by
    rw [List.filter_eq_nil_iff]
    intro row member
    rw [fresh row member, Bool.and_false]
    exact Bool.false_ne_true
  rw [personCommentStamps, none_]
  exact if_pos (by simp)

section Judged
variable {digest : RoundInput → String} {rows : List DueRow} {call : Call} {s : Records limit}

theorem judge_unread {error : Exc}
    (busy : ¬(call.batch.isEmpty && !(names rows).any
      (initiallyDue rows (s.schedules call.repo) ⟨call.batch, [], call.now⟩)) = true)
    (unread : fetchChanges rows (s.schedules call.repo) call = .error error) :
    judge digest rows call s = .inl (.error (.read error)) := by
  rw [judge, if_neg busy, unread]

theorem judge_read {changes : List RefineDue.Change}
    (busy : ¬(call.batch.isEmpty && !(names rows).any
      (initiallyDue rows (s.schedules call.repo) ⟨call.batch, [], call.now⟩)) = true)
    (read : fetchChanges rows (s.schedules call.repo) call = .ok changes) :
    judge digest rows call s = judgeChanges digest rows call s changes := by
  rw [judge, if_neg busy, read]

theorem judgeChanges_stamped {changes : List RefineDue.Change} {stamps : String → Option Int}
    (busy : ¬(!(names rows).any
      (initiallyDue rows (s.schedules call.repo) ⟨call.batch, changes, call.now⟩)) = true)
    (wet : call.dryRun = false)
    (stamped : personCommentStamps rows
      (initiallyDue rows (s.schedules call.repo) ⟨call.batch, changes, call.now⟩)
      (s.schedules call.repo) s.ledger call.batch call.repo call.commentsSince = .ok stamps) :
    judgeChanges digest rows call s changes = .inr ⟨call.repo, call.lane, call.now,
      initiallyDue rows (s.schedules call.repo) ⟨call.batch, changes, call.now⟩,
      fun name => digest (roundInput ⟨call.batch, changes, call.now⟩ (laneReadsChanges rows) (stamps name)),
      call.answers⟩ := by
  rw [judgeChanges, if_neg busy, wet, if_neg Bool.false_ne_true, stamped]

end Judged

/-- The dry run of a call names the rows that the call runs and changes nothing, where the ledger
    holds no failure of the table and each row that runs is plain. -/
theorem dry_run_names (digest : RoundInput → String) (rows : List DueRow) (call : Call)
    (s : Records limit) (distinct : (names rows).Nodup) (unstamped : dueStamp ∉ names rows)
    (fresh : ∀ row ∈ rows, s.ledger.holdsFailure call.repo row.name = false)
    (plain : ∀ row ∈ rows, Plain (call.answers row.name)) :
    runDueJobs digest rows { call with dryRun := true } s =
      ((runDueJobs digest rows { call with dryRun := false } s).1, s) := by
  have ends : ∀ result, judge digest rows { call with dryRun := true } s = .inl result →
      (judge digest rows { call with dryRun := false } s = .inl result ∨
        ∃ job, judge digest rows { call with dryRun := false } s = .inr job ∧
          (executeDueRows job rows s).1.mapError .rows = result) →
      runDueJobs digest rows { call with dryRun := true } s =
        ((runDueJobs digest rows { call with dryRun := false } s).1, s) := by
    intro result dry wet
    rw [runDueJobs, runDueJobs, dry]
    rcases wet with wet | ⟨job, wet, same⟩
    · rw [wet]
    · rw [wet, ← same]
  by_cases quiet : (call.batch.isEmpty && !(names rows).any
      (initiallyDue rows (s.schedules call.repo) ⟨call.batch, [], call.now⟩)) = true
  · exact ends (.ok []) (if_pos quiet) (.inl (if_pos quiet))
  cases fetched : fetchChanges rows (s.schedules call.repo) call with
  | error error =>
    have unread : ∀ dry, judge digest rows { call with dryRun := dry } s = .inl (.error (.read error)) :=
      fun dry => judge_unread quiet fetched
    exact ends (.error (.read error)) (unread true) (.inl (unread false))
  | ok changes =>
    have past : ∀ dry, judge digest rows { call with dryRun := dry } s =
        judgeChanges digest rows { call with dryRun := dry } s changes :=
      fun dry => judge_read quiet fetched
    let due := initiallyDue rows (s.schedules call.repo) ⟨call.batch, changes, call.now⟩
    by_cases idle : (!(names rows).any due) = true
    · exact ends (.ok []) ((past true).trans (if_pos idle)) (.inl ((past false).trans (if_pos idle)))
    · have dry : judge digest rows { call with dryRun := true } s = .inl (.ok (simulateDryRun rows due)) := by
        rw [past]
        exact (if_neg idle).trans (if_pos rfl)
      let job : Job := ⟨call.repo, call.lane, call.now, due, fun _ =>
        digest (roundInput ⟨call.batch, changes, call.now⟩ (laneReadsChanges rows) none), call.answers⟩
      have wet : judge digest rows { call with dryRun := false } s = .inr job := by
        rw [past]
        exact judgeChanges_stamped idle rfl (fresh_stamps fresh ..)
      have runs := executeRows_plain job rows {} s distinct unstamped plain
        (fun row member => fresh_allowed (fresh row member) _) ⟨rfl, fun _ => Clone.noConfusion⟩
      refine ends _ dry (.inr ⟨job, wet, ?_⟩)
      have result : (executeDueRows job rows s).1 = .ok (simulateDryRun rows due) := by
        change Round.result (executeRows job rows {} s).1 = _
        rw [Round.result, if_pos runs.1, runs.2]
        rfl
      rw [result]
      rfl

def firstCall : Call where
  repo := "o/r"
  batchCounts := []
  now := 0
  changesSince _ := .ok []
  commentsSince _ := .ok []
  answers _ := {}

theorem firstCall_plain (name : String) : Plain (firstCall.answers name) := ⟨rfl, .inl rfl, rfl⟩

theorem dry_run_names_default :
    runDueJobs (fun _ => "") (defaultDueTable false) { firstCall with dryRun := true } noRecords =
      ((runDueJobs (fun _ => "") (defaultDueTable false) { firstCall with dryRun := false } noRecords).1,
        noRecords) :=
  dry_run_names (fun _ => "") (defaultDueTable false) firstCall noRecords (defaultDueTable_distinct false)
    (defaultDueTable_unstamped false) (fun _ _ => rfl) fun row _ => firstCall_plain row.name

end DevopsCli.Roadmap.Rounds
