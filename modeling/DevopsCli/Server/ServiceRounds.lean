import DevopsCli.Roadmap.DryRound
import DevopsCli.Server.ServiceHalt

/- The Service of the roadmap, commands/serve.py: its workers run the due table. A trigger that the
   Service took ends each row that names it, and a row whose identity GitHub refused ends the rounds
   of every lane. -/
namespace DevopsCli.Server.Manager
open Run Roadmap.Rounds

/-- The error of a round whose rows failed: the errors of the report are its cause. -/
def roundError (failure : RunFailure) : Exc :=
  .single .runError (some (.group (failure.errors.map Prod.snd)))

def roadmapReaders : Readers Exc where
  endedByStop := Exc.endedByStop
  refusal error := some error.identityRefused
  reader _ := some none

section Refusal
variable {limit : Nat} {job : Job} {rows ended : List DueRow} {records records' : Records limit}
  {round : Round}

theorem anyRefused_of_mem {error : Exc} {errors : List Exc} (member : error ∈ errors)
    (refused : error.identityRefused = true) : Exc.anyRefused errors = true := by
  induction errors with
  | nil => cases member
  | cons other errors ih =>
    rw [Exc.anyRefused, Bool.or_eq_true]
    rcases List.mem_cons.mp member with rfl | later
    · exact .inl refused
    · exact .inr (ih later)

theorem refused_row_raises (law : RoundLaw job rows records round records' ended) {row : DueRow}
    (member : row ∈ ended) (refused : refusedAt job (asksClone ended) row = true) :
    ∃ failure, round.result = .error failure ∧ (roundError failure).identityRefused = true := by
  rw [refusedAt, Option.any_eq_true] at refused
  obtain ⟨error, own, refused⟩ := refused
  have failed : row.name ∈ round.failed := by
    rw [law.failed]
    refine List.mem_map_of_mem (List.mem_filter.mpr ⟨member, ?_⟩)
    rw [own]
    rfl
  refine ⟨⟨round.failed, round.errors⟩, if_neg (List.ne_nil_of_mem failed), ?_⟩
  obtain ⟨entry, entry_mem, named⟩ := List.mem_flatMap.mp (law.reported.mem_iff.mpr failed)
  have same : error = entry.2 := Option.some.inj (own.symm.trans (law.named entry entry_mem row member named))
  change (Kind.runError == .unauthenticated || Exc.anyRefused (round.errors.map Prod.snd)) = true
  rw [Bool.or_eq_true]
  exact .inr (anyRefused_of_mem (List.mem_map_of_mem entry_mem) (same ▸ refused))

variable {R L : Type} [DecidableEq R] [DecidableEq L] {config : Config R L Exc}

/-- Once the pause read the error of a round in which GitHub refused the identity of a row, each
    worker of the Service takes no more work than what its look was waved on to take before, in this
    process and in each that finds the record. -/
theorem refused_row_holds_lanes (reads : config.readers = roadmapReaders)
    (now : Int) (record : Bool) (events more : List (Event R L Exc)) (s t : State R L Exc)
    (run : exec (step config) (start config now record) events = some s)
    (later : exec (step config) s more = some t) (keeps : Meets (step config) (KeepsHalt config) s more)
    (job : Job) (rows : List DueRow) (records : Records limit) (distinct : (names rows).Nodup)
    (unstamped : Roadmap.RefineDue.dueStamp ∉ names rows) (failure : RunFailure)
    (raised : (executeDueRows job rows records).1 = .error failure)
    (reported : roundError failure ∈ s.shared.reports) :
    ∃ ended, RoundLaw job rows records (executeRows job rows {} records).1
        (executeDueRows job rows records).2 ended ∧
      ((∃ row ∈ ended, refusedAt job (asksClone ended) row = true) →
        (roundError failure).identityRefused = true ∧
        ∃ new, t.shared.handed = s.shared.handed ++ new ∧
          ∀ c, (new.filter fun entry => decide (entry.lane = c)).length ≤
            (waved (s.lanes c).phase).toNat) := by
  obtain ⟨ended, law⟩ := executeRows_law job rows records distinct unstamped
  refine ⟨ended, law, fun ⟨row, member, refused⟩ => ?_⟩
  obtain ⟨own, own_raised, refuses⟩ := refused_row_raises law member refused
  obtain rfl : failure = own := Except.error.inj (raised.symm.trans own_raised)
  have barred : ∀ at_, bars config.readers s.shared.reports at_ = true := by
    intro at_
    rw [bars, List.any_eq_true]
    refine ⟨roundError failure, reported, ?_⟩
    rw [errorBars, reads]
    simp only [roadmapReaders, refuses]
  obtain ⟨new, split, counts⟩ := (run_holding run later keeps).2.took
  refine ⟨refuses, new, split, fun c => ?_⟩
  have all := counts c
  simp only [barred, Bool.and_true] at all
  exact (Nat.le_add_right _ _).trans all

def refusedJob : Job where
  repo := "o/r"
  lane := some "triage"
  now := 0
  due _ := true
  inputs _ := ""
  answers _ := { runner := .error (.single .unauthenticated none) }

def refusedFailure : RunFailure :=
  match (executeDueRows refusedJob (triageLaneRows false) (noRecords : Records 3)).1 with
  | .ok _ => ⟨[], []⟩
  | .error failure => failure

theorem refused_row_holds_lanes_intake : ∃ s t : State String Bool Exc,
    exec (step (twoLanes roadmapReaders)) (start (twoLanes roadmapReaders) 0 false)
      (refused (roundError refusedFailure)) = some s ∧
    exec (step (twoLanes roadmapReaders)) s halted = some t ∧
    ∃ new, t.shared.handed = s.shared.handed ++ new ∧
      ∀ c, (new.filter fun entry => decide (entry.lane = c)).length ≤ (waved (s.lanes c).phase).toNat := by
  have reached : (exec (step (twoLanes roadmapReaders)) (start (twoLanes roadmapReaders) 0 false)
      (refused (roundError refusedFailure))).map (fun s => (s.shared.reports,
        decide (Meets (step (twoLanes roadmapReaders)) (KeepsHalt (twoLanes roadmapReaders)) s halted),
        (exec (step (twoLanes roadmapReaders)) s halted).isSome)) =
          some ([roundError refusedFailure], true, true) := rfl
  obtain ⟨s, run, seen⟩ := Option.map_eq_some_iff.mp reached
  obtain ⟨reports, keeps, goes⟩ := Prod.mk.inj seen |>.imp_right Prod.mk.inj
  obtain ⟨t, later⟩ := Option.isSome_iff_exists.mp goes
  obtain ⟨ended, law, holds⟩ := refused_row_holds_lanes rfl 0 false
    (refused (roundError refusedFailure)) halted s t run later (of_decide_eq_true keeps) refusedJob
    (triageLaneRows false) (noRecords : Records 3) (by decide) (by decide) refusedFailure rfl
    (reports ▸ List.mem_singleton_self _)
  have member : (triageLaneRows false).head (List.cons_ne_nil _ _) ∈ ended :=
    (law.exactly [] _ [] rfl).mpr ⟨⟨.inl rfl, rfl⟩, fun _ none_ => absurd none_ List.not_mem_nil⟩
  exact ⟨s, t, run, later, (holds ⟨_, member, rfl⟩).2⟩

end Refusal
section Delivery
variable {limit : Nat}

theorem batch_of_tally {Key : Type} [DecidableEq Key] {counts : List (Key × Nat)} {key : Key}
    (held : 0 < tally counts key) : key ∈ (counts.filter fun entry => 0 < entry.2).map Prod.fst := by
  rw [tally] at held
  cases found : counts.lookup key with
  | none =>
    rw [found] at held
    cases held
  | some n =>
    rw [found] at held
    obtain ⟨front, back, rfl, -⟩ := List.lookup_eq_some_iff.mp found
    refine List.mem_map.mpr ⟨(key, n), List.mem_filter.mpr ⟨?_, decide_eq_true held⟩, rfl⟩
    simp

theorem due_of_batch {rows : List DueRow} {row : DueRow} (member : row ∈ rows)
    (schedule : Roadmap.RefineDue.Schedule) {reads : Roadmap.RefineDue.Reads} {key : TriggerKey}
    (asked : key ∈ row.batchKeys) (held : key ∈ reads.batch) :
    initiallyDue rows schedule reads row.name = true := by
  rw [initiallyDue, List.any_eq_true]
  refine ⟨row, member, ?_⟩
  have matches_ : Roadmap.RefineDue.batchMatches reads.batch row.toJobRow = true := by
    rw [Roadmap.RefineDue.batchMatches, List.any_eq_true]
    exact ⟨key, asked, decide_eq_true held⟩
  rw [beq_self_eq_true, Bool.true_and, Roadmap.RefineDue.isDue]
  simp only [matches_, Bool.or_true, if_true]

theorem judged_due (digest : RoundInput → String) {rows : List DueRow} (call : Roadmap.Rounds.Call)
    (records : Records limit) (wet : call.dryRun = false) {row : DueRow} (member : row ∈ rows)
    {key : TriggerKey} (asked : key ∈ row.batchKeys) (held : key ∈ call.batch) :
    (∃ error, judge digest rows call records = .inl (.error (.read error))) ∨
      ∃ job, judge digest rows call records = .inr job ∧ job.repo = call.repo ∧
        job.due row.name = true := by
  have due : ∀ changes, initiallyDue rows (records.schedules call.repo)
      ⟨call.batch, changes, call.now⟩ row.name = true :=
    fun changes => due_of_batch member _ asked held
  have busy : ∀ changes, (names rows).any (initiallyDue rows (records.schedules call.repo)
      ⟨call.batch, changes, call.now⟩) = true :=
    fun changes => List.any_eq_true.mpr ⟨row.name, List.mem_map_of_mem member, due changes⟩
  have loud : ¬(call.batch.isEmpty && !(names rows).any (initiallyDue rows (records.schedules call.repo)
      ⟨call.batch, [], call.now⟩)) = true := by
    rw [busy, Bool.not_true, Bool.and_false]
    exact Bool.false_ne_true
  cases fetched : fetchChanges rows (records.schedules call.repo) call with
  | error error => exact .inl ⟨error, judge_unread loud fetched⟩
  | ok changes =>
    have any_due : ¬(!(names rows).any (initiallyDue rows (records.schedules call.repo)
        ⟨call.batch, changes, call.now⟩)) = true := by
      rw [busy, Bool.not_true]
      exact Bool.false_ne_true
    rw [judge_read loud fetched]
    cases stamped : personCommentStamps rows (initiallyDue rows (records.schedules call.repo)
        ⟨call.batch, changes, call.now⟩) (records.schedules call.repo) records.ledger call.batch call.repo
        call.commentsSince with
    | error error =>
      refine .inl ⟨error, ?_⟩
      rw [judgeChanges, if_neg any_due, wet, if_neg Bool.false_ne_true, stamped]
    | ok stamps => exact .inr ⟨_, judgeChanges_stamped any_due wet stamped, rfl, due changes⟩

/-- The round of a call that judged a row as due: the row ends in it, unless the ledger suspends it or
    a refusal ended the round before. -/
structure Ends (digest : RoundInput → String) (rows : List DueRow) (call : Roadmap.Rounds.Call)
    (records : Records limit) (row : DueRow) (job : Job) (ended : List DueRow) : Prop where
  judged : judge digest rows call records = .inr job
  due : job.due row.name = true
  same : runDueJobs digest rows call records =
    ((executeRows job rows {} records).1.result.mapError .rows, (executeRows job rows {} records).2)
  law : RoundLaw job rows records (executeRows job rows {} records).1
    (executeRows job rows {} records).2 ended
  ends : row ∈ ended ∨ records.ledger.suspended call.repo row.name (job.inputs row.name) = true ∨
    ∃ earlier ∈ ended, refusedAt job (asksClone ended) earlier = true

/-- What a call with a trigger does with a row that names it: a read of the store raises, or the row
    ends in the round, unless it is suspended or a refusal ended the round before. -/
theorem named_row_ends (digest : RoundInput → String) (rows : List DueRow) (call : Roadmap.Rounds.Call)
    (records : Records limit) (wet : call.dryRun = false) (distinct : (names rows).Nodup)
    (unstamped : Roadmap.RefineDue.dueStamp ∉ names rows) {row : DueRow} (member : row ∈ rows)
    {key : TriggerKey} (asked : key ∈ row.batchKeys) (held : key ∈ call.batch) :
    (∃ error, runDueJobs digest rows call records = (.error (.read error), records)) ∨
      ∃ job ended, Ends digest rows call records row job ended := by
  rcases judged_due digest call records wet member asked held with ⟨error, judged⟩ | ⟨job, judged, own_repo, due⟩
  · refine .inl ⟨error, ?_⟩
    rw [runDueJobs, judged]
  · obtain ⟨ended, law⟩ := executeRows_law job rows records distinct unstamped
    have same : runDueJobs digest rows call records =
        ((executeRows job rows {} records).1.result.mapError .rows,
          (executeRows job rows {} records).2) := by
      rw [runDueJobs, judged]
      rfl
    refine .inr ⟨job, ended, judged, due, same, law, ?_⟩
    obtain ⟨before, rest, split⟩ := List.append_of_mem member
    by_cases inside : row ∈ ended
    · exact .inl inside
    by_cases suspended : records.ledger.suspended call.repo row.name (job.inputs row.name) = true
    · exact .inr (.inl suspended)
    refine .inr (.inr ?_)
    by_contra none_
    refine inside ((law.exactly before row rest split).mpr ⟨⟨.inl due, ?_⟩, ?_⟩)
    · rw [own_repo]
      exact Bool.eq_false_iff.mpr suspended
    · intro earlier _ earlier_ended
      rw [Bool.eq_false_iff]
      exact fun refused => none_ ⟨earlier, earlier_ended, refused⟩

variable {R L E : Type} [DecidableEq R] [DecidableEq L] {config : Config R L E}

/-- A trigger that the Service took for a repository is with each of its lanes: with the loop, in the
    queue, or in a batch that the lane took; and then the call of the batch ends each row that names
    the trigger, unless a read raises, the row is suspended or a refusal ended the round before. -/
theorem delivered_trigger_runs_rows (now : Int) (record : Bool) (events : List (Event R L E))
    (s : State R L E) (run : exec (step config) (start config now record) events = some s)
    (repo : R) (managed : repo ∈ config.repos) (lane : L) (job : lane ∈ config.jobs) (key : TriggerKey)
    (accepted : (repo, key) ∈ s.accepted) :
    0 < toDeliver s repo lane key ∨ 0 < tally (s.lanes (repo, lane)).worker.pendingCounts key ∨
      ∃ batch, .batch batch ∈ (s.lanes (repo, lane)).worker.handed ∧
        ∀ (digest : RoundInput → String) (rows : List DueRow) (call : Roadmap.Rounds.Call) (records : Records limit),
          call.batchCounts = batch.counts → call.dryRun = false → (names rows).Nodup →
          Roadmap.RefineDue.dueStamp ∉ names rows → ∀ row ∈ rows, key ∈ row.batchKeys →
          (∃ error, runDueJobs digest rows call records = (.error (.read error), records)) ∨
            ∃ job ended, Ends digest rows call records row job ended := by
  have counts := (triggers_reach_lanes now record events s run repo managed lane job).1 key
  have positive : 0 < s.accepted.count (repo, key) := List.count_pos_iff.mpr accepted
  by_cases with_loop : 0 < toDeliver s repo lane key
  · exact .inl with_loop
  by_cases pending : 0 < tally (s.lanes (repo, lane)).worker.pendingCounts key
  · exact .inr (.inl pending)
  refine .inr (.inr ?_)
  have handed : 0 < ((s.lanes (repo, lane)).worker.handed.map (Work.triggers key)).sum := by omega
  obtain ⟨n, n_mem, n_pos⟩ : ∃ n ∈ (s.lanes (repo, lane)).worker.handed.map (Work.triggers key), 0 < n := by
    by_contra none_
    refine absurd (List.sum_eq_zero fun n member => ?_) handed.ne'
    exact Nat.eq_zero_of_not_pos fun positive => none_ ⟨n, member, positive⟩
  obtain ⟨work, member, rfl⟩ := List.mem_map.mp n_mem
  cases work with
  | task arrival => cases n_pos
  | batch batch =>
    refine ⟨batch, member, fun digest rows call records same wet distinct unstamped row row_mem asked => ?_⟩
    refine named_row_ends digest rows call records wet distinct unstamped row_mem asked ?_
    rw [Roadmap.Rounds.Call.batch, same]
    exact batch_of_tally n_pos

def pushRows : List DueRow := [{ name := "intake", batchKeys := [push] }]

def pushCall (counts : List (TriggerKey × Nat)) : Roadmap.Rounds.Call where
  repo := "o/r"
  batchCounts := counts
  now := 0
  changesSince _ := .ok []
  commentsSince _ := .ok []
  answers _ := {}

theorem delivered_trigger_runs_rows_push : ∃ (s : State String Bool Unit) (batch : TriggerBatch),
    exec (step (twoLanes refusals)) (start (twoLanes refusals) 0 false) pushed = some s ∧
      .batch batch ∈ (s.lanes ("o/r", true)).worker.handed ∧
      ((∃ error, runDueJobs (fun _ => "") pushRows (pushCall batch.counts) (noRecords : Records 3) =
        (.error (.read error), noRecords)) ∨
        ∃ job ended, Ends (fun _ => "") pushRows (pushCall batch.counts) (noRecords : Records 3)
          (pushRows.head (List.cons_ne_nil _ _)) job ended) := by
  have reached : (exec (step (twoLanes refusals)) (start (twoLanes refusals) 0 false) pushed).any (fun s =>
      decide (("o/r", push) ∈ s.accepted) && toDeliver s "o/r" true push == 0 &&
        tally (s.lanes ("o/r", true)).worker.pendingCounts push == 0) = true := by decide
  obtain ⟨s, run, seen⟩ := (Option.any_eq_true _ _).mp reached
  rw [Bool.and_eq_true, Bool.and_eq_true, decide_eq_true_eq, beq_iff_eq, beq_iff_eq] at seen
  obtain ⟨⟨accepted, with_loop⟩, pending⟩ := seen
  rcases delivered_trigger_runs_rows 0 false pushed s run "o/r" (by decide) true (by decide) push accepted with
    more | more | ⟨batch, member, rows_end⟩
  · exact absurd more (with_loop ▸ Nat.lt_irrefl 0)
  · exact absurd more (pending ▸ Nat.lt_irrefl 0)
  · exact ⟨s, batch, run, member, rows_end (fun _ => "") pushRows (pushCall batch.counts) noRecords rfl rfl
      (by decide) (by decide) _ List.mem_cons_self (List.mem_singleton_self push)⟩

end Delivery
end DevopsCli.Server.Manager
