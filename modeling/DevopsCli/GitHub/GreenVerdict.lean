import DevopsCli.GitHub.CheckVerdict

/- When a green verdict means green checks, for any check runs and any status reply. -/
namespace DevopsCli.GitHub.CheckVerdict
open PyStr

variable {F : Type}

def CheckBucket.Passes (bucket : CheckBucket) : Prop := bucket = .pass ∨ bucket = .skipping

section Green
variable (python : Python F)

def conclusionBucket (run : Json.Members F) : Option CheckBucket :=
  bucketOf (normalizeToken python (get run "conclusion"))

def statusBucket (run : Json.Members F) : Option CheckBucket :=
  bucketOf (normalizeToken python (get run "status"))

def stateBucket (status : Json.Members F) : Option CheckBucket :=
  bucketOf (normalizeToken python (some (.str (textOr python (get status "state") ""))))

def LaterStarted (other run : Json.Members F) : Prop :=
  runName python other = runName python run ∧ runStarted python run < runStarted python other

/-- A cancelled run beside a later-started run of the same name and app. -/
def Replaced (entries : List (Json F)) (run : Json.Members F) : Prop :=
  isCancelled python run = true ∧ ∃ other, .obj other ∈ entries ∧ LaterStarted python other run ∧
    get other "app" = get run "app"

def contexts (reply : Json.Members F) : Nat :=
  ((statusList reply).filterMap (parseSingleStatusItem python)).length

structure Green (entries : List (Json F)) (reply : Json.Members F) : Prop where
  some_ : entries ≠ [] ∨ statusList reply ≠ []
  runs : ∀ entry ∈ entries, ∃ run, entry = .obj run ∧
    ((∃ bucket, conclusionBucket python run = some bucket ∧ bucket.Passes) ∨
      Replaced python entries run)
  statuses : ∀ status, .obj status ∈ statusList reply → stateBucket python status = some .pass
  counted : ∀ total, totalCount python (get reply "total_count") (contexts python reply) = .ok total →
    contexts python reply < total → combinedState python reply = "success".toList

def knownStates : List Str :=
  ["success".toList, "failure".toList, "error".toList, "pending".toList]

def kept (entries : List (Json F)) : List (Json.Members F) :=
  withoutReplacedCancellations python (entries.filterMap isObject)

/-- No entry is left out: each is an object, each cancelled run that a later one of its name replaces
    is replaced by one of its app, no run is judged by its status for want of a conclusion, no
    context is skipped, and the contexts that are not listed have a known state. -/
structure NothingHidden (entries : List (Json F)) (reply : Json.Members F) : Prop where
  objects : ∀ entry ∈ entries, ∃ run, entry = .obj run
  replaced : ∀ run other, .obj run ∈ entries → isCancelled python run = true →
    .obj other ∈ entries → LaterStarted python other run → Replaced python entries run
  concluded : ∀ run ∈ kept python entries, conclusionBucket python run = none →
    ∀ bucket, statusBucket python run = some bucket → ¬bucket.Passes
  states : ∀ status, .obj status ∈ statusList reply → stateBucket python status ≠ some .skipping
  counted : ∀ total, totalCount python (get reply "total_count") (contexts python reply) = .ok total →
    contexts python reply < total → combinedState python reply ∈ knownStates

def runBucket (run : Json.Members F) : CheckBucket :=
  (resolveBucket (normalizeToken python none) (normalizeToken python (get run "conclusion"))
    (normalizeToken python (get run "status"))).1

def AppReads (run : Json.Members F) : Prop := ∀ app, get run "app" = some app → ∃ members, app = .obj members

/-- All that is read passes: each judged run, each listed context, and the state of the others. -/
structure ReadPasses (entries : List (Json F)) (reply : Json.Members F) : Prop where
  some_ : kept python entries ≠ [] ∨ ∃ status, .obj status ∈ statusList reply
  runs : ∀ run ∈ kept python entries, AppReads run ∧ (runBucket python run).Passes
  statuses : ∀ status, .obj status ∈ statusList reply →
    ∃ bucket, stateBucket python status = some bucket ∧ bucket.Passes
  counted : ∃ total, totalCount python (get reply "total_count") (contexts python reply) = .ok total ∧
    (contexts python reply < total →
      combinedState python reply ∉ ["failure".toList, "error".toList, "pending".toList])

end Green

section Classify
variable {python : Python F} {bucket : CheckBucket}

theorem bucketOf_running {token : Str} (listed : token ∈ running) : bucketOf token = some .pending := by
  simp only [running, List.mem_cons, List.not_mem_nil, or_false] at listed
  rcases listed with rfl | rfl | rfl | rfl | rfl <;> decide

/-- Where no bucket is given, a running status is pending, and otherwise the conclusion is judged
    before the status. -/
theorem resolveBucket_eq (conclusion status : Str) :
    (resolveBucket [] conclusion status).1 =
      if status ∈ running then .pending
      else ((bucketOf conclusion).or (bucketOf status)).getD .unread := by
  have none_ : bucketOf [] = none := by decide
  rw [resolveBucket, none_]
  dsimp only
  split_ifs
  · rfl
  · cases bucketOf conclusion with
    | some found => rfl
    | none =>
      cases bucketOf status with
      | some found => rfl
      | none => rfl

theorem runBucket_passes {run : Json.Members F} :
    (runBucket python run).Passes ↔
      normalizeToken python (get run "status") ∉ running ∧ ∃ bucket,
        (conclusionBucket python run).or (statusBucket python run) = some bucket ∧ bucket.Passes := by
  rw [runBucket, show normalizeToken python none = [] from rfl, resolveBucket_eq]
  split_ifs with running_
  · simp [CheckBucket.Passes, running_]
  · rw [conclusionBucket, statusBucket]
    cases (bucketOf (normalizeToken python (get run "conclusion"))).or
        (bucketOf (normalizeToken python (get run "status"))) with
    | none => simp [CheckBucket.Passes]
    | some found => simp [running_]

theorem classify_run (name workflow link : Str) (conclusion status : Option (Json F)) :
    (classifyCheckItem python name none none conclusion status workflow link).bucket =
      (resolveBucket (normalizeToken python none) (normalizeToken python conclusion)
        (normalizeToken python status)).1 := by
  cases status with
  | none => rfl
  | some value => cases value <;> rfl

theorem checkRun_ok {run : Json.Members F} :
    (∃ item, checkRunDictToItem python run = .ok item) ↔ AppReads run := by
  rw [checkRunDictToItem, AppReads]
  cases app : get run "app" with
  | none => simp [bind, Except.bind, pure, Except.pure]
  | some value => cases value <;> simp [bind, Except.bind, pure, Except.pure]

theorem checkRun_bucket {run : Json.Members F} {item : PRCheckItem}
    (read : checkRunDictToItem python run = .ok item) : item.bucket = runBucket python run := by
  rw [checkRunDictToItem] at read
  cases app : get run "app" with
  | none =>
    rw [app] at read
    cases read
    exact classify_run _ _ _ _ _
  | some value =>
    rw [app] at read
    cases value with
    | obj members =>
      cases read
      exact classify_run _ _ _ _ _
    | _ => cases read

theorem checkRuns_ok {runs : List (Json.Members F)} :
    (∃ items, runs.mapM (checkRunDictToItem python) = .ok items) ↔ ∀ run ∈ runs, AppReads run := by
  induction runs with
  | nil => simp [pure, Except.pure]
  | cons run rest ih =>
    rw [List.mapM_cons, List.forall_mem_cons, ← ih, ← @checkRun_ok F python]
    cases checkRunDictToItem python run with
    | error raised => simp [bind, Except.bind]
    | ok item =>
      cases rest.mapM (checkRunDictToItem python) with
      | error raised => simp [bind, Except.bind]
      | ok items => simp [bind, Except.bind, pure, Except.pure]

theorem checkRuns_buckets {runs : List (Json.Members F)} {items : List PRCheckItem}
    (read : runs.mapM (checkRunDictToItem python) = .ok items) :
    items.map PRCheckItem.bucket = runs.map (runBucket python) := by
  induction runs generalizing items with
  | nil =>
    cases read
    rfl
  | cons run rest ih =>
    rw [List.mapM_cons] at read
    cases own : checkRunDictToItem python run with
    | error raised =>
      rw [own] at read
      cases read
    | ok item =>
      cases others : rest.mapM (checkRunDictToItem python) with
      | error raised =>
        rw [own, others] at read
        cases read
      | ok later =>
        rw [own, others] at read
        cases read
        rw [List.map_cons, List.map_cons, checkRun_bucket own, ih others]

theorem stateItem_bucket {status : Json.Members F} {item : PRCheckItem}
    (read : parseSingleStatusItem python (.obj status) = some item) :
    item.bucket = (stateBucket python status).getD .unread := by
  cases read
  show (resolveBucket [] [] (normalizeToken python
    (some (.str (textOr python (get status "state") ""))))).1 = _
  rw [resolveBucket_eq, stateBucket, show bucketOf [] = none by decide, Option.none_or]
  split_ifs with running_
  · rw [bucketOf_running running_]
    rfl
  · rfl

theorem combinedStatus_blocks {state : Str}
    (bad : state ∈ ["failure".toList, "error".toList, "pending".toList]) :
    ¬(combinedStatus python state).bucket.Passes := by
  have plain (text : Str) (stripped : strip text = text) (small : text.all Char.isLower = true) :
      normalizeToken python (some (.str text)) = text := by
    show python.lower (strip text) = text
    rw [stripped, python.lower_small text small]
  have token : normalizeToken python (some (.str state)) = state := by
    simp only [List.mem_cons, List.not_mem_nil, or_false] at bad
    rcases bad with rfl | rfl | rfl
    all_goals exact plain _ (by decide) (by decide)
  have bucket : (combinedStatus python state).bucket =
      (resolveBucket [] [] (normalizeToken python (some (.str state)))).1 := rfl
  rw [bucket, token]
  simp only [List.mem_cons, List.not_mem_nil, or_false] at bad
  rcases bad with rfl | rfl | rfl
  all_goals
    rintro (pass | skip)
    · exact absurd pass (by decide)
    · exact absurd skip (by decide)

end Classify

section Runs
variable {python : Python F} {entries : List (Json F)} {run : Json.Members F}

theorem newest_later {runs : List (Json.Members F)} {name started : Str} :
    started < newest python runs name ↔
      ∃ other ∈ runs, runName python other = name ∧ started < runStarted python other := by
  have fold (start : Str → Str) : started < runs.foldl (fun newest run =>
        let name := runName python run
        let started := runStarted python run
        Function.update newest name (if newest name < started then started else newest name)) start name ↔
      started < start name ∨
        ∃ other ∈ runs, runName python other = name ∧ started < runStarted python other := by
    induction runs generalizing start with
    | nil => simp
    | cons first rest ih =>
      rw [List.foldl_cons, ih]
      by_cases own : runName python first = name
      · subst own
        simp only [Function.update_self, List.exists_mem_cons_iff, true_and]
        split_ifs with later
        · constructor
          · rintro (before | others)
            · exact .inr (.inl before)
            · exact .inr (.inr others)
          · rintro (before | before | others)
            · exact .inl (lt_trans before later)
            · exact .inl before
            · exact .inr others
        · constructor
          · rintro (before | others)
            · exact .inl before
            · exact .inr (.inr others)
          · rintro (before | before | others)
            · exact .inl before
            · exact .inl (lt_of_lt_of_le before (not_lt.mp later))
            · exact .inr others
      · simp only [Function.update_of_ne (Ne.symm own), List.exists_mem_cons_iff, own, false_and,
          false_or]
  rw [newest, fold]
  simp

theorem mem_objects : run ∈ entries.filterMap isObject ↔ .obj run ∈ entries := by
  rw [List.mem_filterMap]
  constructor
  · rintro ⟨entry, mem, object⟩
    cases entry <;> cases object
    exact mem
  · exact fun mem => ⟨_, mem, rfl⟩

theorem mem_kept :
    run ∈ kept python entries ↔ .obj run ∈ entries ∧
      (isCancelled python run = true → ∀ other, .obj other ∈ entries → ¬LaterStarted python other run) := by
  rw [kept, withoutReplacedCancellations, List.mem_filter, mem_objects]
  refine and_congr_right fun _ => ?_
  rw [Bool.or_eq_true, Bool.not_eq_true', Bool.not_eq_true', decide_eq_false_iff_not, newest_later]
  constructor
  · rintro (running_ | last) cancelled other mem later
    · rw [running_] at cancelled
      cases cancelled
    · exact last ⟨other, mem_objects.mpr mem, later.1, later.2⟩
  · intro last
    cases cancelled : isCancelled python run with
    | false => exact .inl rfl
    | true =>
      refine .inr ?_
      rintro ⟨other, mem, name, later⟩
      exact last cancelled other (mem_objects.mp mem) ⟨name, later⟩

variable {reply : Json.Members F}

theorem green_iff (passes : ReadPasses python entries reply) :
    Green python entries reply ↔ NothingHidden python entries reply := by
  constructor
  · intro green
    have uncancelled {run : Json.Members F} (cancelled : isCancelled python run = true) :
        ¬∃ bucket, conclusionBucket python run = some bucket ∧ bucket.Passes := by
      rintro ⟨bucket, concluded, pass⟩
      have own : conclusionBucket python run = some .cancel := of_decide_eq_true cancelled
      obtain rfl := Option.some.inj (own.symm.trans concluded)
      rcases pass with pass | pass <;> cases pass
    refine ⟨fun entry mem => ?_, fun run other mem cancelled _ _ => ?_, fun run judged none_ => ?_,
      fun status mem skipped => ?_, fun total count hidden => ?_⟩
    · obtain ⟨run, object, -⟩ := green.runs entry mem
      exact ⟨run, object⟩
    · obtain ⟨own, object, pass | replaced⟩ := green.runs _ mem
      · cases object
        exact absurd pass (uncancelled cancelled)
      · cases object
        exact replaced
    · obtain ⟨own, object, ⟨bucket, concluded, -⟩ | ⟨cancelled, -⟩⟩ :=
        green.runs _ (mem_kept.mp judged).1
      · cases object
        rw [none_] at concluded
        cases concluded
      · cases object
        have concluded : conclusionBucket python run = some .cancel := of_decide_eq_true cancelled
        rw [none_] at concluded
        cases concluded
    · rw [green.statuses status mem] at skipped
      cases skipped
    · rw [green.counted total count hidden]
      exact List.mem_cons_self
  · intro nothing
    refine ⟨?_, fun entry mem => ?_, fun status mem => ?_, fun total count hidden => ?_⟩
    · rcases passes.some_ with judged | ⟨status, mem⟩
      · left
        rintro rfl
        exact judged rfl
      · right
        intro none_
        rw [none_] at mem
        exact absurd mem List.not_mem_nil
    · obtain ⟨run, rfl⟩ := nothing.objects entry mem
      refine ⟨run, rfl, ?_⟩
      by_cases judged : run ∈ kept python entries
      · obtain ⟨-, bucket, found, pass⟩ := runBucket_passes.mp (passes.runs run judged).2
        cases concluded : conclusionBucket python run with
        | some own =>
          rw [concluded, Option.some_or] at found
          exact .inl ⟨bucket, found, pass⟩
        | none =>
          rw [concluded, Option.none_or] at found
          exact absurd pass (nothing.concluded run judged concluded bucket found)
      · rw [mem_kept] at judged
        push Not at judged
        obtain ⟨cancelled, other, listed, later⟩ := judged mem
        exact .inr (nothing.replaced run other mem cancelled listed later)
    · obtain ⟨bucket, found, pass | skipped⟩ := passes.statuses status mem
      · rw [found, pass]
      · rw [skipped] at found
        exact absurd found (nothing.states status mem)
    · obtain ⟨other, again, unknown⟩ := passes.counted
      obtain rfl := Except.ok.inj (count.symm.trans again)
      have known := nothing.counted total count hidden
      rcases List.mem_cons.mp known with success | bad
      · exact success
      · exact absurd bad (unknown hidden)

end Runs

section Verdict
variable {python : Python F} {summary : CheckVerdictSummary} {head : Str} {listing : Listing F}
  {reply : StatusReply F} {allow statuses : Bool}

theorem count_eq_zero {bucket : CheckBucket} :
    summary.count bucket = 0 ↔ ∀ item ∈ summary.items, item.bucket ≠ bucket := by
  rw [CheckVerdictSummary.count, List.countP_eq_zero]
  exact forall₂_congr fun item _ => by simp

theorem exitCode_zero :
    summary.exitCode = 0 ↔ summary.unreadReason = [] ∧ ∀ item ∈ summary.items, item.bucket.Passes := by
  have split : (∀ item ∈ summary.items, item.bucket.Passes) ↔ summary.count .unread = 0 ∧
      summary.count .fail = 0 ∧ summary.count .cancel = 0 ∧ summary.count .pending = 0 := by
    simp only [count_eq_zero, ← forall₂_and]
    refine forall₂_congr fun item _ => ?_
    cases bucket : item.bucket <;> simp [CheckBucket.Passes]
  rw [split, CheckVerdictSummary.exitCode]
  by_cases reason : summary.unreadReason = []
  · by_cases unread : summary.count .unread = 0
    · by_cases failed : summary.count .fail = 0
      · by_cases cancelled : summary.count .cancel = 0
        · by_cases pending : summary.count .pending = 0
          · simp [reason, unread, failed, cancelled, pending]
          · simp [reason, unread, failed, cancelled, pending, Nat.pos_of_ne_zero pending]
        · simp [failed, cancelled, Nat.pos_of_ne_zero cancelled]
      · simp [failed, Nat.pos_of_ne_zero failed]
    · simp [unread, Nat.pos_of_ne_zero unread]
  · simp [reason]

theorem named_eq_nil {items : List PRCheckItem} {buckets : List CheckBucket} :
    named items buckets = [] ↔ ∀ item ∈ items, item.bucket ∉ buckets := by
  rw [named, ← List.length_eq_zero_iff, List.length_mergeSort, List.length_map,
    List.length_eq_zero_iff, List.filter_eq_nil_iff]
  exact forall₂_congr fun item _ => by simp

theorem judgeSummary_blocks :
    (judgeSummary summary allow).blocking ≠ [] ↔
      summary.exitCode ≠ 0 ∧ ¬(allow = true ∧ summary.exitCode = 8) := by
  have failing : named summary.items [.fail, .cancel, .unread] = [] ↔
      summary.count .fail = 0 ∧ summary.count .cancel = 0 ∧ summary.count .unread = 0 := by
    simp only [named_eq_nil, count_eq_zero, ← forall₂_and]
    exact forall₂_congr fun item _ => by simp
  have running_ : named summary.items [.pending] = [] ↔ summary.count .pending = 0 := by
    simp only [named_eq_nil, count_eq_zero]
    exact forall₂_congr fun item _ => by simp
  rw [judgeSummary, CheckVerdictSummary.exitCode]
  by_cases reason : summary.unreadReason = []
  · simp only [reason, ne_eq, not_true_eq_false, if_false, decide_false, Bool.or_false]
    by_cases failed : named summary.items [.fail, .cancel, .unread] = []
    · obtain ⟨fail, cancel, unread⟩ := failing.mp failed
      by_cases pending : named summary.items [.pending] = []
      · simp [failed, pending, fail, cancel, unread, running_.mp pending]
      · have some_ := Nat.pos_of_ne_zero fun none_ => pending (running_.mpr none_)
        cases allow with
        | true => simp [failed, pending, fail, cancel, unread, some_]
        | false => simp [failed, pending, fail, cancel, unread, some_]
    · have bad : 0 < summary.count .unread ∨ 0 < summary.count .fail ∨ 0 < summary.count .cancel := by
        by_contra none_
        exact failed (failing.mpr (by omega))
      have code : (if decide (0 < summary.count .unread) = true then 1
          else if (decide (0 < summary.count .fail) || decide (0 < summary.count .cancel)) = true then 1
          else if 0 < summary.count .pending then 8 else 0) = 1 := by
        rcases bad with unread | fail | cancel
        · simp [unread]
        · simp [fail]
        · simp [cancel]
      rw [code]
      by_cases pending : named summary.items [.pending] = []
      · simp [failed, pending]
      · cases allow with
        | true => simp [failed, pending]
        | false => simp [failed, pending]
  · simp [reason]

variable {entries : List (Json F)} {members : Json.Members F}

theorem getD_passes {bucket : Option CheckBucket} :
    (bucket.getD .unread).Passes ↔ ∃ found, bucket = some found ∧ found.Passes := by
  cases bucket with
  | none => simp [CheckBucket.Passes]
  | some found => simp

theorem statusItems_pass :
    (∀ item ∈ (statusList members).filterMap (parseSingleStatusItem python), item.bucket.Passes) ↔
      ∀ status, .obj status ∈ statusList members →
        ∃ bucket, stateBucket python status = some bucket ∧ bucket.Passes := by
  constructor
  · intro all status mem
    have item := all _ (List.mem_filterMap.mpr ⟨_, mem, rfl⟩)
    rw [stateItem_bucket rfl] at item
    exact getD_passes.mp item
  · intro all item mem
    obtain ⟨entry, listed, read⟩ := List.mem_filterMap.mp mem
    cases entry with
    | obj status =>
      rw [stateItem_bucket read]
      exact getD_passes.mpr (all status listed)
    | _ => cases read

theorem statusItems_nil :
    (statusList members).filterMap (parseSingleStatusItem python) = [] ↔
      ¬∃ status, .obj status ∈ statusList members := by
  rw [List.filterMap_eq_nil_iff]
  constructor
  · rintro none_ ⟨status, mem⟩
    cases none_ _ mem
  · intro none_ entry mem
    cases entry with
    | obj status => exact absurd ⟨status, mem⟩ none_
    | _ => rfl

theorem combined_none {items : List PRCheckItem} {total : Int} {count : Nat} {state : Str}
    (pass : ∀ item ∈ items, item.bucket.Passes) :
    resolveCombinedStatusItem python total count state items = none ↔
      ((count : Int) < total → state ∉ ["failure".toList, "error".toList, "pending".toList]) := by
  have fail : items.any (fun item => item.bucket = .fail) = false := by
    rw [List.any_eq_false]
    intro item mem
    rcases pass item mem with own | own <;> simp [own]
  have pending : items.any (fun item => item.bucket = .pending) = false := by
    rw [List.any_eq_false]
    intro item mem
    rcases pass item mem with own | own <;> simp [own]
  rw [resolveCombinedStatusItem, fail, pending]
  by_cases listed : total ≤ count
  · simp [listed]
  · have hidden : (count : Int) < total := by omega
    simp only [listed, hidden, List.mem_cons, List.not_mem_nil, or_false, not_or, forall_const,
      if_false, Bool.false_eq_true]
    split_ifs with bad pending_
    · exact iff_of_false not_false fun none_ => bad.elim none_.1 none_.2.1
    · exact iff_of_false not_false fun none_ => none_.2.2 pending_
    · rw [not_or] at bad
      exact iff_of_true rfl ⟨bad.1, bad.2, pending_⟩

theorem combined_blocks {items : List PRCheckItem} {total : Int} {count : Nat} {state : Str}
    {item : PRCheckItem} (added : resolveCombinedStatusItem python total count state items = some item) :
    ¬item.bucket.Passes := by
  rw [resolveCombinedStatusItem] at added
  split_ifs at added with listed bad any_ pending
  · cases added
    refine combinedStatus_blocks ?_
    rcases bad with rfl | rfl
    · exact List.mem_cons_self
    · exact List.mem_cons_of_mem _ List.mem_cons_self
  · cases added
    exact combinedStatus_blocks (List.mem_cons_of_mem _ (List.mem_cons_of_mem _ List.mem_cons_self))

theorem synthesize_passes {checks statuses : List PRCheckItem} {combined : Option PRCheckItem} :
    (∀ item ∈ synthesizeCheckItems checks statuses combined, item.bucket.Passes) ↔
      (checks ≠ [] ∨ statuses ≠ [] ∨ combined ≠ none) ∧ (∀ item ∈ checks, item.bucket.Passes) ∧
        (∀ item ∈ statuses, item.bucket.Passes) ∧ ∀ item, combined = some item → item.bucket.Passes := by
  rw [synthesizeCheckItems]
  cases combined with
  | none =>
    by_cases none_ : checks ++ statuses = []
    · obtain ⟨rfl, rfl⟩ := List.append_eq_nil_iff.mp none_
      simp [CheckBucket.Passes]
    · have some_ : checks ≠ [] ∨ statuses ≠ [] := by
        by_contra both
        rw [not_or, not_not, not_not] at both
        exact none_ (by rw [both.1, both.2]; rfl)
      simp only [Option.toList_none, List.append_nil, none_, if_false, List.mem_append, or_imp,
        forall_and, reduceCtorEq, false_imp_iff, implies_true, and_true, ne_eq, not_true_eq_false,
        or_false]
      exact (and_iff_right some_).symm
  | some item =>
    simp [or_imp, forall_and]

theorem runs_pass {runs : List (Json.Members F)} {items : List PRCheckItem}
    (read : runs.mapM (checkRunDictToItem python) = .ok items) :
    (∀ item ∈ items, item.bucket.Passes) ↔ ∀ run ∈ runs, (runBucket python run).Passes := by
  have buckets : (∀ item ∈ items, item.bucket.Passes) ↔
      ∀ bucket ∈ items.map PRCheckItem.bucket, bucket.Passes := List.forall_mem_map.symm
  rw [buckets, checkRuns_buckets read]
  exact List.forall_mem_map

theorem runs_nil {runs : List (Json.Members F)} {items : List PRCheckItem}
    (read : runs.mapM (checkRunDictToItem python) = .ok items) : items = [] ↔ runs = [] := by
  have buckets := congrArg List.length (checkRuns_buckets read)
  rw [List.length_map, List.length_map] at buckets
  rw [← List.length_eq_zero_iff, buckets, List.length_eq_zero_iff]

theorem items_pass {items : List PRCheckItem} {total : Int}
    (read : (kept python entries).mapM (checkRunDictToItem python) = .ok items)
    (count : totalCount python (get members "total_count") (contexts python members) = .ok total) :
    (∀ item ∈ synthesizeCheckItems items ((statusList members).filterMap (parseSingleStatusItem python))
        (resolveCombinedStatusItem python total (contexts python members) (combinedState python members)
          ((statusList members).filterMap (parseSingleStatusItem python))), item.bucket.Passes) ↔
      ReadPasses python entries members := by
  rw [synthesize_passes, runs_pass read, ne_eq, runs_nil read, ne_eq, statusItems_nil, not_not,
    statusItems_pass]
  have apps : ∀ run ∈ kept python entries, AppReads run := checkRuns_ok.mp ⟨items, read⟩
  constructor
  · rintro ⟨some_, runs, states, combined⟩
    have none_ : resolveCombinedStatusItem python total (contexts python members)
        (combinedState python members)
        ((statusList members).filterMap (parseSingleStatusItem python)) = none := by
      cases added : resolveCombinedStatusItem python total (contexts python members)
          (combinedState python members)
          ((statusList members).filterMap (parseSingleStatusItem python)) with
      | none => rfl
      | some item => exact absurd (combined item added) (combined_blocks added)
    rw [none_] at some_
    refine ⟨?_, fun run mem => ⟨apps run mem, runs run mem⟩, states, total, count, ?_⟩
    · rcases some_ with judged | listed | other
      · exact .inl judged
      · exact .inr listed
      · exact absurd rfl other
    · exact (combined_none (statusItems_pass.mpr states)).mp none_
  · rintro ⟨some_, runs, states, other, again, unknown⟩
    obtain rfl := Except.ok.inj (count.symm.trans again)
    have none_ : resolveCombinedStatusItem python total (contexts python members)
        (combinedState python members)
        ((statusList members).filterMap (parseSingleStatusItem python)) = none :=
      (combined_none (statusItems_pass.mpr states)).mpr unknown
    rw [none_]
    refine ⟨?_, fun run mem => (runs run mem).2, states, fun item added => by cases added⟩
    rcases some_ with judged | listed
    · exact .inl judged
    · exact .inr (.inl listed)

theorem unread_blocks {reason : Str} (some_ : reason ≠ []) :
    ({ unreadReason := reason } : CheckVerdictSummary).exitCode ≠ 0 := by
  rw [Ne, exitCode_zero]
  exact fun both => some_ both.1

theorem totalCount_message {value : Option (Json F)} {listed : Nat} {message : Str}
    (raised : totalCount python value listed = .error (.value message)) : message ≠ [] := by
  cases value with
  | none => cases raised
  | some value =>
    cases value with
    | nan =>
      cases raised
      decide
    | _ => cases raised

theorem readCommitChecks_items {items : List PRCheckItem} (named : head ≠ [])
    (read : (kept python entries).mapM (checkRunDictToItem python) = .ok items) :
    readCommitChecks python head (.ok entries) reply =
      (fetchCommitStatusesFromRest python reply).map fun statuses =>
        if statuses.2.2 ≠ [] then { unreadReason := statuses.2.2 }
        else { items := synthesizeCheckItems items statuses.1 statuses.2.1 } := by
  rw [kept] at read
  rw [readCommitChecks, if_neg named, fetchCheckRunsFromRest, read]
  simp only [bind, Except.bind, pure, Except.pure, Except.map]
  cases fetchCommitStatusesFromRest python reply with
  | error raised => rfl
  | ok statuses =>
    by_cases reason : statuses.2.2 = []
    · simp [reason]
    · simp [reason]

theorem fetchStatuses_json {total : Int}
    (count : totalCount python (get members "total_count") (contexts python members) = .ok total) :
    fetchCommitStatusesFromRest python (.json (.obj members)) =
      .ok ((statusList members).filterMap (parseSingleStatusItem python),
        resolveCombinedStatusItem python total (contexts python members) (combinedState python members)
          ((statusList members).filterMap (parseSingleStatusItem python)), []) := by
  rw [contexts] at count
  rw [fetchCommitStatusesFromRest, parseRestCommitStatusesPayload]
  simp only [bind, Except.bind, pure, Except.pure, count]
  rfl

theorem fetchStatuses_unread {statuses : List PRCheckItem × Option PRCheckItem × Str}
    (read : fetchCommitStatusesFromRest python reply = .ok statuses) :
    statuses.2.2 ≠ [] ∨ ∃ members total, reply = .json (.obj members) ∧
      totalCount python (get members "total_count") (contexts python members) = .ok total := by
  cases reply with
  | failed message =>
    cases read
    exact .inl (by simp)
  | empty =>
    cases read
    exact .inl (by simp)
  | invalid detail =>
    cases read
    exact .inl (by simp)
  | json data =>
    cases data with
    | obj members =>
      cases count : totalCount python (get members "total_count") (contexts python members) with
      | ok total => exact .inr ⟨members, total, rfl, count⟩
      | error raised =>
        have parsed : parseRestCommitStatusesPayload python (.obj members) = .error raised := by
          rw [contexts] at count
          rw [parseRestCommitStatusesPayload]
          simp only [bind, Except.bind, count]
        simp only [fetchCommitStatusesFromRest, parsed] at read
        cases raised with
        | value message =>
          cases read
          exact .inl (totalCount_message count)
        | _ => cases read
    | _ =>
      cases read
      exact .inl (by simp)

theorem green_summary (named : head ≠ []) :
    (∃ summary, readCommitChecks python head listing reply = .ok summary ∧ summary.exitCode = 0) ↔
      ∃ entries members, listing = .ok entries ∧ reply = .json (.obj members) ∧
        ReadPasses python entries members := by
  constructor
  · rintro ⟨summary, read, zero⟩
    cases listing with
    | error message =>
      rw [readCommitChecks, if_neg named] at read
      cases read
      exact absurd zero (unread_blocks (by simp))
    | ok entries =>
      cases runs : (kept python entries).mapM (checkRunDictToItem python) with
      | error raised =>
        rw [kept] at runs
        rw [readCommitChecks, if_neg named, fetchCheckRunsFromRest, runs] at read
        cases read
      | ok items =>
        rw [readCommitChecks_items named runs] at read
        cases fetched : fetchCommitStatusesFromRest python reply with
        | error raised =>
          rw [fetched] at read
          cases read
        | ok statuses =>
          rw [fetched] at read
          cases read
          rcases fetchStatuses_unread fetched with reason | ⟨members, total, rfl, count⟩
          · dsimp only at zero
            rw [if_pos reason] at zero
            exact absurd zero (unread_blocks reason)
          · rw [fetchStatuses_json count] at fetched
            cases fetched
            exact ⟨entries, members, rfl, rfl, (items_pass runs count).mp (exitCode_zero.mp zero).2⟩
  · rintro ⟨entries, members, rfl, rfl, passes⟩
    obtain ⟨items, runs⟩ := checkRuns_ok.mpr fun run mem => (passes.runs run mem).1
    obtain ⟨total, count, -⟩ := passes.counted
    have read : readCommitChecks python head (.ok entries) (.json (.obj members)) =
        .ok { items := synthesizeCheckItems items
                ((statusList members).filterMap (parseSingleStatusItem python))
                (resolveCombinedStatusItem python total (contexts python members)
                  (combinedState python members)
                  ((statusList members).filterMap (parseSingleStatusItem python))) } := by
      rw [readCommitChecks_items named runs, fetchStatuses_json count]
      rfl
    exact ⟨_, read, exitCode_zero.mpr ⟨rfl, (items_pass runs count).mpr passes⟩⟩

/-- The law of green verdicts: an exit code of 0 means green checks, and the checks block a merge
    exactly where the exit code of their read is not 0, or is neither 0 nor 8 where running ones are
    excused. -/
structure FailsClosed (python : Python F) (head : Str) (listing : Listing F)
    (reply : StatusReply F) : Prop where
  green : ∀ summary, readCommitChecks python head listing reply = .ok summary →
    summary.exitCode = 0 → ∃ entries members, listing = .ok entries ∧
      reply = .json (.obj members) ∧ Green python entries members
  blocks : ∀ statuses allow summary,
    (if statuses then readCommitChecks python head listing reply
      else readCheckRuns python head listing) = .ok summary →
    ∃ judged, judgeChecks python head listing reply statuses allow = .ok judged ∧
      (judged.blocking ≠ [] ↔ summary.exitCode ≠ 0 ∧ ¬(allow = true ∧ summary.exitCode = 8))

/-- A green verdict fails closed exactly when, wherever all that is read passes, nothing is hidden. -/
theorem green_fails_closed (named : head ≠ []) :
    FailsClosed python head listing reply ↔ ∀ entries members, listing = .ok entries →
      reply = .json (.obj members) → ReadPasses python entries members →
      NothingHidden python entries members := by
  constructor
  · rintro closed entries members rfl rfl passes
    obtain ⟨summary, read, zero⟩ := (green_summary named).mpr ⟨entries, members, rfl, rfl, passes⟩
    obtain ⟨_, _, same, again, green⟩ := closed.green summary read zero
    cases same
    cases again
    exact (green_iff passes).mp green
  · intro nothing
    refine ⟨fun summary read zero => ?_, fun statuses allow summary read => ?_⟩
    · obtain ⟨entries, members, listed, replied, passes⟩ :=
        (green_summary named).mp ⟨summary, read, zero⟩
      exact ⟨entries, members, listed, replied,
        (green_iff passes).mpr (nothing entries members listed replied passes)⟩
    · refine ⟨judgeSummary summary allow, ?_, judgeSummary_blocks⟩
      rw [judgeChecks, if_neg named]
      cases statuses with
      | true =>
        have given : readCommitChecks python head listing reply = .ok summary := read
        simp only [given, if_true]
        rfl
      | false =>
        have given : readCheckRuns python head listing = .ok summary := read
        simp only [given, Bool.false_eq_true, if_false]
        rfl

end Verdict

section Instances

def plain : Python Empty where
  floatZero f := f.elim
  floatTrunc f := f.elim
  repr _ := []
  lower text := text.map Char.toLower
  lower_small text small := by
    refine (List.map_congr_left fun c mem => ?_).trans (List.map_id text)
    exact Char.toLower_eq_of_not_isUpper
      (Char.not_isUpper_of_isLower (List.all_eq_true.mp small c mem))

def checkRun (app conclusion started : String) : Json.Members Empty :=
  [("name".toList, .str "test".toList), ("status".toList, .str "completed".toList),
    ("conclusion".toList, .str conclusion.toList), ("started_at".toList, .str started.toList),
    ("app".toList, .obj [("name".toList, .str app.toList)])]

def twoApps : List (Json Empty) :=
  [.obj (checkRun "A" "cancelled" "2026-01-01T00:00:00Z"),
    .obj (checkRun "B" "success" "2026-01-01T01:00:00Z")]

def noStatuses : Json.Members Empty :=
  [("state".toList, .str "pending".toList), ("statuses".toList, .arr []),
    ("total_count".toList, .int 0)]

theorem green_fails_closed_two :
    FailsClosed plain "abc".toList (.ok twoApps) (.json (.obj noStatuses)) ↔
      ∀ entries members, (.ok twoApps : Listing Empty) = .ok entries →
        StatusReply.json (.obj noStatuses) = .json (.obj members) → ReadPasses plain entries members →
        NothingHidden plain entries members := by
  have named : "abc".toList ≠ [] := by decide
  exact green_fails_closed named

/-- The cancelled run of one app is taken as replaced by the run of another one: the verdict is
    green. -/
theorem cancelled_run_hidden :
    ¬FailsClosed plain "abc".toList (.ok twoApps) (.json (.obj noStatuses)) := by
  rintro ⟨green, -⟩
  obtain ⟨_, _, same, _, checks⟩ := green _ rfl (by decide)
  cases same
  obtain ⟨run, object, ⟨bucket, concluded, pass⟩ | ⟨-, other, listed, later, app⟩⟩ :=
    checks.runs _ List.mem_cons_self
  · cases object
    have cancelled : conclusionBucket plain (checkRun "A" "cancelled" "2026-01-01T00:00:00Z") =
      some .cancel := by decide
    obtain rfl := Option.some.inj (cancelled.symm.trans concluded)
    rcases pass with pass | pass <;> cases pass
  · cases object
    simp only [twoApps, List.mem_cons, List.not_mem_nil, or_false, Json.obj.injEq] at listed
    rcases listed with rfl | rfl
    · exact lt_irrefl _ later.2
    · exact absurd app (by simp [get, checkRun])

end Instances
end DevopsCli.GitHub.CheckVerdict
