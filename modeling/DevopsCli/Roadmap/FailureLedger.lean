import DevopsCli.Lib.Newest
import DevopsCli.Lib.Run

/- FailureLedger of roadmap/run.py, and the record that it is read back from. A dict is a table
   by its keys: no reader of these depends on the order of the entries. The gauges are left out. -/
namespace DevopsCli.Roadmap
open Run

abbrev JobKey := String × String

structure KeptRounds where
  repo : String
  job : String
  rounds : Nat
  failedOn : String
  causes : Option (List String)
  deriving DecidableEq

inductive FailureRecord where
  | missing
  | kept (rounds : List KeptRounds)
  | unreadable (reason : String)
  deriving DecidableEq

def FailureRecord.read : FailureRecord → Except String (List KeptRounds)
  | .missing => .ok []
  | .kept rounds => .ok rounds
  | .unreadable reason => .error reason

def dictOf {β : Type} (pairs : List (Σ _ : JobKey, β)) : AList fun _ : JobKey => β :=
  pairs.reverse.toAList

def causeUnknown : String := "unknown"

/-- The rounds in a row that each job failed, with the input of the last, and their causes. A
    deque holds at most limit causes, and a job that did not fail has none. -/
structure FailureLedger (limit : Nat) where
  failedRounds : AList fun _ : JobKey => Nat × String
  causesOf : AList fun _ : JobKey => List String
  bounded : ∀ key, ((causesOf.lookup key).getD []).length ≤ limit
  owned : ∀ key, failedRounds.lookup key = none → causesOf.lookup key = none

theorem lookup_dictOf {β : Type} (pairs : List (Σ _ : JobKey, β)) (key : JobKey) :
    (dictOf pairs).lookup key = pairs.reverse.dlookup key := AList.lookup_to_alist _

theorem dlookup_reverse {β : Type} {pairs : List (Σ _ : JobKey, β)} (distinct : pairs.NodupKeys)
    (key : JobKey) : pairs.reverse.dlookup key = pairs.dlookup key :=
  List.perm_dlookup key ((List.perm_nodupKeys pairs.reverse_perm).mpr distinct) pairs.reverse_perm

namespace FailureLedger
variable {limit : Nat} (l : FailureLedger limit)

def empty : FailureLedger limit := ⟨∅, ∅, fun _ => Nat.zero_le _, fun _ _ => rfl⟩

def roundPairs (kept : List KeptRounds) : List (Σ _ : JobKey, Nat × String) :=
  kept.map fun entry => ⟨(entry.repo, entry.job), entry.rounds, entry.failedOn⟩

def causePairs (limit : Nat) (kept : List KeptRounds) : List (Σ _ : JobKey, List String) :=
  kept.filterMap fun entry =>
    entry.causes.map fun causes => ⟨(entry.repo, entry.job), causes.rtake limit⟩

theorem causePairs_bounded (kept : List KeptRounds) (key : JobKey) :
    (((dictOf (causePairs limit kept)).lookup key).getD []).length ≤ limit := by
  rw [lookup_dictOf]
  rcases found : (causePairs limit kept).reverse.dlookup key with _ | causes
  · exact Nat.zero_le _
  · have member := List.of_mem_dlookup found
    obtain ⟨entry, _, same⟩ := List.mem_filterMap.mp (List.mem_reverse.mp member)
    obtain ⟨held, _, same⟩ := Option.map_eq_some_iff.mp same
    cases same
    rw [Option.getD_some, Newest.length_rtake]
    exact min_le_left _ _

theorem causePairs_owned (kept : List KeptRounds) (key : JobKey)
    (absent : (dictOf (roundPairs kept)).lookup key = none) :
    (dictOf (causePairs limit kept)).lookup key = none := by
  rw [lookup_dictOf, List.dlookup_eq_none] at absent ⊢
  intro member
  obtain ⟨causes, member⟩ := List.exists_of_mem_keys member
  obtain ⟨entry, held, same⟩ := List.mem_filterMap.mp (List.mem_reverse.mp member)
  obtain ⟨list, _, same⟩ := Option.map_eq_some_iff.mp same
  cases same
  have rounds : ⟨(entry.repo, entry.job), entry.rounds, entry.failedOn⟩ ∈ roundPairs kept :=
    List.mem_map.mpr ⟨entry, held, rfl⟩
  exact absent (List.mem_keys_of_mem (List.mem_reverse.mpr rounds))

def load (limit : Nat) (record : FailureRecord) : Except String (FailureLedger limit) := do
  let kept ← record.read
  return {
    failedRounds := dictOf (roundPairs kept)
    causesOf := dictOf (causePairs limit kept)
    bounded := causePairs_bounded kept
    owned := causePairs_owned kept }

def roundsOf (repo job : String) : Nat × Option String :=
  match l.failedRounds.lookup (repo, job) with
  | none => (0, none)
  | some (rounds, failedOn) => (rounds, some failedOn)

def suspended (repo job current : String) : Bool :=
  let (rounds, failedOn) := l.roundsOf repo job
  decide (limit ≤ rounds) && failedOn == some current

def holdsFailure (repo job : String) : Bool := (l.failedRounds.lookup (repo, job)).isSome

def failed (repo job current cause : String) : Nat × FailureLedger limit :=
  let (rounds, failedOn) := l.roundsOf repo job
  let rounds := if failedOn == some current || decide (rounds < limit) then rounds + 1 else 1
  let causes := (l.causesOf.lookup (repo, job)).getD []
  let causes := if rounds = 1 then [] else causes
  let causes := (causes ++ [cause]).rtake limit
  (rounds, {
    failedRounds := l.failedRounds.insert (repo, job) (rounds, current)
    causesOf := l.causesOf.insert (repo, job) causes
    bounded := by
      intro key
      by_cases own : key = (repo, job)
      · rw [own, AList.lookup_insert, Option.getD_some, Newest.length_rtake]
        exact min_le_left _ _
      · rw [AList.lookup_insert_ne own]
        exact l.bounded key
    owned := by
      intro key absent
      by_cases own : key = (repo, job)
      · rw [own, AList.lookup_insert] at absent
        exact absurd absent (Option.some_ne_none _)
      · rw [AList.lookup_insert_ne own] at absent ⊢
        exact l.owned key absent })

def causes (repo job : String) : List String :=
  let known := (l.causesOf.lookup (repo, job)).getD []
  List.replicate (min (l.roundsOf repo job).1 limit - known.length) causeUnknown ++ known

def succeeded (repo job : String) : Bool × FailureLedger limit :=
  (l.holdsFailure repo job, {
    failedRounds := l.failedRounds.erase (repo, job)
    causesOf := l.causesOf.erase (repo, job)
    bounded := by
      intro key
      by_cases own : key = (repo, job)
      · rw [own, AList.lookup_erase]
        exact Nat.zero_le _
      · rw [AList.lookup_erase_ne own]
        exact l.bounded key
    owned := by
      intro key absent
      by_cases own : key = (repo, job)
      · rw [own, AList.lookup_erase]
      · rw [AList.lookup_erase_ne own] at absent ⊢
        exact l.owned key absent })

def kept : List KeptRounds :=
  l.failedRounds.entries.map fun entry =>
    ⟨entry.1.1, entry.1.2, entry.2.1, entry.2.2, some ((l.causesOf.lookup entry.1).getD [])⟩

/-- A record that cannot be written is one log line, and the file stays as it was. -/
def keep (written : Bool) (record : FailureRecord) : FailureRecord :=
  if written then .kept l.kept else record

/-- The rounds and the causes of the log line of a job that reaches the limit. A round that the
    stop of the Service ends is not counted. -/
def countFailure (repo job current cause : String) (endedByStop : Bool) :
    FailureLedger limit × Option (Nat × List String) :=
  if endedByStop then (l, none)
  else
    let (rounds, l) := l.failed repo job current cause
    (l, if rounds = limit then some (rounds, l.causes repo job) else none)

end FailureLedger

structure Failure where
  input : String
  cause : String
  deriving DecidableEq

/-- The failures in a row after one more: they start over at a failure on a new input when there
    are already limit of them. -/
def nextStreak (limit : Nat) (streak : List Failure) (failure : Failure) : List Failure :=
  if limit ≤ streak.length ∧ streak.getLast?.map Failure.input ≠ some failure.input then [failure]
  else streak ++ [failure]

inductive LedgerCall where
  | failed (repo job current cause : String) (written : Bool)
  | succeeded (repo job : String) (written : Bool)
  | restart

def streakFrom (limit : Nat) (key : JobKey) : List Failure → List LedgerCall → List Failure
  | streak, [] => streak
  | streak, .failed repo job current cause _ :: rest =>
    streakFrom limit key
      (if (repo, job) = key then nextStreak limit streak ⟨current, cause⟩ else streak) rest
  | streak, .succeeded repo job _ :: rest =>
    streakFrom limit key (if (repo, job) = key then [] else streak) rest
  | streak, .restart :: rest => streakFrom limit key streak rest

structure Service (limit : Nat) where
  ledger : FailureLedger limit
  record : FailureRecord
  upToDate : Bool

namespace Service
variable {limit : Nat}

def start (limit : Nat) : Service limit := ⟨.empty, .missing, true⟩

def step (s : Service limit) : LedgerCall → Option (Service limit)
  | .failed repo job current cause written =>
    let (_, ledger) := s.ledger.failed repo job current cause
    some ⟨ledger, ledger.keep written s.record, written⟩
  | .succeeded repo job written =>
    let (keeps, ledger) := s.ledger.succeeded repo job
    some (if keeps then ⟨ledger, ledger.keep written s.record, written⟩ else { s with ledger := ledger })
  | .restart =>
    match FailureLedger.load limit s.record with
    | .ok ledger => some { s with ledger := ledger }
    | .error _ => none

def Current (s : Service limit) : LedgerCall → Prop
  | .restart => s.upToDate = true
  | .failed .. | .succeeded .. => True

instance (s : Service limit) : (call : LedgerCall) → Decidable (Current s call)
  | .restart => inferInstanceAs (Decidable (s.upToDate = true))
  | .failed .. | .succeeded .. => .isTrue trivial

end Service

namespace FailureLedger
variable {limit : Nat} {l l' : FailureLedger limit} {repo job : String}

theorem failed_rounds (l : FailureLedger limit) (repo job current cause : String) (key : JobKey) :
    (l.failed repo job current cause).2.failedRounds.lookup key =
      if key = (repo, job) then some ((l.failed repo job current cause).1, current)
      else l.failedRounds.lookup key := by
  split
  · next own =>
    rw [own]
    exact AList.lookup_insert _
  · next other => exact AList.lookup_insert_ne other

theorem failed_causes (l : FailureLedger limit) (repo job current cause : String) (key : JobKey) :
    ((l.failed repo job current cause).2.causesOf.lookup key).getD [] =
      if key = (repo, job) then
        ((if (l.failed repo job current cause).1 = 1 then []
          else (l.causesOf.lookup key).getD []) ++ [cause]).rtake limit
      else (l.causesOf.lookup key).getD [] := by
  split
  · next own =>
    rw [own]
    change ((l.causesOf.insert (repo, job) _).lookup (repo, job)).getD [] = _
    rw [AList.lookup_insert]
    rfl
  · next other =>
    change ((l.causesOf.insert (repo, job) _).lookup key).getD [] = _
    rw [AList.lookup_insert_ne other]

theorem succeeded_rounds (l : FailureLedger limit) (repo job : String) (key : JobKey) :
    (l.succeeded repo job).2.failedRounds.lookup key =
      if key = (repo, job) then none else l.failedRounds.lookup key := by
  split
  · next own =>
    rw [own]
    exact AList.lookup_erase _ _
  · next other => exact AList.lookup_erase_ne other

theorem succeeded_causes (l : FailureLedger limit) (repo job : String) (key : JobKey) :
    ((l.succeeded repo job).2.causesOf.lookup key).getD [] =
      if key = (repo, job) then [] else (l.causesOf.lookup key).getD [] := by
  split
  · next own =>
    rw [own]
    change ((l.causesOf.erase (repo, job)).lookup (repo, job)).getD [] = _
    rw [AList.lookup_erase]
    rfl
  · next other =>
    change ((l.causesOf.erase (repo, job)).lookup key).getD [] = _
    rw [AList.lookup_erase_ne other]

structure Same (l l' : FailureLedger limit) : Prop where
  rounds : ∀ key, l.failedRounds.lookup key = l'.failedRounds.lookup key
  causes : ∀ key, (l.causesOf.lookup key).getD [] = (l'.causesOf.lookup key).getD []

theorem Same.roundsOf (same : Same l l') (repo job : String) :
    l.roundsOf repo job = l'.roundsOf repo job := by
  rw [FailureLedger.roundsOf, FailureLedger.roundsOf, same.rounds]

theorem Same.suspended (same : Same l l') (repo job current : String) :
    l.suspended repo job current = l'.suspended repo job current := by
  rw [FailureLedger.suspended, FailureLedger.suspended, same.roundsOf]

theorem Same.holdsFailure (same : Same l l') (repo job : String) :
    l.holdsFailure repo job = l'.holdsFailure repo job := by
  rw [FailureLedger.holdsFailure, FailureLedger.holdsFailure, same.rounds]

theorem Same.causesOf_ (same : Same l l') (repo job : String) :
    l.causes repo job = l'.causes repo job := by
  rw [FailureLedger.causes, FailureLedger.causes, same.roundsOf, same.causes]

theorem Same.counted (same : Same l l') (repo job current cause : String) :
    (l.failed repo job current cause).1 = (l'.failed repo job current cause).1 := by
  rw [FailureLedger.failed, FailureLedger.failed, same.roundsOf]

theorem Same.failed (same : Same l l') (repo job current cause : String) :
    Same (l.failed repo job current cause).2 (l'.failed repo job current cause).2 where
  rounds key := by rw [failed_rounds, failed_rounds, same.counted, same.rounds]
  causes key := by rw [failed_causes, failed_causes, same.counted, same.causes]

theorem Same.succeeded (same : Same l l') (repo job : String) :
    Same (l.succeeded repo job).2 (l'.succeeded repo job).2 where
  rounds key := by rw [succeeded_rounds, succeeded_rounds, same.rounds]
  causes key := by rw [succeeded_causes, succeeded_causes, same.causes]

theorem roundPairs_kept (l : FailureLedger limit) : roundPairs l.kept = l.failedRounds.entries := by
  rw [roundPairs, kept, List.map_map]
  exact List.map_id _

theorem causePairs_kept (l : FailureLedger limit) :
    causePairs limit l.kept = l.failedRounds.entries.map
      (Sigma.map id fun key _ => ((l.causesOf.lookup key).getD []).rtake limit) := by
  rw [causePairs, kept, List.filterMap_map]
  exact congrFun List.filterMap_eq_map _

theorem rtake_short {α : Type} {xs : List α} {n : Nat} (short : xs.length ≤ n) : xs.rtake n = xs := by
  rw [List.rtake, Nat.sub_eq_zero_of_le short, List.drop_zero]

theorem load_kept (l : FailureLedger limit) :
    ∃ l', load limit (.kept l.kept) = .ok l' ∧ Same l l' := by
  refine ⟨_, rfl, ?_, ?_⟩
  · intro key
    dsimp only
    rw [lookup_dictOf, roundPairs_kept, dlookup_reverse l.failedRounds.nodupKeys]
    rfl
  · intro key
    dsimp only
    rw [lookup_dictOf, causePairs_kept,
      dlookup_reverse (List.NodupKeys.map₂ _ _ l.failedRounds.nodupKeys), List.dlookup_map₂]
    rcases held : l.failedRounds.lookup key with _ | rounds
    · rw [l.owned key held]
      have absent : l.failedRounds.entries.dlookup key = none := held
      rw [absent]
      rfl
    · have held : l.failedRounds.entries.dlookup key = some rounds := held
      rw [held]
      exact (rtake_short (l.bounded key)).symm

/-- What a ledger holds of each job after the failures of it that are in a row. -/
structure Counts (streaks : JobKey → List Failure) (l : FailureLedger limit) : Prop where
  rounds : ∀ key, l.failedRounds.lookup key =
    (streaks key).getLast?.map fun last => ((streaks key).length, last.input)
  causes : ∀ key, (l.causesOf.lookup key).getD [] = ((streaks key).map Failure.cause).rtake limit

variable {streaks : JobKey → List Failure}

theorem Counts.same (counts : Counts streaks l) (same : Same l l') : Counts streaks l' where
  rounds key := (same.rounds key).symm.trans (counts.rounds key)
  causes key := (same.causes key).symm.trans (counts.causes key)

theorem Counts.roundsOf (counts : Counts streaks l) (repo job : String) :
    l.roundsOf repo job =
      ((streaks (repo, job)).length, (streaks (repo, job)).getLast?.map Failure.input) := by
  rw [FailureLedger.roundsOf, counts.rounds]
  rcases last : (streaks (repo, job)).getLast? with _ | failure
  · rw [List.getLast?_eq_none_iff.mp last]
    rfl
  · rfl

theorem Counts.counted (counts : Counts streaks l) (repo job current cause : String) :
    (l.failed repo job current cause).1 =
      (nextStreak limit (streaks (repo, job)) ⟨current, cause⟩).length := by
  rw [FailureLedger.failed, counts.roundsOf, nextStreak]
  dsimp only
  by_cases full : limit ≤ (streaks (repo, job)).length
  · by_cases own : (streaks (repo, job)).getLast?.map Failure.input = some current
    · simp [own]
    · simp [own, full]
  · simp [full, not_le.mp full]

theorem nextStreak_one {streak : List Failure} {failure : Failure}
    (one : (nextStreak limit streak failure).length = 1) : nextStreak limit streak failure = [failure] := by
  rw [nextStreak] at one ⊢
  split at one
  · next full => rw [if_pos full]
  · next under =>
    rw [if_neg under]
    rw [List.length_append, List.length_singleton] at one
    rw [List.length_eq_zero_iff.mp (Nat.succ_injective one), List.nil_append]

theorem nextStreak_more {streak : List Failure} {failure : Failure}
    (more : (nextStreak limit streak failure).length ≠ 1) :
    nextStreak limit streak failure = streak ++ [failure] := by
  rw [nextStreak] at more ⊢
  split at more
  · exact absurd rfl more
  · next under => rw [if_neg under]

theorem nextStreak_last (streak : List Failure) (failure : Failure) :
    (nextStreak limit streak failure).getLast? = some failure := by
  rw [nextStreak]
  split
  · rfl
  · exact List.getLast?_concat

theorem rtake_push {α : Type} (xs : List α) (x : α) (n : Nat) (positive : 1 ≤ n) :
    (xs.rtake n ++ [x]).rtake n = (xs ++ [x]).rtake n := by
  obtain ⟨m, rfl⟩ := Nat.exists_eq_add_of_le' positive
  rw [List.rtake_concat_succ, List.rtake_concat_succ]
  simp only [List.rtake_eq_reverse_take_reverse, List.reverse_reverse, List.take_take]
  rw [min_eq_left (Nat.le_succ m)]

theorem Counts.failed (counts : Counts streaks l) (positive : 1 ≤ limit)
    (repo job current cause : String) :
    Counts (fun key => if (repo, job) = key then nextStreak limit (streaks key) ⟨current, cause⟩
      else streaks key) (l.failed repo job current cause).2 where
  rounds key := by
    rw [failed_rounds]
    by_cases own : key = (repo, job)
    · rw [own, if_pos rfl, if_pos rfl, nextStreak_last, counts.counted]
      rfl
    · rw [if_neg own, if_neg (Ne.symm own), counts.rounds]
  causes key := by
    rw [failed_causes]
    by_cases own : key = (repo, job)
    · rw [own, if_pos rfl, if_pos rfl, counts.counted]
      split
      · next one =>
        rw [nextStreak_one one]
        rfl
      · next more =>
        rw [nextStreak_more more, counts.causes, rtake_push _ _ _ positive, List.map_append]
        rfl
    · rw [if_neg own, if_neg (Ne.symm own), counts.causes]

theorem Counts.succeeded (counts : Counts streaks l) (repo job : String) :
    Counts (fun key => if (repo, job) = key then [] else streaks key) (l.succeeded repo job).2 where
  rounds key := by
    rw [succeeded_rounds]
    by_cases own : key = (repo, job)
    · rw [if_pos own, if_pos own.symm]
      rfl
    · rw [if_neg own, if_neg (Ne.symm own), counts.rounds]
  causes key := by
    rw [succeeded_causes]
    by_cases own : key = (repo, job)
    · rw [if_pos own, if_pos own.symm]
      simp
    · rw [if_neg own, if_neg (Ne.symm own), counts.causes]

theorem Counts.suspended_iff (counts : Counts streaks l) (repo job current : String) :
    l.suspended repo job current = true ↔ limit ≤ (streaks (repo, job)).length ∧
      (streaks (repo, job)).getLast?.map Failure.input = some current := by
  rw [FailureLedger.suspended, counts.roundsOf]
  simp

theorem Counts.holdsFailure_iff (counts : Counts streaks l) (repo job : String) :
    l.holdsFailure repo job = true ↔ streaks (repo, job) ≠ [] := by
  rw [FailureLedger.holdsFailure, counts.rounds, Option.isSome_map]
  simp

theorem Counts.causesOf (counts : Counts streaks l) (repo job : String) :
    l.causes repo job = ((streaks (repo, job)).map Failure.cause).rtake limit := by
  rw [FailureLedger.causes, counts.roundsOf, counts.causes]
  dsimp only
  rw [Newest.length_rtake, List.length_map, min_comm, Nat.sub_self]
  rfl

def after (l : FailureLedger limit) : List LedgerCall → FailureLedger limit
  | [] => l
  | .failed repo job current cause _ :: rest => (l.failed repo job current cause).2.after rest
  | .succeeded repo job _ :: rest => (l.succeeded repo job).2.after rest
  | .restart :: rest => l.after rest

theorem Same.after (same : Same l l') (calls : List LedgerCall) :
    Same (l.after calls) (l'.after calls) := by
  induction calls generalizing l l' with
  | nil => exact same
  | cons call rest ih =>
    cases call with
    | failed repo job current cause written => exact ih (same.failed repo job current cause)
    | succeeded repo job written => exact ih (same.succeeded repo job)
    | restart => exact ih same

theorem Same.trans {l'' : FailureLedger limit} (first : Same l l') (second : Same l' l'') : Same l l'' where
  rounds key := (first.rounds key).trans (second.rounds key)
  causes key := (first.causes key).trans (second.causes key)

theorem Same.refl (l : FailureLedger limit) : Same l l := ⟨fun _ => rfl, fun _ => rfl⟩

theorem succeeded_absent (absent : l.holdsFailure repo job = false) :
    Same (l.succeeded repo job).2 l := by
  have none_ : l.failedRounds.lookup (repo, job) = none := by
    rwa [FailureLedger.holdsFailure, Option.isSome_eq_false_iff, Option.isNone_iff_eq_none] at absent
  refine ⟨fun key => ?_, fun key => ?_⟩
  · rw [succeeded_rounds]
    split
    · next own => rw [own, none_]
    · rfl
  · rw [succeeded_causes]
    split
    · next own =>
      rw [own, l.owned _ none_]
      rfl
    · rfl

end FailureLedger

namespace Service
open FailureLedger
variable {limit : Nat} {s t : Service limit} {streaks : JobKey → List Failure}

/-- The ledger counts, and after a write that succeeded its record reads back as the ledger. -/
structure Backed (streaks : JobKey → List Failure) (s : Service limit) : Prop where
  counts : Counts streaks s.ledger
  loads : s.upToDate = true → ∃ l', load limit s.record = .ok l' ∧ Same s.ledger l'

theorem start_backed : Backed (fun _ => []) (start limit) where
  counts := ⟨fun _ => rfl, fun _ => (List.rtake_nil limit).symm⟩
  loads _ := ⟨_, rfl, Same.refl _⟩

theorem kept_loads (ledger : FailureLedger limit) (written : Bool) (record : FailureRecord)
    (kept : written = true) :
    ∃ l', load limit (ledger.keep written record) = .ok l' ∧ Same ledger l' := by
  rw [FailureLedger.keep, if_pos kept]
  exact load_kept ledger

theorem step_backed (positive : 1 ≤ limit) (backed : Backed streaks s) (call : LedgerCall)
    (current : Current s call) (taken : s.step call = some t) :
    Backed (fun key => streakFrom limit key (streaks key) [call]) t := by
  cases call with
  | failed repo job input cause written =>
    obtain rfl := Option.some.inj taken
    exact ⟨backed.counts.failed positive repo job input cause, kept_loads _ _ _⟩
  | succeeded repo job written =>
    have counts := backed.counts.succeeded repo job
    let ledger := (s.ledger.succeeded repo job).2
    change some (if s.ledger.holdsFailure repo job then
      ⟨ledger, ledger.keep written s.record, written⟩ else { s with ledger := ledger }) = some t at taken
    obtain rfl := Option.some.inj taken
    cases held : s.ledger.holdsFailure repo job with
    | true => exact ⟨counts, kept_loads _ _ _⟩
    | false =>
      refine ⟨counts, fun kept => ?_⟩
      obtain ⟨l', loaded, same⟩ := backed.loads kept
      exact ⟨l', loaded, (succeeded_absent held).trans same⟩
  | restart =>
    obtain ⟨l', loaded, same⟩ := backed.loads current
    rw [step, loaded] at taken
    obtain rfl := Option.some.inj taken
    exact ⟨backed.counts.same same, fun _ => ⟨l', loaded, Same.refl l'⟩⟩

theorem run_backed {calls : List LedgerCall} (positive : 1 ≤ limit) (backed : Backed streaks s)
    (meets : Meets step Current s calls) (run : exec step s calls = some t) :
    Backed (fun key => streakFrom limit key (streaks key) calls) t := by
  induction calls generalizing s streaks with
  | nil =>
    obtain rfl := Option.some.inj run
    exact backed
  | cons call rest ih =>
    obtain ⟨m, first, later⟩ := exec_cons.mp run
    have next := ih (step_backed positive backed call meets.1 first) (meets.2 m first) later
    cases call <;> exact next

/-- After any calls and restarts the ledger counts the failures of each job that are in a row and
    holds the causes of the last of them, and a ledger that is read back from the record of
    another answers as that one does, whatever calls follow. -/
theorem ledger_counts_through_restarts (limit : Nat) (positive : 1 ≤ limit)
    (calls : List LedgerCall) (s : Service limit)
    (current : Meets step Current (start limit) calls)
    (run : exec step (start limit) calls = some s) :
    (∀ repo job : String,
      let streak := streakFrom limit (repo, job) [] calls
      (∀ input cause, (s.ledger.failed repo job input cause).1 =
        (nextStreak limit streak ⟨input, cause⟩).length) ∧
      (∀ input, s.ledger.suspended repo job input = true ↔
        limit ≤ streak.length ∧ streak.getLast?.map Failure.input = some input) ∧
      (s.ledger.holdsFailure repo job = true ↔ streak ≠ []) ∧
      s.ledger.causes repo job = (streak.map Failure.cause).rtake limit ∧
      (s.ledger.causes repo job).length = min limit streak.length) ∧
    ∀ l : FailureLedger limit, ∃ l', load limit (.kept l.kept) = .ok l' ∧
      ∀ (later : List LedgerCall) (repo job input cause : String),
        (l'.after later).suspended repo job input = (l.after later).suspended repo job input ∧
        (l'.after later).holdsFailure repo job = (l.after later).holdsFailure repo job ∧
        (l'.after later).causes repo job = (l.after later).causes repo job ∧
        ((l'.after later).failed repo job input cause).1 =
          ((l.after later).failed repo job input cause).1 := by
  refine ⟨fun repo job => ?_, fun l => ?_⟩
  · have counts := (run_backed positive start_backed current run).counts
    refine ⟨counts.counted repo job, counts.suspended_iff repo job, counts.holdsFailure_iff repo job,
      counts.causesOf repo job, ?_⟩
    rw [counts.causesOf, Newest.length_rtake, List.length_map]
  · obtain ⟨l', loaded, same⟩ := load_kept l
    refine ⟨l', loaded, fun later repo job input cause => ?_⟩
    have still := same.after later
    exact ⟨(still.suspended repo job input).symm, (still.holdsFailure repo job).symm,
      (still.causesOf_ repo job).symm, (still.counted repo job input cause).symm⟩

/-- Three failures with a restart before the last, at a limit of two rounds. -/
theorem ledger_counts_through_restarts_two :
    ∃ s, exec step (start 2) [.failed "repo" "plan" "1" "Timeout" true,
        .failed "repo" "plan" "1" "Refused" true, .restart,
        .failed "repo" "plan" "2" "Refused" true, .failed "repo" "plan" "2" "Timeout" true] = some s ∧
      s.ledger.suspended "repo" "plan" "2" = true ∧
      s.ledger.causes "repo" "plan" = ["Refused", "Timeout"] := by
  let calls : List LedgerCall := [.failed "repo" "plan" "1" "Timeout" true,
    .failed "repo" "plan" "1" "Refused" true, .restart,
    .failed "repo" "plan" "2" "Refused" true, .failed "repo" "plan" "2" "Timeout" true]
  have reached : (exec step (start 2) calls).isSome = true := by decide +kernel
  obtain ⟨s, run⟩ := Option.isSome_iff_exists.mp reached
  have current : Meets step Current (start 2) calls := by decide +kernel
  obtain ⟨-, suspended, -, causes, -⟩ :=
    (ledger_counts_through_restarts 2 (by decide) calls s current run).1 "repo" "plan"
  exact ⟨s, run, (suspended "2").mpr (by decide +kernel), causes.trans (by decide +kernel)⟩

/-- The write of the record fails, and the ledger of the next process knows nothing. -/
theorem unwritten_failure_forgotten :
    ¬ ∀ (limit : Nat) (calls : List LedgerCall) (s : Service limit), 1 ≤ limit →
      exec step (start limit) calls = some s → ∀ repo job input : String,
        (s.ledger.suspended repo job input = true ↔
          limit ≤ (streakFrom limit (repo, job) [] calls).length ∧
            (streakFrom limit (repo, job) [] calls).getLast?.map Failure.input = some input) := by
  intro counts
  let calls : List LedgerCall := [.failed "repo" "plan" "1" "Timeout" false, .restart]
  have reached : (exec step (start 1) calls).any
      (fun s => !s.ledger.suspended "repo" "plan" "1") = true := by decide +kernel
  obtain ⟨s, run, free⟩ := (Option.any_eq_true _ _).mp reached
  have suspended := (counts 1 calls s le_rfl run "repo" "plan" "1").mpr (by decide +kernel)
  rw [suspended] at free
  exact Bool.false_ne_true free

end Service
end DevopsCli.Roadmap
