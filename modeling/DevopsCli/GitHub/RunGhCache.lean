import DevopsCli.GitHub.RunGhHolds

/- What run_gh answers from its cache, in every run of its threads: what a command of the same key
   printed when it succeeded, and no longer than its time to live. -/
namespace DevopsCli.GitHub.RunGh
open PyStr Run

section Cache
variable {Digest : Type} {P : Digest → CacheEntry → Prop}
  {digest : Str → Digest} {c : Responses Digest} {fs : FileSystem Digest} {persists : Bool}

structure Traced (P : Digest → CacheEntry → Prop) (digest : Str → Digest) (c : Responses Digest) :
    Prop where
  memory : ∀ key, ∀ entry ∈ c.memory key, P (digest key) entry
  files : ∀ name, ∀ entry, some entry ∈ c.files name → P name entry

namespace Traced

theorem mono {Q : Digest → CacheEntry → Prop} (traced : Traced P digest c)
    (weaker : ∀ name entry, P name entry → Q name entry) : Traced Q digest c :=
  ⟨fun key entry member => weaker _ _ (traced.memory key entry member),
    fun name entry member => weaker _ _ (traced.files name entry member)⟩

theorem remember (traced : Traced P digest c) {key : Str} {entry : Option CacheEntry}
    (fits : ∀ kept ∈ entry, P (digest key) kept) :
    Traced P digest { c with memory := Function.update c.memory key entry } where
  memory other kept member := by
    by_cases same : other = key
    · subst same
      exact fits kept (by simpa using member)
    · exact traced.memory other kept (by simpa [Function.update_of_ne same] using member)
  files := traced.files

theorem prune (traced : Traced P digest c) (now : ℚ) :
    Traced P digest (c.pruneExpiredCache persists fs now) where
  memory key entry member := traced.memory key entry (Option.mem_filter_iff.mp member).1
  files name entry member := traced.files name entry (Option.mem_filter_iff.mp member).1

theorem clear (traced : Traced P digest c) : Traced P digest (c.clearCache persists fs) where
  memory key entry member := absurd member (Option.not_mem_none entry)
  files name entry member := by
    simp only [Responses.clearCache] at member
    split at member
    · exact absurd member (Option.not_mem_none _)
    · exact traced.files name entry member

variable [DecidableEq Digest]

theorem write (traced : Traced P digest c) {name : Digest} {file : Option (Option CacheEntry)}
    (fits : ∀ kept, some kept ∈ file → P name kept) :
    Traced P digest { c with files := Function.update c.files name file } where
  memory := traced.memory
  files other kept member := by
    by_cases same : other = name
    · subst same
      exact fits kept (by simpa using member)
    · exact traced.files other kept (by simpa [Function.update_of_ne same] using member)

theorem load (traced : Traced P digest c) (fs : FileSystem Digest) (name : Digest) :
    Traced P digest (c.loadDiskCache fs name).2 ∧
      ∀ entry ∈ (c.loadDiskCache fs name).1, P name entry ∧ fs.later ≤ entry.expiresAt := by
  unfold Responses.loadDiskCache
  split
  · next entry found =>
    have kept : c.files name = some (some entry) := by
      split at found
      · exact found
      · exact absurd found.symm (Option.some_ne_none _)
    split
    · refine ⟨?_, fun entry none_ => absurd none_ (Option.not_mem_none entry)⟩
      split
      · exact traced.write fun entry none_ => absurd none_ (Option.not_mem_none _)
      · exact traced
    · next fresh =>
      refine ⟨traced, fun other same => ?_⟩
      obtain rfl := Option.some.inj same
      exact ⟨traced.files name _ kept, not_lt.mp fresh⟩
  · exact ⟨traced, fun entry none_ => absurd none_ (Option.not_mem_none entry)⟩

theorem get (traced : Traced P digest c) (persists : Bool) (fs : FileSystem Digest) (key : Str)
    (now : ℚ) :
    Traced P digest (c.getCached persists fs digest key now).2 ∧
      ∀ found ∈ (c.getCached persists fs digest key now).1, ∃ entry,
        P (digest key) entry ∧ entry.data = found.1 ∧ found.2 ≤ entry.expiresAt := by
  unfold Responses.getCached
  split
  · next entry kept =>
    obtain ⟨member, fresh⟩ := Option.mem_filter_iff.mp kept
    refine ⟨traced, fun found same => ?_⟩
    obtain rfl := Option.some.inj same
    exact ⟨entry, traced.memory key entry member, rfl, of_decide_eq_true fresh⟩
  · have forgot : Traced P digest { c with memory := Function.update c.memory key none } :=
      traced.remember fun entry none_ => absurd none_ (Option.not_mem_none entry)
    dsimp only
    split
    · obtain ⟨loaded, fresh⟩ := forgot.load fs (digest key)
      split
      · next entry c' read =>
        rw [read] at loaded fresh
        obtain ⟨fits, later⟩ := fresh entry rfl
        refine ⟨loaded.remember fun kept same => ?_, fun found same => ?_⟩
        · exact Option.some.inj same ▸ fits
        · obtain rfl := Option.some.inj same
          exact ⟨entry, fits, rfl, later⟩
      · next c' read =>
        rw [read] at loaded
        exact ⟨loaded, fun found none_ => absurd none_ (Option.not_mem_none found)⟩
    · exact ⟨forgot, fun found none_ => absurd none_ (Option.not_mem_none found)⟩

theorem set (traced : Traced P digest c) {key data : Str} {ttl now : ℚ}
    (fits : P (digest key) ⟨data, now + ttl⟩) :
    Traced P digest (c.setCached persists fs digest key data ttl now) := by
  have kept : Traced P digest
      { c with memory := Function.update c.memory key (some ⟨data, now + ttl⟩) } :=
    traced.remember fun entry same => Option.some.inj same ▸ fits
  have saved (c : Responses Digest) (traced : Traced P digest c) :
      Traced P digest (c.saveDiskCache fs (digest key) ⟨data, now + ttl⟩) := by
    unfold Responses.saveDiskCache
    split
    · exact traced.write fun entry same => Option.some.inj (Option.some.inj same) ▸ fits
    · split
      · exact traced.write fun entry same => absurd (Option.some.inj same) (Option.some_ne_none _).symm
      · exact traced
  unfold Responses.setCached
  dsimp only
  split
  · split
    · exact (saved _ kept).prune fs.later
    · exact saved _ kept
  · exact kept

end Traced
end Cache

section Served
variable {Thread Digest : Type} (read : Readers Digest)

structure Stores (e : Ended Thread) (name : Digest) (entry : CacheEntry) : Prop where
  may : e.call.shouldCache read = true
  name : read.digest e.call.cacheKey = name
  printed : ∃ proc, e.outcome = .returned proc ∧ proc.returncode = 0 ∧ proc.stdout = entry.data
  text : entry.data ≠ []
  expires : entry.expiresAt = e.at_ + e.call.cacheTtl

/-- Where an entry comes from: a call of the process, or a file of another process. -/
def Stored (ended : List (Ended Thread)) (given : List (Digest × CacheEntry)) (name : Digest)
    (entry : CacheEntry) : Prop :=
  (name, entry) ∈ given ∨ ∃ e ∈ ended, Stores read e name entry

def Served (older : List (Ended Thread)) (given : List (Digest × CacheEntry)) (e : Ended Thread) :
    Prop :=
  ∀ text seen, e.outcome = .cached text seen →
    e.call.shouldCache read = true ∧ e.tries = [] ∧ ∃ entry,
      Stored read older given (read.digest e.call.cacheKey) entry ∧ entry.data = text ∧
        seen ≤ entry.expiresAt

/-- Every call was answered after the calls that ended before it. -/
def AllServed (given : List (Digest × CacheEntry)) : List (Ended Thread) → Prop
  | [] => True
  | e :: older => Served read older given e ∧ AllServed given older

structure Sourced [DecidableEq Thread] (s : Line Thread Digest) : Prop where
  traced : Traced (Stored read s.ended s.given) read.digest s.cache
  served : AllServed read s.given s.ended

end Served

section Runs
variable {Thread Digest : Type} {read : Readers Digest} {older newer : List (Ended Thread)}
  {given more : List (Digest × CacheEntry)}

theorem Stored.mono (calls : older ⊆ newer) (files : given ⊆ more) {name : Digest}
    {entry : CacheEntry} (stored : Stored read older given name entry) :
    Stored read newer more name entry := by
  rcases stored with file | ⟨e, member, stores⟩
  · exact .inl (files file)
  · exact .inr ⟨e, calls member, stores⟩

theorem AllServed.mono (files : given ⊆ more) (served : AllServed read given older) :
    AllServed read more older := by
  induction older with
  | nil => trivial
  | cons e older ih =>
    refine ⟨fun text seen cached => ?_, ih served.2⟩
    obtain ⟨may, none_, entry, stored, rest⟩ := served.1 text seen cached
    exact ⟨may, none_, entry, stored.mono (List.Subset.refl _) files, rest⟩

theorem AllServed.of_suffix {e : Ended Thread} (served : AllServed read given newer)
    (ends : e :: older <:+ newer) : Served read older given e := by
  induction newer with
  | nil => exact absurd (List.suffix_nil.mp ends) (List.cons_ne_nil e older)
  | cons later newer ih =>
    rcases List.suffix_cons_iff.mp ends with same | earlier
    · obtain ⟨rfl, rfl⟩ := List.cons_eq_cons.mp same
      exact served.1
    · exact ih served.2 earlier

variable {o : Outside} {w : Waits} {s t : Line Thread Digest} {thread : Thread} {job : Job}

/-- A step that leaves the cache as it is, and ends a call, if any, with its own attempt. -/
structure Quiet (s t : Line Thread Digest) : Prop where
  cache : t.cache = s.cache
  given : t.given = s.given
  ended : t.ended = s.ended ∨
    ∃ e, t.ended = e :: s.ended ∧ ∀ text seen, e.outcome ≠ .cached text seen

theorem served_uncached {e : Ended Thread} (own : ∀ text seen, e.outcome ≠ .cached text seen) :
    Served read older given e := fun text seen cached => absurd cached (own text seen)

theorem raiseForStatus_own (check : Bool) (proc : Proc) :
    ∀ text seen, raiseForStatus check proc ≠ .cached text seen := by
  intro text seen
  unfold raiseForStatus
  split <;> exact Outcome.noConfusion

variable [DecidableEq Thread]

theorem Quiet.sourced (quiet : Quiet s t) (sourced : Sourced read s) : Sourced read t := by
  obtain ⟨cache, same, ended⟩ := quiet
  obtain ⟨traced, served⟩ := sourced
  rcases ended with ended | ⟨e, ended, own⟩
  · exact ⟨by rw [cache, same, ended]; exact traced, by rw [same, ended]; exact served⟩
  · refine ⟨?_, ?_⟩
    · rw [cache, same, ended]
      exact traced.mono fun _ _ stored =>
        stored.mono (List.subset_cons_self e s.ended) (List.Subset.refl _)
    · rw [same, ended]
      exact ⟨served_uncached own, served⟩

theorem quiet_put {u : Watched Thread} : Quiet s ({ s with watched := u }.put thread job) :=
  ⟨rfl, rfl, .inl rfl⟩

theorem quiet_finish {u : Watched Thread} {call : Call} {tries : List Tried} {outcome : Outcome}
    {at_ : ℚ} (own : ∀ text seen, outcome ≠ .cached text seen) :
    Quiet s ({ s with watched := u }.finish thread call tries outcome at_) :=
  ⟨rfl, rfl, .inr ⟨_, rfl, own⟩⟩

theorem charge_quiet {proc : Proc} {line : Resource × ReportLine}
    {lines : List (Resource × ReportLine)} {at_ : ℚ}
    (taken : s.charge o thread job proc line lines at_ = some t) : Quiet s t := by
  obtain ⟨name, report⟩ := line
  cases report with
  | skipped => exact Option.some.inj taken ▸ quiet_put (u := s.watched)
  | malformed =>
    exact Option.some.inj taken ▸ quiet_finish (u := s.watched) fun _ _ => Outcome.noConfusion
  | numbers report =>
    obtain ⟨u, _, rfl⟩ := Option.map_eq_some_iff.mp taken
    split
    · exact quiet_finish fun _ _ => Outcome.noConfusion
    · exact quiet_put

theorem open_quiet (call : Call) (at_ : ℚ) : Quiet s (s.open_ thread call at_) := by
  unfold Line.open_
  split
  · exact quiet_finish (u := s.watched) (raiseForStatus_own call.check _)
  · exact quiet_put (u := s.watched)

theorem held_quiet {u : Watched Thread} (proc : Proc) (wait at_ : ℚ) :
    Quiet s ({ s with watched := u }.held thread job proc wait at_) := by
  unfold Line.held
  dsimp only
  split
  · exact quiet_finish (raiseForStatus_own job.call.check proc)
  · exact quiet_put

variable [DecidableEq Digest]

theorem begin_sourced (sourced : Sourced read s) (call : Call) (fs : FileSystem Digest) (at_ : ℚ) :
    Sourced read (s.begin_ read thread call fs at_) := by
  unfold Line.begin_
  split
  · next may =>
    obtain ⟨traced, fresh⟩ := sourced.traced.get s.persists fs call.cacheKey at_
    split
    · next text seen c looked =>
      rw [looked] at traced fresh
      obtain ⟨entry, stored, same, later⟩ := fresh (text, seen) rfl
      refine ⟨traced.mono fun _ _ stored => ?_, ?_, sourced.served⟩
      · exact stored.mono (List.subset_cons_self _ _) (List.Subset.refl _)
      · intro text' seen' cached
        obtain ⟨rfl, rfl⟩ := Outcome.cached.inj cached
        exact ⟨may, rfl, entry, stored, same, later⟩
    · next c looked =>
      rw [looked] at traced
      exact (open_quiet call at_).sourced ⟨traced, sourced.served⟩
  · exact (open_quiet call at_).sourced sourced

theorem judge_sourced (sourced : Sourced read s) (proc : Proc) (draw : ℚ) (fs : FileSystem Digest)
    (at_ : ℚ) : Sourced read (s.judge read w thread job proc draw fs at_) := by
  have own : ∀ text seen, Outcome.returned proc ≠ .cached text seen := fun _ _ => Outcome.noConfusion
  unfold Line.judge
  dsimp only
  split
  · next done_ =>
    let e : Ended Thread :=
      ⟨thread, job.call, ⟨proc, job.sent, none⟩ :: job.tries, .returned proc, at_⟩
    refine ⟨?_, served_uncached own, sourced.served⟩
    have traced : Traced (Stored read (e :: s.ended) s.given) read.digest s.cache :=
      sourced.traced.mono fun _ _ stored =>
        stored.mono (List.subset_cons_self e s.ended) (List.Subset.refl _)
    dsimp only [Line.finish]
    split
    · next stores =>
      exact traced.set (.inr ⟨e, List.mem_cons_self, stores.1, rfl, ⟨proc, rfl, done_, rfl⟩, stores.2, rfl⟩)
    · exact traced
  · split
    · exact (quiet_finish (u := s.watched) fun _ _ => Outcome.noConfusion).sourced sourced
    · split
      · exact (quiet_finish (u := s.watched) (raiseForStatus_own job.call.check proc)).sourced sourced
      · exact (quiet_put (u := s.watched)).sourced sourced

theorem moves_sourced (sourced : Sourced read s) {at_ : ℚ} {move : Move Digest}
    (taken : s.moves o read w thread job at_ move = some t) : Sourced read t := by
  cases move with
  | begins call fs => simp [Line.moves] at taken
  | gets =>
    cases point : job.point <;> cases exempt : job.call.isExempt read <;>
      simp only [Line.moves, point, exempt, reduceCtorEq] at taken
    obtain ⟨u, _, rfl⟩ := Option.map_eq_some_iff.mp taken
    split
    · exact (quiet_finish fun _ _ => Outcome.noConfusion).sourced sourced
    · exact quiet_put.sourced sourced
  | sleeps =>
    cases point : job.point <;> simp only [Line.moves, point, reduceCtorEq] at taken
    obtain ⟨u, _, rfl⟩ := Option.map_eq_some_iff.mp taken
    exact quiet_put.sourced sourced
  | sends =>
    cases point : job.point <;> simp only [Line.moves, point, reduceCtorEq] at taken
    obtain ⟨u, _, rfl⟩ := Option.map_eq_some_iff.mp taken
    exact quiet_put.sourced sourced
  | runs =>
    cases point : job.point <;> cases exempt : job.call.isExempt read <;>
      simp only [Line.moves, point, exempt, reduceCtorEq, Option.some.injEq] at taken
    exact taken ▸ (quiet_put (u := s.watched)).sourced sourced
  | answers proc =>
    cases point : job.point <;> simp only [Line.moves, point, reduceCtorEq, Option.some.injEq] at taken
    exact taken ▸ (quiet_put (u := s.watched)).sourced sourced
  | charges =>
    cases point : job.point with
    | reads proc lines =>
      cases lines with
      | nil => simp [Line.moves, point] at taken
      | cons line lines =>
        simp only [Line.moves, point] at taken
        exact (charge_quiet taken).sourced sourced
    | opens | paces | runs | holds | throttles => simp [Line.moves, point] at taken
  | judges draw fs =>
    cases point : job.point with
    | reads proc lines =>
      cases lines with
      | nil =>
        simp only [Line.moves, point, Option.some.injEq] at taken
        exact taken ▸ judge_sourced sourced proc draw fs at_
      | cons line lines => simp [Line.moves, point] at taken
    | opens | paces | runs | holds | throttles => simp [Line.moves, point] at taken
  | holds =>
    cases point : job.point <;>
      simp only [Line.moves, point, reduceCtorEq, Option.ite_none_right_eq_some] at taken
    obtain ⟨u, _, rfl⟩ := Option.map_eq_some_iff.mp taken.2
    exact (held_quiet _ _ at_).sourced sourced
  | throttles =>
    cases point : job.point <;> simp only [Line.moves, point, reduceCtorEq] at taken
    obtain ⟨u, _, rfl⟩ := Option.map_eq_some_iff.mp taken
    exact quiet_put.sourced sourced
  | fails =>
    cases point : job.point <;> simp only [Line.moves, point, reduceCtorEq, Option.some.injEq] at taken
    all_goals
      exact taken ▸ (quiet_finish (u := s.watched) fun _ _ => Outcome.noConfusion).sourced sourced

theorem step_sourced {event : Event Thread Digest} (sourced : Sourced read s)
    (taken : s.step o read w event = some t) : Sourced read t := by
  cases event with
  | gh thread move at_ =>
    cases stands : s.stage thread with
    | none =>
      cases move <;> simp only [Line.step, stands, reduceCtorEq] at taken
      split at taken
      · simp at taken
      · exact Option.some.inj taken ▸ begin_sourced sourced _ _ at_
    | some job =>
      simp only [Line.step, stands, Option.ite_none_right_eq_some] at taken
      exact moves_sourced sourced taken.2
  | session event =>
    simp only [Line.step, Option.ite_none_right_eq_some] at taken
    obtain ⟨u, _, rfl⟩ := Option.map_eq_some_iff.mp taken.2
    exact ⟨sourced.traced, sourced.served⟩
  | prune fs now => exact Option.some.inj taken ▸ ⟨sourced.traced.prune now, sourced.served⟩
  | clear fs => exact Option.some.inj taken ▸ ⟨sourced.traced.clear, sourced.served⟩
  | file name entry =>
    obtain rfl := Option.some.inj taken
    have more : s.given ⊆ (entry.map fun entry => (name, entry)).toList ++ s.given :=
      List.subset_append_right _ _
    have traced := sourced.traced.mono fun _ _ stored => stored.mono (List.Subset.refl _) more
    refine ⟨traced.write fun kept written => ?_, sourced.served.mono more⟩
    obtain ⟨mine, wrote, same⟩ := Option.map_eq_some_iff.mp written
    obtain rfl := Option.some.inj same
    exact .inl (List.mem_append_left _ (by simp [wrote]))

end Runs

/-- In every run of the threads, an answer from the cache was printed by a command that the cache
    may keep and that succeeded, in a call of this process that ended before, under the same name of
    its key, and its time to live had not passed; or another process wrote it. The call that it
    answers sends nothing, and the cache may keep its command too. -/
theorem cached_answers_were_printed {Thread Digest : Type} [DecidableEq Thread]
    [DecidableEq Digest] (o : Outside) (read : Readers Digest) (w : Waits) (limiter : RateLimiter)
    (file : Option Ledger) (now : ℚ) (events : List (Event Thread Digest)) (s : Line Thread Digest)
    (run : exec (Line.step o read w) (.start limiter file now) events = some s)
    (e : Ended Thread) (older : List (Ended Thread)) (ends : e :: older <:+ s.ended) :
    Served read older s.given e := by
  have begins : Sourced read (Line.start limiter file now : Line Thread Digest) :=
    ⟨⟨fun _ entry member => absurd member (Option.not_mem_none entry),
      fun _ _ member => absurd member (Option.not_mem_none _)⟩, trivial⟩
  have sourced := exec_invariant_always (fun _ _ _ sourced taken => step_sourced sourced taken)
    begins run
  exact sourced.served.of_suffix ends

theorem cached_answers_were_printed_view :
    ∃ (s : Line Unit Str) (e first : Ended Unit), s.ended = [e, first] ∧
      e.outcome = .cached "open".toList 163 ∧ Served plainReaders [first] s.given e := by
  let events := limitedOnce ++ [.gh () (.begins viewPr {}) 163]
  have reached : (exec (Line.step afterSend plainReaders {}) (.start tenLeft none 0) events).any
      (fun s => decide (s.ended.map Ended.outcome =
        [.cached "open".toList 163, .returned ⟨0, "open".toList, []⟩])) = true := by decide +kernel
  obtain ⟨s, run, seen⟩ := (Option.any_eq_true _ _).mp reached
  obtain ⟨e, rest, ended, cached, others⟩ := List.map_eq_cons_iff.mp (of_decide_eq_true seen)
  obtain ⟨first, last, more, _, none_⟩ := List.map_eq_cons_iff.mp others
  obtain rfl := List.map_eq_nil_iff.mp none_
  subst more
  exact ⟨s, e, first, ended, cached,
    cached_answers_were_printed afterSend plainReaders {} tenLeft none 0 events s run e [first]
      (ended ▸ List.suffix_refl _)⟩

end DevopsCli.GitHub.RunGh
