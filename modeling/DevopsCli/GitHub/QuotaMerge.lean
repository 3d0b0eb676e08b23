import DevopsCli.GitHub.Quota

/- The merge of two quotas as a join. Of two windows the later one stands, and in one window each
   value takes the one that reports more use. A float that is no number is in no order, and the
   merge then takes the side that it was given on. -/
namespace DevopsCli.GitHub

section Joins
variable {T : Type}

/-- A quota with a known reset, without its limit. -/
@[ext] structure Reading (T : Type) where
  reset : T
  remaining : Option Nat
  used : Option Nat
  lastUpdated : Option T
  lastRequestEpoch : Option T

def QuotaStateOf.readingAt (q : QuotaStateOf T) (reset : T) : Reading T :=
  ⟨reset, q.remaining, q.used, q.lastUpdated, q.lastRequestEpoch⟩

def QuotaStateOf.reading (q : QuotaStateOf T) : Option (Reading T) := q.resetEpoch.map q.readingAt

variable [LinearOrder T]

def Reading.together (a b : Reading T) : Reading T where
  reset := a.reset
  remaining := a.remaining.merge min b.remaining
  used := a.used.merge max b.used
  lastUpdated := a.lastUpdated.merge max b.lastUpdated
  lastRequestEpoch := a.lastRequestEpoch.merge max b.lastRequestEpoch

instance : Max (Reading T) where
  max a b := if a.reset = b.reset then a.together b else if b.reset < a.reset then a else b

namespace Reading
variable {a b c : Reading T}

theorem max_same (same : a.reset = b.reset) : max a b = a.together b := if_pos same

theorem max_later (later : b.reset < a.reset) : max a b = a := by
  change ite _ _ _ = a
  rw [if_neg later.ne', if_pos later]

theorem max_earlier (earlier : a.reset < b.reset) : max a b = b := by
  change ite _ _ _ = b
  rw [if_neg earlier.ne, if_neg earlier.not_gt]

theorem together_comm (same : a.reset = b.reset) : a.together b = b.together a := by
  ext1
  · exact same
  · exact (Option.commutative_merge min).comm _ _
  all_goals exact (Option.commutative_merge max).comm _ _

theorem together_assoc (a b c : Reading T) :
    (a.together b).together c = a.together (b.together c) := by
  ext1
  · rfl
  · exact (Option.associative_merge min).assoc _ _ _
  all_goals exact (Option.associative_merge max).assoc _ _ _

theorem together_self (a : Reading T) : a.together a = a := by
  ext1
  · rfl
  · exact (Option.idempotentOp_merge min).idempotent _
  all_goals exact (Option.idempotentOp_merge max).idempotent _

theorem reset_max (a b : Reading T) : (max a b).reset = max a.reset b.reset := by
  rcases lt_trichotomy a.reset b.reset with earlier | same | later
  · rw [max_earlier earlier, max_eq_right earlier.le]
  · rw [max_same same, same, max_self]
    exact same
  · rw [max_later later, max_eq_left later.le]

theorem max_comm (a b : Reading T) : max a b = max b a := by
  rcases lt_trichotomy a.reset b.reset with earlier | same | later
  · rw [max_earlier earlier, max_later earlier]
  · rw [max_same same, max_same same.symm, together_comm same]
  · rw [max_later later, max_earlier later]

theorem max_assoc (a b c : Reading T) : max (max a b) c = max a (max b c) := by
  rcases lt_trichotomy a.reset b.reset with earlier | same | later
  · have after : a.reset < (max b c).reset := by
      rw [reset_max]
      exact lt_max_of_lt_left earlier
    rw [max_earlier earlier, max_earlier after]
  · rcases lt_trichotomy b.reset c.reset with before | equal | behind
    · have first : (a.together b).reset < c.reset := same.trans_lt before
      rw [max_same same, max_earlier first, max_earlier before, max_earlier (same.trans_lt before)]
    · have first : (a.together b).reset = c.reset := same.trans equal
      have second : a.reset = (b.together c).reset := same
      rw [max_same same, max_same first, max_same equal, max_same second, together_assoc]
    · have first : c.reset < (a.together b).reset := behind.trans_eq same.symm
      rw [max_same same, max_later first, max_later behind, max_same same]
  · rcases lt_trichotomy b.reset c.reset with before | equal | behind
    · rw [max_later later, max_earlier before]
    · have second : (b.together c).reset < a.reset := later
      rw [max_later later, max_same equal, max_later second, max_later (equal.symm.trans_lt later)]
    · rw [max_later later, max_later behind, max_later later, max_later (behind.trans later)]

theorem max_self (a : Reading T) : max a a = a := by
  rw [max_same rfl, together_self]

instance : SemilatticeSup (Reading T) := SemilatticeSup.mk' max_comm max_assoc max_self

theorem merge_bound {α : Type} {r : α → α → Prop} {f : α → α → α} (self : ∀ n, r n n)
    (left : ∀ n k, r (f n k) n) {known other : Option α} {n : α} (some_ : n ∈ known) :
    ∃ m ∈ known.merge f other, r m n := by
  rw [Option.mem_def.mp some_]
  cases other with
  | none => exact ⟨n, rfl, self n⟩
  | some k => exact ⟨f n k, rfl, left n k⟩

/-- In the window that stands, what a reading knows bounds what is left and used. -/
theorem sup_bounds (window : b.reset ≤ a.reset) :
    (∀ n ∈ a.remaining, ∃ m ∈ (a ⊔ b).remaining, m ≤ n) ∧
      ∀ n ∈ a.used, ∃ m ∈ (a ⊔ b).used, n ≤ m := by
  rcases window.lt_or_eq with later | same
  · have stands : a ⊔ b = a := max_later later
    rw [stands]
    exact ⟨fun n known => ⟨n, known, le_rfl⟩, fun n known => ⟨n, known, le_rfl⟩⟩
  · have stands : a ⊔ b = a.together b := max_same same.symm
    rw [stands]
    constructor
    · intro n known
      exact merge_bound (r := (· ≤ ·)) le_refl min_le_left known
    · intro n known
      exact merge_bound (r := (· ≥ ·)) le_refl le_max_left known

end Reading

theorem latest_eq_merge (a b : Option T) : latest a b = a.merge max b := by
  have larger (a b : T) : (if Compares.later b a = true then b else a) = max a b := by
    have later : Compares.later b a = decide (a < b) := rfl
    rw [later]
    rcases lt_or_ge a b with below | above
    · rw [if_pos (decide_eq_true below), max_eq_right below.le]
    · rw [if_neg (by simpa using above), max_eq_left above]
  cases a with
  | none => cases b <;> rfl
  | some a =>
    cases b with
    | none => rfl
    | some b => exact congrArg some (larger a b)

theorem sameEpoch_remaining {U : Type} [Compares U] (disk mem : QuotaStateOf U) :
    (mergeSameEpochQuota disk mem).remaining = disk.remaining.merge min mem.remaining := by
  rw [mergeSameEpochQuota]
  cases disk.remaining <;> cases mem.remaining <;> rfl

theorem merge_reading {disk mem : QuotaStateOf T} {a b : Reading T} (onDisk : disk.reading = some a)
    (inMemory : mem.reading = some b) : (mergeSingleQuota disk mem).reading = some (a ⊔ b) := by
  obtain ⟨first, disk_reset, rfl⟩ := Option.map_eq_some_iff.mp onDisk
  obtain ⟨second, mem_reset, rfl⟩ := Option.map_eq_some_iff.mp inMemory
  have equal : Compares.equal first second = decide (first = second) := rfl
  have later_ : Compares.later first second = decide (second < first) := rfl
  simp only [mergeSingleQuota, disk_reset, mem_reset, equal, later_, decide_eq_true_eq]
  rcases lt_trichotomy first second with earlier | same | later
  · have stands : disk.readingAt first ⊔ mem.readingAt second = mem.readingAt second :=
      Reading.max_earlier earlier
    rw [if_neg earlier.ne, if_neg earlier.not_gt, stands, inMemory]
  · have stands : disk.readingAt first ⊔ mem.readingAt second =
        (disk.readingAt first).together (mem.readingAt second) := Reading.max_same same
    have reset : (mergeSameEpochQuota disk mem).resetEpoch = some first := disk_reset
    rw [if_pos same, stands, QuotaStateOf.reading, reset, Option.map_some, Option.some.injEq]
    ext1
    · rfl
    · exact sameEpoch_remaining disk mem
    all_goals exact latest_eq_merge _ _
  · have stands : disk.readingAt first ⊔ mem.readingAt second = disk.readingAt first :=
      Reading.max_later later
    rw [if_neg later.ne', if_pos later, stands, onDisk]

end Joins

section Floats

def QuotaStateOf.epochs (q : QuotaStateOf (WithTop ℚ)) : QuotaStateOf Epoch where
  remaining := q.remaining
  limit := q.limit
  resetEpoch := q.resetEpoch.map .time
  lastUpdated := q.lastUpdated.map .time
  used := q.used
  lastRequestEpoch := q.lastRequestEpoch.map .time

def QuotaStateOf.Numeric (q : QuotaStateOf Epoch) : Prop :=
  q.resetEpoch ≠ some .nan ∧ q.lastUpdated ≠ some .nan ∧ q.lastRequestEpoch ≠ some .nan

theorem epochs_of_numeric {q : QuotaStateOf Epoch} (numeric : q.Numeric) :
    ∃ times : QuotaStateOf (WithTop ℚ), times.epochs = q := by
  have time {epoch : Option Epoch} (number : epoch ≠ some .nan) :
      ∃ t : Option (WithTop ℚ), t.map Epoch.time = epoch := by
    cases epoch with
    | none => exact ⟨none, rfl⟩
    | some e =>
      cases e with
      | nan => exact absurd rfl number
      | time t => exact ⟨some t, rfl⟩
  obtain ⟨reset, first⟩ := time numeric.1
  obtain ⟨updated, second⟩ := time numeric.2.1
  obtain ⟨requested, third⟩ := time numeric.2.2
  refine ⟨⟨q.remaining, q.limit, reset, updated, q.used, requested⟩, ?_⟩
  rw [QuotaStateOf.epochs, first, second, third]

theorem latest_epochs (a b : Option (WithTop ℚ)) :
    latest (a.map Epoch.time) (b.map Epoch.time) = (latest a b).map Epoch.time := by
  cases a with
  | none => cases b <;> rfl
  | some a =>
    cases b with
    | none => rfl
    | some b => exact congrArg some (apply_ite Epoch.time _ b a).symm

theorem merge_epochs (disk mem : QuotaStateOf (WithTop ℚ)) :
    mergeSingleQuota disk.epochs mem.epochs = (mergeSingleQuota disk mem).epochs := by
  have together : mergeSameEpochQuota disk.epochs mem.epochs = (mergeSameEpochQuota disk mem).epochs := by
    simp only [mergeSameEpochQuota, QuotaStateOf.epochs, latest_epochs]
    rfl
  simp only [mergeSingleQuota]
  cases first : disk.resetEpoch with
  | none => simp [QuotaStateOf.epochs, first]
  | some s =>
    cases second : mem.resetEpoch with
    | none => simp [QuotaStateOf.epochs, first, second]
    | some t =>
      have onDisk : disk.epochs.resetEpoch = some (.time s) := by rw [QuotaStateOf.epochs, first]; rfl
      have inMemory : mem.epochs.resetEpoch = some (.time t) := by rw [QuotaStateOf.epochs, second]; rfl
      have equal : Compares.equal (Epoch.time s) (.time t) = Compares.equal s t := rfl
      have later : Compares.later (Epoch.time s) (.time t) = Compares.later s t := rfl
      rw [onDisk, inMemory]
      simp only [equal, later, together]
      split
      · rfl
      · split <;> rfl

def Reading.epochs (r : Reading (WithTop ℚ)) : Reading Epoch :=
  ⟨.time r.reset, r.remaining, r.used, r.lastUpdated.map .time, r.lastRequestEpoch.map .time⟩

theorem reading_epochs (q : QuotaStateOf (WithTop ℚ)) :
    q.epochs.reading = q.reading.map Reading.epochs := by
  rw [QuotaStateOf.reading, QuotaStateOf.reading, Option.map_map]
  exact Option.map_map _ _ q.resetEpoch

end Floats

theorem latest_self {T : Type} [Compares T] (known : Option T) : latest known known = known := by
  cases known with
  | none => rfl
  | some t => exact congrArg some (ite_self t)

theorem mergeSingleQuota_self {T : Type} [Compares T] (q : QuotaStateOf T) :
    mergeSingleQuota q q = q := by
  have remaining : (mergeSameEpochQuota q q).remaining = q.remaining := by
    rw [sameEpoch_remaining]
    exact (Option.idempotentOp_merge min).idempotent q.remaining
  have limit : (mergeSameEpochQuota q q).limit = q.limit := by
    simp only [mergeSameEpochQuota, Option.or_self, ite_self]
  have together : mergeSameEpochQuota q q = q := by
    obtain ⟨remaining_, limit_, reset, updated, used_, requested⟩ := q
    simp only [mergeSameEpochQuota, latest_self] at remaining limit ⊢
    rw [remaining, limit]
  rw [mergeSingleQuota, together]
  split
  · rfl
  · rfl
  · rw [ite_self, ite_self]

/-- What the merge of two quotas with known windows gives: the order of the two does not matter, the
    later window stands, and it reports no more left and no less used than either was given. -/
structure Joined (a b : QuotaStateOf Epoch) : Prop where
  comm : (mergeSingleQuota a b).reading = (mergeSingleQuota b a).reading
  window : ∀ s t, a.resetEpoch = some (.time s) → b.resetEpoch = some (.time t) →
    (mergeSingleQuota a b).resetEpoch = some (.time (max s t))
  bounds : ∀ q, q = a ∨ q = b → q.resetEpoch = (mergeSingleQuota a b).resetEpoch →
    (∀ n ∈ q.remaining, ∃ m ∈ (mergeSingleQuota a b).remaining, m ≤ n) ∧
      ∀ n ∈ q.used, ∃ m ∈ (mergeSingleQuota a b).used, n ≤ m

theorem joined_epochs {a b : QuotaStateOf (WithTop ℚ)} {s t : WithTop ℚ}
    (reset : a.resetEpoch = some s) (reset' : b.resetEpoch = some t) : Joined a.epochs b.epochs := by
  have one : a.reading = some (a.readingAt s) := congrArg (Option.map a.readingAt) reset
  have two : b.reading = some (b.readingAt t) := congrArg (Option.map b.readingAt) reset'
  have merged := merge_reading one two
  obtain ⟨w, window, same⟩ := Option.map_eq_some_iff.mp merged
  have later : w = max s t :=
    (congrArg Reading.reset same).trans (Reading.reset_max (a.readingAt s) (b.readingAt t))
  have remaining : (mergeSingleQuota a b).remaining = _ := congrArg Reading.remaining same
  have used : (mergeSingleQuota a b).used = _ := congrArg Reading.used same
  have stands : (mergeSingleQuota a b).epochs.resetEpoch = some (.time (max s t)) := by
    rw [QuotaStateOf.epochs, window, later]
    rfl
  have first : a.epochs.resetEpoch = some (.time s) := congrArg (Option.map Epoch.time) reset
  have second : b.epochs.resetEpoch = some (.time t) := congrArg (Option.map Epoch.time) reset'
  refine ⟨?_, ?_, ?_⟩
  · rw [merge_epochs, merge_epochs, reading_epochs, reading_epochs, merged, merge_reading two one,
      sup_comm]
  · intro s' t' known known'
    rw [first, Option.some.injEq, Epoch.time.injEq] at known
    rw [second, Option.some.injEq, Epoch.time.injEq] at known'
    rw [merge_epochs, stands, known, known']
  · rw [merge_epochs, stands]
    rintro q (rfl | rfl) known
    · rw [first, Option.some.injEq, Epoch.time.injEq] at known
      have bounds := Reading.sup_bounds (a := a.readingAt s) (b := b.readingAt t)
        (max_eq_left_iff.mp known.symm)
      rwa [← remaining, ← used] at bounds
    · rw [second, Option.some.injEq, Epoch.time.injEq] at known
      have bounds := Reading.sup_bounds (a := b.readingAt t) (b := a.readingAt s)
        (max_eq_right_iff.mp known.symm)
      rwa [sup_comm, ← remaining, ← used] at bounds

/-- The merge is a join on all but the limit: any number of processes may merge in any order, the
    later window stands, and no merge reports more left or less used than it was given. -/
theorem ledger_merge_joins (a b c : QuotaStateOf Epoch) (first : a.resetEpoch.isSome = true)
    (second : b.resetEpoch.isSome = true) (third : c.resetEpoch.isSome = true) :
    mergeSingleQuota a a = a ∧
    (a.Numeric → b.Numeric → Joined a b ∧
      (c.Numeric → (mergeSingleQuota (mergeSingleQuota a b) c).reading =
        (mergeSingleQuota a (mergeSingleQuota b c)).reading)) := by
  refine ⟨mergeSingleQuota_self a, fun numeric numeric' => ?_⟩
  obtain ⟨a, rfl⟩ := epochs_of_numeric numeric
  obtain ⟨b, rfl⟩ := epochs_of_numeric numeric'
  rw [QuotaStateOf.epochs, Option.isSome_map] at first second
  obtain ⟨s, reset⟩ := Option.isSome_iff_exists.mp first
  obtain ⟨t, reset'⟩ := Option.isSome_iff_exists.mp second
  refine ⟨joined_epochs reset reset', fun numeric'' => ?_⟩
  obtain ⟨c, rfl⟩ := epochs_of_numeric numeric''
  rw [QuotaStateOf.epochs, Option.isSome_map] at third
  obtain ⟨u, reset''⟩ := Option.isSome_iff_exists.mp third
  have one : a.reading = some (a.readingAt s) := congrArg (Option.map a.readingAt) reset
  have two : b.reading = some (b.readingAt t) := congrArg (Option.map b.readingAt) reset'
  have three : c.reading = some (c.readingAt u) := congrArg (Option.map c.readingAt) reset''
  rw [merge_epochs, merge_epochs, merge_epochs, merge_epochs, reading_epochs, reading_epochs,
    merge_reading (merge_reading one two) three, merge_reading one (merge_reading two three), sup_assoc]

def quotaAt (remaining used : Nat) (reset updated : Epoch) : QuotaStateOf Epoch :=
  { remaining := some remaining, used := some used, resetEpoch := some reset,
    lastUpdated := some updated }

/-- Two processes in one window and a third in an older one. -/
theorem ledger_merge_joins_three :
    (mergeSingleQuota (mergeSingleQuota (quotaAt 7 3 (.time 60) (.time 1))
        (quotaAt 5 4 (.time 60) (.time 2))) (quotaAt 1 9 (.time 30) (.time 3))).reading =
      (mergeSingleQuota (quotaAt 7 3 (.time 60) (.time 1)) (mergeSingleQuota
        (quotaAt 5 4 (.time 60) (.time 2)) (quotaAt 1 9 (.time 30) (.time 3)))).reading := by
  have numeric (remaining used : Nat) (reset updated : WithTop ℚ) :
      (quotaAt remaining used (.time reset) (.time updated)).Numeric := by
    refine ⟨?_, ?_, ?_⟩ <;>
    · intro same
      cases same
  exact ((ledger_merge_joins (quotaAt 7 3 (.time 60) (.time 1)) (quotaAt 5 4 (.time 60) (.time 2))
    (quotaAt 1 9 (.time 30) (.time 3)) rfl rfl rfl).2 (numeric _ _ _ _) (numeric _ _ _ _)).2
    (numeric _ _ _ _)

/-- One process has NaN for the time of its last update. -/
theorem nan_merges_by_side :
    ¬ ∀ a b : QuotaStateOf Epoch, a.resetEpoch.isSome = true → b.resetEpoch.isSome = true →
      (mergeSingleQuota a b).reading = (mergeSingleQuota b a).reading := by
  intro comm
  have same := comm (quotaAt 5 4 (.time 60) .nan) (quotaAt 5 4 (.time 60) (.time 2)) rfl rfl
  have updated := congrArg (Option.bind · Reading.lastUpdated) same
  have apart : (mergeSingleQuota (quotaAt 5 4 (.time 60) .nan)
      (quotaAt 5 4 (.time 60) (.time 2))).reading.bind Reading.lastUpdated = some .nan := by
    decide +kernel
  have other : (mergeSingleQuota (quotaAt 5 4 (.time 60) (.time 2))
      (quotaAt 5 4 (.time 60) .nan)).reading.bind Reading.lastUpdated = some (.time 2) := by
    decide +kernel
  rw [apart, other] at updated
  cases updated

end DevopsCli.GitHub
