import DevopsCli.Security.VaultLease

/- The sweeps over the leases of Vault: what comes of each lease, and when one lease stops the
   others. -/
namespace DevopsCli.Vault
open PyStr

section Laws
variable {T F : Type} (seconds : Seconds T) (decimals : Decimals) (trunc : F → Option Int)
  (world : World T F) (session : Session T)

def Outcome.Accepted (outcome : Outcome F) : Prop :=
  ∃ status body, outcome = .reply status body ∧ status < 400

instance (outcome : Outcome F) : Decidable outcome.Accepted :=
  match outcome with
  | .reply status body => decidable_of_iff (status < 400) <| by simp [Outcome.Accepted]
  | .transportError _ => isFalse (by simp [Outcome.Accepted])
  | .elsewhere _ => isFalse (by simp [Outcome.Accepted])
  | .httpError _ => isFalse (by simp [Outcome.Accepted])

/-- The sweep of the revocations: it returns, one request was sent for each lease, none is tracked,
    and the leases that Vault did not take are named. -/
structure RevokeLaw : Prop where
  named : (revokeAll world session).1 = .ok ((session.registry.leases.rows.map
    VaultLease.leaseId).filter fun leaseId => ¬(world.answer leaseId).Accepted)
  sent : (revokeAll world session).2.sent = session.sent ++
    session.registry.leases.rows.map fun lease => session.registry.revokeRequest lease.leaseId
  untracked : (revokeAll world session).2.registry.leases.rows = []

/-- The sweep of the renewals: it returns, each lease is in one list of the report, and its record
    is the old one, or where it is renewed has the duration that Vault gave. -/
structure RenewLaw : Prop where
  listed : ∃ report : VaultLeaseReport,
    (renewExpiring seconds decimals trunc world session).1 = .ok report ∧
    (report.renewed ++ report.failed ++ report.skipped).Perm
      (session.registry.leases.rows.map VaultLease.leaseId) ∧
    report.trackedCount = session.registry.leases.rows.length ∧
    (∀ lease ∈ session.registry.leases, lease.leaseId ∈ report.failed ++ report.skipped →
      lease ∈ (renewExpiring seconds decimals trunc world session).2.registry.leases) ∧
    ∀ lease ∈ session.registry.leases, lease.leaseId ∈ report.renewed →
      ∃ payload duration,
        post session.registry.vaultAddr renewPath (world.answer lease.leaseId) = .ok payload ∧
        leaseDuration decimals trunc payload session.registry.renewIncrement = .ok duration ∧
        { lease with
          durationSeconds := duration
          issuedAt := world.stamp lease.leaseId
          renewalCount := lease.renewalCount + 1 } ∈
            (renewExpiring seconds decimals trunc world session).2.registry.leases
  tracked : (renewExpiring seconds decimals trunc world session).2.registry.leases.rows.map
    VaultLease.leaseId = session.registry.leases.rows.map VaultLease.leaseId

def Body.IsRead (body : Body F) : Prop := body ≠ .notJson

def Body.IsGrant (body : Body F) : Prop :=
  body.IsRead ∧ ∀ members value, body = .json (.obj members) →
    members.lookup leaseDurationKey = some value → ∃ n, intOrZero decimals trunc value = .ok n

def Outcome.Answers (outcome : Outcome F) (good : Body F → Prop) : Prop :=
  ∃ status body, outcome = .reply status body ∧ (status < 400 → good body)

def RevocationsAnswered : Prop :=
  ∀ lease ∈ session.registry.leases, (world.answer lease.leaseId).Answers Body.IsRead

/-- The duration of each lease that can expire is in the range of the floats, and each renewal that
    is due is answered, with a duration that is a number. -/
def RenewalsAnswered : Prop :=
  ∀ lease ∈ session.registry.leases, lease.renewable = true → 0 < lease.durationSeconds →
    (seconds.ofInt lease.durationSeconds).isSome ∧
    (needsRenewal seconds session.registry.toConnection lease (world.now lease.leaseId) = .ok true →
      (world.answer lease.leaseId).Answers (Body.IsGrant decimals trunc))

end Laws

section Revocations
variable {T F : Type} {world : World T F} {session : Session T}

theorem payloadOf_read {body : Body F} (read : body.IsRead) : ∃ payload, payloadOf body = .ok payload ∧
    ∀ key value, payload.lookup key = some value → body = .json (.obj payload) := by
  cases body with
  | empty => exact ⟨[], rfl, fun key value found => by cases found⟩
  | notJson => exact absurd rfl read
  | json value =>
    cases value with
    | obj members => exact ⟨members, rfl, fun _ _ _ => rfl⟩
    | _ => exact ⟨[], rfl, fun key value found => by cases found⟩

theorem post_caught (addr path : Str) (outcome : Outcome F) :
    (∀ raised, post addr path outcome = .error raised → raised.isVaultLease = true) ↔
      outcome.Answers Body.IsRead := by
  cases outcome with
  | transportError kind => simp [post, Outcome.Answers, Raised.isVaultLease]
  | elsewhere target => simp [post, Outcome.Answers, Raised.isVaultLease]
  | httpError kind => simp [post, Outcome.Answers, Raised.isVaultLease]
  | reply status body =>
    rw [post]
    by_cases below : status < 400
    · rw [if_neg (Nat.not_le.mpr below)]
      constructor
      · intro caught
        refine ⟨status, body, rfl, fun _ => ?_⟩
        rintro rfl
        cases caught .valueError rfl
      · rintro ⟨_, _, same, reads⟩ raised failed
        cases same
        obtain ⟨payload, read, _⟩ := payloadOf_read (reads below)
        rw [read] at failed
        cases failed
    · rw [if_pos (Nat.not_lt.mp below)]
      constructor
      · exact fun _ => ⟨status, body, rfl, fun under => absurd under below⟩
      · rintro _ raised refused
        obtain rfl := Except.error.inj refused
        rfl

theorem post_ok (addr path : Str) {outcome : Outcome F} (answered : outcome.Answers Body.IsRead) :
    (∃ payload, post addr path outcome = .ok payload) ↔ outcome.Accepted := by
  obtain ⟨status, body, rfl, reads⟩ := answered
  rw [post]
  by_cases below : status < 400
  · rw [if_neg (Nat.not_le.mpr below)]
    obtain ⟨payload, read, _⟩ := payloadOf_read (reads below)
    exact ⟨fun _ => ⟨status, body, rfl, below⟩, fun _ => ⟨payload, read⟩⟩
  · rw [if_pos (Nat.not_lt.mp below)]
    constructor
    · rintro ⟨_, never⟩
      cases never
    · rintro ⟨_, _, same, under⟩
      cases same
      exact absurd under below

theorem revoke_spec (world : World T F) (session : Session T) (leaseId : Str) :
    (revoke world session leaseId).2.sent =
      session.sent ++ [session.registry.revokeRequest leaseId] ∧
    (revoke world session leaseId).2.registry.toConnection = session.registry.toConnection ∧
    (revoke world session leaseId).2.registry.leases =
      session.registry.leases.keep fun lease => lease.leaseId ≠ leaseId :=
  ⟨rfl, rfl, rfl⟩

theorem revoke_result (world : World T F) (session : Session T) (leaseId : Str) :
    (revoke world session leaseId).1 =
      (post session.registry.vaultAddr revokePath (world.answer leaseId)).map fun _ => () := rfl

theorem revokeLoop_answered (rows : List (VaultLease T)) (refused : List Str) (session : Session T)
    (tracked : session.registry.leases.rows = rows)
    (answered : ∀ lease ∈ rows, (world.answer lease.leaseId).Answers Body.IsRead) :
    ∃ after, revokeLoop world refused (rows.map VaultLease.leaseId) session =
        (.ok (refused ++ (rows.map VaultLease.leaseId).filter fun leaseId =>
          ¬(world.answer leaseId).Accepted), after) ∧
      after.sent = session.sent ++
        rows.map (fun lease => session.registry.revokeRequest lease.leaseId) ∧
      after.registry.leases.rows = [] := by
  induction rows generalizing refused session with
  | nil => exact ⟨session, by simp [revokeLoop], by simp, tracked⟩
  | cons lease rest ih =>
    obtain ⟨here, later⟩ := List.forall_mem_cons.mp answered
    obtain ⟨sent, connection, leases⟩ := revoke_spec world session lease.leaseId
    have result := revoke_result world session lease.leaseId
    generalize revoked : revoke world session lease.leaseId = pair at sent connection leases result
    obtain ⟨answer, next⟩ := pair
    simp only at sent connection leases result
    have kept : next.registry.leases.rows = rest := by
      rw [leases]
      exact Keyed.rows_keep_rest tracked
    have requests : ∀ leaseId, next.registry.revokeRequest leaseId =
        session.registry.revokeRequest leaseId := by
      intro leaseId
      rw [connection]
    rw [List.map_cons, revokeLoop, revoked]
    cases taken : post session.registry.vaultAddr revokePath (world.answer lease.leaseId) with
    | ok payload =>
      have accepted := (post_ok session.registry.vaultAddr revokePath here).mp ⟨payload, taken⟩
      rw [taken] at result
      obtain ⟨after, loop, requested, empty⟩ := ih refused next kept later
      refine ⟨after, ?_, ?_, empty⟩
      · rw [result, List.filter_cons_of_neg (by simpa using accepted)]
        exact loop
      · rw [requested, sent, List.map_cons, List.append_assoc, List.singleton_append]
        simp only [requests]
    | error raised =>
      have caught := (post_caught session.registry.vaultAddr revokePath _).mpr here raised taken
      have refusedHere : ¬(world.answer lease.leaseId).Accepted := by
        intro accepted
        obtain ⟨payload, ok⟩ := (post_ok session.registry.vaultAddr revokePath here).mpr accepted
        rw [taken] at ok
        cases ok
      rw [taken] at result
      obtain ⟨after, loop, requested, empty⟩ := ih (refused ++ [lease.leaseId]) next kept later
      refine ⟨after, ?_, ?_, empty⟩
      · rw [result, List.filter_cons_of_pos (by simpa using refusedHere)]
        simp only [Except.map, caught, if_true]
        rw [loop, List.append_assoc, List.singleton_append]
      · rw [requested, sent, List.map_cons, List.append_assoc, List.singleton_append]
        simp only [requests]

theorem revokeLoop_stops (world : World T F) (rows : List Str) (refused : List Str) (session : Session T)
    (stops : ∃ leaseId ∈ rows, ¬(world.answer leaseId).Answers Body.IsRead) :
    ∃ raised, (revokeLoop world refused rows session).1 = .error raised := by
  induction rows generalizing refused session with
  | nil => obtain ⟨_, mem, _⟩ := stops; cases mem
  | cons leaseId rest ih =>
    have result := revoke_result world session leaseId
    generalize revoked : revoke world session leaseId = pair at result
    obtain ⟨answer, next⟩ := pair
    simp only at result
    rw [revokeLoop, revoked]
    by_cases here : (world.answer leaseId).Answers Body.IsRead
    · have later : ∃ leaseId ∈ rest, ¬(world.answer leaseId).Answers Body.IsRead := by
        obtain ⟨other, mem, silent⟩ := stops
        rcases List.mem_cons.mp mem with rfl | mem
        · exact absurd here silent
        · exact ⟨other, mem, silent⟩
      cases answer with
      | ok _ => exact ih refused next later
      | error raised =>
        have caught : raised.isVaultLease = true := by
          apply (post_caught session.registry.vaultAddr revokePath _).mpr here raised
          cases taken : post session.registry.vaultAddr revokePath (world.answer leaseId) with
          | ok payload =>
            rw [taken] at result
            cases result
          | error other =>
            rw [taken] at result
            rw [Except.error.inj result]
        simp only [caught, if_true]
        exact ih (refused ++ [leaseId]) next later
    · rw [← post_caught session.registry.vaultAddr revokePath] at here
      push Not at here
      obtain ⟨raised, taken, uncaught⟩ := here
      rw [taken] at result
      rw [result]
      have not_ : raised.isVaultLease = false := by simpa using uncaught
      simp only [Except.map, not_, Bool.false_eq_true, if_false]
      exact ⟨raised, rfl⟩

theorem revokeLaw_iff (world : World T F) (session : Session T) :
    RevokeLaw world session ↔ RevocationsAnswered world session := by
  constructor
  · intro law lease mem
    by_contra silent
    obtain ⟨raised, stopped⟩ := revokeLoop_stops world
      (session.registry.leases.rows.map VaultLease.leaseId) [] session
      ⟨lease.leaseId, List.mem_map_of_mem mem, silent⟩
    have named := law.named
    rw [revokeAll, stopped] at named
    cases named
  · intro answered
    obtain ⟨after, loop, sent, empty⟩ :=
      revokeLoop_answered session.registry.leases.rows [] session rfl answered
    exact ⟨by rw [revokeAll, loop, List.nil_append], by rw [revokeAll, loop, sent],
      by rw [revokeAll, loop, empty]⟩

end Revocations

section Renewals
variable {T F : Type} (seconds : Seconds T) (decimals : Decimals) (trunc : F → Option Int)
  (world : World T F)

/-- What comes of one lease in the sweep. -/
inductive Fate (T : Type) where
  | skipped
  | renewed (lease : VaultLease T)
  | failed
  | raised (error : Raised)

def fate (vault : Connection T) (lease : VaultLease T) : Fate T :=
  match needsRenewal seconds vault lease (world.now lease.leaseId) with
  | .error raised => .raised raised
  | .ok false => .skipped
  | .ok true =>
    match renewal decimals trunc world vault lease none with
    | .ok renewed => .renewed renewed
    | .error raised => if raised.isVaultLease then .failed else .raised raised

def Fate.record (lease : VaultLease T) : Fate T → VaultLease T
  | .renewed record => record
  | _ => lease

def Fate.isSkipped : Fate T → Bool
  | .skipped => true
  | _ => false

def Fate.isRenewed : Fate T → Bool
  | .renewed _ => true
  | _ => false

def Fate.isFailed : Fate T → Bool
  | .failed => true
  | _ => false

def Fate.isRaised : Fate T → Bool
  | .raised _ => true
  | _ => false

variable {seconds decimals trunc world}

theorem due_renewable {vault : Connection T} {lease : VaultLease T} {now : T}
    (due : needsRenewal seconds vault lease now = .ok true) :
    lease.renewable = true ∧ 0 < lease.durationSeconds := by
  unfold needsRenewal at due
  split at due
  · cases due
  · next live => simpa [not_or] using live

theorem renewal_leaseId {vault : Connection T} {lease renewed : VaultLease T} {increment : Option Int}
    (done : renewal decimals trunc world vault lease increment = .ok renewed) :
    renewed.leaseId = lease.leaseId := by
  unfold renewal at done
  split at done
  · cases done
  split at done
  · cases done
  obtain rfl := Except.ok.inj done
  rfl

theorem renew_tracked (decimals : Decimals) (trunc : F → Option Int) (world : World T F) {session : Session T} {lease : VaultLease T}
    (tracked : lease ∈ session.registry.leases) (renewable : lease.renewable = true) :
    (renew decimals trunc world session lease.leaseId none).1 =
      renewal decimals trunc world session.registry.toConnection lease none ∧
    (renew decimals trunc world session lease.leaseId none).2.registry.toConnection =
      session.registry.toConnection ∧
    (renew decimals trunc world session lease.leaseId none).2.registry.leases =
      match renewal decimals trunc world session.registry.toConnection lease none with
      | .ok renewed => session.registry.leases.put renewed
      | .error _ => session.registry.leases := by
  have found : session.registry.leases.lookup lease.leaseId = some lease :=
    Keyed.lookup_eq_some.mpr ⟨tracked, rfl⟩
  unfold renew
  simp only [found, renewable, Bool.not_true, Bool.false_eq_true, if_false]
  cases renewal decimals trunc world session.registry.toConnection lease none <;>
    exact ⟨rfl, rfl, rfl⟩

def reportOf (fates : VaultLease T → Fate T) (report : VaultLeaseReport)
    (rows : List (VaultLease T)) : VaultLeaseReport :=
  { report with
    renewed := report.renewed ++ (rows.filter fun lease => (fates lease).isRenewed).map
      VaultLease.leaseId
    failed := report.failed ++ (rows.filter fun lease => (fates lease).isFailed).map
      VaultLease.leaseId
    skipped := report.skipped ++ (rows.filter fun lease => (fates lease).isSkipped).map
      VaultLease.leaseId }

theorem renewLoop_step {session : Session T} {before rest : List (VaultLease T)}
    {lease : VaultLease T} {met : Fate T}
    (rows : session.registry.leases.rows = before ++ lease :: rest)
    (own : fate seconds decimals trunc world session.registry.toConnection lease = met)
    (calm : met.isRaised = false) (report : VaultLeaseReport) :
    ∃ next : Session T,
      renewLoop seconds decimals trunc world report (lease :: rest) session =
        renewLoop seconds decimals trunc world (reportOf (fun _ => met) report [lease]) rest next ∧
      next.registry.toConnection = session.registry.toConnection ∧
      next.registry.leases.rows = before ++ met.record lease :: rest := by
  have tracked : lease ∈ session.registry.leases := by
    show lease ∈ session.registry.leases.rows
    rw [rows]
    simp
  unfold fate at own
  rw [renewLoop]
  cases needs : needsRenewal seconds session.registry.toConnection lease
      (world.now lease.leaseId) with
  | error raised =>
    rw [needs] at own
    subst own
    cases calm
  | ok due =>
    rw [needs] at own
    cases due with
    | false =>
      subst own
      exact ⟨session, by simp [reportOf, Fate.isRenewed, Fate.isFailed, Fate.isSkipped], rfl, rows⟩
    | true =>
      obtain ⟨result, connection, leases⟩ := renew_tracked decimals trunc world tracked
        (due_renewable needs).1
      simp only
      generalize renew decimals trunc world session lease.leaseId none = pair
        at result connection leases
      obtain ⟨answer, next⟩ := pair
      simp only at result connection leases own
      cases done : renewal decimals trunc world session.registry.toConnection lease none with
      | ok record =>
        rw [done] at leases result own
        subst own result
        refine ⟨next, ?_, connection, ?_⟩
        · simp [reportOf, Fate.isRenewed, Fate.isFailed, Fate.isSkipped]
        · simp only at leases
          rw [leases]
          exact Keyed.rows_put rows (renewal_leaseId done)
      | error raised =>
        rw [done] at leases result own
        simp only at leases own
        cases caught : raised.isVaultLease with
        | true =>
          rw [caught, if_pos rfl] at own
          subst own result
          refine ⟨next, ?_, connection, ?_⟩
          · simp [reportOf, caught, Fate.isRenewed, Fate.isFailed, Fate.isSkipped]
          · rw [leases]
            exact rows
        | false =>
          rw [caught, if_neg Bool.false_ne_true] at own
          subst own
          cases calm

theorem renewLoop_raises {session : Session T} {rest : List (VaultLease T)}
    {lease : VaultLease T} {raised : Raised} (tracked : lease ∈ session.registry.leases)
    (own : fate seconds decimals trunc world session.registry.toConnection lease = .raised raised)
    (report : VaultLeaseReport) :
    (renewLoop seconds decimals trunc world report (lease :: rest) session).1 = .error raised := by
  unfold fate at own
  rw [renewLoop]
  cases needs : needsRenewal seconds session.registry.toConnection lease
      (world.now lease.leaseId) with
  | error other =>
    rw [needs] at own
    obtain rfl := Fate.raised.inj own
    rfl
  | ok due =>
    rw [needs] at own
    cases due with
    | false => cases own
    | true =>
      obtain ⟨result, _, _⟩ := renew_tracked decimals trunc world tracked
        (due_renewable needs).1
      simp only
      generalize renew decimals trunc world session lease.leaseId none = pair at result
      obtain ⟨answer, next⟩ := pair
      simp only at result own
      cases done : renewal decimals trunc world session.registry.toConnection lease none with
      | ok record =>
        rw [done] at own
        cases own
      | error other =>
        rw [done] at own result
        simp only at own
        cases caught : other.isVaultLease with
        | true =>
          rw [caught, if_pos rfl] at own
          cases own
        | false =>
          rw [caught, if_neg Bool.false_ne_true] at own
          obtain rfl := Fate.raised.inj own
          subst result
          simp [caught]

section Runs
variable {vault : Connection T}

theorem renewLoop_run {session : Session T} (before : List (VaultLease T))
    {rows : List (VaultLease T)} (connection : session.registry.toConnection = vault)
    (tracked : session.registry.leases.rows = before ++ rows)
    (calm : ∀ lease ∈ rows, (fate seconds decimals trunc world vault lease).isRaised = false)
    (report : VaultLeaseReport) :
    ∃ after, renewLoop seconds decimals trunc world report rows session =
        (.ok (reportOf (fate seconds decimals trunc world vault) report rows), after) ∧
      after.registry.leases.rows = before ++
        rows.map fun lease => (fate seconds decimals trunc world vault lease).record lease := by
  induction rows generalizing report before session with
  | nil =>
    refine ⟨session, ?_, tracked⟩
    simp [renewLoop, reportOf]
  | cons lease rest ih =>
    obtain ⟨here, later⟩ := List.forall_mem_cons.mp calm
    subst connection
    obtain ⟨next, step, same, rows⟩ := renewLoop_step tracked rfl here report
    obtain ⟨after, run, kept⟩ := ih (before ++
      [(fate seconds decimals trunc world session.registry.toConnection lease).record lease]) same
      (by rw [rows, List.append_assoc, List.singleton_append]) later (reportOf (fun _ =>
        fate seconds decimals trunc world session.registry.toConnection lease) report [lease])
    refine ⟨after, ?_, ?_⟩
    · rw [step, run]
      generalize fate seconds decimals trunc world session.registry.toConnection = fates
      simp only [reportOf, List.filter_cons, List.filter_nil]
      cases fates lease <;> simp [Fate.isRenewed, Fate.isFailed, Fate.isSkipped]
    · rw [kept, List.map_cons, List.append_assoc, List.singleton_append]

theorem renewLoop_stops {session : Session T} (before : List (VaultLease T))
    {rows : List (VaultLease T)} (connection : session.registry.toConnection = vault)
    (tracked : session.registry.leases.rows = before ++ rows)
    (raises : ∃ lease ∈ rows, (fate seconds decimals trunc world vault lease).isRaised = true)
    (report : VaultLeaseReport) :
    ∃ raised, (renewLoop seconds decimals trunc world report rows session).1 = .error raised := by
  induction rows generalizing report before session with
  | nil => obtain ⟨_, mem, _⟩ := raises; cases mem
  | cons lease rest ih =>
    subst connection
    cases own : fate seconds decimals trunc world session.registry.toConnection lease with
    | raised raised =>
      have here : lease ∈ session.registry.leases := by
        show lease ∈ session.registry.leases.rows
        rw [tracked]
        simp
      exact ⟨raised, renewLoop_raises here own report⟩
    | _ =>
      obtain ⟨next, step, same, rows⟩ := renewLoop_step tracked own rfl report
      rw [step]
      refine ih (before ++ [_]) same (by rw [rows, List.append_assoc]; rfl) ?_ _
      obtain ⟨other, mem, raised⟩ := raises
      rcases List.mem_cons.mp mem with rfl | mem
      · rw [own] at raised
        cases raised
      · exact ⟨other, mem, raised⟩

end Runs

section Condition
variable {vault : Connection T} {lease : VaultLease T}

theorem needsRenewal_cases (seconds : Seconds T) (vault : Connection T) (lease : VaultLease T)
    (now : T) :
    (∃ raised, needsRenewal seconds vault lease now = .error raised ∧
      raised.isVaultLease = false) ↔
    lease.renewable = true ∧ 0 < lease.durationSeconds ∧
      seconds.ofInt lease.durationSeconds = none := by
  unfold needsRenewal VaultLease.remainingSeconds
  by_cases live : (!lease.renewable || decide (lease.durationSeconds ≤ 0)) = true
  · simp only [live, if_true, reduceCtorEq, false_and, exists_false, false_iff]
    rintro ⟨renewable, positive, _⟩
    simp only [renewable, Bool.not_true, Bool.false_or, decide_eq_true_eq] at live
    omega
  · have both : lease.renewable = true ∧ 0 < lease.durationSeconds := by
      simpa [not_or] using live
    cases range : seconds.ofInt lease.durationSeconds with
    | none =>
      rw [if_neg live]
      exact ⟨fun _ => ⟨both.1, both.2, rfl⟩, fun _ => ⟨.overflowError, rfl, rfl⟩⟩
    | some duration => simp [live]

theorem intOrZero_raises {value : Json F} {raised : Raised}
    (given : intOrZero decimals trunc value = .error raised) : raised.isVaultLease = false := by
  unfold intOrZero at given
  split at given
  case h_4 =>
    split at given
    · cases given
    · cases given
      rfl
  case h_8 =>
    unfold intOfText at given
    simp only at given
    split at given
    · cases given
    · cases given
      rfl
  all_goals
    cases given
    try rfl

theorem renewal_caught (vault : Connection T) :
    (∀ raised, renewal decimals trunc world vault lease none = .error raised →
      raised.isVaultLease = true) ↔
      (world.answer lease.leaseId).Answers (Body.IsGrant decimals trunc) := by
  have asked := post_caught vault.vaultAddr renewPath (world.answer lease.leaseId)
  unfold renewal
  constructor
  · intro caught
    cases taken : post vault.vaultAddr renewPath (world.answer lease.leaseId) with
    | error raised =>
      obtain ⟨status, body, reply, reads⟩ := asked.mp fun other same => by
        rw [taken] at same caught
        obtain rfl := Except.error.inj same
        exact caught raised rfl
      refine ⟨status, body, reply, fun below => ⟨reads below, ?_⟩⟩
      rintro members value rfl
      rw [reply, post, if_neg (Nat.not_le.mpr below)] at taken
      cases taken
    | ok payload =>
      rw [taken] at caught
      obtain ⟨status, body, reply, reads⟩ := asked.mp fun other same => by
        rw [taken] at same
        cases same
      refine ⟨status, body, reply, fun below => ⟨reads below, ?_⟩⟩
      rintro members value rfl found
      rw [reply, post, if_neg (Nat.not_le.mpr below)] at taken
      obtain rfl := Except.ok.inj taken
      simp only [leaseDuration, found] at caught
      cases given : intOrZero decimals trunc value with
      | ok n => exact ⟨n, rfl⟩
      | error raised =>
        rw [given] at caught
        have never := caught raised rfl
        rw [intOrZero_raises given] at never
        cases never
  · rintro ⟨status, body, reply, grant⟩ raised failed
    by_cases below : status < 400
    · obtain ⟨reads, number⟩ := grant below
      rw [reply, post, if_neg (Nat.not_le.mpr below)] at failed
      obtain ⟨payload, read, held⟩ := payloadOf_read reads
      simp only [read, leaseDuration] at failed
      cases found : payload.lookup leaseDurationKey with
      | none => simp [found] at failed
      | some value =>
        obtain ⟨n, whole⟩ := number payload value (held _ _ found) found
        simp [found, whole] at failed
    · rw [reply, post, if_pos (Nat.not_lt.mp below)] at failed
      obtain rfl := Except.error.inj failed
      rfl

/-- A lease raises in the sweep where its duration has no float, or where its renewal is due and
    not answered. -/
theorem fate_calm_iff :
    (fate seconds decimals trunc world vault lease).isRaised = false ↔
      (lease.renewable = true → 0 < lease.durationSeconds →
        (seconds.ofInt lease.durationSeconds).isSome ∧
        (needsRenewal seconds vault lease (world.now lease.leaseId) = .ok true →
          (world.answer lease.leaseId).Answers (Body.IsGrant decimals trunc))) := by
  have beyond := needsRenewal_cases seconds vault lease
    (world.now lease.leaseId)
  rw [← renewal_caught vault]
  unfold fate
  cases needs : needsRenewal seconds vault lease (world.now lease.leaseId) with
  | error raised =>
    have kind : raised.isVaultLease = false := by
      unfold needsRenewal VaultLease.remainingSeconds at needs
      split at needs
      · cases needs
      · cases range : seconds.ofInt lease.durationSeconds with
        | none =>
          rw [range] at needs
          obtain rfl := Except.error.inj needs
          rfl
        | some duration =>
          rw [range] at needs
          cases needs
    obtain ⟨renewable, positive, none_⟩ := beyond.mp ⟨raised, needs, kind⟩
    simp [Fate.isRaised, renewable, positive, none_]
  | ok due =>
    have range : lease.renewable = true → 0 < lease.durationSeconds →
        (seconds.ofInt lease.durationSeconds).isSome := by
      intro renewable positive
      cases held : seconds.ofInt lease.durationSeconds with
      | some _ => rfl
      | none =>
        obtain ⟨raised, error, _⟩ := beyond.mpr ⟨renewable, positive, held⟩
        rw [needs] at error
        cases error
    cases due with
    | false =>
      simp only [Fate.isRaised, true_iff]
      exact fun renewable positive => ⟨range renewable positive, fun due => by cases due⟩
    | true =>
      obtain ⟨renewable, positive⟩ := due_renewable needs
      simp only [renewable, positive, range renewable positive, true_and, forall_const]
      cases renewal decimals trunc world vault lease none with
      | ok record => simp [Fate.isRaised]
      | error raised => cases caught : raised.isVaultLease <;> simp [Fate.isRaised, caught]

end Condition

section Sweep
variable {vault : Connection T} {lease : VaultLease T} {session : Session T}

theorem fate_renewed {record : VaultLease T}
    (own : fate seconds decimals trunc world vault lease = .renewed record) :
    renewal decimals trunc world vault lease none = .ok record := by
  unfold fate at own
  split at own
  · cases own
  · cases own
  · split at own
    · next done =>
      obtain rfl := Fate.renewed.inj own
      exact done
    · split at own <;> cases own

theorem renewal_granted {record : VaultLease T}
    (done : renewal decimals trunc world vault lease none = .ok record) :
    ∃ payload duration, post vault.vaultAddr renewPath (world.answer lease.leaseId) = .ok payload ∧
      leaseDuration decimals trunc payload vault.renewIncrement = .ok duration ∧
      record = { lease with
        durationSeconds := duration
        issuedAt := world.stamp lease.leaseId
        renewalCount := lease.renewalCount + 1 } := by
  unfold renewal at done
  split at done
  · cases done
  next payload asked =>
  split at done
  · cases done
  next duration given =>
  exact ⟨payload, duration, asked, given, (Except.ok.inj done).symm⟩

theorem record_leaseId (lease : VaultLease T) :
    ((fate seconds decimals trunc world vault lease).record lease).leaseId = lease.leaseId := by
  cases own : fate seconds decimals trunc world vault lease with
  | renewed record => exact renewal_leaseId (fate_renewed own)
  | _ => rfl

theorem listed_once {fates : VaultLease T → Fate T} {rows : List (VaultLease T)}
    (calm : ∀ lease ∈ rows, (fates lease).isRaised = false) :
    ((reportOf fates {} rows).renewed ++ (reportOf fates {} rows).failed ++
      (reportOf fates {} rows).skipped).Perm (rows.map VaultLease.leaseId) := by
  induction rows with
  | nil => exact List.Perm.refl _
  | cons lease rest ih =>
    obtain ⟨here, later⟩ := List.forall_mem_cons.mp calm
    have others := (ih later).cons lease.leaseId
    simp only [reportOf, List.nil_append] at others ⊢
    rw [List.map_cons, List.filter_cons, List.filter_cons, List.filter_cons]
    cases own : fates lease with
    | renewed record => exact others
    | failed =>
      refine List.Perm.trans ?_ others
      simp only [Fate.isRenewed, Fate.isFailed, Fate.isSkipped, if_true, Bool.false_eq_true,
        if_false, List.map_cons, List.append_assoc, List.cons_append]
      exact List.perm_middle
    | skipped =>
      refine List.Perm.trans ?_ others
      simp only [Fate.isRenewed, Fate.isFailed, Fate.isSkipped, if_true, Bool.false_eq_true,
        if_false, List.map_cons]
      exact List.perm_middle
    | raised error =>
      rw [own] at here
      cases here

theorem eq_of_listed {p : VaultLease T → Bool} (tracked : lease ∈ session.registry.leases)
    (listed : lease.leaseId ∈ (session.registry.leases.rows.filter p).map VaultLease.leaseId) :
    p lease = true := by
  obtain ⟨other, mem, same⟩ := List.mem_map.mp listed
  obtain ⟨there, kind⟩ := List.mem_filter.mp mem
  obtain rfl := List.inj_on_of_nodup_map session.registry.leases.distinct there tracked same
  exact kind

theorem renewLaw_of_calm (calm : ∀ lease ∈ session.registry.leases,
      (fate seconds decimals trunc world session.registry.toConnection lease).isRaised = false) :
    RenewLaw seconds decimals trunc world session := by
  obtain ⟨after, run, rows⟩ := renewLoop_run [] rfl rfl calm {}
  rw [List.nil_append] at rows
  have whole : renewExpiring seconds decimals trunc world session =
      (.ok { reportOf (fate seconds decimals trunc world session.registry.toConnection) {}
        session.registry.leases.rows with trackedCount := after.registry.leases.rows.length },
        after) := by
    unfold renewExpiring
    rw [run]
  have ids : after.registry.leases.rows.map VaultLease.leaseId =
      session.registry.leases.rows.map VaultLease.leaseId := by
    rw [rows, List.map_map]
    exact List.map_congr_left fun lease _ => record_leaseId lease
  have placed {lease : VaultLease T} (mem : lease ∈ session.registry.leases) :
      (fate seconds decimals trunc world session.registry.toConnection lease).record lease ∈
        after.registry.leases := by
    show _ ∈ after.registry.leases.rows
    rw [rows]
    exact List.mem_map_of_mem mem
  constructor
  · rw [whole]
    refine ⟨_, rfl, listed_once calm, ?_, fun lease mem kept => ?_, fun lease mem renewed => ?_⟩
    · rw [← List.length_map (f := VaultLease.leaseId), ids, List.length_map]
    · have stays := placed mem
      simp only [reportOf, List.nil_append] at kept
      cases own : fate seconds decimals trunc world session.registry.toConnection lease with
      | renewed record =>
        rcases List.mem_append.mp kept with failed | skipped
        · have kind := eq_of_listed mem failed
          rw [own] at kind
          cases kind
        · have kind := eq_of_listed mem skipped
          rw [own] at kind
          cases kind
      | _ =>
        rw [own] at stays
        exact stays
    · have stays := placed mem
      simp only [reportOf, List.nil_append] at renewed
      have kind := eq_of_listed mem renewed
      cases own : fate seconds decimals trunc world session.registry.toConnection lease with
      | renewed record =>
        obtain ⟨payload, duration, asked, given, same⟩ := renewal_granted (fate_renewed own)
        rw [own, Fate.record, same] at stays
        exact ⟨payload, duration, asked, given, stays⟩
      | _ =>
        rw [own] at kind
        cases kind
  · rw [whole]
    exact ids

variable (seconds decimals trunc world session)

theorem renewLaw_iff : RenewLaw seconds decimals trunc world session ↔
    RenewalsAnswered seconds decimals trunc world session := by
  have settled : RenewalsAnswered seconds decimals trunc world session ↔
      ∀ lease ∈ session.registry.leases,
        (fate seconds decimals trunc world session.registry.toConnection lease).isRaised = false := by
    unfold RenewalsAnswered
    exact forall₂_congr fun lease _ => fate_calm_iff.symm
  rw [settled]
  constructor
  · intro law lease mem
    by_contra raises
    rw [Bool.not_eq_false] at raises
    obtain ⟨raised, stopped⟩ := renewLoop_stops []
      rfl rfl ⟨lease, mem, raises⟩ {}
    obtain ⟨report, returned, _⟩ := law.listed
    unfold renewExpiring at returned
    generalize renewLoop seconds decimals trunc world {} session.registry.leases.rows session = pair
      at stopped returned
    obtain ⟨answer, after⟩ := pair
    simp only at stopped
    subst stopped
    cases returned
  · exact renewLaw_of_calm

end Sweep
end Renewals

/-- Each sweep keeps its law exactly where Vault answers each of its requests, with a body that it
    can read. -/
theorem sweeps_hold_iff {T F : Type} (seconds : Seconds T) (decimals : Decimals)
    (trunc : F → Option Int) (renewals revocations : World T F) (session : Session T) :
    (RenewLaw seconds decimals trunc renewals session ↔
      RenewalsAnswered seconds decimals trunc renewals session) ∧
    (RevokeLaw revocations session ↔ RevocationsAnswered revocations session) :=
  ⟨renewLaw_iff seconds decimals trunc renewals session, revokeLaw_iff revocations session⟩

def wholeSeconds : Seconds Int where
  ofInt := some
  zero := 0
  sub a b := a - b
  mul a b := a * b
  lt a b := decide (a < b)
  le a b := decide (a ≤ b)

def asciiDigit (c : Char) : Option Nat := if c.isDigit then some (c.toNat - 48) else none

theorem asciiDigit_ascii (c : Char) (_ : c.toNat < 128) :
    asciiDigit c = if c.isDigit then some (c.toNat - 48) else none := rfl

def asciiDecimals : Decimals where
  digit := asciiDigit
  ascii := asciiDigit_ascii

def twoLeases : Session Int where
  registry :=
    { vaultAddr := "https://vault".toList
      token := "token".toList
      renewThreshold := 1
      leases :=
        { rows := [⟨['a'], 60, true, [], 0, 0⟩, ⟨['b'], 60, true, [], 0, 0⟩]
          distinct := by decide } }

def silentOnce : World Int Int where
  answer leaseId :=
    if leaseId = ['a'] then .transportError "ConnectTimeout".toList else .reply 204 .empty
  now _ := 60
  stamp _ := 60

/-- One request without an answer stops both sweeps: nothing is reported, and a lease is left. -/
theorem silence_stops_sweeps :
    ¬RenewLaw wholeSeconds asciiDecimals some silentOnce twoLeases ∧
    ¬RevokeLaw silentOnce twoLeases := by
  constructor
  · intro law
    obtain ⟨report, returned, _⟩ := law.listed
    cases returned
  · intro law
    exact absurd law.untracked (by decide)

end DevopsCli.Vault
