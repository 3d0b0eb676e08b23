import DevopsCli.Implement.StepTiers

/- A failed check keeps its tier. The turns of an attempt are its sends, folded; the fold keeps
   the end of the last send and every failed call of the earlier ones. -/
namespace DevopsCli.Implement
open PyStr
open Roadmap (FailureClass)

namespace TierSpend

theorem same {a b : TierSpend} (requests : a.requests = b.requests)
    (input : a.inputTokens = b.inputTokens) (output : a.outputTokens = b.outputTokens) : a = b := by
  cases a
  cases b
  simp_all

instance : Zero TierSpend := ⟨{}⟩

instance : Add TierSpend where
  add a b := ⟨a.requests + b.requests, a.inputTokens + b.inputTokens, a.outputTokens + b.outputTokens⟩

theorem add_eq (a b : TierSpend) : a + b =
    ⟨a.requests + b.requests, a.inputTokens + b.inputTokens, a.outputTokens + b.outputTokens⟩ := rfl

theorem zero_eq : (0 : TierSpend) = {} := rfl

instance : AddCommMonoid TierSpend where
  add_assoc a b c := by simp [add_eq, Nat.add_assoc]
  zero_add a := by simp [add_eq, zero_eq]
  add_zero a := by simp [add_eq, zero_eq]
  add_comm a b := by simp [add_eq, Nat.add_comm]
  nsmul := nsmulRec

end TierSpend

section Fold

def Run.spend (run : Run) : TierSpend := ⟨run.requests, run.inputTokens, run.outputTokens⟩

theorem plus_eq (spend : TierSpend) (run : Run) : spend.plus run = spend + run.spend := rfl

theorem then_spend (run later : Run) : (run.then later).spend = run.spend + later.spend := rfl

theorem orElse_assoc (a b c : Nat) : orElse (orElse a b) c = orElse a (orElse b c) := by
  by_cases zero : a = 0 <;> simp [orElse, zero]

theorem then_assoc (a b c : Run) : (a.then b).then c = a.then (b.then c) := by
  simp only [Run.then, Nat.add_assoc, Bool.or_assoc, orElse_assoc, Run.mk.injEq, true_and, and_true]
  by_cases empty : c.lastMessage = "" <;> simp [empty]

def Folded (run : Run) : List Run → Prop
  | [] => False
  | first :: rest => run = rest.foldl Run.then first

theorem foldl_then (first : Run) (run : Run) (rest : List Run) :
    first.then (rest.foldl Run.then run) = rest.foldl Run.then (first.then run) := by
  induction rest generalizing run with
  | nil => rfl
  | cons next rest ih => rw [List.foldl_cons, List.foldl_cons, ih, then_assoc]

theorem folded_append {run later : Run} {sends more : List Run} (folded : Folded run sends)
    (next : Folded later more) : Folded (run.then later) (sends ++ more) := by
  cases sends with
  | nil => exact folded.elim
  | cons first rest =>
    cases more with
    | nil => exact next.elim
    | cons second last =>
      simp only [Folded] at folded next
      simp only [List.cons_append, Folded, List.foldl_append, List.foldl_cons]
      rw [folded, next, foldl_then]

theorem folded_one (run : Run) : Folded run [run] := rfl

/-- The last send ended on a failed call, or on a failure whose class changes the tier. -/
def EndsForTier (sends : List Run) : Prop :=
  ∃ last ∈ sends.getLast?, last.providerError = true ∨
    (last.reason ≠ "" ∧ changesTier last.failureClass = true)

structure Keeps (run : Run) (sends : List Run) : Prop where
  failed : run.providerError = sends.any (·.providerError)
  spend : run.spend = (sends.map Run.spend).sum
  last : ∃ last ∈ sends.getLast?, run.reason = last.reason ∧ run.failureClass = last.failureClass

theorem keeps_then {run : Run} (later : Run) {sends : List Run} (keeps : Keeps run sends) :
    Keeps (run.then later) (sends ++ [later]) where
  failed := by simp [Run.then, keeps.failed]
  spend := by simp [then_spend, keeps.spend]
  last := ⟨later, by simp, rfl, rfl⟩

theorem keeps_foldl {run : Run} {sends : List Run} (keeps : Keeps run sends) (rest : List Run) :
    Keeps (rest.foldl Run.then run) (sends ++ rest) := by
  induction rest generalizing run sends with
  | nil => simpa using keeps
  | cons later rest ih => simpa using ih (keeps_then later keeps)

theorem folded_keeps {run : Run} {sends : List Run} (folded : Folded run sends) :
    Keeps run sends := by
  cases sends with
  | nil => exact folded.elim
  | cons first rest =>
    obtain rfl : run = _ := folded
    have one : Keeps first [first] := ⟨by simp, by simp, first, by simp, rfl, rfl⟩
    exact keeps_foldl one rest

theorem movesTier_iff {run : Run} {sends : List Run} (folded : Folded run sends) :
    movesTier run = true ↔ sends.any (·.providerError) = true ∨ EndsForTier sends := by
  obtain ⟨failed, -, last, mem, reason, klass⟩ := folded_keeps folded
  have some_failed : last.providerError = true → sends.any (·.providerError) = true := fun ends =>
    List.any_eq_true.mpr ⟨last, List.mem_of_getLast? mem, ends⟩
  have ends_iff : EndsForTier sends ↔ last.providerError = true ∨
      (last.reason ≠ "" ∧ changesTier last.failureClass = true) := by
    rw [Option.mem_def] at mem
    simp [EndsForTier, mem]
  rw [ends_iff, movesTier, failed, reason, klass]
  by_cases any : sends.any (·.providerError) = true
  · simp [any]
  · have fine : last.providerError ≠ true := fun ends => any (some_failed ends)
    by_cases empty : last.reason = "" <;> simp [any, fine, empty]

end Fold

section Turns
variable {classify : String → FailureClass}

theorem resendLoop_folded {resends : Nat} {turn final : Turn} {tape : List Send}
    (folded : Folded turn.run turn.sends)
    (ran : resendLoop classify resends turn tape = some final) : Folded final.run final.sends := by
  induction tape generalizing resends turn with
  | nil =>
    rw [resendLoop] at ran
    split at ran
    · exact Option.some.inj ran ▸ folded
    · split at ran
      · exact Option.some.inj ran ▸ folded
      · split at ran
        · exact Option.some.inj ran ▸ folded
        · exact absurd ran (by simp)
  | cons next rest ih =>
    rw [resendLoop] at ran
    split at ran
    · exact Option.some.inj ran ▸ folded
    · split at ran
      · exact Option.some.inj ran ▸ folded
      · split at ran
        · exact Option.some.inj ran ▸ folded
        · cases sent : runTurn classify next with
          | none => simp [sent] at ran
          | some later =>
            simp only [sent] at ran
            exact ih (folded_append folded (folded_one later)) ran

theorem runAgent_folded {parserFailures : Nat} {tape : List Send} {turn : Turn}
    (ran : runAgent classify parserFailures tape = some turn) : Folded turn.run turn.sends := by
  cases tape with
  | nil => simp [runAgent] at ran
  | cons first rest =>
    cases sent : runTurn classify first with
    | none => simp [runAgent, sent] at ran
    | some run =>
      simp only [runAgent, sent] at ran
      exact resendLoop_folded (folded_one run) ran

theorem extraTurn_folded {first turn : Turn} {extra : Extra} {failure : Option Failure}
    (folded : Folded first.run first.sends)
    (ran : extraTurn classify first extra = some (turn, failure)) : Folded turn.run turn.sends := by
  cases sent : runAgent classify first.parserFailures extra.sends with
  | none => simp [extraTurn, sent] at ran
  | some later =>
    simp only [extraTurn, sent, Option.map_eq_some_iff, Prod.mk.injEq] at ran
    obtain ⟨_, _, rfl, _⟩ := ran
    exact folded_append folded (runAgent_folded sent)

theorem repairRounds_keeps (classify : String → FailureClass) (rounds : Rounds)
    (folded : Folded rounds.turn.run rounds.turn.sends)
    (within : rounds.used ≤ rounds.allowed) (tape : List Extra) :
    let final := repairRounds classify rounds tape
    Folded final.turn.run final.turn.sends ∧ final.used ≤ rounds.allowed := by
  induction tape generalizing rounds with
  | nil =>
    rw [repairRounds]
    split <;> exact ⟨folded, within⟩
  | cons extra rest ih =>
    rw [repairRounds]
    split
    · rename_i asked
      cases sent : extraTurn classify rounds.turn extra with
      | none => exact ⟨folded, asked.2⟩
      | some after =>
        obtain ⟨turn, failure⟩ := after
        exact ih _ (extraTurn_folded folded sent) asked.2
    · exact ⟨folded, within⟩

end Turns

section Tiers

theorem ladderTiers_named (names : List Str) : ∀ name ∈ ladderTiers names, name ≠ [] := by
  have fold : ∀ (rest tiers : List Str), (∀ name ∈ rest, name ≠ []) → (∀ name ∈ tiers, name ≠ []) →
      ∀ name ∈ rest.foldl (fun tiers name => if name ∈ tiers then tiers else tiers ++ [name]) tiers,
        name ≠ [] := by
    intro rest
    induction rest with
    | nil => exact fun tiers _ named => named
    | cons first rest ih =>
      intro tiers more named
      rw [List.foldl_cons]
      refine ih _ (fun name mem => more name (List.mem_cons_of_mem _ mem)) ?_
      split
      · exact named
      · intro name mem
        rcases List.mem_append.mp mem with old | new
        · exact named name old
        · rw [List.mem_singleton.mp new]
          exact more first (List.mem_cons_self ..)
  refine fold _ [] (fun name mem => ?_) (by simp)
  simpa using (List.mem_filter.mp mem).2

theorem tierForAttempt_spec {tiers : List Str} {attempt : Nat} (inside : attempt < tiers.length)
    (health : Str → Bool) : tiers[(tierForAttempt tiers attempt health).2]? =
      some (tierForAttempt tiers attempt health).1 ∧
        attempt ≤ (tierForAttempt tiers attempt health).2 := by
  have some_tier : tiers ≠ [] := List.ne_nil_of_length_pos (by omega)
  have from_ : min attempt tiers.length = attempt := by omega
  rw [tierForAttempt, if_neg some_tier]
  simp only [from_]
  split
  · rename_i later found
    obtain ⟨bound, -⟩ := List.findIdx?_eq_some_iff_getElem.mp found
    rw [List.length_drop] at bound
    have last : attempt + later < tiers.length := by omega
    simp [List.getElem?_eq_getElem last]
  · have last : min attempt (tiers.length - 1) = attempt := by omega
    simp [last, List.getElem?_eq_getElem inside]

theorem addSpend_sum (tier : Str) (run : Run) (spent : List (Str × TierSpend)) :
    ((addSpend tier run spent).map (·.2)).sum = (spent.map (·.2)).sum + run.spend := by
  induction spent with
  | nil => simp [addSpend, plus_eq, ← TierSpend.zero_eq]
  | cons entry rest ih =>
    obtain ⟨other, spend⟩ := entry
    rw [addSpend]
    split
    · simp only [List.map_cons, List.sum_cons, plus_eq]
      abel
    · simp only [List.map_cons, List.sum_cons, ih]
      abel

end Tiers

namespace Progress
variable {tiers : List Str} {budget : Nat} {p : Progress}

structure Lawful (tiers : List Str) (budget : Nat) (p : Progress) : Prop where
  rounds : p.rounds ≤ budget
  positions : p.positions.Pairwise (· < ·)
  tried : tiers ≠ [] → p.tried.map some = p.positions.map (tiers[·]?)
  folded : ∀ attempt ∈ p.attempts, Folded attempt.run attempt.sends
  left : p.left = p.attempts.filter (!·.staysOn tiers)
  total : p.total = (p.attempts.map fun attempt => (attempt.sends.map Run.spend).sum).sum
  spent : tiers ≠ [] → p.total = (p.spent.map (·.2)).sum

structure Ready (tiers : List Str) (budget : Nat) (p : Progress) : Prop extends
    Lawful tiers budget p where
  inside : tiers ≠ [] → p.attempt < tiers.length
  fresh : ∀ position ∈ p.positions, position < p.attempt

structure Serving (tiers : List Str) (budget : Nat) (p : Progress) : Prop extends
    Lawful tiers budget p where
  named : tiers ≠ [] → p.tier ≠ []
  unpassed : ∀ position ∈ p.positions, position ≤ p.attempt

theorem serve_serving (ready : p.Ready tiers budget) (named : ∀ name ∈ tiers, name ≠ [])
    (health : Str → Bool) : (p.serve tiers health).Serving tiers budget := by
  by_cases none_ : tiers = []
  · subst none_
    have tier : tierForAttempt [] p.attempt health = ([], p.attempt) := by simp [tierForAttempt]
    simp only [serve, tier]
    refine { ready.toLawful with
      positions := ?_, tried := by simp, named := by simp, unpassed := ?_ }
    · exact List.pairwise_append.mpr ⟨ready.positions, by simp, by simpa using ready.fresh⟩
    · intro position mem
      rcases List.mem_append.mp mem with old | new
      · exact (ready.fresh position old).le
      · exact (List.mem_singleton.mp new).le
  · obtain ⟨tier, later⟩ := tierForAttempt_spec (ready.inside none_) health
    have name : (tierForAttempt tiers p.attempt health).1 ≠ [] :=
      named _ (List.mem_of_getElem? tier)
    simp only [serve, if_neg name]
    refine { ready.toLawful with
      positions := ?_, tried := fun some_ => ?_, named := fun _ => name, unpassed := ?_ }
    · refine List.pairwise_append.mpr ⟨ready.positions, by simp, fun position mem next new => ?_⟩
      have before := ready.fresh position mem
      rw [List.mem_singleton.mp new]
      omega
    · simp [ready.tried some_, tier]
    · intro position mem
      rcases List.mem_append.mp mem with old | new
      · have before := ready.fresh position old
        show position ≤ (tierForAttempt tiers p.attempt health).2
        omega
      · exact (List.mem_singleton.mp new).le

theorem account_total (serving : p.Serving tiers budget) {rounds : Rounds}
    (folded : Folded rounds.turn.run rounds.turn.sends) : (p.account rounds).total =
      ((p.account rounds).attempts.map fun attempt => (attempt.sends.map Run.spend).sum).sum := by
  have sends := (folded_keeps folded).spend
  simp only [account, plus_eq, List.map_append, List.sum_append, List.map_singleton,
    List.sum_singleton, ended, serving.total, sends]

theorem account_spent (serving : p.Serving tiers budget) (rounds : Rounds) (some_ : tiers ≠ []) :
    (p.account rounds).total = ((p.account rounds).spent.map (·.2)).sum := by
  simp only [account, if_neg (serving.named some_), addSpend_sum, plus_eq, serving.spent some_]

theorem account_folded (serving : p.Serving tiers budget) {rounds : Rounds}
    (folded : Folded rounds.turn.run rounds.turn.sends) :
    ∀ attempt ∈ (p.account rounds).attempts, Folded attempt.run attempt.sends := by
  intro attempt mem
  rcases List.mem_append.mp mem with old | new
  · exact serving.folded attempt old
  · rw [List.mem_singleton.mp new]
    exact folded

theorem account_lawful (serving : p.Serving tiers budget) {rounds : Rounds}
    (folded : Folded rounds.turn.run rounds.turn.sends) (within : rounds.used ≤ budget)
    (stays : (p.ended rounds).staysOn tiers = true) : (p.account rounds).Lawful tiers budget where
  rounds := within
  positions := serving.positions
  tried := serving.tried
  folded := account_folded serving folded
  left := by simp [account, serving.left, List.filter_append, stays]
  total := account_total serving folded
  spent := account_spent serving rounds

theorem move_ready (serving : p.Serving tiers budget) {rounds : Rounds}
    (folded : Folded rounds.turn.run rounds.turn.sends) (within : rounds.used ≤ budget)
    (moves : (p.ended rounds).staysOn tiers ≠ true) :
    ((p.account rounds).move (p.ended rounds)).Ready tiers budget where
  rounds := within
  positions := serving.positions
  tried := serving.tried
  folded := account_folded serving folded
  left := by
    have leaves : (p.ended rounds).staysOn tiers = false := by simpa using moves
    simp [account, move, serving.left, List.filter_append, leaves]
  total := account_total serving folded
  spent := account_spent serving rounds
  inside _ := by
    have more : ¬ tiers.length ≤ p.attempt + 1 := by
      intro last
      exact moves (by simp [TierAttempt.staysOn, ended, last])
    simp only [move, account]
    omega
  fresh position mem := Nat.lt_succ_of_le (serving.unpassed position mem)

theorem start_ready (tiers : List Str) (budget : Nat) : ({} : Progress).Ready tiers budget where
  rounds := Nat.zero_le _
  positions := List.Pairwise.nil
  tried _ := rfl
  folded := by simp
  left := rfl
  total := rfl
  spent _ := rfl
  inside some_ := List.length_pos_of_ne_nil some_
  fresh := by simp

end Progress

section Step
variable {classify : String → FailureClass}
open Progress

theorem attemptLoop_lawful (classify : String → FailureClass) {tiers : List Str} (budget : Nat)
    (named : ∀ name ∈ tiers, name ≠ [])
    (tape : List TierTape) {p : Progress} (ready : p.Ready tiers budget) :
    (attemptLoop classify tiers budget p tape).1.Lawful tiers budget := by
  induction tape generalizing p with
  | nil => exact ready.toLawful
  | cons first later ih =>
    have serving := serve_serving ready named first.health
    rw [attemptLoop]
    cases sent : runAgent classify 0 first.sends with
    | none => exact serving.toLawful
    | some turn =>
      simp only []
      cases checks : judged turn.run none first.checked with
      | none => exact { serving.toLawful with }
      | some failure =>
        simp only []
        have first_serving : Serving tiers budget { p.serve tiers first.health with
            firstRequest := orElse (p.serve tiers first.health).firstRequest
              turn.run.firstRequestTokens } := { serving with }
        have kept := repairRounds_keeps classify
          ⟨turn, failure, (p.serve tiers first.health).rounds,
            (p.serve tiers first.health).number, budget, false, false⟩
          (runAgent_folded sent) serving.rounds first.extras
        split
        · exact { serving.toLawful with rounds := kept.2 }
        · split
          · rename_i stays
            exact account_lawful first_serving kept.1 kept.2 stays
          · rename_i moves
            exact ih (move_ready first_serving kept.1 kept.2 moves)

def StepOutcome.spend (outcome : StepOutcome) : TierSpend :=
  ⟨outcome.requests, outcome.inputTokens, outcome.outputTokens⟩

/-- What the tiers of a step promise, and its outcome when it has one. -/
structure TierLaw (tiers : List Str) (budget : Nat) (step : Progress × Option StepOutcome) :
    Prop where
  left : ∀ attempt ∈ step.1.left, EndsForTier attempt.sends
  positions : step.1.positions.Pairwise (· < ·)
  tried : tiers ≠ [] → step.1.tried.map some = step.1.positions.map (tiers[·]?)
  rounds : step.1.rounds ≤ budget
  outcome : ∀ outcome ∈ step.2, outcome.repairRounds ≤ budget ∧
    outcome.spend =
      (step.1.attempts.map fun attempt => (attempt.sends.map Run.spend).sum).sum ∧
    (tiers ≠ [] → outcome.spend = (outcome.tierSpend.map (·.2)).sum)

theorem stepOutcome_reports {budget : Nat} {p : Progress} {last : LastTurn}
    {commitGroup : Option (String × String)} {outcome : StepOutcome}
    (reported : stepOutcome budget p last commitGroup = some outcome) :
    outcome.repairRounds = p.rounds ∧ outcome.spend = p.total ∧ outcome.tierSpend = p.spent := by
  simp only [stepOutcome] at reported
  split at reported
  · obtain rfl := Option.some.inj reported
    exact ⟨rfl, rfl, rfl⟩
  · split at reported
    · simp at reported
    · obtain rfl := Option.some.inj reported
      exact ⟨rfl, rfl, rfl⟩
    · obtain rfl := Option.some.inj reported
      exact ⟨rfl, rfl, rfl⟩

/-- An attempt that failed where the ladder has a later tier, after a failed call of some send. -/
def TierAttempt.FailedCall (attempt : TierAttempt) (tiers : List Str) : Prop :=
  attempt.failure.isSome = true ∧ attempt.position + 1 < tiers.length ∧
    attempt.sends.any (·.providerError) = true

theorem leaves_iff {attempt : TierAttempt} {tiers : List Str}
    (folded : Folded attempt.run attempt.sends) : attempt.staysOn tiers = false ↔
      attempt.failure.isSome = true ∧ attempt.position + 1 < tiers.length ∧
        (attempt.sends.any (·.providerError) = true ∨ EndsForTier attempt.sends) := by
  rw [← movesTier_iff folded]
  cases failure : attempt.failure <;> cases moves : movesTier attempt.run <;>
    simp [TierAttempt.staysOn, failure, moves]

/-- A step keeps the law of its tiers exactly when no call failed and recovered in an attempt
    that then failed for another cause, with a tier left. -/
theorem failed_check_keeps_tier (classify : String → FailureClass) (ladder : List Str)
    (budget : Nat) (tape : StepTape) :
    let step := runStep classify ladder budget tape
    TierLaw (ladderTiers ladder) budget step ↔
      ∀ attempt ∈ step.1.attempts, attempt.FailedCall (ladderTiers ladder) →
        EndsForTier attempt.sends := by
  have lawful := attemptLoop_lawful classify budget
    (ladderTiers_named ladder) tape.tiers (Progress.start_ready _ _)
  simp only [runStep]
  generalize attemptLoop classify (ladderTiers ladder) budget {} tape.tiers = ended at lawful ⊢
  obtain ⟨p, last⟩ := ended
  constructor
  · intro law attempt mem failed
    refine law.left attempt ?_
    have leaves := (leaves_iff (lawful.folded attempt mem)).mpr
      ⟨failed.1, failed.2.1, Or.inl failed.2.2⟩
    rw [lawful.left]
    exact List.mem_filter.mpr ⟨mem, by simp [leaves]⟩
  · intro recovered
    refine ⟨fun attempt mem => ?_, lawful.positions, lawful.tried, lawful.rounds, ?_⟩
    · rw [lawful.left] at mem
      obtain ⟨mem, leaves⟩ := List.mem_filter.mp mem
      obtain ⟨failed, later, failedCall | ends⟩ :=
        (leaves_iff (lawful.folded attempt mem)).mp (by simpa using leaves)
      · exact recovered attempt mem ⟨failed, later, failedCall⟩
      · exact ends
    · intro outcome reported
      obtain ⟨final, -, reported⟩ := Option.bind_eq_some_iff.mp reported
      obtain ⟨rounds, total, spent⟩ := stepOutcome_reports reported
      rw [rounds, total, spent]
      exact ⟨lawful.rounds, lawful.total, lawful.spent⟩

/-- The generation fails inside the stream, the send after it gets its reply, and a check that no
    turn can fix fails: the step moves to the second tier. -/
theorem recovered_call_changes_tier : ¬ TierLaw (ladderTiers ["a".toList, "b".toList]) 0
    (runStep (fun _ => .provider) ["a".toList, "b".toList] 0
      { tiers :=
          [{ health := fun _ => true
             sends :=
              [⟨.failedCall "ModelHTTPError" "400" "" (some ⟨1⟩), []⟩, ⟨.output "" ⟨2⟩, [⟨1, 1, 0⟩]⟩]
             checked := .fails { reason := "the group changed no file", klass := some .planDefect }
             extras := [] },
           { health := fun _ => true
             sends := [⟨.output "" ⟨2⟩, [⟨1, 1, 0⟩]⟩]
             checked := .passes
             extras := [] }]
        commit := some ("c0ffee", "") }) := by
  intro law
  obtain ⟨last, mem, ends⟩ := law.left ⟨"a".toList, 0, _, _, _⟩ (List.mem_singleton.mpr rfl)
  cases mem
  rcases ends with failed | changed
  · exact absurd failed (by decide)
  · exact absurd changed.1 (by decide)

end Step
end DevopsCli.Implement
