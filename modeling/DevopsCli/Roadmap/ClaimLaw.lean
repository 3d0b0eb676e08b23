import DevopsCli.Roadmap.Claim

/- Which changes of the owner the claims and releases of any number of actors make, in any order
   of their steps. -/
namespace DevopsCli.Roadmap.Claim
open Json Run

/-- A write that takes an Item it found free is right whatever its store remembers. -/
def Pending.Takes (now : Option Text) : Pending → Prop
  | .apply _ target => target.isSome
  | .claim _ _ => now = none
  | .release _ _ | .again _ | .setMarks _ => False

instance (now : Option Text) : (pending : Pending) → Decidable (pending.Takes now)
  | .apply _ target => inferInstanceAs (Decidable (target.isSome = true))
  | .claim _ _ => inferInstanceAs (Decidable (now = none))
  | .release _ _ | .again _ | .setMarks _ => inferInstanceAs (Decidable False)

def Pending.Fits : Party → Pending → Prop
  | .hand name, .apply item target =>
    (target = none ∨ target = some name.owner) ∧ allowed item target = true ∧ item .owner ≠ target
  | .service, .claim item _ => item .owner = none ∨ item .owner = some service
  | .service, .release _ _ | .service, .again _ | .service, .setMarks _ => True
  | _, _ => False

structure Client.Fits (party : Party) (client : Client) : Prop where
  plan : ∀ plan ∈ client.plan, ∃ name, party = .hand name ∧
    (plan.target = none ∨ plan.target = some name.owner)
  pending : ∀ pending ∈ client.pending, pending.Fits party
  store : ∀ name, party = .hand name → ∀ last ∈ client.store.written .owner,
    last = none ∨ last = some name.owner

section Reads
variable {found : Option Item} {pending : Pending} {marks : Marks}

theorem claimedBy_none {item : Item} (free : claimedBy item = none) :
    item .owner = none ∨ item .owner = some service := by
  rw [claimedBy] at free
  split at free
  · exact .inl ‹_›
  · split at free
    · next owner held same => exact .inr (held.trans (congrArg some same))
    · cases free

theorem planClaim_target {closed : Bool} {claimant : Option Claimant} {plan : ClaimPlan}
    (planned : plan ∈ (planClaim found closed claimant).toOption) :
    plan.target = claimant.map Claimant.owner := by
  cases found with
  | none => cases planned
  | some item =>
    simp only [planClaim, readItem, requireAllowed, bind, Except.bind, pure, Except.pure] at planned
    split_ifs at planned <;> cases planned
    all_goals rfl

theorem applyClaim_fits {plan : ClaimPlan} {name : Claimant}
    (target : plan.target = none ∨ plan.target = some name.owner)
    (left : pending ∈ (applyClaim found plan).toOption.join) : pending.Fits (.hand name) := by
  cases found with
  | none => cases left
  | some item =>
    simp only [applyClaim, readItem, requireAllowed, bind, Except.bind, pure, Except.pure] at left
    by_cases may : allowed item plan.target = true
    · rw [if_pos may] at left
      by_cases has : item .owner = plan.target
      · rw [if_pos has] at left
        cases left
      · simp only [if_neg has] at left
        cases left
        exact ⟨target, may, has⟩
    · rw [if_neg may] at left
      cases left

theorem serviceClaim_fits (left : pending ∈ (serviceClaim found marks).toOption.join) :
    pending.Fits .service := by
  cases found with
  | none => cases left
  | some item =>
    simp only [serviceClaim, readItem, bind, Except.bind, pure, Except.pure] at left
    cases claimed : claimedBy item with
    | some owner =>
      rw [claimed] at left
      cases left
    | none =>
      rw [claimed] at left
      cases left
      exact claimedBy_none claimed

theorem serviceRelease_fits (left : pending ∈ (serviceRelease found marks).toOption.join) :
    pending.Fits .service := by
  cases found with
  | none => cases left
  | some item =>
    simp only [serviceRelease, readItem, bind, Except.bind, pure, Except.pure] at left
    cases left
    split <;> trivial

theorem releaseAgain_fits (left : pending ∈ (releaseAgain found marks).toOption.join) :
    pending.Fits .service := by
  cases found with
  | none => cases left
  | some item =>
    cases left
    trivial

end Reads

namespace System
variable {F Id : Type} {md : CommonMark} {floats : Floats F} {party : Id → Party} {s t : System Id}
  {who : Id} {answer : Answer}

/-- What a set_field does: nothing to the issue and the values that the store wrote, or it
    writes the value over what the store read last, or over the value itself. -/
theorem written_cases (s : System Id) (store : Store) (item : Item) (value : Option Text)
    (marks : Marks) (answer : Answer) :
    let desk := (s.written md floats store item value marks answer).2
    (desk.issue = s.issue ∧ desk.store.written = store.written) ∨
      (desk.issue.fieldNow md floats .owner = value ∧
        (store.lastRead item .owner = s.owner md floats ∨ value = s.owner md floats) ∧
        (desk.store.written = store.written ∨
          desk.store.written = Function.update store.written .owner (some value))) := by
  intro desk
  cases valid : requireValue .owner value with
  | error error =>
    have same : desk = { issue := s.issue, store } := by
      simp only [desk, written, Desk.setField_invalid valid]
    exact .inl ⟨by rw [same], by rw [same]⟩
  | ok =>
    have checked : store.checkField md floats (answer.read s.issue) item .owner value =
        if answer = .unread then .error .readFailed
        else if store.lastRead item .owner = s.owner md floats ∨ value = s.owner md floats then
          .ok s.issue
        else .error (.itemChanged .owner (store.lastRead item .owner) (s.owner md floats)) := by
      rw [Desk.checkField_eq (s := { issue := s.issue, store }) valid]
      cases answer <;> rfl
    by_cases passes : store.lastRead item .owner = s.owner md floats ∨ value = s.owner md floats
    · cases answer with
      | unread => exact .inl (by simp [desk, written, Desk.setField, checked])
      | done =>
        have ran : desk.issue = s.issue.withField md floats .owner value marks ∧
            desk.store.written = Function.update store.written .owner (some value) := by
          simp [desk, written, Desk.setField, checked, passes, Store.wrote]
        exact .inr ⟨by rw [ran.1, fieldNow_withField valid], passes, .inr ran.2⟩
      | failed made =>
        cases made with
        | false => exact .inl (by simp [desk, written, Desk.setField, checked, passes, Answer.made])
        | true =>
          have ran : desk.issue = s.issue.withField md floats .owner value marks ∧
              desk.store.written = store.written := by
            simp [desk, written, Desk.setField, checked, passes, Answer.made]
          exact .inr ⟨by rw [ran.1, fieldNow_withField valid], passes, .inl ran.2⟩
    · refine .inl ?_
      cases answer <;> simp [desk, written, Desk.setField, checked, passes]

def Fits (party : Id → Party) (s : System Id) : Prop := ∀ who, (s.clients who).Fits (party who)

theorem start_fits (issue : Issue) (closed : Bool) :
    Fits party { issue, closed, clients := fun _ => {} } := by
  intro who
  refine ⟨?_, ?_, ?_⟩
  · intro plan planned
    cases planned
  · intro pending left
    cases left
  · intro name actor last written
    cases written

variable [DecidableEq Id]

/-- The condition of a step. A set_field is checked against the owner in the read that its call
    goes by, where the store remembers another owner that it wrote and finds it again, unless it
    takes a free Item. A write of marks leaves the record its owner, or the Item has one label. -/
def Knows (md : CommonMark) (floats : Floats F) (s : System Id) : Event Id → Prop
  | .setField who _ => ∀ pending ∈ (s.clients who).pending, ∀ write ∈ pending.write,
      ∀ last ∈ (s.clients who).store.written .owner, last ≠ write.1 .owner →
        last = s.owner md floats → write.2.1 = last ∨ pending.Takes last
  | .setMarks who _ => ∀ pending ∈ (s.clients who).pending, ∀ marks ∈ pending.marks,
      (heldValues s.issue.labels .owner).length ≤ 1 ∨
        ((s.issue.edited md floats marks none).record md floats).record .owner =
          (s.issue.record md floats).record .owner
  | _ => True

instance (event : Event Id) : Decidable (Knows md floats s event) := by
  cases event <;> unfold Knows <;> infer_instance

theorem goOn_fits {next : Except ClaimError (Option Pending)}
    (fits : (s.clients who).Fits (party who))
    (left : ∀ pending ∈ next.toOption.join, pending.Fits (party who)) :
    ∃ client, (s.goOn who next).clients = Function.update s.clients who client ∧
      client.Fits (party who) :=
  ⟨_, rfl, fits.plan, left, fits.store⟩

theorem fits_service {party : Party} {pending : Pending} (fits : pending.Fits party)
    (release : pending.operation = .serviceRelease) : party = .service := by
  cases party with
  | service => rfl
  | hand name =>
    cases pending with
    | apply item target => cases target <;> simp [Pending.operation] at release
    | _ => exact fits.elim

theorem next_fits {party : Party} {pending left : Pending} {result : Except StoreError Unit}
    (fits : pending.Fits party) (next : pending.next result = some left) : left.Fits party := by
  match pending, result with
  | .release _ _, .error (.itemChanged ..) =>
    cases next
    rw [fits_service fits rfl]
    trivial
  | .release _ _, .error (.fieldValueUnknown ..) | .release _ _, .error .readFailed
  | .release _ _, .error .writeFailed | .release _ _, .ok () | .apply _ _, _ | .claim _ _, _
  | .again _, _ | .setMarks _, _ => cases next

theorem perform_clients {event : Event Id} (fits : (s.clients event.who).Fits (party event.who))
    (taken : s.perform md floats party event = some t) :
    ∃ client, t.clients = Function.update s.clients event.who client ∧
      client.Fits (party event.who) := by
  cases event with
  | plan who claimant =>
    simp only [perform] at taken
    cases actor : party who with
    | service => simp [actor] at taken
    | hand name =>
      simp only [actor] at taken
      split_ifs at taken with own
      cases taken
      refine ⟨_, rfl, ?_, ?_, fits.store⟩
      · intro plan planned
        refine ⟨name, actor, ?_⟩
        rw [planClaim_target planned]
        rcases own with rfl | rfl
        · exact .inl rfl
        · exact .inr rfl
      · intro pending left
        cases left
  | apply who =>
    obtain ⟨plan, planned, rfl⟩ := Option.map_eq_some_iff.mp taken
    obtain ⟨name, actor, target⟩ := fits.plan plan planned
    apply goOn_fits fits
    intro pending left
    exact actor ▸ applyClaim_fits target left
  | claim who marks =>
    simp only [perform] at taken
    cases actor : party who with
    | hand name => simp [actor] at taken
    | service =>
      simp only [actor] at taken
      cases taken
      apply goOn_fits fits
      intro pending left
      exact actor ▸ serviceClaim_fits left
  | release who marks =>
    simp only [perform] at taken
    cases actor : party who with
    | hand name => simp [actor] at taken
    | service =>
      simp only [actor] at taken
      cases taken
      apply goOn_fits fits
      intro pending left
      exact actor ▸ serviceRelease_fits left
  | again who =>
    obtain ⟨marks, refused, rfl⟩ := Option.map_eq_some_iff.mp taken
    obtain ⟨before, waiting, again⟩ := Option.bind_eq_some_iff.mp refused
    apply goOn_fits fits
    intro pending left
    have actor : party who = .service := by
      cases before with
      | again _ => exact fits_service (fits.pending _ waiting) rfl
      | _ => cases again
    exact actor ▸ releaseAgain_fits left
  | setField who answer =>
    simp only [perform, Option.bind_eq_bind, Option.bind_eq_some_iff] at taken
    obtain ⟨pending, waiting, ⟨item, value, marks⟩, write, ran⟩ := taken
    cases ran
    refine ⟨_, rfl, fits.plan, fun left next => next_fits (fits.pending _ waiting) next, ?_⟩
    intro name actor last written
    rcases written_cases s (s.clients who).store item value marks answer with
      ⟨_, same⟩ | ⟨_, _, same | updated⟩
    · exact fits.store name actor last (same ▸ written)
    · exact fits.store name actor last (same ▸ written)
    · have fit := fits.pending _ waiting
      change _ = some last at written
      rw [updated, Function.update_self] at written
      cases written
      rw [show party (Event.setField who answer).who = _ from actor] at fit
      cases pending with
      | apply _ target =>
        cases write
        exact fit.1
      | _ => exact fit.elim
  | setMarks who answer =>
    obtain ⟨marks, _, rfl⟩ := Option.map_eq_some_iff.mp taken
    refine ⟨_, rfl, fits.plan, ?_, ?_⟩
    · intro pending left
      cases left
    · intro name actor last written
      apply fits.store name actor last
      by_cases answered : answer = .done
      · simp only [answered, if_true, Store.keep] at written
        exact written
      · simp only [answered, if_false] at written
        exact written

theorem read_lawful {party : Party} {pending : Pending} {item : Item} {value : Option Text}
    {marks : Marks} (fits : pending.Fits party) (write : pending.write = some (item, value, marks)) :
    Move.Lawful ⟨some pending.operation, pending.read, item .owner, value⟩ := by
  cases pending with
  | apply item target =>
    cases write
    cases party with
    | service => exact fits.elim
    | hand name =>
      obtain ⟨-, may, other⟩ := fits
      refine .inr ?_
      cases value with
      | none => exact ⟨rfl, rfl⟩
      | some target =>
        simp only [allowed, reduceCtorEq, decide_false, Bool.false_or, Bool.or_eq_true,
          Bool.and_eq_true, decide_eq_true_eq, other, or_false, Option.some.injEq] at may
        exact ⟨rfl, may⟩
  | claim item marks =>
    cases write
    cases party with
    | hand name => exact fits.elim
    | service =>
      rcases fits with free | own
      · exact .inr ⟨free, rfl⟩
      · exact .inl own.symm
  | release item marks =>
    cases write
    by_cases own : item .owner = some service
    · exact .inr ⟨own, by simp [kept, own]⟩
    · exact .inl (by simp [kept, own])
  | again marks | setMarks marks => cases write

theorem takes_lawful {party : Party} {pending : Pending} {item : Item} {value last : Option Text}
    {marks : Marks} (fits : pending.Fits party) (write : pending.write = some (item, value, marks))
    (own : ∀ name, party = .hand name → last = none ∨ last = some name.owner)
    (takes : pending.Takes last) : Move.Lawful ⟨some pending.operation, pending.read, last, value⟩ := by
  cases pending with
  | apply item target =>
    cases write
    cases party with
    | service => exact fits.elim
    | hand name =>
      obtain ⟨mine, -, -⟩ := fits
      cases value with
      | none => cases takes
      | some target =>
        rcases own name rfl with free | held
        · exact .inr ⟨rfl, .inl free⟩
        · have same := mine.resolve_left (by simp)
          exact .inl (same.trans held.symm)
  | claim item marks =>
    cases write
    exact .inr ⟨takes, rfl⟩
  | release item marks => exact takes.elim
  | again marks | setMarks marks => cases write

theorem edited_owner {issue : Issue} {marks : Marks}
    (keeps : (heldValues issue.labels .owner).length ≤ 1 ∨
      ((issue.edited md floats marks none).record md floats).record .owner =
        (issue.record md floats).record .owner) :
    (issue.edited md floats marks none).fieldNow md floats .owner = issue.fieldNow md floats .owner := by
  change fieldValue issue.labels ((issue.edited md floats marks none).record md floats).record .owner =
    fieldValue issue.labels (issue.record md floats).record .owner
  rcases keeps with single | same
  · rw [fieldValue_single single, fieldValue_single single]
  · rw [fieldValue, fieldValue, same]

theorem step_lawful {event : Event Id} (fits : (s.clients event.who).Fits (party event.who))
    (knows : Knows md floats s event)
    (taken : s.perform md floats party event = some t) : (s.move md floats event t).Lawful := by
  cases event with
  | plan who claimant =>
    refine .inl ?_
    simp only [perform] at taken
    cases actor : party who with
    | service => simp [actor] at taken
    | hand name =>
      simp only [actor] at taken
      split_ifs at taken with own
      cases taken
      rfl
  | apply who =>
    obtain ⟨plan, _, rfl⟩ := Option.map_eq_some_iff.mp taken
    exact .inl rfl
  | claim who marks | release who marks =>
    refine .inl ?_
    simp only [perform] at taken
    cases actor : party who with
    | hand name => simp [actor] at taken
    | service =>
      simp only [actor] at taken
      cases taken
      rfl
  | again who =>
    obtain ⟨marks, _, rfl⟩ := Option.map_eq_some_iff.mp taken
    exact .inl rfl
  | setField who answer =>
    simp only [perform, Option.bind_eq_bind, Option.bind_eq_some_iff] at taken
    obtain ⟨pending, waiting, ⟨item, value, marks⟩, write, ran⟩ := taken
    cases ran
    have fit := fits.pending _ waiting
    rcases written_cases s (s.clients who).store item value marks answer with
      ⟨same, _⟩ | ⟨after, passes, _⟩
    · exact .inl (congrArg (Issue.fieldNow md floats · .owner) same)
    · have shown (t : System Id) (last : t.owner md floats = value)
          (lawful : Move.Lawful ⟨some pending.operation, pending.read, s.owner md floats, value⟩) :
          (s.move md floats (.setField who answer) t).Lawful := by
        simpa only [move, writes, if_true, Event.who, waiting, Option.map_some, Option.bind_some, last]
          using lawful
      refine shown _ ?_ ?_
      · exact after
      by_cases own : value = s.owner md floats
      · exact .inl own
      have checked := passes.resolve_right own
      rw [Store.lastRead] at checked
      cases remembered : (s.clients who).store.written .owner with
      | none =>
        rw [remembered, Option.getD_none] at checked
        exact checked ▸ read_lawful fit write
      | some last =>
        rw [remembered, Option.getD_some] at checked
        by_cases same : last = item .owner
        · rw [← checked, same]
          exact read_lawful fit write
        · rcases knows pending waiting _ write last remembered same checked with value_ | takes
          · exact absurd (value_.trans checked) own
          · rw [← checked]
            exact takes_lawful fit write (fun name actor => fits.store name actor last remembered) takes
  | setMarks who answer =>
    refine .inl ?_
    obtain ⟨marks, waiting, rfl⟩ := Option.map_eq_some_iff.mp taken
    obtain ⟨pending, left, marked⟩ := Option.bind_eq_some_iff.mp waiting
    change Issue.fieldNow md floats (if answer.made then s.issue.edited md floats marks none
      else s.issue) .owner = _
    split
    · exact edited_owner (knows pending left marks marked)
    · rfl

theorem step_fits {event : Event Id} (fits : s.Fits party)
    (taken : s.step md floats party event = some t) : t.Fits party := by
  obtain ⟨u, performed, rfl⟩ := Option.map_eq_some_iff.mp taken
  obtain ⟨client, clients, fit⟩ := perform_clients (fits event.who) performed
  intro who
  change (u.clients who).Fits (party who)
  rw [clients]
  by_cases same : who = event.who
  · rw [same, Function.update_self]
    exact fit
  · rw [Function.update_of_ne same]
    exact fits who

/-- In a run whose steps all meet the condition, each change of the owner is one that its call
    may make, and the claim of an agent or a person stays until a release that read it. -/
theorem claims_not_stolen (party : Id → Party) (issue : Issue) (closed : Bool)
    (events : List (Event Id)) (s : System Id)
    (run : exec (step md floats party) { issue, closed } events = some s)
    (knows : Meets (step md floats party) (Knows md floats) { issue, closed } events) :
    ∀ move ∈ s.moves, move.Lawful ∧ move.KeepsClaim := by
  have kept : s.Fits party ∧ ∀ move ∈ s.moves, move.Lawful := by
    refine exec_invariant (fun s => Fits party s ∧ ∀ move ∈ s.moves, move.Lawful) ?_
      ⟨start_fits issue closed, fun move none => by cases none⟩ knows run
    intro s event t inv ok taken
    refine ⟨step_fits inv.1 taken, ?_⟩
    obtain ⟨u, performed, rfl⟩ := Option.map_eq_some_iff.mp taken
    intro move logged
    rcases List.mem_cons.mp logged with rfl | before
    · exact step_lawful (inv.1 event.who) ok performed
    · exact inv.2 move before
  intro move logged
  exact ⟨kept.2 move logged, (kept.2 move logged).keepsClaim⟩

def personsItem : Issue where
  labels := [fieldLabel .priority ['P', '1', '-', 'H', 'i', 'g', 'h'],
    fieldLabel .owner Claimant.human.owner]
  body := []

def jobAndPerson (who : Fin 2) : Party := if who = 0 then .service else .hand .human

/-- The person releases the Item, the job claims it, the person takes it, and the job leaves it
    when it ends. -/
theorem claims_not_stolen_taken :
    ∃ s, exec (step fences zeroFloats jobAndPerson) { issue := personsItem }
      [.plan 1 none, .apply 1, .setField 1 .done, .claim 0 [], .setField 0 .done,
        .plan 1 (some .human), .apply 1, .setField 1 .done, .release 0 [], .setField 0 .done] =
        some s ∧ ∀ move ∈ s.moves, move.Lawful ∧ move.KeepsClaim := by
  let events : List (Event (Fin 2)) :=
    [.plan 1 none, .apply 1, .setField 1 .done, .claim 0 [], .setField 0 .done,
      .plan 1 (some .human), .apply 1, .setField 1 .done, .release 0 [], .setField 0 .done]
  have knows : Meets (step fences zeroFloats jobAndPerson) (Knows fences zeroFloats)
      { issue := personsItem } events := by decide +kernel
  have reached : (exec (step fences zeroFloats jobAndPerson) { issue := personsItem } events).isSome =
      true := by decide +kernel
  obtain ⟨s, ran⟩ := Option.isSome_iff_exists.mp reached
  exact ⟨s, ran, claims_not_stolen jobAndPerson personsItem false events s ran knows⟩

/-- A round reports a job of an Item that a person holds, which leaves the owner as it is. The
    person releases the Item, the round reads it free, and the person claims it again. The claim
    of the round finds the owner that its store wrote, and replaces the claim of the person. -/
theorem persons_claim_replaced :
    ¬ ∀ (md : CommonMark) (party : Fin 2 → Party) (issue : Issue) (closed : Bool)
      (events : List (Event (Fin 2))) (s : System (Fin 2)),
      exec (step md zeroFloats party) { issue, closed } events = some s →
        ∀ move ∈ s.moves, move.Lawful ∧ move.KeepsClaim := by
  intro lawful
  let events : List (Event (Fin 2)) :=
    [.release 0 [], .setField 0 .done, .plan 1 none, .apply 1, .setField 1 .done, .claim 0 [],
      .plan 1 (some .human), .apply 1, .setField 1 .done, .setField 0 .done]
  have reached : (exec (step fences zeroFloats jobAndPerson) { issue := personsItem } events).any
      (fun s => decide (∃ move ∈ s.moves, move.before = some Claimant.human.owner ∧
        move.after = some service)) = true := by decide +kernel
  obtain ⟨s, ran, stolen⟩ := (Option.any_eq_true _ _).mp reached
  obtain ⟨move, made, before, after⟩ := of_decide_eq_true stolen
  have keeps := (lawful fences jobAndPerson personsItem false events s ran move made).2
  rcases keeps .human before with stays | ⟨cleared, _⟩
  · exact absurd (after.symm.trans stays) (by decide)
  · exact absurd (after.symm.trans cleared) (by decide)

end System
end DevopsCli.Roadmap.Claim
