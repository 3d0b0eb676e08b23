import DevopsCli.Roadmap.OwnWrite
import DevopsCli.Roadmap.RefineRounds

/- How many rounds refine spends on an item that nobody else changes. A round that leaves the item
   for a later round takes a try or the one free invalid reply; any other result leaves the item
   waiting, as long as refine knows its own write and its own comment again. -/
namespace DevopsCli.Roadmap.RefineRounds
open PyStr Sanitize Run
open BodyHash hiding refineOneItem

section Env
variable {env : Env}

/-- Every change and every close that the store reports is before the time. -/
structure Before (env : Env) (at_ : Int) : Prop where
  paths : ∀ path changed, env.pathChangedAt path = some changed → changed < at_
  closes : ∀ number found, env.issue number = some found → ∀ closed ∈ found.closedAt, closed < at_

theorem before_mono {at_ later : Int} (before : Before env at_) (order : at_ ≤ later) :
    Before env later :=
  ⟨fun path changed read => lt_of_lt_of_le (before.paths path changed read) order,
    fun number found read closed mem => lt_of_lt_of_le (before.closes number found read closed mem) order⟩

theorem changedSince_before {at_ : Int} (before : Before env at_) (paths : List Str) :
    changedSince env paths at_ = false := by
  rw [changedSince, List.any_eq_false]
  intro path _ changed
  obtain ⟨last, read, since⟩ := (Option.any_eq_true _ _).mp changed
  have earlier := before.paths path last read
  have later := of_decide_eq_true since
  omega

theorem closedSince_before {at_ : Int} (before : Before env at_) (number : Nat) :
    closedSince env number at_ = false := by
  rw [closedSince]
  cases read : env.issue number with
  | none => rfl
  | some found =>
    have none_ : found.closedAt.any (at_ ≤ ·) = false := by
      rw [List.any_eq_false]
      intro closed mem since
      have earlier := before.closes number found read closed mem
      have later := of_decide_eq_true since
      omega
    simp only [none_, ite_self]

theorem namedCauseEnded_before {at_ : Int} (before : Before env at_) (refs : Refs) :
    namedCauseEnded env refs at_ = false := by
  have closes : refs.issues.any (closedSince env · at_) = false := by
    rw [List.any_eq_false]
    intro number _
    simp [closedSince_before before number]
  rw [namedCauseEnded, changedSince_before before, closes]
  rfl

theorem isOpen_nonneg {number : Int} (open_ : isOpen env number = true) : 0 ≤ number := by
  cases number with
  | ofNat number => exact Int.natCast_nonneg number
  | negSucc number => exact absurd open_ (by simp [isOpen])

end Env

section Comments
variable {comments earlier : List Comment} {own : Comment}

theorem repliesSinceRefine_own (markers : own.markers = [.refine]) :
    repliesSinceRefine (earlier ++ [own]) = some [] := by
  have held : (earlier ++ [own]).any (·.markers.contains .refine) = true := by simp [markers]
  rw [repliesSinceRefine, repliesAfterMarker, if_pos held, List.rtakeWhile_concat_neg _ _ _ (by simp [markers])]
  rfl

theorem withoutOtherJobs_last (markers : own.markers = [.refine]) :
    (withoutOtherJobsComments (earlier ++ [own])).getLast? = some own := by
  simp [withoutOtherJobsComments, List.filter_append, markers]

end Comments

section Waits
variable {H : Type} {env : Env} {item : Item H}

def ReadsQuiet (env : Env) (item : Item H) : Prop :=
  ∀ at_ refs, recordedReads item = some (at_, refs) →
    changedSince env item.record.blockPaths at_ = false ∧
      (item.record.nextStep = some .person → namedCauseEnded env refs at_ = false)

structure OwnLast (env : Env) (item : Item H) : Prop where
  last : ∃ earlier own, item.comments = earlier ++ [own] ∧ own.markers = [.refine] ∧
    own.trusted = true ∧ Before env own.createdAt
  reads : ReadsQuiet env item

/-- Marks that a round gives for comments whose last one is refine's. -/
def MarksQuiet (env : Env) (item : Item H) (marks : Option ReadMarks) : Prop :=
  ∀ given ∈ marks, given.commentsSeen = item.comments.length ∧ Before env given.commentedAt

def CommentStep (env : Env) (record : RefineRecord H) (step : NextStep) : Prop :=
  step = .person ∨ step = .split ∨
    (step = .blocked ∧ ∃ number ∈ record.blockedBy, isOpen env number = true)

theorem waitState_own (own : OwnLast env item) :
    ∃ at_ refs marks, waitState item none = .ok (some (at_, refs, marks)) ∧
      changedSince env item.record.blockPaths at_ = false ∧
      (item.record.nextStep = some .person → namedCauseEnded env refs at_ = false) ∧
      MarksQuiet env item marks := by
  cases recorded : recordedReads item with
  | some found =>
    obtain ⟨at_, refs⟩ := found
    obtain ⟨unchanged, named⟩ := own.reads at_ refs recorded
    exact ⟨at_, refs, none, by simp [waitState, recorded], unchanged, named, by simp [MarksQuiet]⟩
  | none =>
    obtain ⟨earlier, last, whole, markers, trusted, before⟩ := own.last
    have comments : commentsOn item = earlier.filter (·.trusted) ++ [last] := by
      simp [commentsOn, whole, List.filter_append, trusted]
    let refs := waitRefs (waitText (earlier.filter (·.trusted) ++ [last])) item.number
    refine ⟨last.createdAt, refs.toRefs, readMarks item last.createdAt refs, ?_,
      changedSince_before before _, fun _ => namedCauseEnded_before before _, ?_⟩
    · simp only [waitState, Option.isNone_none, if_true, recorded, Option.getD_none, comments,
        repliesSinceRefine_own markers, withoutOtherJobs_last markers]
      simp [refs]
    · intro given held
      simp only [readMarks] at held
      split at held
      · exact absurd held (by simp)
      · obtain rfl := Option.some.inj held
        exact ⟨rfl, before⟩

theorem waitOn_own (own : OwnLast env item) (step : NextStep) (namesCause : Bool)
    (person : namesCause = true → item.record.nextStep = some .person) :
    ∃ marks, waitOn env item step namesCause none = .ok (some { step := step, marks := marks }) ∧
      MarksQuiet env item marks := by
  obtain ⟨at_, refs, marks, state, paths, named, quiet⟩ := waitState_own own
  refine ⟨marks, ?_, quiet⟩
  cases namesCause with
  | false => simp [waitOn, state, paths]
  | true => simp [waitOn, state, paths, named (person rfl)]

theorem needsSecondLook_settled
    (step : item.record.nextStep = some .edit ∨ item.record.nextStep = some .failed) :
    needsSecondLook item = false := by
  rcases step with edit | failed <;> simp [needsSecondLook, *]

theorem coveringTool_block {after : Item H} {body : Str} (verdict : after.record.verdict = item.record.verdict)
    (tool : after.record.tool = item.record.tool)
    (block : (extract body alternativesStart alternativesEnd).2.isSome = true →
      (extract item.body alternativesStart alternativesEnd).2.isSome = true) :
    coveringTool after body = none ∨ coveringTool after body = coveringTool item item.body := by
  cases held : (extract body alternativesStart alternativesEnd).2.isSome with
  | false => exact Or.inl (by simp [coveringTool, recordedCheck, held])
  | true => exact Or.inr (by simp [coveringTool, recordedCheck, held, block held, verdict, tool])

theorem needsSecondLook_asked {after : Item H} {tool : Option Str}
    (asked : after.record.alternativesAsked = tool)
    (covers : coveringTool after after.body = none ∨ coveringTool after after.body = tool) :
    needsSecondLook after = false := by
  rcases covers with none_ | same
  · simp [needsSecondLook, none_]
  · simp [needsSecondLook, same, asked]

end Waits

section Marks
variable {H : Type} {env : Env} {item : Item H} {waiting : WaitingItem}

theorem marked_keeps (record : RefineRecord H) (waiting : WaitingItem) :
    ∃ capped seen at_ refs, marked record waiting =
      { record with cappedAfter := capped, commentsSeen := seen, commentedAt := at_, waitRefs := refs } := by
  rw [marked]
  cases waiting.capStop <;> cases waiting.marks <;> exact ⟨_, _, _, _, rfl⟩

theorem marked_reads (reads : ReadsQuiet env item) (quiet : MarksQuiet env item waiting.marks) :
    ReadsQuiet env { item with record := marked item.record waiting } := by
  intro at_ refs recorded
  cases given : waiting.marks with
  | none =>
    have same : marked item.record waiting =
        { item.record with cappedAfter := (marked item.record waiting).cappedAfter } := by
      rw [marked, given]
      cases waiting.capStop <;> rfl
    rw [same] at recorded ⊢
    exact reads at_ refs recorded
  | some marks =>
    have before := (quiet marks given).2
    have time : at_ = marks.commentedAt := by
      rw [recordedReads, marked, given] at recorded
      simp only [Option.ite_none_right_eq_some, Option.some.injEq, Prod.mk.injEq] at recorded
      exact recorded.2.1.symm
    exact ⟨time ▸ changedSince_before before _, fun _ => time ▸ namedCauseEnded_before before _⟩

theorem applyWaiting_plain (plain : waiting.notice = false) (now : Int) :
    applyWaiting env item now waiting = { item with record := marked item.record waiting } := by
  simp [applyWaiting, plain]

end Marks

section Rests
variable {H : Type} [DecidableEq H] {hash : Str → H} {env : Env} {item : Item H}

theorem stillWaiting_own (own : OwnLast env item) {step : NextStep}
    (recorded : item.record.nextStep = some step) (comment : CommentStep env item.record step) :
    ∃ marks, stillWaiting env item = .ok (some { step := step, marks := marks }) ∧
      MarksQuiet env item marks := by
  rcases comment with rfl | rfl | ⟨rfl, number, blocks, open_⟩
  · simpa only [stillWaiting, recorded] using waitOn_own own .person true fun _ => recorded
  · simpa only [stillWaiting, recorded] using waitOn_own own .split false (by simp)
  · have blocked : (recordedBlockers item).any (isOpen env) = true :=
      List.any_eq_true.mpr ⟨number, blocks, open_⟩
    simpa only [stillWaiting, recorded, blocked, if_true] using waitOn_own own .blocked false (by simp)

theorem stillWaiting_plain {waiting : WaitingItem} (waits : stillWaiting env item = .ok (some waiting)) :
    waiting.notice = false := by
  have on (step : NextStep) (namesCause : Bool) (comments : Option (List Comment))
      (given : waitOn env item step namesCause comments = .ok (some waiting)) :
      waiting.notice = false := by
    rw [waitOn] at given
    split at given
    · exact absurd given (by simp)
    · exact absurd given (by simp)
    · split_ifs at given <;> simp only [Except.ok.injEq, Option.some.injEq, reduceCtorEq] at given
      exact given ▸ rfl
  rw [stillWaiting] at waits
  split at waits
  · exact absurd waits (by simp)
  · exact absurd waits (by simp)
  · exact Option.some.inj (Except.ok.inj waits) ▸ rfl
  · exact Option.some.inj (Except.ok.inj waits) ▸ rfl
  · split_ifs at waits
    · exact on _ _ _ waits
    · exact absurd waits (by simp)
  · split_ifs at waits
    · exact on _ _ _ waits
    · exact absurd waits (by simp)
  · exact on _ _ _ waits
  · exact on _ _ _ waits
  · exact on _ _ _ waits

/-- An item that no later round takes. -/
inductive Rests (hash : Str → H) (env : Env) (item : Item H) : Prop
  | outside (author : isTrusted item = false)
  | settled (same : unchanged hash item item.body = true)
      (step : item.record.nextStep = some .edit ∨ item.record.nextStep = some .failed)
  | edited (edit : (checkPersonEdits hash item.record.hashes item.body).isSome = true)
      (step : item.record.nextStep = some .edit)
  | ready (status : item.status = .ready) (section_ : item.record.hashes.sectionHash.isSome = true)
      (approved : unchanged hash item item.body = true → isApproved hash item = true)
      (look : needsSecondLook item = false)
      (known : unchanged hash item item.body = true ∨
        (checkPersonEdits hash item.record.hashes item.body).isSome = true)
  | waits (step : NextStep) (recorded : item.record.nextStep = some step)
      (comment : CommentStep env item.record step) (own : OwnLast env item)
      (known : (unchanged hash item item.body = true ∧ needsSecondLook item = false) ∨
        (checkPersonEdits hash item.record.hashes item.body).isSome = true)

theorem consider_waits (now : Int)
    (first : unchanged hash item item.body = true → needsSecondLook item = false →
      ∃ waits, stillWaiting env item = .ok waits ∧
        (waits = none → (checkPersonEdits hash item.record.hashes item.body).isSome = true))
    (other : (unchanged hash item item.body = true → needsSecondLook item = true) →
      (checkPersonEdits hash item.record.hashes item.body).isSome = true) :
    ∃ waiting, consider hash env item now = .ok (some waiting) := by
  rw [consider]
  split
  · exact ⟨_, rfl⟩
  · by_cases same : unchanged hash item item.body = true ∧ needsSecondLook item = false
    · obtain ⟨waits, still, ended⟩ := first same.1 same.2
      simp only [same.1, same.2, Bool.not_false, Bool.and_self, if_true, still]
      cases waits with
      | some waiting => exact ⟨waiting, rfl⟩
      | none =>
        obtain ⟨problem, found⟩ := Option.isSome_iff_exists.mp (ended rfl)
        exact ⟨_, by rw [found]⟩
    · obtain ⟨problem, found⟩ := Option.isSome_iff_exists.mp
        (other fun same_ => Bool.eq_true_of_not_eq_false fun look => same ⟨same_, look⟩)
      have skipped : (unchanged hash item item.body && !needsSecondLook item) = false := by
        cases one : unchanged hash item item.body <;> cases two : needsSecondLook item <;>
          simp_all
      simp only [skipped, Bool.false_eq_true, if_false]
      exact ⟨_, by rw [found]⟩

theorem stillWaiting_settled (env : Env)
    (step : item.record.nextStep = some .edit ∨ item.record.nextStep = some .failed) :
    ∃ waiting : WaitingItem, stillWaiting env item = .ok (some waiting) ∧ waiting.marks = none := by
  rcases step with edit | failed
  · exact ⟨{ step := .edit }, by simp only [stillWaiting, edit], rfl⟩
  · exact ⟨{ step := .failed }, by simp only [stillWaiting, failed], rfl⟩

theorem rests_look (rests : Rests hash env item) (now : Int) (unrefinedReady : Bool) :
    look hash env item now unrefinedReady = .out ∨
      ∃ waiting, look hash env item now unrefinedReady = .waits waiting := by
  rw [look]
  split
  · rename_i refined
    have waits : (∃ waiting, consider hash env item now = .ok (some waiting)) := by
      cases rests with
      | outside author => exact ⟨_, by rw [consider, author]; rfl⟩
      | settled same step =>
        obtain ⟨waiting, still, _⟩ := stillWaiting_settled env step
        exact consider_waits now (fun _ _ => ⟨_, still, by simp⟩)
          fun look => absurd (look same) (by simp [needsSecondLook_settled step])
      | edited edit step =>
        obtain ⟨waiting, still, _⟩ := stillWaiting_settled env (Or.inl step)
        exact consider_waits now (fun _ _ => ⟨_, still, by simp⟩) fun _ => edit
      | waits step recorded comment own known =>
        obtain ⟨marks, still, _⟩ := stillWaiting_own own recorded comment
        refine consider_waits now (fun _ _ => ⟨_, still, by simp⟩) fun look => ?_
        exact known.resolve_left fun same => absurd (look same.1) (by simp [same.2])
      | ready status section_ approved look known =>
        have changed : unchanged hash item item.body = false := by
          by_contra same
          have same := Bool.eq_true_of_not_eq_false same
          simp [refinable, status, Option.isNone_iff_eq_none, Option.ne_none_iff_isSome.mpr section_,
            look, approved same] at refined
        refine consider_waits now (fun same => absurd same (by simp [changed])) fun _ => ?_
        exact known.resolve_left (by simp [changed])
    obtain ⟨waiting, waits⟩ := waits
    exact Or.inr ⟨waiting, by rw [waits]⟩
  · exact Or.inl rfl

theorem look_waits {now : Int} {unrefinedReady : Bool} {waiting : WaitingItem}
    (trusted : isTrusted item = true)
    (seen : look hash env item now unrefinedReady = .waits waiting) :
    waiting.notice = false ∧ (waiting.marks = none ∨ stillWaiting env item = .ok (some waiting)) := by
  have considered : consider hash env item now = .ok (some waiting) := by
    rw [look] at seen
    split_ifs at seen
    split at seen
    · exact absurd seen (by simp)
    · rename_i found considered
      rw [considered, Look.waits.inj seen]
    · exact absurd seen (by simp)
  rw [consider, trusted] at considered
  simp only [Bool.not_true, Bool.false_eq_true, if_false] at considered
  split at considered
  · exact absurd considered (by simp)
  · rename_i waits given
    obtain rfl := Option.some.inj (Except.ok.inj considered)
    split_ifs at given
    · exact ⟨stillWaiting_plain given, Or.inr given⟩
    · exact absurd given (by simp)
  · split at considered
    · obtain rfl := Option.some.inj (Except.ok.inj considered)
      exact ⟨rfl, Or.inl rfl⟩
    · rw [commentCap] at considered
      simp only [] at considered
      split_ifs at considered
      · exact absurd considered (by simp)
      · split at considered
        · exact absurd considered (by simp)
        · obtain rfl := Option.some.inj (Except.ok.inj considered)
          exact ⟨rfl, Or.inl rfl⟩

theorem rests_marked (rests : Rests hash env item) {waiting : WaitingItem}
    (quiet : waiting.marks = none ∨ stillWaiting env item = .ok (some waiting)) :
    Rests hash env { item with record := marked item.record waiting } := by
  have marks (own : OwnLast env item) (step : NextStep) (recorded : item.record.nextStep = some step)
      (comment : CommentStep env item.record step) :
      OwnLast env { item with record := marked item.record waiting } := by
    have quiet : MarksQuiet env item waiting.marks := by
      rcases quiet with none_ | still
      · simp [MarksQuiet, none_]
      · obtain ⟨marks, same, quiet⟩ := stillWaiting_own own recorded comment
        obtain rfl := Option.some.inj (Except.ok.inj (still.symm.trans same))
        exact quiet
    exact ⟨own.last, marked_reads own.reads quiet⟩
  obtain ⟨capped, seen, at_, refs, kept⟩ := marked_keeps item.record waiting
  cases rests with
  | outside author => exact .outside author
  | settled same step => exact .settled (by rw [kept]; exact same) (by rw [kept]; exact step)
  | edited edit step => exact .edited (by rw [kept]; exact edit) (by rw [kept]; exact step)
  | ready status section_ approved look known =>
    rw [kept]
    exact .ready status section_ approved look known
  | waits step recorded comment own known =>
    have own := marks own step recorded comment
    rw [kept] at own ⊢
    exact .waits step recorded comment own known

end Rests
section Body
variable {H : Type} [DecidableEq H] {hash : Str → H}

/-- What lets refine leave an item that it wrote: it knows the write again, or it sees another
    section than its own in it; and the write forms no block of the alternatives job. -/
def Settles (body inside : Str) : Prop :=
  let before := rstrip (extractSectionAndOutside body).1
  (Recognisable body inside ∨
    (splitAt before refineStart ≠ none ∧
      ∀ twin, (extractSectionAndOutside before).2 = some twin → PyStr.strip twin ≠ PyStr.strip inside)) ∧
  ((extract before alternativesStart alternativesEnd).2.isSome = true →
    (extract body alternativesStart alternativesEnd).2.isSome = true)

theorem edited_of_other (injective : Function.Injective hash) {inside : Str} (lines : IsInside inside)
    {before : Str} {bodyHash : Option H} (stray : splitAt before refineStart ≠ none)
    (other : ∀ twin, (extractSectionAndOutside before).2 = some twin → PyStr.strip twin ≠ PyStr.strip inside) :
    (checkPersonEdits hash ⟨bodyHash, some (hashText hash inside)⟩ (before ++ appended inside)).isSome =
      true := by
  have differs (twin : Str) (unlike : PyStr.strip twin ≠ PyStr.strip inside) :
      hashText hash twin ≠ hashText hash inside := fun same => unlike (injective same)
  rcases extract_appended before lines with
    ⟨absent, same⟩ | ⟨twin, earlier, same⟩ | ⟨x, rest, _, _, same⟩
  · exact absurd absent stray
  · simp [checkPersonEdits, same, differs twin (other twin earlier)]
  · simp [checkPersonEdits, same, differs _ (joined_longer rest inside)]

variable {engine : Engine} {recorded : Hashes H} {body : Str} {proposal : RefinementProposal}
  {openQuestions : List Str} {sha : Sha} {allowedUrls : List Str} {write : BodyHash.Written H}

theorem written_known (injective : Function.Injective hash)
    (run : BodyHash.refineOneItem hash engine recorded body proposal openQuestions sha allowedUrls =
      some write)
    (settles : Settles body (sectionInside engine proposal openQuestions sha allowedUrls)) :
    isUnchanged hash write.hashes write.newBody = true ∨
      (checkPersonEdits hash write.hashes write.newBody).isSome = true := by
  have lines : IsInside (sectionInside engine proposal openQuestions sha allowedUrls) :=
    sectionInside_lines
  obtain rfl := refineOneItem_writes run
  rcases settles.1 with ⟨_, known⟩ | ⟨stray, other⟩
  · exact Or.inl ((unchanged_iff injective lines _ _).mpr known)
  · exact Or.inr (edited_of_other injective lines stray other)

theorem written_block
    (run : BodyHash.refineOneItem hash engine recorded body proposal openQuestions sha allowedUrls =
      some write)
    (settles : Settles body (sectionInside engine proposal openQuestions sha allowedUrls))
    (block : (extract write.newBody alternativesStart alternativesEnd).2.isSome = true) :
    (extract body alternativesStart alternativesEnd).2.isSome = true := by
  obtain rfl := refineOneItem_writes run
  rw [alternatives_appended _ sectionInside_lines] at block
  exact settles.2 block

theorem written_section
    (run : BodyHash.refineOneItem hash engine recorded body proposal openQuestions sha allowedUrls =
      some write) : write.hashes.sectionHash.isSome = true := by
  obtain rfl := refineOneItem_writes run
  rfl

end Body

section Design
variable {H : Type} [DecidableEq H] {hash : Str → H} {env : Env} {item : Item H} {found : Validated}

/-- The next step of a written round: the item is Ready and approved, or it waits on an edit or on a
    comment. No written round is one to try again. -/
structure Outcome (env : Env) (item : Item H) (design : Design) : Prop where
  steps : (design.isReady = true ∧ design.nextStep = .ready ∧
      (item.botFiled = true → design.judge = some .approved)) ∨
    (design.isReady = false ∧ (design.nextStep = .edit ∨ design.nextStep = .person ∨
      design.nextStep = .split ∨ (design.nextStep = .blocked ∧
        ∃ number ∈ design.blockedBy, isOpen env number = true)))
  asked : design.alternativesAsked = coveringTool item item.body

theorem nextStepOf_unready {proposal : RefinementProposal} {openQuestions : List Str}
    {blockers : List Int} (form : formChecks proposal = [])
    (unready : checkReady proposal openQuestions blockers = false) :
    (nextStepOf proposal openQuestions blockers false).1 = .person ∨
      (nextStepOf proposal openQuestions blockers false).1 = .split ∨
      (nextStepOf proposal openQuestions blockers false = (.blocked, blockers) ∧ blockers ≠ []) := by
  unfold nextStepOf
  rw [if_neg (by simp)]
  split
  · exact Or.inl rfl
  · rename_i asked
    split
    · exact Or.inr (Or.inl rfl)
    · rename_i fits
      split
      · rename_i held
        exact Or.inr (Or.inr ⟨rfl, by simpa using held⟩)
      · rename_i free
        split
        · rename_i open_
          simp only [Bool.not_eq_true, Bool.not_eq_false'] at asked fits free
          simp [checkReady, form, asked, fits, free, open_] at unready
        · exact Or.inl rfl

theorem designOf_outcome (hash : Str → H) (env : Env) (item : Item H)
    (fine : jobFailure found = []) : Outcome env item (designOf hash env item found) := by
  have form : formChecks found.proposal = [] := (List.append_eq_nil_iff.mp fine).1
  refine ⟨?_, rfl⟩
  simp only [designOf]
  generalize blockers_ : found.proposal.dependencies.filter (isOpen env) = blockers
  cases ready : checkReady found.proposal found.openQuestions blockers with
  | false =>
    refine Or.inr ⟨by simp, ?_⟩
    simp only [Bool.false_and, Bool.false_eq_true, if_false, Option.any_none]
    rcases nextStepOf_unready form ready with person | split | ⟨blocked, held⟩
    · exact Or.inr (Or.inl person)
    · exact Or.inr (Or.inr (Or.inl split))
    · obtain ⟨number, mem⟩ := List.exists_mem_of_ne_nil _ held
      have open_ : isOpen env number = true := by
        rw [← blockers_] at mem
        exact (List.mem_filter.mp mem).2
      exact Or.inr (Or.inr (Or.inr ⟨by rw [blocked], number, by rw [blocked]; exact mem, open_⟩))
  | true =>
    cases bot : item.botFiled with
    | false =>
      cases refused : found.refused <;> simp [nextStepOf]
    | true =>
      rcases review : judge item (unchanged hash item item.body) found.findings with ⟨verdict, findings⟩
      have agree : (verdict = .approved ∧ findings = []) ∨ (verdict = .refused ∧ findings ≠ []) := by
        rw [judge] at review
        split_ifs at review with kept none_ <;> obtain ⟨rfl, rfl⟩ := Prod.mk.inj review
        · exact Or.inl ⟨rfl, rfl⟩
        · exact Or.inl ⟨rfl, rfl⟩
        · exact Or.inr ⟨rfl, by simpa using none_⟩
      rcases agree with ⟨rfl, rfl⟩ | ⟨rfl, held⟩
      · cases refused : found.refused <;> simp [nextStepOf]
      · simp [held]

variable {engine : Engine}

/-- The record's reads of the comments, when they are as many as the comments will be with the
    round's own, name no cause that ended. -/
def FreshReads (env : Env) (item : Item H) (design : Design) : Prop :=
  ∀ at_ ∈ item.record.commentedAt, item.record.commentsSeen = some (item.comments.length + 1) →
    changedSince env design.blockPaths at_ = false ∧
      (design.nextStep = .person → namedCauseEnded env item.record.waitRefs at_ = false)

structure WriteRests (hash : Str → H) (env : Env) (engine : Engine) (item : Item H)
    (found : Validated) : Prop where
  body : Settles item.body
    (sectionInside engine found.proposal found.openQuestions found.sha found.allowedUrls)
  comment : (designOf hash env item found).nextStep ∈ [NextStep.person, .split, .blocked] →
    env.ownTrusted = true ∧ FreshReads env item (designOf hash env item found)

theorem rests_written (injective : Function.Injective hash) {now : Int} (before : Before env now)
    (fine : jobFailure found = []) {write : BodyHash.Written H}
    (run : BodyHash.refineOneItem hash engine item.record.hashes item.body found.proposal
      found.openQuestions found.sha found.allowedUrls = some write)
    (rests : WriteRests hash env engine item found) :
    Rests hash env (applyResult hash env item now (.written write (designOf hash env item found))) := by
  obtain ⟨steps, asked⟩ := designOf_outcome hash env item fine
  have comment := rests.comment
  generalize designOf hash env item found = design at steps asked comment
  have known := written_known injective run rests.body
  have look : needsSecondLook (applyResult hash env item now (.written write design)) = false :=
    needsSecondLook_asked asked (coveringTool_block rfl rfl (written_block run rests.body))
  have waits (step : NextStep) (recorded : design.nextStep = step)
      (comment_ : CommentStep env (refineMarks item write.hashes design) step)
      (ours : env.ownTrusted = true ∧ FreshReads env item design) :
      Rests hash env (applyResult hash env item now (.written write design)) := by
    refine .waits step (congrArg some recorded) comment_ ⟨?_, ?_⟩ (known.imp_left fun same => ⟨same, look⟩)
    · exact ⟨item.comments, ownComment env now design.names, rfl, rfl, ours.1, before⟩
    · intro at_ refs reads
      simp only [recordedReads, applyResult, refineMarks, List.length_append, List.length_singleton] at reads
      split at reads
      · exact absurd reads (by simp)
      · rename_i seen at_seen
        split_ifs at reads with count
        obtain ⟨rfl, rfl⟩ := Prod.mk.inj (Option.some.inj reads)
        obtain ⟨paths, named⟩ := ours.2 seen at_seen count
        exact ⟨paths, fun person => named (Option.some.inj person)⟩
  rcases steps with ⟨ready, _, approved⟩ | ⟨_, edit | person | split | ⟨blocked, number, mem, open_⟩⟩
  · refine .ready (by simp [applyResult, newStatus, ready]) (written_section run) (fun same => ?_) look known
    have verdict : item.botFiled = true → design.judge = some .approved := approved
    simp only [isApproved]
    split
    · rename_i bot
      exact Bool.and_eq_true_iff.mpr ⟨by simpa [applyResult, refineMarks] using verdict bot, same⟩
    · rfl
  · rcases known with same | other
    · exact .settled same (Or.inl (congrArg some edit))
    · exact .edited other (congrArg some edit)
  · exact waits .person person (Or.inl rfl) (comment (by simp [person]))
  · exact waits .split split (Or.inr (Or.inl rfl)) (comment (by simp [split]))
  · have read : number ∈ design.blockedBy.filter (0 ≤ ·) :=
      List.mem_filter.mpr ⟨mem, by simpa using isOpen_nonneg open_⟩
    exact waits .blocked blocked (Or.inr (Or.inr ⟨rfl, number, read, open_⟩)) (comment (by simp [blocked]))

end Design

section Budget
variable {H : Type} [DecidableEq H] {hash : Str → H} {env : Env} {engine : Engine} {item : Item H}

def invalidLeft (hash : Str → H) (item : Item H) : Nat :=
  if item.record.failedBodyHash = some (bodyHashes hash item.body).1 then 0 else 1

/-- The rounds that can still come: the free invalid reply, and those that the tries on this body
    leave. -/
def budget (hash : Str → H) (item : Item H) : Nat :=
  invalidLeft hash item + (maxTries - 1 - triesOn hash item item.body) + 1

theorem budget_le (item : Item H) : budget hash item ≤ maxTries + 1 := by
  simp only [budget, invalidLeft, maxTries]
  split <;> omega

theorem seen_unchanged (body : Str) : isUnchanged hash (seenHashes hash body) body = true := by
  simp [isUnchanged, seenHashes]

theorem failed_budget : Rests hash env { item with record := recordFailure hash item } ∨
    budget hash { item with record := recordFailure hash item } + 1 ≤ budget hash item := by
  by_cases recorded : item.record.failedBodyHash = (seenHashes hash item.body).bodyHash
  · refine Or.inl (.settled ?_ (Or.inl ?_))
    · simp only [unchanged, recordFailure, recorded, not_true_eq_false, ne_eq, if_false]
      exact seen_unchanged item.body
    · simp [recordFailure, recorded]
  · have free : ¬ item.record.failedBodyHash = some (bodyHashes hash item.body).1 := recorded
    have record : recordFailure hash item =
        { item.record with failedBodyHash := some (bodyHashes hash item.body).1 } := by
      rw [recordFailure]
      exact if_pos recorded
    refine Or.inr ?_
    rw [record]
    simp only [budget, invalidLeft, free, if_true, if_false, triesOn]
    omega

theorem tried_budget {failure : List JobCheck} (some_ : failure ≠ []) {now : Int} :
    let after := applyResult hash env item now (failedRound hash item item.body failure)
    Rests hash env after ∨ budget hash after + 1 ≤ budget hash item := by
  have kept : failure.isEmpty = false := by simpa using some_
  simp only [failedRound, applyResult]
  by_cases last : maxTries ≤ triesOn hash item item.body + 1
  · refine Or.inl (.settled (seen_unchanged item.body) (Or.inr ?_))
    simp [recordUnwritten, last]
  · have tries (step : NextStep) (count : Nat) : triesOn hash { item with
          record := (recordUnwritten item (seenHashes hash item.body) step failure count) } item.body =
        count := by
      simp [triesOn, recordUnwritten, seenHashes, kept]
    have free (step : NextStep) (count : Nat) : invalidLeft hash { item with
          record := (recordUnwritten item (seenHashes hash item.body) step failure count) } =
        invalidLeft hash item := rfl
    refine Or.inr ?_
    rw [budget, budget, tries, free]
    simp only [maxTries] at last ⊢
    omega

theorem taken_edits {now : Int} {unrefinedReady : Bool}
    (taken : look hash env item now unrefinedReady = .taken) :
    checkPersonEdits hash item.record.hashes item.body = none := by
  have considered : consider hash env item now = .ok none := by
    rw [look] at taken
    split_ifs at taken
    split at taken
    · exact absurd taken (by simp)
    · exact absurd taken (by simp)
    · assumption
  rw [consider] at considered
  split at considered
  · exact absurd considered (by simp)
  · split at considered
    · exact absurd considered (by simp)
    · exact absurd considered (by simp)
    · split at considered
      · exact absurd considered (by simp)
      · assumption

theorem refined_budget (injective : Function.Injective hash) {now : Int} (before : Before env now)
    (reply : Reply) (no_edit : checkPersonEdits hash item.record.hashes item.body = none)
    (rests : ∀ found, reply = .valid found → jobFailure found = [] → WriteRests hash env engine item found) :
    let refined := refineOneItem hash env engine item reply
    refined.called = true ∧ (Rests hash env (applyResult hash env item now refined) ∨
      budget hash (applyResult hash env item now refined) + 1 ≤ budget hash item) := by
  cases reply with
  | invalid =>
    have result : refineOneItem hash env engine item .invalid = .failed := by
      simp [refineOneItem, no_edit]
    rw [result]
    exact ⟨rfl, failed_budget⟩
  | valid found =>
    by_cases fine : jobFailure found = []
    · cases run : BodyHash.refineOneItem hash engine item.record.hashes item.body found.proposal
          found.openQuestions found.sha found.allowedUrls with
      | none =>
        have result : refineOneItem hash env engine item (.valid found) =
            .recordOnly (seenHashes hash item.body) .edit [] 0 := by
          simp [refineOneItem, no_edit, fine, run]
        rw [result]
        exact ⟨rfl, Or.inl (.settled (seen_unchanged item.body) (Or.inl rfl))⟩
      | some write =>
        have result : refineOneItem hash env engine item (.valid found) =
            .written write (designOf hash env item found) := by
          simp [refineOneItem, no_edit, fine, run]
        rw [result]
        exact ⟨rfl, Or.inl (rests_written injective before fine run (rests found rfl fine))⟩
    · have result : refineOneItem hash env engine item (.valid found) =
          failedRound hash item item.body (jobFailure found) := by
        simp [refineOneItem, no_edit, fine]
      rw [result]
      exact ⟨rfl, tried_budget fine⟩

end Budget

section Runs
variable {H : Type} [DecidableEq H] {hash : Str → H} {env : Env} {engine : Engine} {s t : State H}

def Settling (hash : Str → H) (env : Env) (engine : Engine) (s : State H) (round : Round) : Prop :=
  ∀ found, round.reply = .valid found →
    look hash env s.item round.now round.unrefinedReady = .taken → jobFailure found = [] →
      WriteRests hash env engine s.item found

theorem settling_invalid {round : Round} (invalid : round.reply = .invalid) :
    Settling hash env engine s round := by
  intro found valid
  rw [invalid] at valid
  exact absurd valid (by simp)

structure Kept (hash : Str → H) (env : Env) (s : State H) : Prop where
  before : Before env s.clock
  bound : s.calls ≤ maxTries + 1
  due : Rests hash env s.item ∨ s.calls + budget hash s.item ≤ maxTries + 1

theorem waits_kept (kept : Kept hash env s) {round : Round} (order : s.clock ≤ round.now)
    {waiting : WaitingItem}
    (seen : look hash env s.item round.now round.unrefinedReady = .waits waiting) :
    Kept hash env { s with item := applyWaiting env s.item round.now waiting, clock := round.now } := by
  refine ⟨before_mono kept.before order, kept.bound, ?_⟩
  cases trusted : isTrusted s.item with
  | false => exact Or.inl (.outside trusted)
  | true =>
    obtain ⟨plain, quiet⟩ := look_waits trusted seen
    rw [applyWaiting_plain plain]
    refine kept.due.imp (rests_marked · quiet) fun due => ?_
    obtain ⟨capped, count, at_, refs, same⟩ := marked_keeps s.item.record waiting
    rw [same]
    exact due

theorem taken_kept (injective : Function.Injective hash) (kept : Kept hash env s) {round : Round}
    (order : s.clock ≤ round.now) (settling : Settling hash env engine s round)
    (taken : look hash env s.item round.now round.unrefinedReady = .taken) :
    Kept hash env {
      item := applyResult hash env s.item round.now (refineOneItem hash env engine s.item round.reply)
      clock := round.now
      calls := if (refineOneItem hash env engine s.item round.reply).called then s.calls + 1
        else s.calls } := by
  have before := before_mono kept.before order
  have awake : ¬ Rests hash env s.item := by
    intro rests
    rcases rests_look rests round.now round.unrefinedReady with out | ⟨waiting, waits⟩
    · exact absurd (taken.symm.trans out) (by simp)
    · exact absurd (taken.symm.trans waits) (by simp)
  have due := kept.due.resolve_left awake
  obtain ⟨called, left⟩ := refined_budget injective before round.reply (taken_edits taken)
    fun found valid fine => settling found valid taken fine
  have spent : s.calls + 1 ≤ maxTries + 1 := by
    simp only [budget] at due
    omega
  refine ⟨before, by simpa only [called, if_true] using spent, ?_⟩
  simp only [called, if_true]
  exact left.imp id fun less => by omega

theorem step_kept (injective : Function.Injective hash) (round : Round) (kept : Kept hash env s)
    (settling : Settling hash env engine s round)
    (stepped : step hash env engine s round = some t) : Kept hash env t := by
  rw [step] at stepped
  split_ifs at stepped with order
  split at stepped
  · exact Option.some.inj stepped ▸ ⟨before_mono kept.before order, kept.bound, kept.due⟩
  · exact Option.some.inj stepped ▸ ⟨before_mono kept.before order, kept.bound, kept.due⟩
  · rename_i waiting seen
    exact Option.some.inj stepped ▸ waits_kept kept order seen
  · rename_i taken
    exact Option.some.inj stepped ▸ taken_kept injective kept order settling taken

theorem rounds_bounded (hash : Str → H) (injective : Function.Injective hash) (env : Env)
    (engine : Engine) (s t : State H) (rounds : List Round) (fresh : s.calls = 0)
    (frozen : Before env s.clock)
    (settling : Meets (step hash env engine) (Settling hash env engine) s rounds)
    (run : exec (step hash env engine) s rounds = some t) :
    t.calls ≤ maxTries + 1 ∧ (t.calls = maxTries + 1 → ∀ now unrefinedReady,
      look hash env t.item now unrefinedReady = .out ∨
        ∃ waiting, look hash env t.item now unrefinedReady = .waits waiting) := by
  have start : Kept hash env s :=
    ⟨frozen, by omega, Or.inr (by simpa only [fresh, Nat.zero_add] using budget_le s.item)⟩
  have kept : Kept hash env t := exec_invariant (Kept hash env)
    (fun _ round _ kept settling stepped => step_kept injective round kept settling stepped)
    start settling run
  refine ⟨kept.bound, fun spent now unrefinedReady => ?_⟩
  have rests : Rests hash env t.item := by
    refine kept.due.resolve_right fun due => ?_
    simp only [budget] at due
    omega
  exact rests_look rests now unrefinedReady

end Runs

end DevopsCli.Roadmap.RefineRounds
