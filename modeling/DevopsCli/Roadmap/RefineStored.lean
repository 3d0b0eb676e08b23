import DevopsCli.Roadmap.RefineBound
import DevopsCli.Roadmap.RefineRecord

/- The rounds of refine on an item as the store holds it: one text with the job record in a block at
   its end, which a round reads, and which each write takes out and puts back. A body that leaves a
   fence or an HTML block open loses the record, so the rounds forget their tries; with the other
   bodies they are the rounds on the item that is read. -/
namespace DevopsCli.Roadmap.RefineRounds
open Run

structure StoredItem where
  number : Nat
  personFiled : Bool := true
  botFiled : Bool := false
  issue : Issue
  comments : List Comment := []

def statusOf : Option Text → Status
  | some value => if value = "New".toList then .new else if value = "Ready".toList then .ready else .other
  | none => .other

def Status.text (isReady : Bool) : Text := if isReady then "Ready".toList else "New".toList

structure StoredState where
  item : StoredItem
  clock : Int
  -- The rounds that called the model.
  calls : Nat := 0

section Store
variable {F : Type} (md : CommonMark) (floats : Floats F) (decimals : PyStr.Decimals) (times : Times)

namespace StoredItem
variable (item : StoredItem)

def body : Text := (splitRecord md floats item.issue.body).1

def held : Held F := (splitRecord md floats item.issue.body).2

def view : Item Text where
  number := item.number
  status := statusOf (item.issue.fieldNow md floats .status)
  personFiled := item.personFiled
  botFiled := item.botFiled
  body := item.body md floats
  record := readRecord decimals times (textOf (item.held md floats))
  comments := item.comments

def setMarks (marks : Marks) : StoredItem :=
  { item with issue := item.issue.edited md floats (changesOf marks) none }

def setStatus (isReady : Bool) (marks : Marks) : StoredItem :=
  { item with
    issue := item.issue.withField md floats .status (some (Status.text isReady)) (changesOf marks) }

def writeBody (body : Text) : StoredItem := { item with issue := item.issue.rewritten md floats body }

def comment (own : Comment) : StoredItem := { item with comments := item.comments ++ [own] }

end StoredItem

variable (hash : Text → Text) (env : Env) (engine : Sanitize.Engine)

def applyRefined (item : StoredItem) (now : Int) (write : BodyHash.Written Text) (design : Design) :
    StoredItem :=
  let read := item.view md floats decimals times
  let marks := refineMarksOf (item.held md floats) read write.hashes design
  let written := item.writeBody md floats write.newBody
  let marked :=
    if design.isReady || read.status = .ready then written.setStatus md floats design.isReady marks
    else written.setMarks md floats marks
  marked.comment (ownComment env now design.names)

def storeResult (item : StoredItem) (now : Int) (refined : Refined Text) : StoredItem :=
  let read := item.view md floats decimals times
  let held := item.held md floats
  match refined with
  | .edited => item
  | .failed => item.setMarks md floats (recordFailureMarks hash held read)
  | .recordOnly hashes nextStep failure tries =>
    item.setMarks md floats (recordUnwrittenMarks held hashes nextStep failure tries)
  | .written write design => applyRefined md floats decimals times env item now write design

def storeWaiting (item : StoredItem) (now : Int) (waiting : WaitingItem) : StoredItem :=
  let capped := match waiting.capStop with
    | none => item
    | some at_ => item.setMarks md floats (capMarks times at_)
  let read := match waiting.marks with
    | none => capped
    | some marks => capped.setMarks md floats (readMarksOf times marks)
  if waiting.notice then read.comment ⟨[.outside], env.ownTrusted, now, .none_⟩ else read

namespace StoredState

def view (s : StoredState) : State Text where
  item := s.item.view md floats decimals times
  clock := s.clock
  calls := s.calls

def step (s : StoredState) (round : Round) : Option StoredState :=
  if s.clock ≤ round.now then
    let read := s.item.view md floats decimals times
    match look hash env read round.now round.unrefinedReady with
    | .out | .raises => some { s with clock := round.now }
    | .waits waiting =>
      some { s with item := storeWaiting md floats times env s.item round.now waiting, clock := round.now }
    | .taken =>
      let refined := refineOneItem hash env engine read round.reply
      some {
        item := storeResult md floats decimals times hash env s.item round.now refined
        clock := round.now
        calls := if refined.called then s.calls + 1 else s.calls }
  else none

end StoredState

/-- The body leaves no fence and no HTML block open at its end. -/
def Closes (body : Text) : Prop := md.openAtEnd (splitLines body) = none

def HoldsNoRecord (body : Text) : Prop :=
  (splitRecord md floats body).1 = body ∧ (splitRecord md floats body).2.members.isEmpty = true

/-- The body that a round leaves keeps the record behind it; and where the issue holds no record, the
    body that is written holds none of its own. -/
def ResultKept (body : Text) (bare : Bool) : Refined Text → Prop
  | .edited => True
  | .failed | .recordOnly .. => Closes md body
  | .written write _ => Closes md write.newBody ∧ (bare = true → HoldsNoRecord md floats write.newBody)

def LookKept (body : Text) (bare : Bool) (refined : Refined Text) : Look → Prop
  | .out | .raises => True
  | .waits waiting => waiting.capStop.isSome ∨ waiting.marks.isSome → Closes md body
  | .taken => ResultKept md floats body bare refined

structure ReadKept (read : Item Text) (bare : Bool) (round : Round) : Prop where
  kept : LookKept md floats read.body bare (refineOneItem hash env engine read round.reply)
    (look hash env read round.now round.unrefinedReady)

def RecordKept (s : StoredState) (round : Round) : Prop :=
  ReadKept md floats hash env engine (s.item.view md floats decimals times)
    (s.item.held md floats).members.isEmpty round

instance (body : Text) : Decidable (Closes md body) :=
  inferInstanceAs (Decidable (md.openAtEnd (splitLines body) = none))

instance (body : Text) : Decidable (HoldsNoRecord md floats body) :=
  inferInstanceAs (Decidable ((splitRecord md floats body).1 = body ∧
    (splitRecord md floats body).2.members.isEmpty = true))

instance (body : Text) (bare : Bool) : DecidablePred (ResultKept md floats body bare)
  | .edited => inferInstanceAs (Decidable True)
  | .failed => inferInstanceAs (Decidable (Closes md body))
  | .recordOnly .. => inferInstanceAs (Decidable (Closes md body))
  | .written write _ => inferInstanceAs (Decidable (Closes md write.newBody ∧
      (bare = true → HoldsNoRecord md floats write.newBody)))

instance (body : Text) (bare : Bool) (refined : Refined Text) :
    DecidablePred (LookKept md floats body bare refined)
  | .out | .raises => inferInstanceAs (Decidable True)
  | .waits waiting => inferInstanceAs (Decidable (waiting.capStop.isSome ∨ waiting.marks.isSome →
      Closes md body))
  | .taken => inferInstanceAs (Decidable (ResultKept md floats body bare refined))

instance (read : Item Text) (bare : Bool) (round : Round) :
    Decidable (ReadKept md floats hash env engine read bare round) :=
  decidable_of_iff (LookKept ..) ⟨ReadKept.mk, ReadKept.kept⟩

end Store

section View
variable {F : Type} {md : CommonMark} {floats : Floats F} {decimals : PyStr.Decimals} {times : Times}
  {item : StoredItem}

theorem read_record : (item.view md floats decimals times).record =
    readRecord decimals times (textOf (item.held md floats)) := rfl

theorem setMarks_split (closes : Closes md (item.body md floats)) (marks : Marks) :
    splitRecord md floats (item.setMarks md floats marks).issue.body =
      (item.body md floats, (item.held md floats).merged (changesOf marks)) :=
  record_read_back md floats _ _ _ closes

theorem setStatus_split (closes : Closes md (item.body md floats)) (isReady : Bool) (marks : Marks) :
    splitRecord md floats (item.setStatus md floats isReady marks).issue.body =
      (item.body md floats, (item.held md floats).merged
        ((ItemField.status.name, some (Status.text isReady)) :: changesOf marks)) :=
  record_read_back md floats _ _ _ closes

theorem fieldValue_record (labels : List Text) {record other : JobRecord} {field : ItemField}
    (same : record field = other field) : fieldValue labels record field = fieldValue labels other field := by
  unfold fieldValue
  rw [same]

theorem status_congr {other : StoredItem} (labels : other.issue.labels = item.issue.labels)
    (same : (other.held md floats).members.lookup ItemField.status.name =
      (item.held md floats).members.lookup ItemField.status.name) :
    other.issue.fieldNow md floats .status = item.issue.fieldNow md floats .status := by
  have record : decodeJobRecord (other.held md floats) .status =
      decodeJobRecord (item.held md floats) .status := by
    simp only [decodeJobRecord, same]
  rw [Issue.fieldNow, itemOf, Issue.fieldNow, itemOf, Issue.record, Issue.record, labels]
  exact fieldValue_record _ record

theorem view_setMarks (closes : Closes md (item.body md floats)) (marks : Marks) :
    (item.setMarks md floats marks).view md floats decimals times =
      { item.view md floats decimals times with
        record := readRecord decimals times (withMarks (textOf (item.held md floats)) marks) } := by
  have split := setMarks_split closes marks
  have body : (item.setMarks md floats marks).body md floats = item.body md floats  := by
    rw [StoredItem.body, split]
  have held : (item.setMarks md floats marks).held md floats =
      (item.held md floats).merged (changesOf marks) := by
    rw [StoredItem.held, split]
  have status : (item.setMarks md floats marks).issue.fieldNow md floats .status =
      item.issue.fieldNow md floats .status :=
    status_congr rfl (by rw [held, lookup_merged_other])
  simp only [StoredItem.view, body, held, status, textOf_merged]
  rfl

theorem textOf_field (held : Held F) (field : ItemField) (value : Option Text) :
    textOf (held.set field.name value) = textOf held := by
  funext key
  rw [textOf, lookup_set, if_neg (RecordKey.text_apart key field)]
  rfl

theorem status_text (isReady : Bool) :
    statusOf (some (Status.text isReady)) = if isReady then .ready else .new := by
  cases isReady <;> decide +kernel

theorem view_setStatus (closes : Closes md (item.body md floats)) (isReady : Bool) (marks : Marks) :
    (item.setStatus md floats isReady marks).view md floats decimals times =
      { item.view md floats decimals times with
        status := if isReady then .ready else .new
        record := readRecord decimals times (withMarks (textOf (item.held md floats)) marks) } := by
  have split := setStatus_split closes isReady marks
  have body : (item.setStatus md floats isReady marks).body md floats = item.body md floats := by
    rw [StoredItem.body, split]
  have held : textOf ((item.setStatus md floats isReady marks).held md floats) =
      withMarks (textOf (item.held md floats)) marks := by
    have merged := textOf_merged ((item.held md floats).set ItemField.status.name
      (some (Status.text isReady))) marks
    rw [textOf_field] at merged
    rw [StoredItem.held, split]
    exact merged
  have valid : requireValue .status (some (Status.text isReady)) = .ok () := by
    cases isReady <;> decide +kernel
  have status : (item.setStatus md floats isReady marks).issue.fieldNow md floats .status =
      some (Status.text isReady) := fieldNow_withField valid _ _
  simp only [StoredItem.view, body, held, status, status_text]
  rfl

theorem writeBody_split {body : Text} (closes : Closes md body)
    (fresh : (item.held md floats).members.isEmpty = true → HoldsNoRecord md floats body) :
    splitRecord md floats (item.writeBody md floats body).issue.body = (body, item.held md floats) := by
  cases none_ : (item.held md floats).members.isEmpty with
  | true =>
    have text : (item.writeBody md floats body).issue.body = body := by
      have empty : (splitRecord md floats item.issue.body).2.members.isEmpty = true := none_
      simp only [StoredItem.writeBody, Issue.rewritten, empty, if_true, withRecord]
    obtain ⟨whole, bare⟩ := fresh none_
    rw [text]
    refine Prod.ext whole (Held.ext ?_)
    rw [List.isEmpty_iff.mp bare, List.isEmpty_iff.mp none_]
  | false =>
    have text : (item.writeBody md floats body).issue.body =
        withRecord body (some (encodeJobRecord floats (item.held md floats) [])) := by
      have some_ : (splitRecord md floats item.issue.body).2.members.isEmpty = false := none_
      simp only [StoredItem.writeBody, Issue.rewritten, some_, Bool.false_eq_true, if_false]
      rfl
    rw [text, record_read_back md floats _ _ _ closes]
    rfl

theorem view_writeBody {body : Text} (closes : Closes md body)
    (fresh : (item.held md floats).members.isEmpty = true → HoldsNoRecord md floats body) :
    (item.writeBody md floats body).view md floats decimals times =
      { item.view md floats decimals times with body := body } := by
  have split := writeBody_split closes fresh
  have text : (item.writeBody md floats body).body md floats = body := by rw [StoredItem.body, split]
  have held : (item.writeBody md floats body).held md floats = item.held md floats := by
    rw [StoredItem.held, split]
  have status : (item.writeBody md floats body).issue.fieldNow md floats .status =
      item.issue.fieldNow md floats .status := status_congr rfl (by rw [held])
  simp only [StoredItem.view, text, held, status]
  rfl

theorem view_comment (own : Comment) : (item.comment own).view md floats decimals times =
    { item.view md floats decimals times with
      comments := (item.view md floats decimals times).comments ++ [own] } := rfl

variable {hash : Text → Text} {env : Env} {engine : Sanitize.Engine}

/-- What a written round stores is read as what it makes of the item that it read. -/
theorem view_applyRefined {write : BodyHash.Written Text} (closes : Closes md write.newBody)
    (fresh : (item.held md floats).members.isEmpty = true → HoldsNoRecord md floats write.newBody)
    (now : Int) (design : Design) :
    (applyRefined md floats decimals times env item now write design).view md floats decimals times =
      applyResult hash env (item.view md floats decimals times) now (.written write design) := by
  have split := writeBody_split closes fresh
  have body : (item.writeBody md floats write.newBody).body md floats = write.newBody := by
    rw [StoredItem.body, split]
  have held : (item.writeBody md floats write.newBody).held md floats = item.held md floats := by
    rw [StoredItem.held, split]
  have closes' : Closes md ((item.writeBody md floats write.newBody).body md floats) := body.symm ▸ closes
  have given : (item.view md floats decimals times).record = _ := read_record
  have record := refineMarks_read given write.hashes design
  unfold applyRefined applyResult
  simp only []
  rw [view_comment]
  split
  · next either =>
    rw [view_setStatus closes', view_writeBody closes fresh, held, record]
    cases ready : design.isReady <;> simp_all [newStatus]
  · next neither =>
    rw [view_setMarks closes', view_writeBody closes fresh, held, record]
    simp_all [newStatus]

theorem setMarks_body (closes : Closes md (item.body md floats)) (marks : Marks) :
    (item.setMarks md floats marks).body md floats = item.body md floats := by
  rw [StoredItem.body, setMarks_split closes]

theorem view_recorded (closes : Closes md (item.body md floats)) {marks : Marks}
    {record : RefineRecord Text}
    (read : readRecord decimals times (withMarks (textOf (item.held md floats)) marks) = record) :
    (item.setMarks md floats marks).view md floats decimals times =
      { item.view md floats decimals times with record := record } := by
  rw [view_setMarks closes, read]

theorem view_storeResult {refined : Refined Text} (kept : ResultKept md floats (item.body md floats)
    (item.held md floats).members.isEmpty refined) (now : Int) :
    (storeResult md floats decimals times hash env item now refined).view md floats decimals times =
      applyResult hash env (item.view md floats decimals times) now refined := by
  cases refined with
  | edited => rfl
  | failed => exact view_recorded kept (recordFailure_read rfl)
  | recordOnly hashes nextStep failure tries =>
    exact view_recorded kept (recordUnwritten_read rfl hashes nextStep failure tries)
  | written write design => exact view_applyRefined kept.1 kept.2 now design

theorem view_storeWaiting {waiting : WaitingItem}
    (closes : waiting.capStop.isSome ∨ waiting.marks.isSome → Closes md (item.body md floats)) (now : Int) :
    (storeWaiting md floats times env item now waiting).view md floats decimals times =
      applyWaiting env (item.view md floats decimals times) now waiting := by
  obtain ⟨step, capStop, notice, marks⟩ := waiting
  have reads {stored : StoredItem} (closes : Closes md (stored.body md floats)) (given : ReadMarks) :
      (stored.setMarks md floats (readMarksOf times given)).view md floats decimals times = _ :=
    view_recorded closes (readMarks_read read_record given)
  have capped (closes : Closes md (item.body md floats)) (at_ : Int) :
      (item.setMarks md floats (capMarks times at_)).view md floats decimals times = _ :=
    view_recorded closes (capMarks_read read_record at_)
  have told {stored : StoredItem} {read : Item Text}
      (same : stored.view md floats decimals times = read) (own : Comment) :
      (if notice = true then stored.comment own else stored).view md floats decimals times =
        { read with comments := if notice = true then read.comments ++ [own] else read.comments } := by
    split
    · rw [view_comment, same]
    · exact same
  cases capStop with
  | none =>
    cases marks with
    | none => exact told rfl _
    | some given => exact told (reads (closes (.inr rfl)) given) _
  | some at_ =>
    have body : Closes md (item.body md floats) := closes (.inl rfl)
    cases marks with
    | none => exact told (capped body at_) _
    | some given =>
      have after := reads ((setMarks_body body (capMarks times at_)).symm ▸ body) given
      rw [capped body at_] at after
      exact told after _

/-- A step on the item as it is stored is the step on the item that is read. -/
theorem step_view (s : StoredState) (round : Round)
    (kept : RecordKept md floats decimals times hash env engine s round) :
    (s.step md floats decimals times hash env engine round).map (StoredState.view md floats decimals times) =
      step hash env engine (s.view md floats decimals times) round := by
  have item : (s.view md floats decimals times).item = s.item.view md floats decimals times := rfl
  have clock : (s.view md floats decimals times).clock = s.clock := rfl
  have kept := ReadKept.kept kept
  unfold step StoredState.step
  rw [item, clock]
  by_cases order : s.clock ≤ round.now
  · rw [if_pos order, if_pos order]
    simp only []
    cases seen : look hash env (s.item.view md floats decimals times) round.now round.unrefinedReady with
    | out | raises => rfl
    | waits waiting =>
      rw [seen] at kept
      simp only [Option.map_some, StoredState.view, view_storeWaiting kept]
    | taken =>
      rw [seen] at kept
      simp only [Option.map_some, StoredState.view, view_storeResult kept]
  · rw [if_neg order, if_neg order]
    rfl

theorem resultKept_of_bare {body : Text} {bare : Bool} {refined : Refined Text}
    (kept : ResultKept md floats body true refined) : ResultKept md floats body bare refined := by
  cases refined with
  | edited => trivial
  | failed | recordOnly => exact kept
  | written => exact ⟨kept.1, fun _ => kept.2 rfl⟩

theorem recordKept_of_bare {s : StoredState} {round : Round}
    (kept : ReadKept md floats hash env engine (s.item.view md floats decimals times) true round) :
    RecordKept md floats decimals times hash env engine s round := by
  have kept := kept.kept
  refine ⟨?_⟩
  cases seen : look hash env (s.item.view md floats decimals times) round.now round.unrefinedReady with
  | out | raises => trivial
  | waits waiting =>
    rw [seen] at kept
    exact kept
  | taken =>
    rw [seen] at kept
    exact resultKept_of_bare kept

end View

section Inputs

def plainDigit (c : Char) : Option Nat := if c.isDigit then some (c.toNat - 48) else none

def plainDecimals : PyStr.Decimals where
  digit := plainDigit
  ascii _ _ := rfl

def blockedProposal : BodyHash.RefinementProposal :=
  { BodyHash.plainProposal with
    acceptanceCriteria := [⟨"Retry".toList, "It retries.".toList, "Loss".toList, "lost".toList, "sent".toList⟩]
    suspectedBlock := some "The client has no retry.".toList }

theorem client_cited : ∀ path ∈ ["client.py".toList], IsCited path := by
  intro path mem
  rw [List.mem_singleton.mp mem]
  exact ⟨by decide, by simp; decide⟩

def foundOf (proposal : BodyHash.RefinementProposal) : Validated :=
  ⟨proposal, [], ["client.py".toList], false, [], false, [], BodyHash.plainSha, [], .none_, client_cited⟩

def replyOf (proposal : BodyHash.RefinementProposal) : Reply := .valid (foundOf proposal)

def clientChangedAt (path : Text) : Option Int := if path = "client.py".toList then some 5 else none

def oneChange : Env where
  issue _ := none
  pathChangedAt := clientChangedAt
  ownTrusted := true

theorem oneChange_before {at_ : Int} (later : 5 < at_) : Before oneChange at_ := by
  constructor
  · intro path changed read
    have read : clientChangedAt path = some changed := read
    unfold clientChangedAt at read
    split at read
    · exact Option.some.inj read ▸ later
    · exact absurd read (by simp)
  · intro number found read
    have none_ : oneChange.issue number = none := rfl
    exact absurd (none_.symm.trans read) (by simp)

def secondTimes : Times where
  isoformat := BodyHash.number
  fromisoformat text :=
    if text.head? = some '-' then (readNumber plainDecimals text.tail).map Int.negOfNat
    else (readNumber plainDecimals text).map Int.ofNat
  back at_ := by
    cases at_ with
    | ofNat n =>
      have first : (PyStr.digits n).head? ≠ some '-' := fun same =>
        digits_clear (by decide) (List.mem_of_mem_head? same)
      rw [number_text, if_neg first, number_back]
      rfl
    | negSucc n =>
      rw [number_below, List.head?_cons, if_pos rfl, List.tail_cons, number_back]
      rfl

def newItem (text : Text) : StoredState where
  item := { number := 1, issue := { labels := ["status/new".toList], body := text } }
  clock := 10

def plainStored : StoredState → Round → Option StoredState :=
  StoredState.step fences Json.zeroFloats plainDecimals secondTimes id oneChange BodyHash.plainEngine

def plainView (s : StoredState) : State Text := s.view fences Json.zeroFloats plainDecimals secondTimes

def plainStep : State Text → Round → Option (State Text) := step id oneChange BodyHash.plainEngine

def PlainKept (read : State Text) (round : Round) : Prop :=
  ReadKept fences Json.zeroFloats id oneChange BodyHash.plainEngine read.item true round

instance (read : State Text) (round : Round) : Decidable (PlainKept read round) :=
  inferInstanceAs (Decidable (ReadKept ..))

theorem plain_kept {s : StoredState} {rounds : List Round}
    (kept : Meets plainStep PlainKept (plainView s) rounds) :
    Meets plainStored (RecordKept fences Json.zeroFloats plainDecimals secondTimes id oneChange
      BodyHash.plainEngine) s rounds :=
  meets_of_view plainView step_view (fun _ _ kept => recordKept_of_bare kept) kept

theorem plain_run {s : StoredState} {rounds : List Round}
    (kept : Meets plainStep PlainKept (plainView s) rounds) :
    (exec plainStored s rounds).map plainView = exec plainStep (plainView s) rounds :=
  exec_view plainView step_view (plain_kept kept)

theorem plain_calls {s : StoredState} {rounds : List Round} {calls : Nat}
    (kept : Meets plainStep PlainKept (plainView s) rounds)
    (read : (exec plainStep (plainView s) rounds).map (·.calls) = some calls) :
    ∃ t, exec plainStored s rounds = some t ∧ t.calls = calls := by
  rw [← plain_run kept, Option.map_map] at read
  exact Option.map_eq_some_iff.mp read

def unrefined : StoredState := newItem "Retry the call.".toList

def blockedRounds : List Round := [⟨11, true, replyOf blockedProposal⟩, ⟨12, true, .invalid⟩]

theorem blocked_rests :
    WriteRests id oneChange BodyHash.plainEngine (plainView unrefined).item (foundOf blockedProposal) := by
  refine ⟨⟨Or.inl ⟨by decide +kernel, Or.inl ⟨by decide +kernel, by decide +kernel⟩⟩, ?_⟩, fun _ => ⟨rfl, ?_⟩⟩
  · decide +kernel
  · have unread : (plainView unrefined).item.record.commentedAt = none := by decide +kernel
    intro at_ read
    rw [unread] at read
    exact absurd read (by simp)

/-- The record was made for a comment that is gone, so the first comment of the rounds gives it the
    count that it holds: the file that the wait cites changed after the time that it holds. -/
def staleItem : StoredState :=
  newItem (withRecord "Retry the call.".toList (some (encodeJobRecord Json.zeroFloats .empty
    (changesOf [(.commentsSeen, some ['1']), (.commentedAt, some ['0'])]))))

def failedThenBlocked : List Round :=
  [⟨11, true, .invalid⟩, ⟨12, true, replyOf BodyHash.plainProposal⟩,
    ⟨13, true, replyOf BodyHash.plainProposal⟩, ⟨14, true, replyOf blockedProposal⟩, ⟨15, true, .invalid⟩]

-- A fence that the body leaves open takes each record in, so each reply that is not valid is the first.
example : (exec plainStored (newItem ['~', '~', '~', '\n', 'x'])
    ((List.range 5).map fun n => ⟨11 + n, true, .invalid⟩)).map (·.calls) = some 5 := by
  decide +kernel

end Inputs
end DevopsCli.Roadmap.RefineRounds
