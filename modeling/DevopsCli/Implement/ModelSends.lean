import DevopsCli.Roadmap.Failure

/- The sends of a turn, roadmap/implement/implement_step.py. The agent run comes from outside: it is
   given by the number of sends before it, its prompt, its conversation and its limits. The record
   of the spend, the trace and the counts that a reason ends with are left out. -/
namespace DevopsCli.Implement.ModelSends
open Roadmap (FailureClass)

structure ModelResponse where
  texts : List String
  toolCalls : Nat
  inputTokens : Nat
  outputTokens : Nat
  /-- The state of a reply whose stream broke off. -/
  interrupted : Bool := false

inductive Message where
  | request (parts : List String)
  | response (reply : ModelResponse)

def Message.reply? : Message → Option ModelResponse
  | .request _ => none
  | .response reply => some reply

structure RunUsage where
  requests : Nat := 0
  toolCalls : Nat := 0
  inputTokens : Nat := 0
  outputTokens : Nat := 0

structure Conversation where
  messages : List Message
  usage : RunUsage

structure UsageLimits where
  requestLimit : Nat
  toolCallsLimit : Nat

def maxRequests : Nat := 500
def maxToolCalls : Nat := 1500
def modelResends : Nat := 1

def limits : UsageLimits := ⟨maxRequests, maxToolCalls⟩

structure ModelAPIError where
  error : String
  detail : String
  http : Option (Nat × Bool)
  contextWindow : Bool := false
  refusesKey : Bool := false

/-- The errors by which an agent stops itself: the output cap, a spent budget, any other. -/
inductive StopKind where
  | outputCapReached (response : ModelResponse)
  | limitReached
  | other

inductive AgentEnd where
  | output (text : String) (kept : Conversation)
  | stopped (error detail : String) (kind : StopKind)
  | failedCall (failed : ModelAPIError)
  | raised

structure AgentRun where
  messages : List Message
  end_ : AgentEnd

abbrev Agent := Nat → Option String → Option Conversation → UsageLimits → AgentRun

structure Run where
  reason : String
  lastMessage : String
  requests : Nat
  inputTokens : Nat
  outputTokens : Nat
  toolCalls : Nat
  conversation : Option Conversation
  resend : Option Conversation
  providerError : Bool
  failureClass : Option FailureClass
  firstRequestTokens : Nat

def Run.then (run later : Run) : Run where
  reason := later.reason
  lastMessage := if later.lastMessage = "" then run.lastMessage else later.lastMessage
  requests := run.requests + later.requests
  inputTokens := run.inputTokens + later.inputTokens
  outputTokens := run.outputTokens + later.outputTokens
  toolCalls := run.toolCalls + later.toolCalls
  conversation := later.conversation
  resend := later.resend
  providerError := run.providerError || later.providerError
  failureClass := later.failureClass
  firstRequestTokens :=
    if run.firstRequestTokens = 0 then later.firstRequestTokens else run.firstRequestTokens

def replies (messages : List Message) : List ModelResponse := messages.filterMap (·.reply?)

def history : Option Conversation → List Message
  | none => []
  | some conversation => conversation.messages

def usageOf : Option Conversation → RunUsage
  | none => {}
  | some conversation => conversation.usage

def newReplies (messages : List Message) (conversation : Option Conversation) :
    List ModelResponse :=
  (replies messages).drop (replies (history conversation)).length

def toolCalls (replies : List ModelResponse) : Nat := (replies.map (·.toolCalls)).sum

def lastText (messages : List Message) : String :=
  ((replies messages).flatMap (·.texts)).getLastD ""

def generationFailed (failed : ModelAPIError) : Bool :=
  failed.http == some (400, true) && !failed.contextWindow

/-- The messages without the interrupted reply that they end with. -/
def withoutInterrupted (messages : List Message) : List Message :=
  if (messages.getLast?.bind (·.reply?)).any (·.interrupted) then messages.dropLast else messages

def endsWithRequest (messages : List Message) : Bool :=
  messages.getLast?.any fun last => last.reply?.isNone

def RunUsage.spend (usage : RunUsage) (replies : List ModelResponse) : RunUsage where
  requests := usage.requests + (replies.length + 1)
  toolCalls := usage.toolCalls + ModelSends.toolCalls replies
  inputTokens := usage.inputTokens + (replies.map (·.inputTokens)).sum
  outputTokens := usage.outputTokens + (replies.map (·.outputTokens)).sum

def resendAfter (failed : ModelAPIError) (messages : List Message)
    (conversation : Option Conversation) : Option Conversation :=
  let kept := withoutInterrupted messages
  if generationFailed failed = true ∧ endsWithRequest kept = true then
    some ⟨kept, (usageOf conversation).spend (newReplies kept conversation)⟩
  else none

def parserSmallerEdit : String :=
  "The provider could not read your last tool call, for it ended before it was whole. " ++
  "The same call fails again. Send a smaller edit: write one file, or one small part of a " ++
  "file, in each tool call."

def askSmallerEdit (sent : Conversation) : Conversation :=
  match sent.messages.getLast? with
  | some (.request parts) =>
    { sent with messages := sent.messages.dropLast ++ [.request (parts ++ [parserSmallerEdit])] }
  | _ => sent

section Turns
variable (classify : String → FailureClass)

def StopKind.typed : StopKind → Option FailureClass
  | .outputCapReached _ => some .outputCap
  | .limitReached => some .limitReached
  | .other => none

def StopKind.cut : StopKind → List ModelResponse
  | .outputCapReached response => [response]
  | _ => []

def runClass (reason : String) (typed : Option FailureClass) : Option FailureClass :=
  if reason = "" then none else some (typed.getD (classify reason))

def stopReason (error detail : String) : String := error ++ ": " ++ detail

def spentBy (replies : List ModelResponse) : Run where
  reason := ""
  lastMessage := ""
  requests := replies.length
  inputTokens := (replies.map (·.inputTokens)).sum
  outputTokens := (replies.map (·.outputTokens)).sum
  toolCalls := toolCalls replies
  conversation := none
  resend := none
  providerError := false
  failureClass := none
  firstRequestTokens := (replies.head?.map (·.inputTokens)).getD 0

def runTurn (done : AgentRun) (conversation : Option Conversation) : Option Run :=
  let replies := newReplies done.messages conversation
  match done.end_ with
  | .output text kept => some { spentBy replies with lastMessage := text, conversation := some kept }
  | .stopped error detail kind =>
    some { spentBy (replies ++ kind.cut) with
      reason := stopReason error detail
      lastMessage := lastText done.messages
      failureClass := runClass classify (stopReason error detail) kind.typed }
  | .failedCall failed =>
    if failed.refusesKey = true then none
    else some { spentBy replies with
      reason := stopReason failed.error failed.detail
      lastMessage := lastText done.messages
      resend := resendAfter failed done.messages conversation
      providerError := true
      failureClass := runClass classify (stopReason failed.error failed.detail) none }
  | .raised => none

structure Send where
  sent : Option Conversation
  afterParser : Bool
  done : AgentRun

def Send.addsNone (send : Send) : Bool :=
  decide ((withoutInterrupted send.done.messages).length ≤ (history send.sent).length)

structure Turn where
  run : Run
  resends : Nat
  parserFailures : Nat
  sends : List Send

structure Ended where
  run : Option Run
  parserFailures : Nat
  sends : List Send

def Turn.over (turn : Turn) : Ended := ⟨some turn.run, turn.parserFailures, turn.sends⟩

def Run.parserFailed (run : Run) : Bool := decide (run.failureClass = some .parser)

/-- The conversation that the loop sends next, with the parser failures that are counted then. -/
def nextSend (turn : Turn) : Option (Conversation × Nat) :=
  match turn.run.resend with
  | none => none
  | some sent =>
    if turn.resends = 0 then none
    else if turn.run.parserFailed = true then
      if turn.parserFailures ≠ 0 then none
      else some (askSmallerEdit sent, turn.parserFailures + 1)
    else some (sent, turn.parserFailures)

def stalled (later : Run) (sent : Conversation) : Bool :=
  later.resend.any fun again => again.messages.length ≤ sent.messages.length

variable (agent : Agent)

def sendAt (calls : Nat) (prompt : Option String) (sent : Option Conversation)
    (afterParser : Bool) : Send :=
  ⟨sent, afterParser, agent calls prompt sent limits⟩

def resendLoop (before : Nat) : Nat → Turn → Option Ended
  | 0, _ => none
  | fuel + 1, turn =>
    match nextSend turn with
    | none => some turn.over
    | some (sent, parserFailures) =>
      let send := sendAt agent (before + turn.sends.length) none (some sent)
        turn.run.parserFailed
      match runTurn classify send.done (some sent) with
      | none => some ⟨none, parserFailures, turn.sends ++ [send]⟩
      | some later =>
        resendLoop before fuel
          { run := turn.run.then later
            resends := if stalled later sent = true then turn.resends - 1 else modelResends
            parserFailures := parserFailures
            sends := turn.sends ++ [send] }

def runAgent (fuel before parserFailures : Nat) (message : String)
    (conversation : Option Conversation) : Option Ended :=
  let send := sendAt agent before (some message) conversation false
  match runTurn classify send.done conversation with
  | none => some ⟨none, parserFailures, [send]⟩
  | some run => resendLoop classify agent before fuel ⟨run, modelResends, parserFailures, [send]⟩

/-- The turns of a tier one after another: they share the count of the parser failures, and the
    first that raises ends the tier. -/
def tierTurns (fuel : Nat) : Nat → Nat → List (String × Option Conversation) → Option (List Ended)
  | _, _, [] => some []
  | before, parserFailures, (message, conversation) :: rest =>
    match runAgent classify agent fuel before parserFailures message conversation with
    | none => none
    | some ended =>
      if ended.run.isNone then some [ended]
      else (tierTurns fuel (before + ended.sends.length) ended.parserFailures rest).map (ended :: ·)

end Turns

def parserResends (sends : List Send) : Nat := sends.countP (·.afterParser)

/-- What an agent run is relied on for: it refuses to start a request once the usage of its
    conversation has reached the request limit; a failed call leaves the messages of the
    conversation, then the request of the prompt, then the replies and their requests in turn. -/
structure Agent.Lawful (agent : Agent) : Prop where
  refuses : ∀ calls prompt conversation limits,
    limits.requestLimit ≤ (usageOf conversation).requests →
      ∃ error detail kind, (agent calls prompt conversation limits).end_ = .stopped error detail kind
  prompted : ∀ calls message conversation limits failed,
    (agent calls (some message) conversation limits).end_ = .failedCall failed →
      ∃ parts later, (agent calls (some message) conversation limits).messages =
        history conversation ++ .request parts :: later
  resumed : ∀ calls conversation limits failed,
    (agent calls none conversation limits).end_ = .failedCall failed →
      ∃ later, (agent calls none conversation limits).messages = history conversation ++ later ∧
        ∀ first ∈ later.head?, first.reply?.isSome

theorem replies_append (first later : List Message) :
    replies (first ++ later) = replies first ++ replies later := List.filterMap_append

theorem without_begins (messages : List Message) : withoutInterrupted messages <+: messages := by
  unfold withoutInterrupted
  split
  · exact List.dropLast_prefix messages
  · exact List.prefix_rfl

theorem without_append (first : List Message) {later : List Message} (more : later ≠ []) :
    withoutInterrupted (first ++ later) = first ++ withoutInterrupted later := by
  unfold withoutInterrupted
  rw [List.getLast?_append_of_ne_nil _ more]
  split
  · exact List.dropLast_append_of_ne_nil more
  · rfl

theorem without_request (parts : List String) (later : List Message) :
    withoutInterrupted (.request parts :: later) ≠ [] := by
  cases later with
  | nil => simp [withoutInterrupted, Message.reply?]
  | cons next later =>
    unfold withoutInterrupted
    split <;> simp

theorem resendAfter_some {failed : ModelAPIError} {messages : List Message}
    {conversation : Option Conversation} {again : Conversation}
    (resent : resendAfter failed messages conversation = some again) :
    again.messages = withoutInterrupted messages ∧
      again.usage.requests = (usageOf conversation).requests +
        ((newReplies again.messages conversation).length + 1) := by
  simp only [resendAfter] at resent
  split at resent
  · cases resent
    exact ⟨rfl, rfl⟩
  · cases resent

section Law
variable {classify : String → FailureClass} {agent : Agent}

theorem runTurn_resend {done : AgentRun} {conversation : Option Conversation} {run : Run}
    {again : Conversation} (sent : runTurn classify done conversation = some run)
    (resent : run.resend = some again) :
    ∃ failed, done.end_ = .failedCall failed ∧
      resendAfter failed done.messages conversation = some again := by
  simp only [runTurn] at sent
  split at sent
  · cases sent
    cases resent
  · cases sent
    cases resent
  · next failed ended =>
    split at sent
    · cases sent
    · cases sent
      exact ⟨failed, ended, resent⟩
  · cases sent

theorem resent_below (lawful : agent.Lawful) {calls : Nat} {prompt : Option String}
    {conversation : Option Conversation} {failed : ModelAPIError}
    (ended : (agent calls prompt conversation limits).end_ = .failedCall failed) :
    (usageOf conversation).requests < maxRequests := by
  by_contra reached
  obtain ⟨error, detail, kind, stopped⟩ :=
    lawful.refuses calls prompt conversation limits (Nat.not_lt.mp reached)
  rw [stopped] at ended
  cases ended

theorem prompted_grows (lawful : agent.Lawful) {calls : Nat} {message : String}
    {conversation : Option Conversation} {failed : ModelAPIError}
    (ended : (agent calls (some message) conversation limits).end_ = .failedCall failed) :
    (history conversation).length <
      (withoutInterrupted (agent calls (some message) conversation limits).messages).length := by
  obtain ⟨parts, later, captured⟩ := lawful.prompted calls message conversation limits failed ended
  rw [captured, without_append _ (List.cons_ne_nil _ _), List.length_append]
  have := List.length_pos_of_ne_nil (without_request parts later)
  omega

theorem resumed_replies (lawful : agent.Lawful) {calls : Nat} {conversation : Option Conversation}
    {failed : ModelAPIError}
    (ended : (agent calls none conversation limits).end_ = .failedCall failed)
    (grown : (history conversation).length <
      (withoutInterrupted (agent calls none conversation limits).messages).length) :
    0 < (newReplies (withoutInterrupted (agent calls none conversation limits).messages)
      conversation).length := by
  obtain ⟨later, captured, first⟩ := lawful.resumed calls conversation limits failed ended
  rw [captured] at grown ⊢
  cases later with
  | nil =>
    have := (without_begins (history conversation ++ [])).length_le
    simp only [List.append_nil] at grown this
    omega
  | cons reply later =>
    rw [without_append _ (List.cons_ne_nil _ _)] at grown ⊢
    obtain ⟨dropped, cut⟩ := without_begins (reply :: later)
    cases kept : withoutInterrupted (reply :: later) with
    | nil => simp [kept] at grown
    | cons head tail =>
      rw [kept, List.cons_append, List.cons.injEq] at cut
      obtain ⟨response, isReply⟩ := Option.isSome_iff_exists.mp (first reply rfl)
      rw [newReplies, replies_append, List.drop_left, cut.1, replies,
        List.filterMap_cons_some isReply]
      exact Nat.succ_pos _

end Law

theorem asked_usage (sent : Conversation) : (askSmallerEdit sent).usage = sent.usage := by
  unfold askSmallerEdit
  split <;> rfl

theorem asked_length (sent : Conversation) :
    (askSmallerEdit sent).messages.length = sent.messages.length := by
  unfold askSmallerEdit
  split
  · next last =>
    have := List.length_pos_of_ne_nil (List.ne_nil_of_mem (List.mem_of_getLast? last))
    simp only [List.length_append, List.length_dropLast, List.length_singleton]
    omega
  · rfl

/-- What the loop sends next: the conversation of the run with its usage, and for a failure of
    class parser only while none was counted. -/
structure Next (turn : Turn) (sent : Conversation) (parserFailures : Nat) : Prop where
  resend : ∃ again, turn.run.resend = some again ∧ sent.usage = again.usage ∧
    sent.messages.length = again.messages.length
  left : 0 < turn.resends
  parser : turn.run.parserFailed = true → turn.parserFailures = 0 ∧ parserFailures = 1
  other : turn.run.parserFailed = false → parserFailures = turn.parserFailures

theorem nextSend_spec {turn : Turn} {sent : Conversation} {parserFailures : Nat}
    (next : nextSend turn = some (sent, parserFailures)) : Next turn sent parserFailures := by
  unfold nextSend at next
  split at next
  · cases next
  · next again resend =>
    split_ifs at next with spent failed counted
    · cases next
      exact ⟨⟨again, resend, asked_usage again, asked_length again⟩, Nat.pos_of_ne_zero spent,
        fun _ => ⟨by omega, by omega⟩, fun other => by simp [failed] at other⟩
    · cases next
      exact ⟨⟨sent, resend, rfl, rfl⟩, Nat.pos_of_ne_zero spent,
        fun parser => absurd parser failed, fun _ => rfl⟩

structure Counted (failures : Nat) (sends : List Send) (parserFailures : Nat) : Prop where
  counted : parserFailures = failures + parserResends sends
  once : parserResends sends = 0 ∨ failures = 0 ∧ parserResends sends = 1

/-- No more sends in a row than the resends of the loop add no message. -/
def ShortRows (sends : List Send) : Prop :=
  ∀ row, row <:+: sends → (∀ send ∈ row, send.addsNone = true) → row.length ≤ modelResends

def EndsRow (sends : List Send) (more : Nat) : Prop :=
  ∀ row, row <:+ sends → (∀ send ∈ row, send.addsNone = true) → row.length + more ≤ modelResends

theorem counted_snoc {failures : Nat} {turn : Turn} {sent : Conversation} {parserFailures : Nat}
    (counted : Counted failures turn.sends turn.parserFailures)
    (next : Next turn sent parserFailures) {send : Send}
    (made : send.afterParser = turn.run.parserFailed) :
    Counted failures (turn.sends ++ [send]) parserFailures := by
  have total := counted.counted
  have once := counted.once
  have adds : parserResends (turn.sends ++ [send]) =
      parserResends turn.sends + if turn.run.parserFailed = true then 1 else 0 := by
    simp [parserResends, List.countP_append, List.countP_singleton, made]
  cases failed : turn.run.parserFailed with
  | true =>
    obtain ⟨none, one⟩ := next.parser failed
    rw [failed, if_pos rfl] at adds
    exact ⟨by omega, by omega⟩
  | false =>
    have same := next.other failed
    rw [failed, if_neg (by decide)] at adds
    exact ⟨by omega, by omega⟩

theorem endsRow_snoc {sends : List Send} {more : Nat} {send : Send} (row : EndsRow sends (more + 1)) :
    EndsRow (sends ++ [send]) more := by
  intro last suffix none
  rcases List.suffix_concat_iff.mp suffix with rfl | ⟨front, rfl, front_suffix⟩
  · have := row [] List.nil_suffix (by simp)
    simp only [List.length_nil] at this ⊢
    omega
  · have := row front front_suffix fun other mem => none other (by simp [mem])
    simp only [List.length_append, List.length_singleton]
    omega

theorem endsRow_restart (sends : List Send) {send : Send} (adds : send.addsNone = false) :
    EndsRow (sends ++ [send]) modelResends := by
  intro last suffix none
  rcases List.suffix_concat_iff.mp suffix with rfl | ⟨front, rfl, front_suffix⟩
  · simp
  · have := none send (by simp)
    rw [adds] at this
    cases this

theorem shortRows_snoc {sends : List Send} {send : Send} (rows : ShortRows sends)
    (row : EndsRow (sends ++ [send]) 0) : ShortRows (sends ++ [send]) := by
  intro inner isInner none
  rcases List.infix_concat_iff.mp isInner with suffix | inside
  · exact row inner suffix none
  · exact rows inner inside none

/-- The loop before a send: the usage of the conversation to send again pays for two requests a
    send, less what is left of the resends. -/
structure Going (turn : Turn) : Prop where
  paid : ∀ again, turn.run.resend = some again →
    2 * turn.sends.length + turn.resends ≤ again.usage.requests + modelResends + 1
  few : turn.run.resend.isSome = true → 2 * turn.sends.length ≤ maxRequests + 2
  row : turn.run.resend.isSome = true → EndsRow turn.sends turn.resends
  bounded : turn.resends ≤ modelResends

section Loop
variable {classify : String → FailureClass} {agent : Agent}

theorem first_going (lawful : agent.Lawful) {calls : Nat} {message : String}
    {conversation : Option Conversation} {run : Run} (parserFailures : Nat)
    (sent : runTurn classify (agent calls (some message) conversation limits) conversation =
      some run) :
    Going ⟨run, modelResends, parserFailures, [sendAt agent calls (some message) conversation false]⟩ where
  paid again resent := by
    obtain ⟨failed, ended, resendOf⟩ := runTurn_resend sent resent
    have usage := (resendAfter_some resendOf).2
    simp only [List.length_singleton]
    omega
  few _ := by simp [maxRequests]
  row some := by
    obtain ⟨again, resent⟩ := Option.isSome_iff_exists.mp some
    obtain ⟨failed, ended, resendOf⟩ := runTurn_resend sent resent
    have grown := prompted_grows lawful ended
    exact endsRow_restart [] (decide_eq_false (Nat.not_le_of_gt grown))
  bounded := le_refl _

theorem going_step (lawful : agent.Lawful) {turn : Turn} {sent : Conversation}
    {parserFailures calls : Nat} {later : Run} (going : Going turn)
    (next : Next turn sent parserFailures) (afterParser : Bool)
    (made : runTurn classify (agent calls none (some sent) limits) (some sent) = some later) :
    Going
      { run := turn.run.then later
        resends := if stalled later sent = true then turn.resends - 1 else modelResends
        parserFailures := parserFailures
        sends := turn.sends ++ [sendAt agent calls none (some sent) afterParser] } where
  paid again resent := by
    obtain ⟨before, resendBefore, usageBefore, lengthBefore⟩ := next.resend
    obtain ⟨failed, ended, resendOf⟩ := runTurn_resend made resent
    obtain ⟨messages, usage⟩ := resendAfter_some resendOf
    have paid := going.paid before resendBefore
    have left := next.left
    have bounded := going.bounded
    have replied := resumed_replies lawful ended
    rw [← messages] at replied
    have again_resent : later.resend = some again := resent
    simp only [usageOf, usageBefore, history] at usage replied
    simp only [List.length_append, List.length_singleton, stalled, again_resent, Option.any_some,
      decide_eq_true_eq]
    simp only [modelResends] at bounded paid ⊢
    split
    · omega
    · next grown =>
      have := replied (Nat.lt_of_not_le grown)
      omega
  few some := by
    obtain ⟨before, resendBefore, usageBefore, lengthBefore⟩ := next.resend
    obtain ⟨again, resent⟩ := Option.isSome_iff_exists.mp some
    obtain ⟨failed, ended, resendOf⟩ := runTurn_resend made resent
    have below := resent_below lawful ended
    have paid := going.paid before resendBefore
    have left := next.left
    simp only [usageOf, usageBefore] at below
    simp only [List.length_append, List.length_singleton]
    simp only [modelResends] at paid
    omega
  row some := by
    obtain ⟨before, resendBefore, -, -⟩ := next.resend
    obtain ⟨again, resent⟩ := Option.isSome_iff_exists.mp some
    obtain ⟨failed, ended, resendOf⟩ := runTurn_resend made resent
    obtain ⟨messages, -⟩ := resendAfter_some resendOf
    have again_resent : later.resend = Option.some again := resent
    have row := going.row (by rw [resendBefore]; rfl)
    have left := next.left
    simp only [stalled, again_resent, Option.any_some, decide_eq_true_eq]
    split
    · refine endsRow_snoc ?_
      rwa [Nat.sub_add_cancel left]
    · next grown =>
      refine endsRow_restart turn.sends ?_
      rw [messages] at grown
      exact decide_eq_false grown
  bounded := by
    have bounded := going.bounded
    show (if stalled later sent = true then turn.resends - 1 else modelResends) ≤ modelResends
    split
    · omega
    · exact le_refl _

structure Ends (failures : Nat) (ended : Ended) : Prop where
  sends : ended.sends.length ≤ maxRequests
  counted : Counted failures ended.sends ended.parserFailures
  rows : ShortRows ended.sends

theorem snoc_rows {turn : Turn} {sent : Conversation} {parserFailures : Nat} (send : Send)
    (going : Going turn) (next : Next turn sent parserFailures) (rows : ShortRows turn.sends) :
    ShortRows (turn.sends ++ [send]) := by
  obtain ⟨before, resendBefore, -, -⟩ := next.resend
  have row := going.row (by rw [resendBefore]; rfl)
  refine shortRows_snoc rows (endsRow_snoc ?_)
  intro last suffix none
  have := row last suffix none
  have := next.left
  omega

theorem snoc_few {turn : Turn} {sent : Conversation} {parserFailures : Nat} (send : Send)
    (going : Going turn) (next : Next turn sent parserFailures) :
    (turn.sends ++ [send]).length ≤ maxRequests / 2 + 2 := by
  obtain ⟨before, resendBefore, -, -⟩ := next.resend
  have few := going.few (by rw [resendBefore]; rfl)
  simp only [List.length_append, List.length_singleton]
  omega

/-- Induction on the fuel, which outlasts the sends that the usage still pays for. -/
theorem loop_ends (lawful : agent.Lawful) (before failures : Nat) :
    ∀ fuel turn, 0 < fuel →
      (turn.run.resend.isSome = true → maxRequests / 2 + 2 < fuel + turn.sends.length) →
      Going turn → Counted failures turn.sends turn.parserFailures → ShortRows turn.sends →
      turn.sends.length ≤ maxRequests →
      ∃ ended, resendLoop classify agent before fuel turn = some ended ∧ Ends failures ended := by
  intro fuel
  induction fuel with
  | zero => intro turn positive; cases positive
  | succ fuel ih =>
    intro turn _ enough going counted rows sends
    rw [resendLoop]
    split
    · exact ⟨turn.over, rfl, sends, counted, rows⟩
    · next sent parserFailures picked =>
      have next := nextSend_spec picked
      obtain ⟨again, resendBefore, -, -⟩ := next.resend
      have enough := enough (by rw [resendBefore]; rfl)
      have few := going.few (by rw [resendBefore]; rfl)
      simp only
      generalize made : sendAt agent (before + turn.sends.length) none (some sent)
        turn.run.parserFailed = send
      have counted : Counted failures (turn.sends ++ [send]) parserFailures :=
        counted_snoc counted next (by rw [← made]; rfl)
      have rows := snoc_rows send going next rows
      have short := snoc_few send going next
      have sends : (turn.sends ++ [send]).length ≤ maxRequests :=
        short.trans (by decide)
      subst made
      split
      · exact ⟨_, rfl, sends, counted, rows⟩
      · next later turned =>
        refine ih _ ?_ ?_ (going_step lawful going next _ turned) counted rows sends
        · omega
        · intro _
          simp only [List.length_append, List.length_singleton]
          omega

theorem runAgent_ends (lawful : agent.Lawful) {fuel : Nat} (enough : maxRequests ≤ fuel)
    (before failures : Nat) (message : String) (conversation : Option Conversation) :
    ∃ ended, runAgent classify agent fuel before failures message conversation = some ended ∧
      Ends failures ended := by
  have counted : Counted failures [sendAt agent before (some message) conversation false]
      failures := ⟨rfl, Or.inl rfl⟩
  have rows : ShortRows [sendAt agent before (some message) conversation false] := by
    intro row inner _
    exact inner.length_le
  have one : [sendAt agent before (some message) conversation false].length ≤ maxRequests := by
    simp [maxRequests]
  simp only [maxRequests] at enough
  rw [runAgent]
  split
  · exact ⟨_, rfl, one, counted, rows⟩
  · next run turned =>
    refine loop_ends lawful before failures fuel _ (by omega) ?_ (first_going lawful failures turned)
      counted rows one
    intro _
    simp only [maxRequests, List.length_singleton]
    omega

theorem tier_counted (lawful : agent.Lawful) {fuel : Nat} (enough : maxRequests ≤ fuel)
    (turns : List (String × Option Conversation)) (before failures : Nat) :
    ∃ tier, tierTurns classify agent fuel before failures turns = some tier ∧
      ((tier.map fun ended => parserResends ended.sends).sum = 0 ∨
        failures = 0 ∧ (tier.map fun ended => parserResends ended.sends).sum = 1) := by
  induction turns generalizing before failures with
  | nil => exact ⟨[], rfl, Or.inl rfl⟩
  | cons turn rest ih =>
    obtain ⟨message, conversation⟩ := turn
    obtain ⟨ended, ran, ends⟩ :=
      runAgent_ends lawful enough before failures message conversation
    have once := ends.counted.once
    have counted := ends.counted.counted
    rw [tierTurns, ran]
    simp only
    split
    · exact ⟨[ended], rfl, by simpa using once⟩
    · obtain ⟨tier, later, sum⟩ := ih (before + ended.sends.length) ended.parserFailures
      refine ⟨ended :: tier, by rw [later]; rfl, ?_⟩
      rw [List.map_cons, List.sum_cons]
      omega

/-- A turn comes to its end, with at most the request limit of sends and short rows of sends that
    add no message; the turns of a tier together send one failure of class parser again. -/
theorem sends_end (classify : String → FailureClass) (agent : Agent) (lawful : agent.Lawful)
    (before failures fuel : Nat) (enough : maxRequests ≤ fuel) :
    (∀ message conversation, ∃ ended,
      runAgent classify agent fuel before failures message conversation = some ended ∧
      ended.sends.length ≤ maxRequests ∧ ShortRows ended.sends) ∧
    ∀ turns, ∃ tier, tierTurns classify agent fuel before failures turns = some tier ∧
      (tier.map fun ended => parserResends ended.sends).sum ≤ 1 := by
  constructor
  · intro message conversation
    obtain ⟨ended, ran, ends⟩ :=
      runAgent_ends lawful enough before failures message conversation
    exact ⟨ended, ran, ends.sends, ends.rows⟩
  · intro turns
    obtain ⟨tier, ran, once⟩ :=
      tier_counted lawful enough turns before failures
    exact ⟨tier, ran, by omega⟩

end Loop

def oneReplyAgent : Agent := fun _ prompt conversation limits =>
  if limits.requestLimit ≤ (usageOf conversation).requests then
    ⟨history conversation, .stopped "UsageLimitExceeded" "The next request exceeds the limit." .other⟩
  else
    ⟨history conversation ++ (prompt.toList.map fun text => .request [text]) ++
        [.response ⟨[], 1, 10, 5, false⟩, .request ["The file was read."]],
      .failedCall { error := "ModelHTTPError", detail := "HTTP 400", http := some (400, true) }⟩

theorem oneReplyAgent_failed {calls : Nat} {prompt : Option String}
    {conversation : Option Conversation} {limits : UsageLimits} {failed : ModelAPIError}
    (ended : (oneReplyAgent calls prompt conversation limits).end_ = .failedCall failed) :
    (oneReplyAgent calls prompt conversation limits).messages =
      history conversation ++ (prompt.toList.map fun text => .request [text]) ++
        [.response ⟨[], 1, 10, 5, false⟩, .request ["The file was read."]] := by
  unfold oneReplyAgent at ended ⊢
  split at ended
  · cases ended
  · next below => rw [if_neg below]

theorem oneReplyAgent_lawful : oneReplyAgent.Lawful where
  refuses calls prompt conversation limits reached :=
    ⟨_, _, _, by rw [oneReplyAgent, if_pos reached]⟩
  prompted calls message conversation limits failed ended :=
    ⟨[message], _, by rw [oneReplyAgent_failed ended, List.append_assoc]; rfl⟩
  resumed calls conversation limits failed ended :=
    ⟨_, by rw [oneReplyAgent_failed ended, List.append_assoc], by simp [Message.reply?]⟩

theorem sends_end_one_reply :
    (∀ message conversation, ∃ ended,
      runAgent (fun _ => .provider) oneReplyAgent 500 0 0 message conversation = some ended ∧
      ended.sends.length ≤ 500 ∧ ShortRows ended.sends) ∧
    ∀ turns, ∃ tier, tierTurns (fun _ => .provider) oneReplyAgent 500 0 0 turns = some tier ∧
      (tier.map fun ended => parserResends ended.sends).sum ≤ 1 :=
  sends_end (fun _ => .provider) oneReplyAgent oneReplyAgent_lawful 0 0 500 (le_refl _)

end DevopsCli.Implement.ModelSends
