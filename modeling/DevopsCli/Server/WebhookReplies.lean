import DevopsCli.Server.Webhooks

/- One reply and one count for each request, whatever its headers and its body hold. -/
namespace DevopsCli.Server.Webhooks
open PyStr

def Turn.Quiet (turn : Turn) : Prop :=
  (∃ refusal, turn.refusal = .ok refusal) ∧ turn.deliver = .ok ()

def Refuses (status : Nat) : Prop := 400 ≤ status ∧ status < 500 ∨ status = 503

section Consumers
variable {outside : Outside} {delivery : Delivery} {provider : WebhookProvider}
  {payload : WebhookPayload} {consumers : List (WebhookConsumer × Turn)}

theorem refusals_quiet (quiet : ∀ one ∈ consumers, one.2.Quiet) :
    ∃ verdicts, consumers.mapM (fun one => one.2.refusal) = .ok verdicts := by
  induction consumers with
  | nil => exact ⟨[], rfl⟩
  | cons one rest ih =>
    obtain ⟨⟨refusal, judged⟩, -⟩ := quiet one List.mem_cons_self
    obtain ⟨verdicts, all⟩ := ih fun other mem => quiet other (List.mem_cons_of_mem _ mem)
    refine ⟨refusal :: verdicts, ?_⟩
    rw [List.mapM_cons, judged, all]
    rfl

theorem deliverAll_quiet (quiet : ∀ one ∈ consumers, one.2.Quiet) :
    (deliverAll delivery payload consumers).2 = .ok () := by
  induction consumers with
  | nil => rfl
  | cons one rest ih =>
    obtain ⟨-, delivered⟩ := quiet one List.mem_cons_self
    have later := ih fun other mem => quiet other (List.mem_cons_of_mem _ mem)
    rw [deliverAll, delivered]
    exact later

theorem handToConsumers_quiet (quiet : ∀ one ∈ consumers, one.2.Quiet) (s : Service) :
    (∃ reply, (handToConsumers delivery payload consumers s).1 = .ok reply) ∧
      (handToConsumers delivery payload consumers s).2.concluded = s.concluded := by
  obtain ⟨verdicts, judged⟩ := refusals_quiet quiet
  have taken : ∀ one ∈ ((consumers.zip verdicts).filter (·.2.isNone)).map Prod.fst, one.2.Quiet := by
    intro one mem
    obtain ⟨pair, kept, rfl⟩ := List.mem_map.mp mem
    exact quiet _ (List.of_mem_zip (List.mem_of_mem_filter kept)).1
  rw [handToConsumers]
  simp only [judged, deliverAll_quiet taken]
  split
  · exact ⟨⟨_, rfl⟩, rfl⟩
  · exact ⟨⟨_, rfl⟩, rfl⟩

theorem route_quiet (quiet : ∀ one ∈ consumers, one.2.Quiet) (s : Service) :
    (∃ reply, (route delivery provider payload consumers s).1 = .ok reply) ∧
      (route delivery provider payload consumers s).2.concluded = s.concluded := by
  have subscribed : ∀ one ∈ subscribedTo consumers delivery.event, one.2.Quiet :=
    fun one mem => quiet one (List.mem_of_mem_filter mem)
  simp only [route]
  split_ifs
  · exact ⟨⟨_, rfl⟩, rfl⟩
  · exact ⟨⟨_, rfl⟩, rfl⟩
  · exact ⟨⟨_, rfl⟩, rfl⟩
  · exact handToConsumers_quiet subscribed _

end Consumers

section Requests
variable (outside : Outside) (provider : WebhookProvider) (manager : ServiceManager) (request : Request)

/-- A signature under the secret of the managed repository that the body names, or the token
    that is configured. -/
def Authentic : Prop :=
  match provider.verifier with
  | .hmac digest => ∃ payload, outside.validate request.chunks.flatten = .ok payload ∧
      payload.fullName ∈ manager.managedRepos ∧
      payload.fullName ∈ digest.signers outside request.chunks.flatten
        (request.headers digest.header) manager.secrets
  | .token scheme => ∃ token, tokensToCompare outside request manager scheme = .ok (token, token)

def NonAsciiToken : Prop :=
  ∃ scheme, provider.verifier = .token scheme ∧ ∃ token expected,
    tokensToCompare outside request manager scheme = .ok (token, expected) ∧
      (isAscii token && isAscii expected) = false

/-- The check of the token is reached, with a text that is not ASCII. -/
def ComparesNonAscii : Prop :=
  manager.draining = false ∧ refuseContentType request provider = none ∧
    NonAsciiToken outside provider manager request

def Tokened : Prop :=
  ∀ scheme, provider.verifier = .token scheme →
    ∃ token, tokensToCompare outside request manager scheme = .ok (token, token)

def Checked (fails : Prop) (result : Except Fault (Option Reply)) : Prop :=
  (fails ∧ ∃ fault, result = .error fault) ∨
    (¬fails ∧ ((∃ reply, result = .ok (some reply) ∧ Refuses reply.status) ∨
      (result = .ok none ∧ Tokened outside provider manager request)))

variable {outside provider manager request} {delivery : Delivery} {scheme : Str}

theorem refuseContentType_refuses {reply : Reply}
    (refused : refuseContentType request provider = some reply) : Refuses reply.status := by
  rw [refuseContentType] at refused
  split_ifs at refused
  cases refused
  exact .inl ⟨by decide, by decide⟩

theorem tokensToCompare_refuses {reply : Reply}
    (refused : tokensToCompare outside request manager scheme = .error reply) :
    Refuses reply.status := by
  simp only [tokensToCompare] at refused
  split_ifs at refused <;> cases refused <;> exact .inl ⟨by decide, by decide⟩

theorem refuseVerifier_checked :
    Checked outside provider manager request (NonAsciiToken outside provider manager request)
      (refuseVerifier outside request provider manager delivery) := by
  rw [refuseVerifier]
  cases kind : provider.verifier with
  | hmac digest =>
    have other (scheme : Str) : provider.verifier ≠ .token scheme := by simp [kind]
    refine .inr ⟨fun ⟨scheme, token, _⟩ => other scheme token, ?_⟩
    simp only
    split_ifs
    · exact .inl ⟨_, rfl, .inl ⟨by decide, by decide⟩⟩
    · exact .inl ⟨_, rfl, .inl ⟨by decide, by decide⟩⟩
    · exact .inr ⟨rfl, fun scheme token => absurd token (other scheme)⟩
  | token scheme =>
    have own {other : Str} (token : provider.verifier = .token other) : other = scheme := by
      rw [kind] at token
      cases token
      rfl
    simp only
    cases compared : tokensToCompare outside request manager scheme with
    | error reply =>
      refine .inr ⟨?_, .inl ⟨reply, rfl, tokensToCompare_refuses compared⟩⟩
      rintro ⟨other, token, one, two, found, -⟩
      rw [own token, compared] at found
      cases found
    | ok pair =>
      obtain ⟨token, expected⟩ := pair
      simp only [compareDigest]
      cases ascii : isAscii token && isAscii expected with
      | false => exact .inl ⟨⟨scheme, kind, token, expected, compared, ascii⟩, _, rfl⟩
      | true =>
        refine .inr ⟨?_, ?_⟩
        · rintro ⟨other, sent, one, two, found, not_ascii⟩
          rw [own sent, compared] at found
          cases found
          exact absurd (ascii.symm.trans not_ascii) (by decide)
        · by_cases same : token = expected
          · subst same
            refine .inr ⟨by simp [bind, Except.bind, pure, Except.pure], ?_⟩
            intro other sent
            exact ⟨token, own sent ▸ compared⟩
          · refine .inl ⟨rejected 401 "invalid token", ?_, .inl ⟨by decide, by decide⟩⟩
            simp [same, bind, Except.bind, pure, Except.pure]

theorem refuseBeforeReading_checked :
    Checked outside provider manager request (ComparesNonAscii outside provider manager request)
      (refuseBeforeReading outside request provider manager delivery) := by
  rw [refuseBeforeReading]
  cases draining : manager.draining with
  | true =>
    refine .inr ⟨?_, .inl ⟨_, rfl, .inr rfl⟩⟩
    rintro ⟨running, -⟩
    exact absurd (draining.symm.trans running) (by decide)
  | false =>
    cases media : refuseContentType request provider with
    | some reply =>
      refine .inr ⟨?_, .inl ⟨reply, rfl, refuseContentType_refuses media⟩⟩
      rintro ⟨-, known, -⟩
      cases media.symm.trans known
    | none =>
      simp only [Bool.false_eq_true, if_false]
      have checked : Checked outside provider manager request
        (NonAsciiToken outside provider manager request)
        (refuseVerifier outside request provider manager delivery) := refuseVerifier_checked
      rcases checked with
        ⟨text, fault, raised⟩ | ⟨ascii, ⟨reply, judged, refuses⟩ | ⟨judged, tokened⟩⟩
      · rw [raised]
        exact .inl ⟨⟨draining, media, text⟩, fault, rfl⟩
      · rw [judged]
        exact .inr ⟨fun compares => ascii compares.2.2, .inl ⟨reply, rfl, refuses⟩⟩
      · rw [judged]
        refine .inr ⟨fun compares => ascii compares.2.2, ?_⟩
        cases capped : declaresMoreThanTheCap (request.header "content-length".toList) with
        | true =>
          refine .inl ⟨rejected 413 "payload too large", ?_, .inl ⟨by decide, by decide⟩⟩
          simp [bind, Except.bind, pure, Except.pure]
        | false => exact .inr ⟨by simp [bind, Except.bind, pure, Except.pure], tokened⟩

theorem readCappedBodyFrom_flatten {total : Nat} {chunks : List (List UInt8)} {body : List UInt8}
    (read : readCappedBodyFrom total chunks = some body) : body = chunks.flatten := by
  induction chunks generalizing total body with
  | nil => cases read; rfl
  | cons chunk rest ih =>
    rw [readCappedBodyFrom] at read
    split_ifs at read
    obtain ⟨later, kept, rfl⟩ := Option.map_eq_some_iff.mp read
    rw [List.flatten_cons, ih kept]

theorem authenticatedPayload_cases {digest : HmacSha256} (kind : provider.verifier = .hmac digest)
    {body : List UInt8} (read : request.readCappedBody = some body) :
    (∃ reply, authenticatedPayload outside request digest manager body = .error reply ∧
      Refuses reply.status) ∨
    (∃ payload, authenticatedPayload outside request digest manager body = .ok payload) ∧
      Authentic outside provider manager request := by
  rw [authenticatedPayload]
  split_ifs with none
  · exact .inl ⟨_, rfl, .inl ⟨by decide, by decide⟩⟩
  cases valid : outside.validate body with
  | error errors =>
    refine .inl ⟨_, rfl, .inl ⟨?_, ?_⟩⟩
    · exact Nat.le_refl 400
    · exact Nat.lt_of_sub_pos (by decide : 0 < 500 - 400)
  | ok payload =>
    simp only
    split_ifs with foreign
    · exact .inl ⟨_, rfl, .inl ⟨by decide, by decide⟩⟩
    · refine .inr ⟨⟨payload, rfl⟩, ?_⟩
      simp only [Bool.or_eq_true, decide_eq_true_eq, not_or, not_not] at foreign
      rw [Authentic, kind]
      rw [readCappedBodyFrom_flatten read] at valid foreign
      exact ⟨payload, valid, foreign.1, foreign.2⟩

end Requests

section Receive
variable {outside : Outside} {provider : WebhookProvider} {manager : ServiceManager}
  {request : Request} {R : Type}

/-- One reply and one count, and a refusal that reaches no consumer where the request has no
    valid signature or token. -/
structure Answered (outside : Outside) (provider : WebhookProvider) (manager : ServiceManager)
    (request : Request) (s : Service) (result : Except Fault (Response R) × Service) : Prop where
  replies : ∃ response, result.1 = .ok response
  counts : ∃ one, result.2.concluded = one :: s.concluded
  refuses : ¬Authentic outside provider manager request →
    ∃ response, result.1 = .ok response ∧ Refuses response.status ∧ result.2.handed = s.handed

/-- A body that is read gets a reply, and no count yet. A body that is not authentic is refused,
    and no consumer is called with it. -/
theorem readAndRoute_quiet {digest : HmacSha256} (kind : provider.verifier = .hmac digest)
    {consumers : List (WebhookConsumer × Turn)} (quiet : ∀ one ∈ consumers, one.2.Quiet)
    (delivery : Delivery) (s : Service) :
    ∃ one reply next, readAndRoute outside request provider manager consumers delivery s =
        (one, .ok reply, next) ∧ next.concluded = s.concluded ∧
      (¬Authentic outside provider manager request → Refuses reply.status ∧ next.handed = s.handed) := by
  simp only [readAndRoute]
  cases read : request.readCappedBody with
  | none => exact ⟨_, _, _, rfl, rfl, fun _ => ⟨.inl ⟨by decide, by decide⟩, rfl⟩⟩
  | some body =>
    simp only [kind]
    have cases_ : (∃ reply, authenticatedPayload outside request digest manager body = .error reply ∧
        Refuses reply.status) ∨
      (∃ payload, authenticatedPayload outside request digest manager body = .ok payload) ∧
        Authentic outside provider manager request := authenticatedPayload_cases kind read
    rcases cases_ with ⟨reply, judged, refuses⟩ | ⟨⟨payload, judged⟩, authentic⟩
    · simp only [judged]
      exact ⟨_, _, _, rfl, rfl, fun _ => ⟨refuses, rfl⟩⟩
    · simp only [judged]
      let named : Delivery :=
        { delivery with repo := some payload.fullName, action := payload.action }
      have routed : (∃ reply, (route named provider payload consumers s).1 = .ok reply) ∧
        (route named provider payload consumers s).2.concluded = s.concluded := route_quiet quiet s
      obtain ⟨⟨reply, replied⟩, kept⟩ := routed
      exact ⟨_, reply, _, by rw [← replied], kept, fun forged => absurd authentic forged⟩

theorem verifier_declared (declared : provider ∈ webhookProviders) :
    (∃ digest, provider.verifier = .hmac digest) ∧ provider.hasResponder = false ∨
      (∃ scheme, provider.verifier = .token scheme) ∧ provider.hasResponder = true := by
  simp only [webhookProviders, List.mem_cons, List.not_mem_nil, or_false] at declared
  rcases declared with rfl | rfl
  · exact .inl ⟨⟨_, rfl⟩, rfl⟩
  · exact .inr ⟨⟨_, rfl⟩, rfl⟩

theorem authentic_of_tokened {scheme : Str} (kind : provider.verifier = .token scheme)
    (tokened : Tokened outside provider manager request) :
    Authentic outside provider manager request := by
  rw [Authentic, kind]
  exact tokened scheme kind

/-- Every request of a declared provider gets one reply and one count exactly when it does not
    send a token to be compared that is not ASCII, or compared with one that is not. -/
theorem one_reply_one_count (declared : provider ∈ webhookProviders)
    (consumers : List (WebhookConsumer × Turn)) (quiet : ∀ one ∈ consumers, one.2.Quiet)
    (respond : List UInt8 → Except Fault R) (answers : ∀ body, ∃ result, respond body = .ok result)
    (s : Service) :
    Answered outside provider manager request s
        (receive outside provider manager consumers respond request s) ↔
      ¬ComparesNonAscii outside provider manager request := by
  have taking : ∀ one ∈ consumers.filter fun one => one.1.provider = provider.name, one.2.Quiet :=
    fun one mem => quiet one (List.mem_of_mem_filter mem)
  have checked (delivery : Delivery) : Checked outside provider manager request
      (ComparesNonAscii outside provider manager request)
      (refuseBeforeReading outside request provider manager delivery) := refuseBeforeReading_checked
  simp only [receive]
  generalize given : Delivery.mk _ _ _ _ _ _ = delivery
  rcases checked delivery with
    ⟨compares, fault, raised⟩ | ⟨ascii, ⟨reply, judged, refuses⟩ | ⟨judged, tokened⟩⟩
  · simp only [raised]
    refine iff_of_false ?_ (not_not_intro compares)
    rintro ⟨⟨response, replied⟩, -, -⟩
    cases replied
  · simp only [judged]
    refine iff_of_true ?_ ascii
    exact ⟨⟨_, rfl⟩, ⟨_, rfl⟩, fun _ => ⟨_, rfl, refuses, rfl⟩⟩
  · simp only [judged]
    refine iff_of_true ?_ ascii
    rcases verifier_declared declared with ⟨⟨digest, kind⟩, silent⟩ | ⟨⟨scheme, kind⟩, responds⟩
    · have read : ∃ one reply next, readAndRoute outside request provider manager
          (consumers.filter fun one => one.1.provider = provider.name) delivery s =
            (one, .ok reply, next) ∧ next.concluded = s.concluded ∧
          (¬Authentic outside provider manager request → Refuses reply.status ∧ next.handed = s.handed) :=
        readAndRoute_quiet kind taking delivery s
      obtain ⟨one, reply, next, routed, counted, refuses⟩ := read
      simp only [silent, Bool.false_eq_true, if_false, routed]
      refine ⟨⟨_, rfl⟩, ⟨_, by rw [Service.conclude, counted]⟩, fun forged => ?_⟩
      obtain ⟨refused, kept⟩ := refuses forged
      exact ⟨_, rfl, refused, kept⟩
    · have authentic := authentic_of_tokened kind tokened
      simp only [responds, if_true]
      cases read : request.readCappedBody with
      | none => exact ⟨⟨_, rfl⟩, ⟨_, rfl⟩, fun forged => absurd authentic forged⟩
      | some body =>
        obtain ⟨result, answered⟩ := answers body
        simp only [answered]
        exact ⟨⟨_, rfl⟩, ⟨_, rfl⟩, fun forged => absurd authentic forged⟩

end Receive

section Instances

def atSpace : Outside where
  hexdigest _ _ := []
  schemeParam text := (text.takeWhile (· ≠ ' '), (text.dropWhile (· ≠ ' ')).drop 1)
  validate _ := .error []

def slashCommand (authorization : Str) : Request where
  headers name :=
    if name = "authorization".toList then some authorization
    else if name = "content-type".toList then some mattermost.contentType
    else none
  chunks := []

def commandManager : ServiceManager := { commandToken := some ['t'] }

theorem one_reply_one_count_command :
    Answered atSpace mattermost commandManager (slashCommand "Token t".toList) {}
        (receive atSpace mattermost commandManager [] (fun _ => .ok ()) (slashCommand "Token t".toList) {}) ↔
      ¬ComparesNonAscii atSpace mattermost commandManager (slashCommand "Token t".toList) :=
  one_reply_one_count (by simp [webhookProviders]) [] (fun _ mem => absurd mem List.not_mem_nil)
    (fun _ => .ok ()) (fun _ => ⟨(), rfl⟩) {}

/-- A wrong token with an accent is not refused: its request has no reply and no count. -/
theorem accented_token_not_answered :
    ¬Answered atSpace mattermost commandManager (slashCommand "Token é".toList) {}
      (receive atSpace mattermost commandManager [] (fun _ => .ok ()) (slashCommand "Token é".toList) {}) := by
  rintro ⟨⟨response, replied⟩, -, -⟩
  cases replied

end Instances
end DevopsCli.Server.Webhooks
