import DevopsCli.Lib.PyStr

/- The webhook receiver, server/routes/webhooks.py: one route for each declared provider. The
   headers are read by name, in Latin-1. The digest, the split of an Authorization header, the
   validation of a body and the answer of a responder come from outside, and so does what a
   consumer does with a payload. -/
namespace DevopsCli.Server.Webhooks
open PyStr

inductive ProviderName where
  | github
  | mattermost
  deriving DecidableEq, Repr

structure WebhookPayload where
  action : Option Str
  fullName : Str
  sender : Option Str
  issue : Option Int
  deriving DecidableEq

inductive Fault where
  -- Two texts that are not both ASCII are compared in constant time.
  | nonAscii
  -- A provider with no digest has no header to read a signature from.
  | attribute
  | consumer
  | responder
  deriving DecidableEq, Repr

structure HmacSha256 where
  header : Str
  prefix_ : Str

inductive Verifier where
  | hmac (digest : HmacSha256)
  | token (scheme : Str)

structure WebhookProvider where
  name : ProviderName
  verifier : Verifier
  eventHeader : Str
  deliveryHeader : Str
  pingEvent : Str
  contentType : Str
  hasResponder : Bool

def github : WebhookProvider where
  name := .github
  verifier := .hmac ⟨"x-hub-signature-256".toList, "sha256=".toList⟩
  eventHeader := "x-github-event".toList
  deliveryHeader := "x-github-delivery".toList
  pingEvent := "ping".toList
  contentType := "application/json".toList
  hasResponder := false

def mattermost : WebhookProvider where
  name := .mattermost
  verifier := .token "Token".toList
  eventHeader := []
  deliveryHeader := []
  pingEvent := []
  contentType := "application/x-www-form-urlencoded".toList
  hasResponder := true

def webhookProviders : List WebhookProvider := [github, mattermost]

structure WebhookConsumer where
  name : Str
  provider : ProviderName
  events : List Str
  -- Whether the target takes the payload as its fourth argument.
  takesPayload : Bool

/-- What one consumer does with one payload: its refusal, and whether its target raises. -/
structure Turn where
  refusal : Except Fault (Option Str)
  deliver : Except Fault Unit

structure Handed where
  consumer : Str
  repo : Str
  event : Str
  action : Str
  payload : Option WebhookPayload
  deriving DecidableEq

def deliveryLruCapacity : Nat := 10000

structure DeliveryLRUCache where
  seen : List Str := []

/-- Whether the id is seen already. It becomes the most recent, and a new id drops the oldest
    one of a full cache. -/
def DeliveryLRUCache.checkAndAdd (cache : DeliveryLRUCache) (delivery : Str) :
    Bool × DeliveryLRUCache :=
  if delivery ∈ cache.seen then (true, ⟨cache.seen.erase delivery ++ [delivery]⟩)
  else
    let kept := cache.seen.drop (cache.seen.length + 1 - deliveryLruCapacity)
    (false, ⟨kept ++ [delivery]⟩)

inductive Outcome where
  | accepted
  | ignored
  | rejected
  | noSubscriber
  | self
  deriving DecidableEq, Repr

structure Reply where
  status : Nat
  key : Str
  text : Str
  outcome : Outcome
  deriving DecidableEq

def rejected (status : Nat) (error : String) : Reply := ⟨status, "error".toList, error.toList, .rejected⟩

def acknowledged (status : Str) (outcome : Outcome) : Reply := ⟨200, "status".toList, status, outcome⟩

def accepted : Reply := ⟨202, "status".toList, "accepted".toList, .accepted⟩

def ownWrite : Str := "ignored_own_write".toList

def refusalOutcome (status : Str) : Outcome := if status = ownWrite then .self else .ignored

structure Delivery where
  provider : ProviderName
  event : Str
  delivery : Str
  declaredEvents : List Str
  repo : Option Str := none
  action : Option Str := none

def maxErrorDetailLength : Nat := 256

structure Concluded where
  provider : ProviderName
  label : Str
  event : Str
  action : Option Str
  delivery : Str
  repo : Option Str
  outcome : Outcome
  deriving DecidableEq

def Delivery.conclude (delivery : Delivery) (outcome : Outcome) : Concluded where
  provider := delivery.provider
  label := if delivery.event ∈ delivery.declaredEvents then delivery.event else "other".toList
  event := delivery.event.take maxErrorDetailLength
  action := delivery.action
  delivery := delivery.delivery.take maxErrorDetailLength
  repo := delivery.repo
  outcome := outcome

structure ServiceManager where
  draining : Bool := false
  commandToken : Option Str := none
  secrets : List (Str × Str) := []
  managedRepos : List Str := []

structure Service where
  cache : DeliveryLRUCache := {}
  handed : List Handed := []
  concluded : List Concluded := []

structure Request where
  headers : Str → Option Str
  -- The body as it streams.
  chunks : List (List UInt8)

structure FieldError where
  loc : List Str
  msg : Str

structure Outside where
  hexdigest : Str → List UInt8 → Str
  schemeParam : Str → Str × Str
  validate : List UInt8 → Except (List FieldError) WebhookPayload

def lowerChar (c : Char) : Char :=
  let n := c.toNat
  if (65 ≤ n && n ≤ 90) || (192 ≤ n && n ≤ 222 && n != 215) then Char.ofNat (n + 32) else c

def lower (text : Str) : Str := text.map lowerChar

def isAscii (text : Str) : Bool := text.all fun c => c.toNat < 128

def compareDigest (a b : Str) : Except Fault Bool :=
  if isAscii a && isAscii b then .ok (a = b) else .error .nonAscii

section
variable (outside : Outside)

def HmacSha256.verify (digest : HmacSha256) (body : List UInt8) (signature : Option Str)
    (secret : Str) : Bool :=
  match signature with
  | none => false
  | some signature =>
    if signature = [] || secret = [] || !digest.prefix_.isPrefixOf signature then false
    else signature.drop digest.prefix_.length = outside.hexdigest secret body

def HmacSha256.signers (digest : HmacSha256) (body : List UInt8) (signature : Option Str)
    (secrets : List (Str × Str)) : List Str :=
  (secrets.filter fun secret => digest.verify outside body signature secret.2).map Prod.fst

def maxBodyBytes : Nat := 25 * 1024 * 1024

def decimal (text : Str) : Nat := text.foldl (fun n c => 10 * n + (c.toNat - 48)) 0

def declaresMoreThanTheCap (declared : Str) : Bool :=
  if declared = [] || !declared.all (fun c => 48 ≤ c.toNat && c.toNat ≤ 57) then false
  else
    let significant := declared.dropWhile (· = '0')
    (digits maxBodyBytes).length < significant.length || maxBodyBytes < decimal significant

def readCappedBodyFrom (total : Nat) : List (List UInt8) → Option (List UInt8)
  | [] => some []
  | chunk :: rest =>
    if maxBodyBytes < total + chunk.length then none
    else (readCappedBodyFrom (total + chunk.length) rest).map (chunk ++ ·)

def Request.readCappedBody (request : Request) : Option (List UInt8) :=
  readCappedBodyFrom 0 request.chunks

def Request.header (request : Request) (name : Str) : Str := (request.headers name).getD []

def refuseContentType (request : Request) (provider : WebhookProvider) : Option Reply :=
  if provider.contentType.isPrefixOf (request.header "content-type".toList) then none
  else some (rejected 415 "unsupported media type")

/-- The token of the Authorization header that is compared with the configured one, or the
    refusal before it. -/
def tokensToCompare (request : Request) (manager : ServiceManager) (scheme : Str) :
    Except Reply (Str × Str) :=
  let auth := request.header "authorization".toList
  let (sent, token) := outside.schemeParam auth
  let expected := manager.commandToken.getD []
  if auth = [] then .error (rejected 401 "missing authorization header")
  else if lower sent ≠ lower scheme || token = [] then .error (rejected 401 "invalid authorization")
  else if expected = [] then .error (rejected 401 "unauthorized")
  else .ok (token, expected)

def refuseVerifier (request : Request) (provider : WebhookProvider) (manager : ServiceManager)
    (delivery : Delivery) : Except Fault (Option Reply) :=
  match provider.verifier with
  | .hmac digest =>
    if delivery.event = [] || delivery.delivery = [] then
      .ok (some (rejected 400 "missing event or delivery header"))
    else if request.header digest.header = [] then .ok (some (rejected 401 "missing signature"))
    else .ok none
  | .token scheme =>
    match tokensToCompare outside request manager scheme with
    | .error reply => .ok (some reply)
    | .ok (token, expected) => do
      return if ← compareDigest token expected then none else some (rejected 401 "invalid token")

def refuseBeforeReading (request : Request) (provider : WebhookProvider) (manager : ServiceManager)
    (delivery : Delivery) : Except Fault (Option Reply) :=
  if manager.draining then .ok (some (rejected 503 "service is draining"))
  else
    match refuseContentType request provider with
    | some reply => .ok (some reply)
    | none => do
      match ← refuseVerifier outside request provider manager delivery with
      | some reply => return some reply
      | none =>
        return if declaresMoreThanTheCap (request.header "content-length".toList) then
          some (rejected 413 "payload too large") else none

/-- The paths and reasons of the failed fields, cut to the bound on error details. -/
def invalidPayloadDetail (errors : List FieldError) : Str :=
  let details := errors.map fun error =>
    (if join ['.'] error.loc = [] then "body".toList else join ['.'] error.loc) ++ ": ".toList ++
      error.msg
  ("invalid payload: ".toList ++ join "; ".toList details).take maxErrorDetailLength

def authenticatedPayload (request : Request) (digest : HmacSha256) (manager : ServiceManager)
    (body : List UInt8) : Except Reply WebhookPayload :=
  let signers := digest.signers outside body (request.headers digest.header) manager.secrets
  if signers = [] then .error (rejected 401 "invalid signature")
  else
    match outside.validate body with
    | .error errors => .error ⟨400, "error".toList, invalidPayloadDetail errors, .rejected⟩
    | .ok payload =>
      if payload.fullName ∉ manager.managedRepos || payload.fullName ∉ signers then
        .error (rejected 401 "unmanaged repository or signature mismatch")
      else .ok payload

def handTo (consumer : WebhookConsumer) (delivery : Delivery) (payload : WebhookPayload) : Handed where
  consumer := consumer.name
  repo := payload.fullName
  event := delivery.event
  action := payload.action.getD []
  payload := if consumer.takesPayload then some payload else none

def deliverAll (delivery : Delivery) (payload : WebhookPayload) :
    List (WebhookConsumer × Turn) → List Handed × Except Fault Unit
  | [] => ([], .ok ())
  | one :: rest =>
    let call := handTo one.1 delivery payload
    match one.2.deliver with
    | .error fault => ([call], .error fault)
    | .ok () =>
      let later := deliverAll delivery payload rest
      (call :: later.1, later.2)

def handToConsumers (delivery : Delivery) (payload : WebhookPayload)
    (subscribed : List (WebhookConsumer × Turn)) (s : Service) : Except Fault Reply × Service :=
  match subscribed.mapM (fun one => one.2.refusal) with
  | .error fault => (.error fault, s)
  | .ok verdicts =>
    let takers := ((subscribed.zip verdicts).filter (·.2.isNone)).map Prod.fst
    let calls := deliverAll delivery payload takers
    let s := { s with handed := s.handed ++ calls.1 }
    match calls.2 with
    | .error fault => (.error fault, s)
    | .ok () =>
      if takers ≠ [] then (.ok accepted, s)
      else
        let first := (verdicts.reduceOption.head?).getD []
        (.ok (acknowledged first (refusalOutcome first)), s)

def subscribedTo (consumers : List (WebhookConsumer × Turn)) (event : Str) :
    List (WebhookConsumer × Turn) :=
  consumers.filter fun one => event ∈ one.1.events

def route (delivery : Delivery) (provider : WebhookProvider) (payload : WebhookPayload)
    (consumers : List (WebhookConsumer × Turn)) (s : Service) : Except Fault Reply × Service :=
  if delivery.event = provider.pingEvent then (.ok (acknowledged "pong".toList .ignored), s)
  else
    let subscribed := subscribedTo consumers delivery.event
    if subscribed = [] then (.ok (acknowledged "no_subscriber".toList .noSubscriber), s)
    else
      let looked := s.cache.checkAndAdd delivery.delivery
      let s := { s with cache := looked.2 }
      if looked.1 then (.ok (acknowledged "duplicate".toList .ignored), s)
      else handToConsumers delivery payload subscribed s

def readAndRoute (request : Request) (provider : WebhookProvider) (manager : ServiceManager)
    (consumers : List (WebhookConsumer × Turn)) (delivery : Delivery) (s : Service) :
    Delivery × Except Fault Reply × Service :=
  match request.readCappedBody, provider.verifier with
  | none, _ => (delivery, .ok (rejected 413 "payload too large"), s)
  | some _, .token _ => (delivery, .error .attribute, s)
  | some body, .hmac digest =>
    match authenticatedPayload outside request digest manager body with
    | .error reply => (delivery, .ok reply, s)
    | .ok payload =>
      let delivery := { delivery with repo := some payload.fullName, action := payload.action }
      (delivery, route delivery provider payload consumers s)

def declaredEvents (provider : WebhookProvider) (taking : List (WebhookConsumer × Turn)) : List Str :=
  provider.pingEvent :: taking.flatMap (·.1.events)

inductive Response (R : Type) where
  | reply (reply : Reply)
  | responded (result : R)

def Response.status {R : Type} : Response R → Nat
  | .reply answer => answer.status
  | .responded _ => 200

def Service.conclude (s : Service) (delivery : Delivery) (outcome : Outcome) : Service :=
  { s with concluded := delivery.conclude outcome :: s.concluded }

def receive {R : Type} (provider : WebhookProvider) (manager : ServiceManager)
    (consumers : List (WebhookConsumer × Turn)) (respond : List UInt8 → Except Fault R)
    (request : Request) (s : Service) : Except Fault (Response R) × Service :=
  let taking := consumers.filter fun one => one.1.provider = provider.name
  let delivery : Delivery :=
    { provider := provider.name
      event := if provider.eventHeader = [] then [] else request.header provider.eventHeader
      delivery := if provider.deliveryHeader = [] then [] else request.header provider.deliveryHeader
      declaredEvents := declaredEvents provider taking }
  match refuseBeforeReading outside request provider manager delivery with
  | .error fault => (.error fault, s)
  | .ok (some reply) => (.ok (.reply reply), s.conclude delivery reply.outcome)
  | .ok none =>
    if provider.hasResponder then
      match request.readCappedBody with
      | none =>
        let tooLarge := rejected 413 "payload too large"
        (.ok (.reply tooLarge), s.conclude delivery tooLarge.outcome)
      | some body =>
        match respond body with
        | .error fault => (.error fault, s)
        | .ok result => (.ok (.responded result), s.conclude delivery .accepted)
    else
      let routed := readAndRoute outside request provider manager taking delivery s
      match routed.2.1 with
      | .error fault => (.error fault, routed.2.2)
      | .ok reply => (.ok (.reply reply), routed.2.2.conclude routed.1 reply.outcome)

end
end DevopsCli.Server.Webhooks
