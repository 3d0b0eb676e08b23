import DevopsCli.Lib.Run
import DevopsCli.Server.WebhookReplies

/- Deliveries of GitHub that are sent again, over whole sequences of them: what the cache of
   ids says of each, and which of them reach all their takers. -/
namespace DevopsCli.Server.Webhooks.Repeats
open PyStr DevopsCli.Run

structure Sent where
  event : Str
  delivery : Str
  payload : WebhookPayload
  consumers : List (WebhookConsumer × Turn)

def Sent.given (sent : Sent) : Delivery where
  provider := .github
  event := sent.event
  delivery := sent.delivery
  declaredEvents := declaredEvents github sent.consumers
  repo := some sent.payload.fullName
  action := sent.payload.action

def Sent.subscribed (sent : Sent) : List (WebhookConsumer × Turn) :=
  subscribedTo sent.consumers sent.event

def Sent.Asked (sent : Sent) : Prop := sent.event ≠ github.pingEvent ∧ sent.subscribed ≠ []

instance (sent : Sent) : Decidable sent.Asked :=
  inferInstanceAs (Decidable (sent.event ≠ github.pingEvent ∧ sent.subscribed ≠ []))

def Sent.Quiet (sent : Sent) : Prop := ∀ one ∈ sent.consumers, one.2.Quiet

def takes (turn : Turn) : Bool :=
  match turn.refusal with
  | .ok none => true
  | _ => false

def Sent.calls (sent : Sent) : List Handed :=
  (sent.subscribed.filter fun one => takes one.2).map fun one =>
    handTo one.1 sent.given sent.payload

structure Entry where
  sent : Sent
  -- Whether the id was seen already, where the cache was asked.
  looked : Option Bool
  answer : Except Fault Reply
  handed : List Handed
  -- The ids in the cache afterwards.
  kept : List Str

def Entry.Raised (entry : Entry) : Prop := ∃ fault, entry.answer = .error fault

def Entry.Settled (entry : Entry) : Prop :=
  entry.looked = some false ∧ ∃ reply, entry.answer = .ok reply

def Entry.HandedToAll (entry : Entry) : Prop :=
  (∃ reply, entry.answer = .ok reply) ∧ entry.handed = entry.sent.calls

structure State where
  service : Service := {}
  log : List Entry := []

def Sent.looked (sent : Sent) (cache : DeliveryLRUCache) : Option Bool :=
  if sent.Asked then some (cache.checkAndAdd sent.delivery).1 else none

def Sent.routed (sent : Sent) (s : Service) : Except Fault Reply × Service :=
  route sent.given github sent.payload sent.consumers s

def Sent.entry (sent : Sent) (s : Service) : Entry where
  sent := sent
  looked := sent.looked s.cache
  answer := (sent.routed s).1
  handed := (sent.routed s).2.handed.drop s.handed.length
  kept := (sent.routed s).2.cache.seen

def step (s : State) (sent : Sent) : Option State :=
  some { service := (sent.routed s.service).2, log := sent.entry s.service :: s.log }

/-- The last time that the id was handed over, a consumer raised. -/
def Unfinished (log : List Entry) (delivery : Str) : Prop :=
  ∃ between first earlier, log = between ++ first :: earlier ∧ first.sent.delivery = delivery ∧
    first.Raised ∧ ∀ entry ∈ between, entry.sent.delivery = delivery → ¬entry.Settled

def SentAgain (log : List Entry) (again : Entry) : Prop :=
  ∃ later earlier, log = later ++ again :: earlier ∧ Unfinished earlier again.sent.delivery

/-- Between two whole hand-overs of an id the cache drops it. -/
def Once (log : List Entry) : Prop :=
  ∀ later second between first earlier, log = later ++ second :: (between ++ first :: earlier) →
    first.sent.delivery = second.sent.delivery → first.sent.calls ≠ [] → first.HandedToAll →
    second.sent.calls ≠ [] → second.HandedToAll →
    ∃ entry ∈ between ++ [first], first.sent.delivery ∉ entry.kept

/-- The law of repeated ids: none is handed over twice while it is kept, an id that is not handed
    over yet is no duplicate, and it reaches all its takers once no consumer raises. -/
structure DeliveredOnce (log : List Entry) : Prop where
  once : Once log
  again : ∀ entry, SentAgain log entry → entry.looked ≠ some true
  ends : ∀ entry, SentAgain log entry → entry.sent.Asked → entry.sent.Quiet → entry.HandedToAll

/-- The cache does not keep an id that is unfinished and that is sent again. -/
def Dropped (s : State) (sent : Sent) : Prop :=
  sent.Asked → sent.delivery ∈ s.service.cache.seen → ¬Unfinished s.log sent.delivery

section Spec
variable {sent : Sent} {s : Service}

theorem looked_seen (asked : sent.Asked) :
    sent.looked s.cache = some (decide (sent.delivery ∈ s.cache.seen)) := by
  rw [Sent.looked, if_pos asked, DeliveryLRUCache.checkAndAdd]
  by_cases seen : sent.delivery ∈ s.cache.seen
  · simp [seen]
  · simp [seen]

theorem takers_filter {consumers : List (WebhookConsumer × Turn)} {verdicts : List (Option Str)}
    (judged : consumers.mapM (fun one => one.2.refusal) = .ok verdicts) :
    ((consumers.zip verdicts).filter (·.2.isNone)).map Prod.fst =
      consumers.filter fun one => takes one.2 := by
  induction consumers generalizing verdicts with
  | nil => rfl
  | cons one rest ih =>
    rw [List.mapM_cons] at judged
    cases own : one.2.refusal with
    | error fault =>
      rw [own] at judged
      cases judged
    | ok refusal =>
      cases others : rest.mapM (fun one => one.2.refusal) with
      | error fault =>
        rw [own, others] at judged
        cases judged
      | ok later =>
        rw [own, others] at judged
        cases judged
        have tail := ih others
        cases refusal with
        | none => simp [takes, own, tail]
        | some text => simp [takes, own, tail]

theorem deliverAll_calls {delivery : Delivery} {payload : WebhookPayload}
    {consumers : List (WebhookConsumer × Turn)}
    (quiet : (deliverAll delivery payload consumers).2 = .ok ()) :
    (deliverAll delivery payload consumers).1 =
      consumers.map fun one => handTo one.1 delivery payload := by
  induction consumers with
  | nil => rfl
  | cons one rest ih =>
    rw [deliverAll] at quiet ⊢
    cases own : one.2.deliver with
    | error fault =>
      rw [own] at quiet
      cases quiet
    | ok _ =>
      simp only [own] at quiet ⊢
      rw [ih quiet, List.map_cons]

theorem handToConsumers_calls {delivery : Delivery} {payload : WebhookPayload}
    {consumers : List (WebhookConsumer × Turn)} {reply : Reply}
    (replied : (handToConsumers delivery payload consumers s).1 = .ok reply) :
    (handToConsumers delivery payload consumers s).2.handed = s.handed ++
      (consumers.filter fun one => takes one.2).map fun one => handTo one.1 delivery payload := by
  rw [handToConsumers] at replied ⊢
  cases judged : consumers.mapM (fun one => one.2.refusal) with
  | error fault =>
    simp only [judged] at replied
    cases replied
  | ok verdicts =>
    simp only [judged, takers_filter judged] at replied ⊢
    cases called : (deliverAll delivery payload (consumers.filter fun one => takes one.2)).2 with
    | error fault =>
      simp only [called] at replied
      cases replied
    | ok _ =>
      rw [deliverAll_calls called]
      simp only
      split_ifs
      · rfl
      · rfl

theorem routed_new (asked : sent.Asked) (new : sent.delivery ∉ s.cache.seen) :
    ∃ cache, sent.routed s =
      handToConsumers sent.given sent.payload sent.subscribed { s with cache := cache } := by
  obtain ⟨event, subscribed⟩ := asked
  refine ⟨(s.cache.checkAndAdd sent.delivery).2, ?_⟩
  have looked : (s.cache.checkAndAdd sent.delivery).1 = false := by
    simp [DeliveryLRUCache.checkAndAdd, new]
  simp only [Sent.subscribed] at subscribed
  simp [Sent.routed, route, Sent.given, event, subscribed, looked, Sent.subscribed]

theorem routed_kept (other : sent.Asked → sent.delivery ∈ s.cache.seen) :
    (∃ reply, (sent.routed s).1 = .ok reply) ∧ (sent.routed s).2.handed = s.handed := by
  by_cases event : sent.event = github.pingEvent
  · simp [Sent.routed, route, Sent.given, event]
  by_cases subscribed : subscribedTo sent.consumers sent.event = []
  · simp [Sent.routed, route, Sent.given, event, subscribed]
  have looked : (s.cache.checkAndAdd sent.delivery).1 = true := by
    simp [DeliveryLRUCache.checkAndAdd, other ⟨event, subscribed⟩]
  simp [Sent.routed, route, Sent.given, event, subscribed, looked]

theorem entry_replied {entry : Entry} (own : entry = sent.entry s) (asked : sent.Asked)
    (new : sent.delivery ∉ s.cache.seen) (replied : ∃ reply, entry.answer = .ok reply) :
    entry.HandedToAll := by
  subst own
  obtain ⟨reply, answer⟩ := replied
  obtain ⟨cache, handed⟩ := routed_new asked new
  simp only [Sent.entry] at answer
  refine ⟨⟨reply, answer⟩, ?_⟩
  rw [handed] at answer
  simp only [Sent.entry]
  rw [handed, handToConsumers_calls answer, List.drop_left]
  rfl

theorem entry_quiet (asked : sent.Asked) (quiet : sent.Quiet)
    (looked : sent.looked s.cache ≠ some true) : (sent.entry s).HandedToAll := by
  rw [looked_seen asked] at looked
  have new : sent.delivery ∉ s.cache.seen := fun seen => looked (by rw [decide_eq_true seen])
  exact entry_replied rfl asked new (route_quiet quiet s).1

theorem entry_new (some_ : sent.calls ≠ []) (handed : (sent.entry s).HandedToAll) :
    sent.delivery ∉ s.cache.seen := by
  intro seen
  have kept : (sent.routed s).2.handed = s.handed := (routed_kept fun _ => seen).2
  obtain ⟨-, calls⟩ := handed
  simp only [Sent.entry] at calls
  rw [kept, List.drop_length] at calls
  exact some_ calls.symm

def sentBy (request : Request) (payload : WebhookPayload)
    (consumers : List (WebhookConsumer × Turn)) : Sent where
  event := request.header github.eventHeader
  delivery := request.header github.deliveryHeader
  payload := payload
  consumers := consumers.filter fun one => one.1.provider = .github

end Spec

section Runs
variable {s t : State} {sent : Sent} {log : List Entry} {entry head : Entry}

theorem step_eq (taken : step s sent = some t) :
    t.log = sent.entry s.service :: s.log ∧ t.service = (sent.routed s.service).2 := by
  cases taken
  exact ⟨rfl, rfl⟩

def Follows (s : State) : Prop :=
  ∀ entry earlier, s.log = entry :: earlier → entry.kept = s.service.cache.seen

theorem step_follows (taken : step s sent = some t) : Follows t := by
  obtain ⟨log, service⟩ := step_eq taken
  intro entry earlier latest
  rw [log] at latest
  cases latest
  rw [service]
  rfl

def Recorded (s : State) : Prop := ∀ entry ∈ s.log, ∃ before, entry = entry.sent.entry before

theorem step_recorded (recorded : Recorded s) (taken : step s sent = some t) : Recorded t := by
  obtain ⟨log, -⟩ := step_eq taken
  intro entry mem
  rw [log] at mem
  rcases List.mem_cons.mp mem with rfl | mem
  · exact ⟨s.service, rfl⟩
  · exact recorded entry mem

theorem step_once (follows : Follows s) (once : Once s.log) (taken : step s sent = some t) :
    Once t.log := by
  obtain ⟨log, -⟩ := step_eq taken
  intro later second between first earlier whole same some_ handed others again
  rw [log] at whole
  cases later with
  | cons latest later =>
    obtain ⟨-, whole⟩ := List.cons_eq_cons.mp whole
    exact once later second between first earlier whole same some_ handed others again
  | nil =>
    obtain ⟨rfl, old⟩ := List.cons_eq_cons.mp whole
    have new : sent.delivery ∉ s.service.cache.seen := entry_new others again
    rw [same]
    cases between with
    | nil => exact ⟨first, by simp, by rw [follows _ _ old]; exact new⟩
    | cons latest between => exact ⟨latest, by simp, by rw [follows _ _ old]; exact new⟩

def Lawful (s : State) : Prop := Follows s ∧ Once s.log

theorem step_lawful (lawful : Lawful s) (taken : step s sent = some t) : Lawful t :=
  ⟨step_follows taken, step_once lawful.1 lawful.2 taken⟩

theorem lawful_start (service : Service) : Lawful { service := service } := by
  refine ⟨fun entry earlier whole => absurd whole (List.cons_ne_nil _ _).symm, ?_⟩
  intro later second between first earlier whole
  cases later with
  | nil => cases whole
  | cons latest later => cases whole

theorem sentAgain_cons :
    SentAgain (head :: log) entry ↔
      entry = head ∧ Unfinished log head.sent.delivery ∨ SentAgain log entry := by
  constructor
  · rintro ⟨later, earlier, whole, unfinished⟩
    cases later with
    | nil =>
      obtain ⟨rfl, rfl⟩ := List.cons_eq_cons.mp whole
      exact .inl ⟨rfl, unfinished⟩
    | cons latest later =>
      obtain ⟨-, whole⟩ := List.cons_eq_cons.mp whole
      exact .inr ⟨later, earlier, whole, unfinished⟩
  · rintro (⟨rfl, unfinished⟩ | ⟨later, earlier, whole, unfinished⟩)
    · exact ⟨[], log, rfl, unfinished⟩
    · exact ⟨head :: later, earlier, by rw [whole, List.cons_append], unfinished⟩

def NoDuplicate (s : State) : Prop := ∀ entry, SentAgain s.log entry → entry.looked ≠ some true

theorem step_noDuplicate (taken : step s sent = some t) :
    NoDuplicate t ↔ NoDuplicate s ∧ Dropped s sent := by
  obtain ⟨log, -⟩ := step_eq taken
  have seen : (sent.entry s.service).looked = some true ↔
      sent.Asked ∧ sent.delivery ∈ s.service.cache.seen := by
    by_cases asked : sent.Asked
    · simp [Sent.entry, looked_seen asked, asked]
    · simp [Sent.entry, Sent.looked, asked]
  simp only [NoDuplicate, log, sentAgain_cons]
  constructor
  · intro all
    refine ⟨fun entry again => all entry (.inr again), fun asked kept unfinished => ?_⟩
    exact all _ (.inl ⟨rfl, unfinished⟩) (seen.mpr ⟨asked, kept⟩)
  · rintro ⟨old, dropped⟩ entry (⟨rfl, unfinished⟩ | again)
    · exact fun duplicate => dropped (seen.mp duplicate).1 (seen.mp duplicate).2 unfinished
    · exact old entry again

/-- Over any deliveries, from any cache, the law of repeated ids holds exactly when each of them
    finds its id dropped by the cache where the last hand-over of that id raised. -/
theorem failed_delivery_again {service : Service} {deliveries : List Sent}
    (run : exec step { service := service } deliveries = some s) :
    DeliveredOnce s.log ↔ Meets step Dropped { service := service } deliveries := by
  have start : NoDuplicate { service := service } := by
    rintro entry ⟨later, earlier, whole, -⟩
    cases later with
    | nil => cases whole
    | cons latest later => cases whole
  have law : NoDuplicate s ↔ NoDuplicate { service := service } ∧
      Meets step Dropped { service := service } deliveries :=
    exec_iff_meets (fun _ => True) NoDuplicate (fun _ _ _ _ _ => trivial)
      (fun _ _ _ _ taken => step_noDuplicate taken) trivial run
  constructor
  · exact fun delivered => (law.mp delivered.again).2
  · intro meets
    have again : NoDuplicate s := law.mpr ⟨start, meets⟩
    have recorded : Recorded s := exec_invariant_always
      (fun _ _ _ recorded taken => step_recorded recorded taken)
      (fun _ mem => absurd mem List.not_mem_nil) run
    have lawful : Lawful s := exec_invariant_always
      (fun _ _ _ lawful taken => step_lawful lawful taken) (lawful_start service) run
    refine ⟨lawful.2, again, fun entry sent asked quiet => ?_⟩
    have mem : entry ∈ s.log := by
      obtain ⟨later, earlier, whole, -⟩ := sent
      rw [whole]
      exact List.mem_append_right _ List.mem_cons_self
    obtain ⟨before, own⟩ := recorded entry mem
    rw [own]
    have looked := again entry sent
    rw [own] at looked
    exact entry_quiet asked quiet looked

end Runs

section Instances

def roadmap : WebhookConsumer := ⟨"roadmap".toList, .github, ["issues".toList], false⟩

def issueEvent (delivery : String) (deliver : Except Fault Unit) : Sent where
  event := "issues".toList
  delivery := delivery.toList
  payload := ⟨some "opened".toList, "o/r".toList, none, some 1⟩
  consumers := [(roadmap, ⟨.ok none, deliver⟩)]

def afterTwo (first second : Sent) : State where
  service := (second.routed (first.routed {}).2).2
  log := [second.entry (first.routed {}).2, first.entry {}]

theorem exec_afterTwo (first second : Sent) :
    exec step {} [first, second] = some (afterTwo first second) := rfl

theorem failed_delivery_again_two :
    DeliveredOnce (afterTwo (issueEvent "a" (.error .consumer)) (issueEvent "b" (.ok ()))).log ↔
      Meets step Dropped {} [issueEvent "a" (.error .consumer), issueEvent "b" (.ok ())] :=
  failed_delivery_again (exec_afterTwo _ _)

/-- A delivery whose consumer raised is answered as a duplicate when it is sent again. -/
theorem failed_delivery_dropped :
    ¬DeliveredOnce (afterTwo (issueEvent "a" (.error .consumer)) (issueEvent "a" (.ok ()))).log := by
  rintro ⟨-, again, -⟩
  refine again ((issueEvent "a" (.ok ())).entry ((issueEvent "a" (.error .consumer)).routed {}).2)
    ⟨[], [_], rfl, [], _, [], rfl, rfl, ⟨.consumer, rfl⟩, ?_⟩ rfl
  exact fun _ mem => absurd mem List.not_mem_nil

end Instances
end DevopsCli.Server.Webhooks.Repeats
