import DevopsCli.Lib.Replay
import DevopsCli.Lib.PyStr
import DevopsCli.Lib.Run

/- The pod informer, k8s/informer.py, and the cluster that its watch streams and lists read. What a
   pod holds apart from its name and version is of any type, and no status is read from it. -/
namespace DevopsCli.K8s.Informer
open PyStr DevopsCli.Run DevopsCli.Replay

variable {α : Type}

structure Pod (α : Type) where
  name : Str
  namespace_ : Str
  resourceVersion : Nat
  content : α
  deriving DecidableEq

inductive EventType where
  | added
  | modified
  | deleted
  deriving DecidableEq

structure RawEvent (α : Type) where
  type : EventType
  object : Pod α
  deriving DecidableEq

structure K8sEvent where
  eventType : EventType
  name : Str
  namespace_ : Str

structure ResourceInformer (α : Type) where
  namespace_ : Str
  -- The latest entry first.
  cache : Table Str (Pod α) := ∅
  resourceVersion : Option Nat := none
  synced : Bool := false

def cacheMaxEntries : Nat := 10000

def extractEventMetadata (object : Pod α) (defaultNamespace : Str) : Str × Str :=
  (if object.name = [] then "unknown".toList else object.name,
    if object.namespace_ = [] then defaultNamespace else object.namespace_)

def cacheKey (namespace_ name : Str) : Str := namespace_ ++ '/' :: name

def podKey (defaultNamespace : Str) (object : Pod α) : Str :=
  let named := extractEventMetadata object defaultNamespace
  cacheKey named.2 named.1

section Methods
variable (informer : ResourceInformer α)

def ResourceInformer.recordResourceVersion (raw : RawEvent α) : ResourceInformer α :=
  { informer with resourceVersion := some raw.object.resourceVersion }

def ResourceInformer.normalizeEvent (raw : RawEvent α) : K8sEvent :=
  let named := extractEventMetadata raw.object informer.namespace_
  { eventType := raw.type, name := named.1, namespace_ := named.2 }

def ResourceInformer.updateCache (event : K8sEvent) (object : Pod α) : ResourceInformer α :=
  let key := cacheKey event.namespace_ event.name
  if event.eventType = .deleted then
    { informer with cache := informer.cache.erase key, synced := true }
  else
    -- An entry of the key is taken out first, so the new one is the latest.
    { informer with
      cache := evict cacheMaxEntries (informer.cache.insert key object), synced := true }

def ResourceInformer.streamEvent (raw : RawEvent α) : ResourceInformer α :=
  (informer.recordResourceVersion raw).updateCache (informer.normalizeEvent raw) raw.object

def ResourceInformer.relist (items : List (Pod α)) (version : Nat) : ResourceInformer α :=
  { informer with
    cache := items.foldl (fun cache pod =>
      evict cacheMaxEntries (cache.insert (podKey informer.namespace_ pod) pod)) ∅
    resourceVersion := some version
    synced := true }

end Methods

/-- What a stream has still to give: pods of its first listing, and later events. -/
structure Stream (α : Type) where
  listing : List (Pod α)
  later : List (RawEvent α)

def Stream.pending (stream : Stream α) : List (RawEvent α) :=
  stream.listing.map (fun pod => ⟨.added, pod⟩) ++ stream.later

structure State (α : Type) where
  -- The events of the pods so far, in the order of their versions.
  history : List (RawEvent α) := []
  version : Nat := 0
  informer : ResourceInformer α
  stream : Option (Stream α) := none

def change (namespace_ : Str) (raw : RawEvent α) : Change Str (Pod α) :=
  if raw.type = .deleted then .del (podKey namespace_ raw.object)
  else .put (podKey namespace_ raw.object) raw.object

def changes (namespace_ : Str) (events : List (RawEvent α)) : List (Change Str (Pod α)) :=
  events.map (change namespace_)

def State.living (s : State α) : Table Str (Pod α) := replay ∅ (changes s.informer.namespace_ s.history)

def State.after (s : State α) (version : Nat) : List (RawEvent α) :=
  s.history.filter fun event => version < event.object.resourceVersion

inductive Action (α : Type) where
  -- A pod changes.
  | change (event : RawEvent α)
  -- Something else in the cluster changes.
  | tick
  -- The informer opens a stream. Without a version it lists the living pods, in any order.
  | connect (order : List (Pod α))
  | handle
  -- The stream ends or fails, or it answers 410 and the list fails too.
  | ends
  -- The next event is recorded, and the stream fails before it is stored.
  | breaks
  -- A stream, or the opening of one, answers 410, and the list gives the living pods in any order.
  | gone (order : List (Pod α))

def State.Lists (s : State α) (order : List (Pod α)) : Prop :=
  order.Perm (s.living.entries.map Sigma.snd)

instance [DecidableEq α] (s : State α) (order : List (Pod α)) : Decidable (s.Lists order) :=
  inferInstanceAs (Decidable (order.Perm (s.living.entries.map Sigma.snd)))

def State.opened (s : State α) (order : List (Pod α)) : Stream α :=
  match s.informer.resourceVersion with
  | none => ⟨order, []⟩
  | some version => ⟨[], s.after version⟩

def Stream.rest (stream : Stream α) : Stream α :=
  match stream.listing with
  | [] => ⟨[], stream.later.tail⟩
  | _ :: listing => ⟨listing, stream.later⟩

def step [DecidableEq α] (s : State α) : Action α → Option (State α)
  | .change event =>
    let next : State α :=
      { s with
        history := s.history ++ [event]
        version := event.object.resourceVersion
        stream := s.stream.map fun stream => { stream with later := stream.later ++ [event] } }
    if s.version < event.object.resourceVersion ∧ next.living.entries.length ≤ cacheMaxEntries then
      some next
    else none
  | .tick => some { s with version := s.version + 1 }
  | .connect order =>
    if s.stream.isNone ∧ (s.informer.resourceVersion = none → s.Lists order) then
      some { s with stream := some (s.opened order) }
    else none
  | .handle => do
    let stream ← s.stream
    let event ← stream.pending.head?
    return { s with informer := s.informer.streamEvent event, stream := some stream.rest }
  | .ends => s.stream.map fun _ => { s with stream := none }
  | .breaks => do
    let stream ← s.stream
    let event ← stream.pending.head?
    return { s with informer := s.informer.recordResourceVersion event, stream := none }
  | .gone order =>
    if s.Lists order then
      some { s with informer := s.informer.relist order s.version, stream := none }
    else none

/-- Whenever the current stream has nothing left to give, the cache holds the living pods. -/
def Mirrors (s : State α) : Prop :=
  ∀ stream, s.stream = some stream → stream.pending = [] →
    ∀ key, s.informer.cache.lookup key = s.living.lookup key

end DevopsCli.K8s.Informer
