import DevopsCli.K8s.Informer

/- The cache of the informer against the living pods, over any order of events, streams and breaks. -/
namespace DevopsCli.K8s.Informer
open PyStr DevopsCli.Run DevopsCli.Replay

variable {α : Type}

/-- The events that are to come make the cache hold the living pods, and it never holds more than
    its cap on the way. -/
structure Catches (namespace_ : Str) (cache : Table Str (Pod α)) (pending : List (RawEvent α))
    (living : Table Str (Pod α)) : Prop where
  ends : ∀ k, (replay cache (changes namespace_ pending)).lookup k = living.lookup k
  fits : ∀ first, first <+: pending →
    (replay cache (changes namespace_ first)).entries.length ≤ cacheMaxEntries

/-- Each of the pods still changes after the version, and the events after it never put more than
    the cap of pods in the cache. -/
structure Resumable (s : State α) (owed : List (Pod α)) (version : Nat) : Prop where
  changed : ∀ pod ∈ owed, podKey s.informer.namespace_ pod ∈
    (changes s.informer.namespace_ (s.after version)).map Change.key
  fits : ∀ first, first <+: s.after version →
    (replay s.informer.cache (changes s.informer.namespace_ first)).entries.length ≤ cacheMaxEntries

/-- A stream that ends owes no pod of its listing, or each of these still changes after the version
    that was recorded last. -/
def Safe (s : State α) : Action α → Prop
  | .ends => ∀ stream version, s.stream = some stream → s.informer.resourceVersion = some version →
      Resumable s stream.listing version
  | .breaks => ∀ stream event, s.stream = some stream → stream.pending.head? = some event →
      Resumable s (event.object :: stream.listing) event.object.resourceVersion
  | _ => True

section Steps
variable {namespace_ : Str} {cache living : Table Str (Pod α)} {pending : List (RawEvent α)}
  {event : RawEvent α} {informer : ResourceInformer α}

@[simp] theorem change_key : (change namespace_ event).key = podKey namespace_ event.object := by
  rw [change]
  split_ifs
  · rfl
  · rfl

theorem changes_append {first later : List (RawEvent α)} :
    changes namespace_ (first ++ later) = changes namespace_ first ++ changes namespace_ later :=
  List.map_append

@[simp] theorem recordResourceVersion_namespace :
    (informer.recordResourceVersion event).namespace_ = informer.namespace_ := rfl

@[simp] theorem streamEvent_namespace :
    (informer.streamEvent event).namespace_ = informer.namespace_ := by
  simp only [ResourceInformer.streamEvent, ResourceInformer.updateCache]
  split_ifs
  · rfl
  · rfl

theorem streamEvent_version :
    (informer.streamEvent event).resourceVersion = some event.object.resourceVersion := by
  simp only [ResourceInformer.streamEvent, ResourceInformer.updateCache]
  split_ifs
  · rfl
  · rfl

theorem streamEvent_cache
    (fits : (write informer.cache (change informer.namespace_ event)).entries.length ≤
      cacheMaxEntries) :
    (informer.streamEvent event).cache = write informer.cache (change informer.namespace_ event) := by
  by_cases deleted : event.type = .deleted
  · have removed : (informer.streamEvent event).cache =
        informer.cache.erase (podKey informer.namespace_ event.object) :=
      congrArg ResourceInformer.cache (if_pos deleted)
    rw [removed, change, if_pos deleted, write]
  · have stored : (informer.streamEvent event).cache = evict cacheMaxEntries
        (informer.cache.insert (podKey informer.namespace_ event.object) event.object) :=
      congrArg ResourceInformer.cache (if_neg deleted)
    rw [change, if_neg deleted, write] at fits ⊢
    rw [stored, evict_of_le fits]

theorem Catches.next (catches : Catches namespace_ cache (event :: pending) living) :
    Catches namespace_ (write cache (change namespace_ event)) pending living where
  ends := catches.ends
  fits first within := catches.fits (event :: first) (List.cons_prefix_cons.mpr ⟨rfl, within⟩)

theorem Catches.size (catches : Catches namespace_ cache (event :: pending) living) :
    (write cache (change namespace_ event)).entries.length ≤ cacheMaxEntries :=
  catches.next.fits [] List.nil_prefix

theorem Catches.more (catches : Catches namespace_ cache pending living)
    (room : (write living (change namespace_ event)).entries.length ≤ cacheMaxEntries) :
    Catches namespace_ cache (pending ++ [event]) (write living (change namespace_ event)) := by
  have ends (k : Str) : (replay cache (changes namespace_ (pending ++ [event]))).lookup k =
      (write living (change namespace_ event)).lookup k := by
    rw [changes_append, replay_append]
    show (replay _ [change namespace_ event]).lookup k = (replay living [change namespace_ event]).lookup k
    exact lookup_replay_agree fun _ => catches.ends k
  refine ⟨ends, fun first within => ?_⟩
  rcases List.prefix_concat_iff.mp within with rfl | shorter
  · rw [size_congr ends]
    exact room
  · exact catches.fits first shorter

theorem relist_cache {items : List (Pod α)} {version : Nat}
    (room : items.length ≤ cacheMaxEntries) :
    (informer.relist items version).cache = replay ∅ (puts (podKey informer.namespace_) items) := by
  have fills (table : Table Str (Pod α)) (fits : table.entries.length + items.length ≤ cacheMaxEntries) :
      items.foldl (fun cache pod => evict cacheMaxEntries
        (cache.insert (podKey informer.namespace_ pod) pod)) table =
      replay table (puts (podKey informer.namespace_) items) := by
    clear room
    induction items generalizing table with
    | nil => rfl
    | cons pod rest ih =>
      rw [List.length_cons] at fits
      have one : (write table (.put (podKey informer.namespace_ pod) pod)).entries.length ≤
        table.entries.length + 1 := size_write_le
      rw [List.foldl_cons, evict_of_le (by simp only [write] at one; omega), ih _ (by
        simp only [write] at one; omega)]
      rfl
  exact fills ∅ (by simpa using room)

end Steps

section Law
variable {s t : State α} {stream : Stream α} {event : RawEvent α} {order : List (Pod α)}

/-- What an open stream has still to give: pods that were listed before its later events, and later
    events in the order of their versions. -/
structure Follows (s : State α) (stream : Stream α) : Prop where
  catches : Catches s.informer.namespace_ s.informer.cache stream.pending s.living
  ordered : stream.later.Pairwise fun a b => a.object.resourceVersion < b.object.resourceVersion
  happened : ∀ one ∈ stream.later, one ∈ s.history
  later : ∀ version, s.informer.resourceVersion = some version →
    ∀ one ∈ stream.later, version < one.object.resourceVersion
  listed : ∀ pod ∈ stream.listing, pod.resourceVersion ≤ s.version ∧
    ∀ one ∈ stream.later, pod.resourceVersion < one.object.resourceVersion

structure Inv (s : State α) : Prop where
  ordered : s.history.Pairwise fun a b => a.object.resourceVersion < b.object.resourceVersion
  latest : ∀ one ∈ s.history, one.object.resourceVersion ≤ s.version
  room : s.living.entries.length ≤ cacheMaxEntries
  recorded : ∀ version, s.informer.resourceVersion = some version → version ≤ s.version
  unread : s.informer.resourceVersion = none → s.informer.cache = ∅
  closed : ∀ version, s.stream = none → s.informer.resourceVersion = some version →
    Catches s.informer.namespace_ s.informer.cache (s.after version) s.living
  opened : ∀ stream, s.stream = some stream → Follows s stream

theorem history_split (version : Nat) (ordered : s.history.Pairwise fun a b =>
    a.object.resourceVersion < b.object.resourceVersion) :
    ∃ before, s.history = before ++ s.after version := by
  rw [State.after]
  generalize s.history = history at ordered
  induction history with
  | nil => exact ⟨[], rfl⟩
  | cons first rest ih =>
    obtain ⟨below, ordered⟩ := List.pairwise_cons.mp ordered
    by_cases after : version < first.object.resourceVersion
    · have all : rest.filter (fun event => version < event.object.resourceVersion) = rest := by
        rw [List.filter_eq_self]
        intro one mem
        have := below one mem
        exact decide_eq_true (by omega)
      exact ⟨[], by rw [List.filter_cons_of_pos (by simpa using after), all]; rfl⟩
    · obtain ⟨before, split⟩ := ih ordered
      refine ⟨first :: before, ?_⟩
      rw [List.filter_cons_of_neg (by simpa using after), List.cons_append, ← split]

theorem resumable_catches (inv : Inv s) (follows : Follows s stream) {owed : List (Pod α)}
    {version : Nat} (resumable : Resumable s owed version)
    (covers : ∀ one ∈ stream.pending, one.object ∈ owed ∨ one ∈ s.after version) :
    Catches s.informer.namespace_ s.informer.cache (s.after version) s.living := by
  refine ⟨fun k => ?_, resumable.fits⟩
  obtain ⟨before, split⟩ := history_split version inv.ordered
  have living : s.living = replay (replay ∅ (changes s.informer.namespace_ before))
      (changes s.informer.namespace_ (s.after version)) := by
    rw [State.living, split, changes_append, replay_append]
  rw [living]
  refine lookup_replay_agree fun untouched => ?_
  have given : k ∉ (changes s.informer.namespace_ stream.pending).map Change.key := by
    intro touched
    simp only [changes, List.map_map, List.mem_map, Function.comp_apply, change_key] at touched
    obtain ⟨one, mem, rfl⟩ := touched
    rcases covers one mem with owes | after
    · exact untouched (resumable.changed _ owes)
    · refine untouched ?_
      simp only [changes, List.map_map, List.mem_map, Function.comp_apply, change_key]
      exact ⟨one, after, rfl⟩
  rw [← lookup_replay_untouched given, follows.catches.ends k, living,
    lookup_replay_untouched untouched]

theorem pending_rest (given : stream.pending.head? = some event) :
    stream.pending = event :: stream.rest.pending := by
  obtain ⟨listing, later⟩ := stream
  cases listing with
  | nil =>
    cases later with
    | nil => cases given
    | cons first rest =>
      cases given
      rfl
  | cons pod rest =>
    cases given
    rfl

theorem head_cases (given : stream.pending.head? = some event) :
    (∃ rest, stream.listing = event.object :: rest ∧ stream.rest = ⟨rest, stream.later⟩) ∨
      ∃ rest, stream.listing = [] ∧ stream.later = event :: rest ∧ stream.rest = ⟨[], rest⟩ := by
  obtain ⟨listing, later⟩ := stream
  cases listing with
  | nil =>
    cases later with
    | nil => cases given
    | cons first rest =>
      cases given
      exact .inr ⟨rest, rfl, rfl, rfl⟩
  | cons pod rest =>
    cases given
    exact .inl ⟨rest, rfl, rfl⟩

/-- A pod that changes is later than all that the informer has recorded, so it is still to come. -/
theorem after_more {version : Nat} (below : version < event.object.resourceVersion)
    (next : t.history = s.history ++ [event]) : t.after version = s.after version ++ [event] := by
  rw [State.after, next, List.filter_append, State.after, List.filter_cons_of_pos (by simpa using below)]
  rfl

theorem change_inv (inv : Inv s) (newer : s.version < event.object.resourceVersion)
    (room : (write s.living (change s.informer.namespace_ event)).entries.length ≤ cacheMaxEntries) :
    Inv { s with
      history := s.history ++ [event]
      version := event.object.resourceVersion
      stream := s.stream.map fun stream => { stream with later := stream.later ++ [event] } } := by
  have below {version : Nat} (recorded : s.informer.resourceVersion = some version) :
      version < event.object.resourceVersion := lt_of_le_of_lt (inv.recorded version recorded) newer
  have living : (State.mk (s.history ++ [event]) event.object.resourceVersion s.informer
      (s.stream.map fun stream => { stream with later := stream.later ++ [event] })).living =
      write s.living (change s.informer.namespace_ event) := by
    rw [State.living, changes_append, replay_append]
    rfl
  have newest : ∀ one ∈ s.history, one.object.resourceVersion < event.object.resourceVersion :=
    fun one mem => lt_of_le_of_lt (inv.latest one mem) newer
  refine ⟨?_, ?_, ?_, ?_, inv.unread, ?_, ?_⟩
  · rw [List.pairwise_append]
    refine ⟨inv.ordered, List.pairwise_singleton _ _, fun a before b own => ?_⟩
    rw [List.mem_singleton.mp own]
    exact newest a before
  · intro one mem
    rcases List.mem_append.mp mem with before | own
    · exact (newest one before).le
    · rw [List.mem_singleton.mp own]
  · rw [living]
    exact room
  · exact fun version recorded => (below recorded).le
  · intro version closed recorded
    have none_ : s.stream = none := Option.map_eq_none_iff.mp closed
    rw [living, after_more (below recorded) rfl]
    exact (inv.closed version none_ recorded).more room
  · intro stream opened
    obtain ⟨old, here, rfl⟩ := Option.map_eq_some_iff.mp opened
    have follows := inv.opened old here
    refine ⟨?_, ?_, ?_, ?_, ?_⟩
    · rw [living]
      have pending : Stream.pending { old with later := old.later ++ [event] } =
          old.pending ++ [event] := by
        rw [Stream.pending, Stream.pending, List.append_assoc]
      rw [pending]
      exact follows.catches.more room
    · rw [List.pairwise_append]
      refine ⟨follows.ordered, List.pairwise_singleton _ _, fun a before b own => ?_⟩
      rw [List.mem_singleton.mp own]
      exact newest a (follows.happened a before)
    · intro one mem
      rcases List.mem_append.mp mem with before | own
      · exact List.mem_append_left _ (follows.happened one before)
      · exact List.mem_append_right _ own
    · intro version recorded one mem
      rcases List.mem_append.mp mem with before | own
      · exact follows.later version recorded one before
      · rw [List.mem_singleton.mp own]
        exact below recorded
    · intro pod mem
      obtain ⟨old_, before⟩ := follows.listed pod mem
      refine ⟨old_.trans newer.le, fun one mem => ?_⟩
      rcases List.mem_append.mp mem with earlier | own
      · exact before one earlier
      · rw [List.mem_singleton.mp own]
        exact lt_of_le_of_lt old_ newer

theorem tick_inv (inv : Inv s) : Inv { s with version := s.version + 1 } where
  ordered := inv.ordered
  latest one mem := Nat.le_succ_of_le (inv.latest one mem)
  room := inv.room
  recorded version recorded := Nat.le_succ_of_le (inv.recorded version recorded)
  unread := inv.unread
  closed := inv.closed
  opened stream opened :=
    have follows := inv.opened stream opened
    ⟨follows.catches, follows.ordered, follows.happened, follows.later, fun pod mem =>
      ⟨Nat.le_succ_of_le (follows.listed pod mem).1, (follows.listed pod mem).2⟩⟩

theorem handle_inv (inv : Inv s) (opened : s.stream = some stream)
    (given : stream.pending.head? = some event) :
    Inv { s with informer := s.informer.streamEvent event, stream := some stream.rest } := by
  have follows := inv.opened stream opened
  have catches := follows.catches
  rw [pending_rest given] at catches
  have cache := streamEvent_cache catches.size
  have living : (State.mk s.history s.version (s.informer.streamEvent event) (some stream.rest)).living =
      s.living := by
    rw [State.living, streamEvent_namespace, State.living]
  have old : event.object.resourceVersion ≤ s.version := by
    rcases head_cases given with ⟨rest, listing, -⟩ | ⟨rest, -, later, -⟩
    · exact (follows.listed _ (listing ▸ List.mem_cons_self)).1
    · exact inv.latest _ (follows.happened _ (later ▸ List.mem_cons_self))
  refine ⟨inv.ordered, inv.latest, by rw [living]; exact inv.room, ?_, ?_, ?_, ?_⟩
  · intro version recorded
    rw [streamEvent_version] at recorded
    exact Option.some.inj recorded ▸ old
  · intro none_
    rw [streamEvent_version] at none_
    cases none_
  · intro version closed
    cases closed
  · intro next here
    cases here
    refine ⟨?_, ?_, ?_, ?_, ?_⟩
    · rw [living, streamEvent_namespace, cache]
      exact catches.next
    · rcases head_cases given with ⟨rest, -, shape⟩ | ⟨rest, -, later, shape⟩
      · rw [shape]
        exact follows.ordered
      · rw [shape]
        have ordered := follows.ordered
        rw [later] at ordered
        exact (List.pairwise_cons.mp ordered).2
    · intro one mem
      rcases head_cases given with ⟨rest, -, shape⟩ | ⟨rest, -, later, shape⟩
      · rw [shape] at mem
        exact follows.happened one mem
      · rw [shape] at mem
        exact follows.happened one (later ▸ List.mem_cons_of_mem _ mem)
    · intro version recorded one mem
      rw [streamEvent_version] at recorded
      obtain rfl := Option.some.inj recorded
      rcases head_cases given with ⟨rest, listing, shape⟩ | ⟨rest, -, later, shape⟩
      · rw [shape] at mem
        exact (follows.listed _ (listing ▸ List.mem_cons_self)).2 one mem
      · rw [shape] at mem
        have ordered := follows.ordered
        rw [later] at ordered
        exact (List.pairwise_cons.mp ordered).1 one mem
    · intro pod mem
      rcases head_cases given with ⟨rest, listing, shape⟩ | ⟨rest, -, -, shape⟩
      · rw [shape] at mem ⊢
        exact follows.listed pod (listing ▸ List.mem_cons_of_mem _ mem)
      · rw [shape] at mem
        exact absurd mem List.not_mem_nil

theorem living_source {k : Str} {pod : Pod α} (held : s.living.lookup k = some pod) :
    podKey s.informer.namespace_ pod = k ∧ ∃ one ∈ s.history, one.object = pod := by
  rcases lookup_replay_source held with before | given
  · cases before
  · obtain ⟨one, mem, same⟩ := List.mem_map.mp given
    rw [change] at same
    split_ifs at same
    cases same
    exact ⟨rfl, one, mem, rfl⟩

theorem lists_size (lists : s.Lists order) : order.length = s.living.entries.length := by
  rw [lists.length_eq, List.length_map]

theorem listing_catches (inv : Inv s) (lists : s.Lists order) :
    Catches s.informer.namespace_ ∅ (Stream.pending ⟨order, []⟩) s.living := by
  have filled : changes s.informer.namespace_ (Stream.pending ⟨order, []⟩) =
      puts (podKey s.informer.namespace_) order := by
    rw [Stream.pending, List.append_nil, changes, List.map_map, puts]
    rfl
  refine ⟨fun k => ?_, fun first within => ?_⟩
  · rw [filled]
    exact lookup_replay_listing (fun _ _ held => (living_source held).1) lists
  · have size : (replay ∅ (changes s.informer.namespace_ first)).entries.length ≤
        (∅ : Table Str (Pod α)).entries.length + (changes s.informer.namespace_ first).length :=
      size_replay_le
    have shorter := within.length_le
    have count : (changes s.informer.namespace_ first).length = first.length := List.length_map _
    simp only [Stream.pending, List.append_nil, List.length_map] at shorter
    rw [count, AList.empty_entries, List.length_nil] at size
    have room := inv.room
    rw [← lists_size lists] at room
    omega

theorem connect_inv (inv : Inv s) (closed : s.stream = none)
    (lists : s.informer.resourceVersion = none → s.Lists order) :
    Inv { s with stream := some (s.opened order) } := by
  refine ⟨inv.ordered, inv.latest, inv.room, inv.recorded, inv.unread, ?_, ?_⟩
  · intro version none_
    cases none_
  · intro stream here
    cases here
    cases known : s.informer.resourceVersion with
    | none =>
      have shape : s.opened order = ⟨order, []⟩ := by rw [State.opened, known]
      rw [shape]
      refine ⟨?_, List.Pairwise.nil, fun _ mem => absurd mem List.not_mem_nil,
        fun _ _ _ mem => absurd mem List.not_mem_nil, fun pod mem => ⟨?_, ?_⟩⟩
      · have catches := listing_catches inv (lists known)
        rw [← inv.unread known] at catches
        exact catches
      · obtain ⟨entry, inside, rfl⟩ := List.mem_map.mp ((lists known).mem_iff.mp mem)
        obtain ⟨-, one, happened, own⟩ := living_source (AList.mem_lookup_iff.mpr inside)
        rw [← own]
        exact inv.latest one happened
      · exact fun _ mem => absurd mem List.not_mem_nil
    | some version =>
      have shape : s.opened order = ⟨[], s.after version⟩ := by rw [State.opened, known]
      rw [shape]
      refine ⟨inv.closed version closed known, inv.ordered.filter _, ?_, ?_, ?_⟩
      · exact fun one mem => List.mem_of_mem_filter mem
      · intro other recorded one mem
        rw [known] at recorded
        obtain rfl := Option.some.inj recorded
        exact of_decide_eq_true (List.mem_filter.mp mem).2
      · exact fun pod mem => absurd mem List.not_mem_nil

theorem ends_inv (inv : Inv s) (opened : s.stream = some stream)
    (safe : ∀ version, s.informer.resourceVersion = some version →
      Resumable s stream.listing version) : Inv { s with stream := none } := by
  refine ⟨inv.ordered, inv.latest, inv.room, inv.recorded, inv.unread, ?_, ?_⟩
  · intro version _ recorded
    have follows := inv.opened stream opened
    refine resumable_catches inv follows (safe version recorded) fun one mem => ?_
    rcases List.mem_append.mp mem with listed | later
    · obtain ⟨pod, owed, rfl⟩ := List.mem_map.mp listed
      exact .inl owed
    · exact .inr (List.mem_filter.mpr ⟨follows.happened one later,
        decide_eq_true (follows.later version recorded one later)⟩)
  · intro other here
    cases here

theorem breaks_inv (inv : Inv s) (opened : s.stream = some stream)
    (given : stream.pending.head? = some event)
    (safe : Resumable s (event.object :: stream.listing) event.object.resourceVersion) :
    Inv { s with informer := s.informer.recordResourceVersion event, stream := none } := by
  have follows := inv.opened stream opened
  have catches : Catches s.informer.namespace_ s.informer.cache
      (s.after event.object.resourceVersion) s.living := by
    refine resumable_catches inv follows safe fun one mem => ?_
    rcases head_cases given with ⟨rest, listing, -⟩ | ⟨rest, -, later, -⟩
    · rcases List.mem_append.mp mem with listed | after
      · obtain ⟨pod, owed, rfl⟩ := List.mem_map.mp listed
        exact .inl (List.mem_cons_of_mem _ owed)
      · have newer := (follows.listed _ (listing ▸ List.mem_cons_self)).2 one after
        exact .inr (List.mem_filter.mpr ⟨follows.happened one after, decide_eq_true newer⟩)
    · rcases List.mem_append.mp mem with listed | after
      · obtain ⟨pod, owed, rfl⟩ := List.mem_map.mp listed
        exact .inl (List.mem_cons_of_mem _ owed)
      · have happened := follows.happened one after
        have ordered := follows.ordered
        rw [later] at after ordered
        rcases List.mem_cons.mp after with rfl | rest_
        · exact .inl List.mem_cons_self
        · have newer := (List.pairwise_cons.mp ordered).1 one rest_
          exact .inr (List.mem_filter.mpr ⟨happened, decide_eq_true newer⟩)
  have old : event.object.resourceVersion ≤ s.version := by
    rcases head_cases given with ⟨rest, listing, -⟩ | ⟨rest, -, later, -⟩
    · exact (follows.listed _ (listing ▸ List.mem_cons_self)).1
    · exact inv.latest _ (follows.happened _ (later ▸ List.mem_cons_self))
  refine ⟨inv.ordered, inv.latest, inv.room, ?_, ?_, ?_, ?_⟩
  · intro version recorded
    exact Option.some.inj recorded ▸ old
  · intro none_
    cases none_
  · intro version _ recorded
    exact Option.some.inj recorded ▸ catches
  · intro other here
    cases here

theorem gone_inv (inv : Inv s) (lists : s.Lists order) :
    Inv { s with informer := s.informer.relist order s.version, stream := none } := by
  have cache : (s.informer.relist order s.version).cache =
      replay ∅ (puts (podKey s.informer.namespace_) order) :=
    relist_cache (lists_size lists ▸ inv.room)
  have held (k : Str) : (s.informer.relist order s.version).cache.lookup k = s.living.lookup k := by
    rw [cache]
    exact lookup_replay_listing (fun _ _ held => (living_source held).1) lists
  refine ⟨inv.ordered, inv.latest, inv.room, ?_, ?_, ?_, ?_⟩
  · intro version recorded
    exact (Option.some.inj recorded).ge
  · intro none_
    cases none_
  · intro version _ recorded
    obtain rfl := Option.some.inj recorded
    have none_ : State.after { s with
        informer := s.informer.relist order s.version, stream := none } s.version = [] := by
      refine List.filter_eq_nil_iff.mpr fun one mem => ?_
      have := inv.latest one mem
      simpa using this
    rw [none_]
    refine ⟨held, fun first within => ?_⟩
    rw [List.prefix_nil.mp within]
    show (s.informer.relist order s.version).cache.entries.length ≤ cacheMaxEntries
    rw [size_congr held]
    exact inv.room
  · intro other here
    cases here

theorem step_inv [DecidableEq α] {action : Action α} (inv : Inv s) (safe : Safe s action)
    (taken : step s action = some t) : Inv t := by
  cases action with
  | change event =>
    simp only [step] at taken
    split_ifs at taken with allowed
    cases taken
    refine change_inv inv allowed.1 ?_
    have room := allowed.2
    rw [State.living, changes_append, replay_append] at room
    exact room
  | tick =>
    cases taken
    exact tick_inv inv
  | connect order =>
    simp only [step] at taken
    split_ifs at taken with allowed
    cases taken
    exact connect_inv inv (Option.isNone_iff_eq_none.mp allowed.1) allowed.2
  | handle =>
    simp only [step, Option.bind_eq_bind, Option.bind_eq_some_iff] at taken
    obtain ⟨stream, opened, event, given, made⟩ := taken
    cases made
    exact handle_inv inv opened given
  | ends =>
    obtain ⟨stream, opened, rfl⟩ := Option.map_eq_some_iff.mp taken
    exact ends_inv inv opened fun version recorded => safe stream version opened recorded
  | breaks =>
    simp only [step, Option.bind_eq_bind, Option.bind_eq_some_iff] at taken
    obtain ⟨stream, opened, event, given, made⟩ := taken
    cases made
    exact breaks_inv inv opened given (safe stream event opened given)
  | gone order =>
    simp only [step] at taken
    split_ifs at taken with lists
    cases taken
    exact gone_inv inv lists

def begin_ (namespace_ : Str) : State α := { informer := { namespace_ := namespace_ } }

theorem begin_inv (namespace_ : Str) : Inv (begin_ namespace_ : State α) where
  ordered := List.Pairwise.nil
  latest _ mem := absurd mem List.not_mem_nil
  room := Nat.zero_le _
  recorded _ recorded := by cases recorded
  unread _ := rfl
  closed _ _ recorded := by cases recorded
  opened _ here := by cases here

theorem inv_mirrors (inv : Inv s) : Mirrors s := by
  intro stream opened handled key
  have caught := (inv.opened stream opened).catches.ends key
  rw [handled] at caught
  exact caught

/-- In every run whose streams end safely, an informer that has handled all that its stream has to
    give holds the living pods. -/
theorem cache_mirrors [DecidableEq α] {namespace_ : Str} {actions : List (Action α)}
    (run : exec step (begin_ namespace_) actions = some s)
    (safe : Meets step Safe (begin_ namespace_) actions) : Mirrors s :=
  inv_mirrors (exec_invariant Inv (fun _ _ _ inv safe taken => step_inv inv safe taken)
    (begin_inv namespace_) safe run)

end Law

section Instances

def podNamed (name : Char) (version : Nat) : Pod Unit := ⟨[name], "d".toList, version, ()⟩

def appears (name : Char) (version : Nat) : Action Unit := .change ⟨.added, podNamed name version⟩

def oneListed : State Unit where
  history := [⟨.added, podNamed 'a' 1⟩]
  version := 1
  informer := (ResourceInformer.mk "d".toList ∅ none false).streamEvent ⟨.added, podNamed 'a' 1⟩
  stream := some ⟨[], []⟩

theorem exec_oneListed :
    exec step (begin_ "d".toList) [appears 'a' 1, .connect [podNamed 'a' 1], .handle] =
      some oneListed := by
  rfl

theorem oneListed_ends : Safe oneListed .ends := by
  intro stream version opened recorded
  cases opened
  cases recorded
  refine ⟨fun pod owed => absurd owed List.not_mem_nil, fun first within => ?_⟩
  rw [List.prefix_nil.mp (show first <+: [] from within)]
  decide

theorem cache_mirrors_one :
    Mirrors { oneListed with stream := some (State.opened { oneListed with stream := none } []) } := by
  have run : exec step (begin_ "d".toList) ([appears 'a' 1, .connect [podNamed 'a' 1], .handle] ++
      [.ends, .connect []]) = some { oneListed with
        stream := some (State.opened { oneListed with stream := none } []) } := rfl
  refine cache_mirrors run ((meets_append exec_oneListed).mpr ⟨?_, ?_⟩)
  · exact ⟨trivial, fun _ _ => ⟨trivial, fun _ _ => ⟨trivial, fun _ _ => trivial⟩⟩⟩
  · exact ⟨oneListed_ends, fun _ _ => ⟨trivial, fun _ _ => trivial⟩⟩

/-- The first stream breaks in its listing, after the pod with the later version: the next stream
    begins after both pods, and the other one is never in the cache. -/
theorem broken_listing_loses_pod :
    ∃ s, exec step (begin_ "d".toList) [appears 'a' 1, appears 'b' 2,
      .connect [podNamed 'b' 2, podNamed 'a' 1], .handle, .ends, .connect []] = some s ∧
      ¬Mirrors s := by
  refine ⟨_, rfl, fun mirrors => ?_⟩
  have held := mirrors _ rfl rfl "d/a".toList
  exact absurd held (by decide)

end Instances
end DevopsCli.K8s.Informer
