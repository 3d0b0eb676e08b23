import DevopsCli.Lib.PyDict
import DevopsCli.Telemetry.TraceContext

/- The two carriers of a trace context, telemetry/propagation.py: the headers of a request, which
   are copied, and the environment of a process, which is changed. The names of headers have no
   case, those of variables have. -/
namespace DevopsCli.Telemetry
open PyStr

def traceparentHeader : Str := "traceparent".toList
def tracestateHeader : Str := "tracestate".toList
def traceparentEnvVar : Str := "TRACEPARENT".toList
def tracestateEnvVar : Str := "TRACESTATE".toList

abbrev Headers := Dict Str Str
abbrev Environ := Dict Str Str

/-- str.lower, which is known for the characters below 128. -/
structure Lowering where
  lower : Str → Str
  ascii : ∀ text, (∀ c ∈ text, c.toNat < 128) → lower text = text.map Char.toLower

def truthy (value : Option Str) : Option Str := value.filter (· ≠ [])

section Headers
variable (casing : Lowering)

def without (headers : Headers) (name : Str) : Headers :=
  headers.only fun key => decide (casing.lower key ≠ casing.lower name)

def injectHeaders (c : TraceContext) (headers : Option Headers) : Headers :=
  let result := (without casing (headers.getD {}) traceparentHeader).set traceparentHeader
    c.toTraceparent
  match truthy c.traceState with
  | some state => (without casing result tracestateHeader).set tracestateHeader state
  | none => result

def extractHeaders (headers : Headers) : Option TraceContext :=
  let folded := headers.folded casing.lower
  parseTraceparent (folded.get traceparentHeader) (folded.get tracestateHeader)

end Headers

def injectEnv (c : TraceContext) (env : Environ) : Environ :=
  let env := (env.set traceparentEnvVar c.toTraceparent).pop traceparentHeader
  let env := match truthy c.traceState with
    | some state => env.set tracestateEnvVar state
    | none => env.pop tracestateEnvVar
  env.pop tracestateHeader

def getEither (source : Environ) (first second : Str) : Option Str :=
  (truthy (source.get first)).or (source.get second)

def extractEnv (environ : Environ) (env : Option Environ) : Option TraceContext :=
  let source := env.getD environ
  parseTraceparent (getEither source traceparentEnvVar traceparentHeader)
    (getEither source tracestateEnvVar tracestateHeader)

/-- After c was written into a carrier: c is what is read, every name that belongs to neither field
    has its value, one spelling of traceparent stands there and no second one of tracestate. -/
structure Carries (parent state : Str → Prop) (c : TraceContext) (before after : Dict Str Str)
    (read : Option TraceContext) : Prop where
  read : read = some c
  others : ∀ name, ¬parent name → ¬state name → after.get name = before.get name
  oneParent : ∃! name, parent name ∧ (after.get name).isSome
  oneState : ∀ a b, state a → state b → (after.get a).isSome → (after.get b).isSome → a = b

def HeadersCarry (casing : Lowering) (c : TraceContext) (headers : Option Headers) : Prop :=
  Carries (casing.lower · = traceparentHeader) (casing.lower · = tracestateHeader) c
    (headers.getD {}) (injectHeaders casing c headers)
    (extractHeaders casing (injectHeaders casing c headers))

def EnvCarries (c : TraceContext) (environ env : Environ) : Prop :=
  Carries (fun name => name = traceparentEnvVar ∨ name = traceparentHeader)
    (fun name => name = tracestateEnvVar ∨ name = tracestateHeader) c env (injectEnv c env)
    (extractEnv environ (some (injectEnv c env)))

/-- A context without a state meets no state in the headers: at most one spelling of the name, with
    a value that has no member. -/
def NoStaleState (casing : Lowering) (c : TraceContext) (headers : Headers) : Prop :=
  c.traceState = none →
    (∀ a b, casing.lower a = tracestateHeader → casing.lower b = tracestateHeader →
      (headers.get a).isSome → (headers.get b).isSome → a = b) ∧
    ∀ name value, casing.lower name = tracestateHeader → headers.get name = some value →
      sanitizeTracestate (some value) = none

section Injected
variable {casing : Lowering} {c : TraceContext} {headers : Headers} {k v : Str}

theorem lower_parent (casing : Lowering) : casing.lower traceparentHeader = traceparentHeader := by
  rw [casing.ascii _ (List.all_iff_forall_prop.mp (by decide))]
  decide

theorem lower_state (casing : Lowering) : casing.lower tracestateHeader = tracestateHeader := by
  rw [casing.ascii _ (List.all_iff_forall_prop.mp (by decide))]
  decide

theorem parent_ne_state : traceparentHeader ≠ tracestateHeader := by decide

theorem truthy_state (valid : c.Valid) : truthy c.traceState = c.traceState := by
  have solid := state_ne_nil valid
  cases state : c.traceState with
  | none => rfl
  | some text =>
    rw [state] at solid
    have some_ : text ≠ [] := fun empty => solid (by rw [empty])
    simp [truthy, some_]

theorem mem_without {name : Str} :
    (k, v) ∈ without casing headers name ↔
      (k, v) ∈ headers ∧ casing.lower k ≠ casing.lower name := by
  unfold without
  rw [Dict.mem_only, decide_eq_true_eq]

/-- The rows of injected headers: the parent, the state of the context, and what was there under
    another name. Only a context that has a state takes the old ones away. -/
theorem mem_inject (valid : c.Valid) :
    (k, v) ∈ injectHeaders casing c (some headers) ↔
      (k = traceparentHeader ∧ v = c.toTraceparent) ∨
      (k = tracestateHeader ∧ c.traceState = some v) ∨
      ((k, v) ∈ headers ∧ casing.lower k ≠ traceparentHeader ∧
        (c.traceState ≠ none → casing.lower k ≠ tracestateHeader)) := by
  unfold injectHeaders
  rw [truthy_state valid]
  cases state : c.traceState with
  | none =>
    simp only [Option.getD_some, Dict.mem_set, mem_without, lower_parent, Prod.mk.injEq]
    constructor
    · rintro (new | ⟨⟨mem, other⟩, _⟩)
      · exact .inl new
      · exact .inr (.inr ⟨mem, other, fun none_ => absurd rfl none_⟩)
    · rintro (new | ⟨_, none_⟩ | ⟨mem, other, _⟩)
      · exact .inl new
      · cases none_
      · exact .inr ⟨⟨mem, other⟩, fun same => other (by rw [same, lower_parent])⟩
  | some text =>
    simp only [Option.getD_some, Dict.mem_set, mem_without, lower_parent, lower_state, Prod.mk.injEq,
      Option.some.injEq]
    constructor
    · rintro (⟨rfl, rfl⟩ | ⟨⟨new | ⟨⟨mem, other⟩, _⟩, apart⟩, _⟩)
      · exact .inr (.inl ⟨rfl, rfl⟩)
      · exact .inl new
      · exact .inr (.inr ⟨mem, other, fun _ => apart⟩)
    · rintro (⟨rfl, rfl⟩ | ⟨rfl, rfl⟩ | ⟨mem, other, apart⟩)
      · refine .inr ⟨⟨.inl ⟨rfl, rfl⟩, ?_⟩, parent_ne_state⟩
        rw [lower_parent]
        exact parent_ne_state
      · exact .inl ⟨rfl, rfl⟩
      · have away := apart (Option.some_ne_none _)
        refine .inr ⟨⟨.inr ⟨⟨mem, other⟩, fun same => other (by rw [same, lower_parent])⟩, away⟩, ?_⟩
        exact fun same => away (by rw [same, lower_state])

theorem get_inject_other (valid : c.Valid) (parent : casing.lower k ≠ traceparentHeader)
    (state : casing.lower k ≠ tracestateHeader) :
    (injectHeaders casing c (some headers)).get k = headers.get k := by
  apply Option.ext
  intro v
  rw [Dict.get_eq_some, Dict.get_eq_some, mem_inject valid]
  constructor
  · rintro (⟨rfl, _⟩ | ⟨rfl, _⟩ | ⟨mem, _⟩)
    · exact absurd (lower_parent casing) parent
    · exact absurd (lower_state casing) state
    · exact mem
  · intro mem
    exact .inr (.inr ⟨mem, parent, fun _ => state⟩)

theorem parent_row (valid : c.Valid) (mem : (k, v) ∈ injectHeaders casing c (some headers))
    (spelt : casing.lower k = traceparentHeader) : k = traceparentHeader ∧ v = c.toTraceparent := by
  rcases (mem_inject valid).mp mem with new | ⟨rfl, _⟩ | ⟨_, other, _⟩
  · exact new
  · exact absurd (spelt.symm.trans (lower_state casing)) parent_ne_state
  · exact absurd spelt other

theorem state_row (valid : c.Valid) (spelt : casing.lower k = tracestateHeader) :
    (k, v) ∈ injectHeaders casing c (some headers) ↔
      (k = tracestateHeader ∧ c.traceState = some v) ∨ ((k, v) ∈ headers ∧ c.traceState = none) := by
  rw [mem_inject valid]
  constructor
  · rintro (⟨rfl, _⟩ | own | ⟨mem, _, away⟩)
    · exact absurd ((lower_parent casing).symm.trans spelt) parent_ne_state
    · exact .inl own
    · exact .inr ⟨mem, by_contra fun some_ => away some_ spelt⟩
  · rintro (own | ⟨mem, none_⟩)
    · exact .inr (.inl own)
    · refine .inr (.inr ⟨mem, ?_, fun some_ => absurd none_ some_⟩)
      rw [spelt]
      exact parent_ne_state.symm

theorem folded_parent (valid : c.Valid) :
    ((injectHeaders casing c (some headers)).folded casing.lower).get traceparentHeader =
      some c.toTraceparent := by
  apply Dict.get_folded
  · exact ⟨(traceparentHeader, c.toTraceparent), (mem_inject valid).mpr (.inl ⟨rfl, rfl⟩),
      lower_parent casing⟩
  · rintro ⟨k, v⟩ mem spelt
    exact (parent_row valid mem spelt).2

theorem extract_inject (valid : c.Valid) {found : Option Str}
    (state : ((injectHeaders casing c (some headers)).folded casing.lower).get tracestateHeader =
      found) :
    extractHeaders casing (injectHeaders casing c (some headers)) =
      some { c with traceState := sanitizeTracestate found } := by
  unfold extractHeaders
  simp only
  rw [folded_parent valid, state, parse_toTraceparent valid]

theorem folded_own_state (valid : c.Valid) {text : Str} (state : c.traceState = some text) :
    ((injectHeaders casing c (some headers)).folded casing.lower).get tracestateHeader =
      some text := by
  apply Dict.get_folded
  · exact ⟨(tracestateHeader, text),
      (state_row valid (lower_state casing)).mpr (.inl ⟨rfl, state⟩), lower_state casing⟩
  · rintro ⟨k, v⟩ mem spelt
    rcases (state_row valid spelt).mp mem with ⟨_, own⟩ | ⟨_, none_⟩
    · exact (Option.some.inj (state.symm.trans own)).symm
    · rw [state] at none_
      cases none_

theorem folded_single (one : ∀ a b, casing.lower a = k → casing.lower b = k →
      (headers.get a).isSome → (headers.get b).isSome → a = b) {name : Str}
    (spelt : casing.lower name = k) (there : headers.get name = some v) :
    (headers.folded casing.lower).get k = some v := by
  apply Dict.get_folded
  · exact ⟨(name, v), Dict.get_eq_some.mp there, spelt⟩
  · rintro ⟨other, w⟩ mem same
    have found := Dict.get_eq_some.mpr mem
    obtain rfl := one other name same spelt (by rw [found]; rfl) (by rw [there]; rfl)
    exact Option.some.inj (found.symm.trans there)

end Injected

section Laws
variable {casing : Lowering} {c : TraceContext} {headers : Headers}

theorem get_inject_state (valid : c.Valid) (stateless : c.traceState = none) {name : Str}
    (spelt : casing.lower name = tracestateHeader) :
    (injectHeaders casing c (some headers)).get name = headers.get name := by
  apply Option.ext
  intro v
  rw [Dict.get_eq_some, Dict.get_eq_some, state_row valid spelt, stateless]
  simp

theorem read_back (valid : c.Valid) (fresh : NoStaleState casing c headers) :
    extractHeaders casing (injectHeaders casing c (some headers)) = some c := by
  rw [extract_inject valid rfl]
  have state : sanitizeTracestate (((injectHeaders casing c (some headers)).folded
      casing.lower).get tracestateHeader) = c.traceState := by
    cases own : c.traceState with
    | some text =>
      rw [folded_own_state valid own, ← own]
      exact valid.state
    | none =>
      obtain ⟨one, bare⟩ := fresh own
      by_cases there : ∃ name value, casing.lower name = tracestateHeader ∧
          headers.get name = some value
      · obtain ⟨name, value, spelt, found⟩ := there
        have same : ∀ name, casing.lower name = tracestateHeader →
            (injectHeaders casing c (some headers)).get name = headers.get name := fun _ =>
          get_inject_state valid own
        rw [folded_single (v := value) ?_ spelt ((same name spelt).trans found)]
        · exact bare name value spelt found
        · intro a b spelta speltb
          rw [same a spelta, same b speltb]
          exact one a b spelta speltb
      · rw [Dict.get_folded_none]
        · rfl
        · rintro ⟨k, v⟩ mem spelt
          rcases (state_row valid spelt).mp mem with ⟨_, some_⟩ | ⟨old, _⟩
          · rw [own] at some_
            cases some_
          · exact there ⟨k, v, spelt, Dict.get_eq_some.mpr old⟩
  rw [state]

theorem one_parent (valid : c.Valid) : ∃! name, casing.lower name = traceparentHeader ∧
    ((injectHeaders casing c (some headers)).get name).isSome := by
  refine ⟨traceparentHeader, ⟨lower_parent casing, ?_⟩, ?_⟩
  · rw [Dict.get_eq_some.mpr ((mem_inject valid).mpr (.inl ⟨rfl, rfl⟩))]
    rfl
  · rintro name ⟨spelt, there⟩
    obtain ⟨value, found⟩ := Option.isSome_iff_exists.mp there
    exact (parent_row valid (Dict.get_eq_some.mp found) spelt).1

theorem one_state (valid : c.Valid) (fresh : NoStaleState casing c headers) (a b : Str)
    (spelta : casing.lower a = tracestateHeader) (speltb : casing.lower b = tracestateHeader)
    (therea : ((injectHeaders casing c (some headers)).get a).isSome)
    (thereb : ((injectHeaders casing c (some headers)).get b).isSome) : a = b := by
  obtain ⟨v, founda⟩ := Option.isSome_iff_exists.mp therea
  obtain ⟨w, foundb⟩ := Option.isSome_iff_exists.mp thereb
  rcases (state_row valid spelta).mp (Dict.get_eq_some.mp founda) with ⟨rfl, own⟩ | ⟨olda, none_⟩
  · rcases (state_row valid speltb).mp (Dict.get_eq_some.mp foundb) with ⟨rfl, _⟩ | ⟨_, none_⟩
    · rfl
    · rw [own] at none_
      cases none_
  · rcases (state_row valid speltb).mp (Dict.get_eq_some.mp foundb) with ⟨_, own⟩ | ⟨oldb, _⟩
    · rw [own] at none_
      cases none_
    · apply (fresh none_).1 a b spelta speltb
      · rw [Dict.get_eq_some.mpr olda]
        rfl
      · rw [Dict.get_eq_some.mpr oldb]
        rfl

theorem headers_carry_iff (valid : c.Valid) (headers : Option Headers) :
    HeadersCarry casing c headers ↔ NoStaleState casing c (headers.getD {}) := by
  have given : injectHeaders casing c headers = injectHeaders casing c (some (headers.getD {})) := by
    cases headers <;> rfl
  unfold HeadersCarry
  rw [given]
  constructor
  · intro carried stateless
    have kept : ∀ name, casing.lower name = tracestateHeader →
        (injectHeaders casing c (some (headers.getD {}))).get name = (headers.getD {}).get name :=
      fun name => get_inject_state valid stateless
    refine ⟨fun a b spelta speltb therea thereb => ?_, fun name value spelt found => ?_⟩
    · apply carried.oneState a b spelta speltb
      · rw [kept a spelta]
        exact therea
      · rw [kept b speltb]
        exact thereb
    · have read := carried.read
      rw [extract_inject valid (folded_single carried.oneState spelt
        ((kept name spelt).trans found))] at read
      exact (congrArg TraceContext.traceState (Option.some.inj read)).trans stateless
  · intro fresh
    exact ⟨read_back valid fresh, fun name => get_inject_other valid, one_parent valid,
      one_state valid fresh⟩

theorem get_injectEnv (valid : c.Valid) (env : Environ) (name : Str) :
    (injectEnv c env).get name =
      if name = traceparentEnvVar then some c.toTraceparent
      else if name = tracestateEnvVar then c.traceState
      else if name = traceparentHeader ∨ name = tracestateHeader then none
      else env.get name := by
  have names : traceparentEnvVar ≠ traceparentHeader ∧ traceparentEnvVar ≠ tracestateHeader ∧
      traceparentEnvVar ≠ tracestateEnvVar ∧ tracestateEnvVar ≠ traceparentHeader ∧
      tracestateEnvVar ≠ tracestateHeader := by decide
  obtain ⟨own, apart, fields, other, state⟩ := names
  unfold injectEnv
  rw [truthy_state valid]
  by_cases parent : name = traceparentEnvVar
  · subst parent
    rw [if_pos rfl]
    cases c.traceState <;>
      simp [Dict.get_pop_ne apart, Dict.get_pop_ne own, Dict.get_pop_ne fields,
        Dict.get_set_ne fields]
  rw [if_neg parent]
  by_cases stateVar : name = tracestateEnvVar
  · subst stateVar
    rw [if_pos rfl]
    cases c.traceState <;> simp [Dict.get_pop_ne state]
  rw [if_neg stateVar]
  by_cases stateName : name = tracestateHeader
  · subst stateName
    simp
  by_cases parentName : name = traceparentHeader
  · subst parentName
    cases c.traceState <;>
      simp [Dict.get_pop_ne stateName, Dict.get_pop_ne stateVar, Dict.get_set_ne stateVar]
  · cases c.traceState <;>
      simp [Dict.get_pop_ne stateName, Dict.get_pop_ne stateVar, Dict.get_set_ne stateVar,
        Dict.get_pop_ne parentName, Dict.get_set_ne parent, stateName, parentName]

theorem env_carries (valid : c.Valid) (environ env : Environ) : EnvCarries c environ env := by
  have got := get_injectEnv valid env
  have names : tracestateEnvVar ≠ traceparentEnvVar ∧ traceparentHeader ≠ traceparentEnvVar ∧
      traceparentHeader ≠ tracestateEnvVar ∧ tracestateHeader ≠ traceparentEnvVar ∧
      tracestateHeader ≠ tracestateEnvVar := by decide
  obtain ⟨fields, own, apart, other, state⟩ := names
  have parentVar : (injectEnv c env).get traceparentEnvVar = some c.toTraceparent := by
    rw [got, if_pos rfl]
  have parentName : (injectEnv c env).get traceparentHeader = none := by
    rw [got, if_neg own, if_neg apart, if_pos (.inl rfl)]
  have stateVar : (injectEnv c env).get tracestateEnvVar = c.traceState := by
    rw [got, if_neg fields, if_pos rfl]
  have stateName : (injectEnv c env).get tracestateHeader = none := by
    rw [got, if_neg other, if_neg state, if_pos (.inr rfl)]
  have solid := (traceparent_fields valid).1
  refine ⟨?_, fun name notParent notState => ?_, ⟨traceparentEnvVar, ⟨.inl rfl, ?_⟩, ?_⟩, ?_⟩
  · unfold extractEnv getEither
    simp only
    rw [Option.getD_some, parentVar, parentName, stateVar, stateName, truthy_state valid,
      Option.or_none, Option.or_none]
    have text : truthy (some c.toTraceparent) = some c.toTraceparent := by simp [truthy, solid]
    rw [text, parse_toTraceparent valid, valid.state]
  · rw [not_or] at notParent notState
    rw [got, if_neg notParent.1, if_neg notState.1, if_neg (not_or.mpr ⟨notParent.2, notState.2⟩)]
  · rw [parentVar]
    rfl
  · rintro name ⟨rfl | rfl, there⟩
    · rfl
    · rw [parentName] at there
      cases there
  · have only : ∀ name, name = tracestateEnvVar ∨ name = tracestateHeader →
        ((injectEnv c env).get name).isSome → name = tracestateEnvVar := by
      rintro name (rfl | rfl) there
      · rfl
      · rw [stateName] at there
        cases there
    intro a b spelta speltb therea thereb
    rw [only a spelta therea, only b speltb thereb]

end Laws

/-- What is injected is what is read, from headers and from the environment, exactly where a
    context without a state finds no state in the headers. -/
theorem carries_iff (casing : Lowering) (c : TraceContext) (made : Made c) (headers : Option Headers)
    (environ env : Environ) :
    HeadersCarry casing c headers ∧ EnvCarries c environ env ↔
      NoStaleState casing c (headers.getD {}) := by
  have valid := made_valid made
  rw [headers_carry_iff valid]
  exact and_iff_left (env_carries valid environ env)

def asciiLowering : Lowering where
  lower text := text.map Char.toLower
  ascii _ _ := rfl

def rootContext : TraceContext :=
  newTraceContext (List.replicate 32 'a') (List.replicate 16 'b') true

theorem rootContext_made : Made rootContext := .fresh true (by decide) (by decide)

def statedContext : TraceContext := { rootContext with traceState := some "new=1".toList }

theorem statedContext_made : Made statedContext :=
  .parsed (some rootContext.toTraceparent) (some " new=1,".toList) (by decide +kernel)

def staleNames : Headers where
  rows := [("Traceparent".toList, "old".toList), ("Tracestate".toList, "vendor=1".toList),
    ("Accept".toList, "text/plain".toList), ("traceparent".toList, "older".toList),
    ("TRACESTATE".toList, "vendor=2".toList)]

def staleVariables : Environ where
  rows := [("traceparent".toList, "old".toList), ("TRACESTATE".toList, "vendor=1".toList),
    ("HOME".toList, "/root".toList), ("TRACEPARENT".toList, "older".toList),
    ("tracestate".toList, "vendor=2".toList)]

theorem carries_iff_stale_names :
    HeadersCarry asciiLowering statedContext (some staleNames) ∧
      EnvCarries statedContext {} staleVariables :=
  (carries_iff asciiLowering statedContext statedContext_made (some staleNames) {} staleVariables).mpr
    fun none_ => absurd none_ (by decide)

def staleHeaders : Headers where
  rows := [("Tracestate".toList, "vendor=1".toList)]

/-- The state of an old trace in the headers is read as the state of the new one. -/
theorem stale_state_read : Made rootContext ∧
    extractHeaders asciiLowering (injectHeaders asciiLowering rootContext (some staleHeaders)) =
      some { rootContext with traceState := some "vendor=1".toList } ∧
    ¬HeadersCarry asciiLowering rootContext (some staleHeaders) := by
  refine ⟨rootContext_made, by decide +kernel, fun carried => ?_⟩
  exact absurd carried.read (by decide +kernel)

end DevopsCli.Telemetry
