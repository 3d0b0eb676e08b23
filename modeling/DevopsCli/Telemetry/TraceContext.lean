import DevopsCli.Lib.PyWords

/- The value of a trace context, telemetry/propagation.py: how it is read and written. Random
   identifiers come from outside. -/
namespace DevopsCli.Telemetry
open PyStr

def traceparentVersion : Str := "00".toList
def traceparentInvalidVersion : Str := "ff".toList
def traceIdHexLength : Nat := 32
def spanIdHexLength : Nat := 16
def traceFlagsHexLength : Nat := 2
def traceFlagSampled : Str := "01".toList
def traceFlagNotSampled : Str := "00".toList
def tracestateMaxMembers : Nat := 32

def hexDigits : Str :=
  ['0', '1', '2', '3', '4', '5', '6', '7', '8', '9', 'a', 'b', 'c', 'd', 'e', 'f']

def isLowerHex (value : Str) (length : Nat) : Bool :=
  value.length == length && value.all fun c => decide (c ∈ hexDigits)

def isAllZero (value : Str) : Bool := value == List.replicate value.length '0'

structure TraceContext where
  traceId : Str
  spanId : Str
  traceFlags : Str := traceFlagSampled
  traceState : Option Str := none
  deriving DecidableEq, Repr

def TraceContext.toTraceparent (c : TraceContext) : Str :=
  join ['-'] [traceparentVersion, c.traceId, c.spanId, c.traceFlags]

def TraceContext.child (c : TraceContext) (spanId : Option Str) (generated : Str) : TraceContext :=
  { c with spanId := (spanId.filter (· ≠ [])).getD generated }

def newTraceContext (traceId spanId : Str) (sampled : Bool) : TraceContext where
  traceId
  spanId
  traceFlags := if sampled then traceFlagSampled else traceFlagNotSampled

def sanitizeTracestate (value : Option Str) : Option Str :=
  value.bind fun text =>
    if text = [] then none
    else
      let members := ((text.splitOn ',').map strip).filter (· ≠ [])
      if members = [] then none else some (join [','] (members.take tracestateMaxMembers))

def isTraceId (value : Str) : Bool := isLowerHex value traceIdHexLength && !isAllZero value
def isSpanId (value : Str) : Bool := isLowerHex value spanIdHexLength && !isAllZero value

def parseTraceparent (value traceState : Option Str) : Option TraceContext :=
  value.bind fun text =>
    if text = [] then none
    else
      match (strip text).splitOn '-' with
      | version :: traceId :: spanId :: flags :: rest =>
        if !isLowerHex version 2 || version == traceparentInvalidVersion then none
        else if version == traceparentVersion && !rest.isEmpty then none
        else if !isTraceId traceId then none
        else if !isSpanId spanId then none
        else if !isLowerHex flags traceFlagsHexLength then none
        else some ⟨traceId, spanId, flags, sanitizeTracestate traceState⟩
      | _ => none

structure TraceContext.Valid (c : TraceContext) : Prop where
  traceId : isTraceId c.traceId = true
  spanId : isSpanId c.spanId = true
  flags : isLowerHex c.traceFlags traceFlagsHexLength = true
  state : sanitizeTracestate c.traceState = c.traceState

/-- The contexts that the module makes, with the identifiers that the specification allows. -/
inductive Made : TraceContext → Prop where
  | parsed (value state : Option Str) {c : TraceContext}
      (read : parseTraceparent value state = some c) : Made c
  | fresh {traceId spanId : Str} (sampled : Bool) (trace : isTraceId traceId = true)
      (span : isSpanId spanId = true) : Made (newTraceContext traceId spanId sampled)
  | child {c : TraceContext} (parent : Made c) (spanId : Option Str) (generated : Str)
      (span : isSpanId (c.child spanId generated).spanId = true) : Made (c.child spanId generated)

section State
variable {value : Option Str} {text : Str}

theorem sanitize_join {members : List Str} (some_ : members ≠ [])
    (short : members.length ≤ tracestateMaxMembers)
    (clean : ∀ member ∈ members, strip member = member ∧ member ≠ [] ∧ ',' ∉ member) :
    sanitizeTracestate (some (join [','] members)) = some (join [','] members) := by
  have back : (join [','] members).splitOn ',' = members :=
    List.splitOn_intercalate ',' (fun member mem => (clean member mem).2.2) some_
  have stripped : members.map strip = members := by
    rw [List.map_congr_left (g := id) fun member mem => (clean member mem).1]
    exact List.map_id members
  have kept : members.filter (· ≠ []) = members := by
    rw [List.filter_eq_self]
    intro member mem
    simpa using (clean member mem).2.1
  have text : join [','] members ≠ [] := by
    intro none_
    rw [none_, List.splitOn_nil] at back
    rw [← back] at clean
    exact (clean [] List.mem_cons_self).2.1 rfl
  unfold sanitizeTracestate
  simp only [Option.bind_some, text, if_false, back, stripped, kept, some_,
    List.take_of_length_le short]

theorem sanitize_again (value : Option Str) :
    sanitizeTracestate (sanitizeTracestate value) = sanitizeTracestate value := by
  cases clean : sanitizeTracestate value with
  | none => rfl
  | some text =>
    unfold sanitizeTracestate at clean
    obtain ⟨given, rfl, made⟩ := Option.bind_eq_some_iff.mp clean
    split at made
    · cases made
    simp only at made
    split at made
    · cases made
    next some_ =>
    obtain rfl := Option.some.inj made
    refine sanitize_join ?_ (List.length_take_le _ _) ?_
    · intro none_
      rcases List.take_eq_nil_iff.mp none_ with zero | empty
      · exact absurd zero (by decide)
      · exact some_ empty
    · intro member mem
      obtain ⟨mem, solid⟩ := List.mem_filter.mp (List.mem_of_mem_take mem)
      obtain ⟨part, inside, rfl⟩ := List.mem_map.mp mem
      refine ⟨strip_strip part, by simpa using solid, fun comma => ?_⟩
      exact mem_splitOn_clear inside ((strip_within part).subset comma)

end State

section Values
variable {c : TraceContext}

theorem hex_plain {value : Str} {length : Nat} (hex : isLowerHex value length = true) :
    value.length = length ∧ ∀ c ∈ value, c ≠ '-' ∧ isSpace c = false := by
  unfold isLowerHex at hex
  rw [Bool.and_eq_true, beq_iff_eq, List.all_eq_true] at hex
  refine ⟨hex.1, fun c mem => ?_⟩
  have digit := of_decide_eq_true (hex.2 c mem)
  have all : ∀ c ∈ hexDigits, c ≠ '-' ∧ isSpace c = false :=
    List.all_iff_forall_prop.mp (by decide)
  exact all c digit

theorem traceparent_fields (valid : c.Valid) :
    c.toTraceparent ≠ [] ∧ (strip c.toTraceparent).splitOn '-' =
      [traceparentVersion, c.traceId, c.spanId, c.traceFlags] := by
  have trace := hex_plain (Bool.and_eq_true_iff.mp valid.traceId).1
  have span := hex_plain (Bool.and_eq_true_iff.mp valid.spanId).1
  have flags := hex_plain valid.flags
  have parts : ∀ part ∈ [traceparentVersion, c.traceId, c.spanId, c.traceFlags], '-' ∉ part := by
    intro part mem dash
    simp only [List.mem_cons, List.not_mem_nil, or_false] at mem
    rcases mem with rfl | rfl | rfl | rfl
    · exact absurd dash (by decide)
    · exact (trace.2 _ dash).1 rfl
    · exact (span.2 _ dash).1 rfl
    · exact (flags.2 _ dash).1 rfl
  have word : IsWord c.toTraceparent := by
    refine ⟨List.cons_ne_nil _ _, fun d mem => ?_⟩
    simp only [TraceContext.toTraceparent, join, List.intercalate_cons_cons,
      List.intercalate_singleton, List.mem_append, List.mem_singleton] at mem
    rcases mem with ((version | rfl) | ((trace_ | rfl) | ((span_ | rfl) | flags_)))
    · have all : ∀ c ∈ traceparentVersion, isSpace c = false :=
        List.all_iff_forall_prop.mp (by decide)
      exact all d version
    · rfl
    · exact (trace.2 d trace_).2
    · rfl
    · exact (span.2 d span_).2
    · rfl
    · exact (flags.2 d flags_).2
  refine ⟨word.1, ?_⟩
  rw [(trimmed_iff _).mp word.folded.trimmed]
  exact List.splitOn_intercalate '-' parts (List.cons_ne_nil _ _)

theorem parse_toTraceparent (valid : c.Valid) (state : Option Str) :
    parseTraceparent (some c.toTraceparent) state =
      some { c with traceState := sanitizeTracestate state } := by
  obtain ⟨some_, fields⟩ := traceparent_fields valid
  have version : isLowerHex traceparentVersion 2 = true := by decide
  have other : (traceparentVersion == traceparentInvalidVersion) = false := by decide
  unfold parseTraceparent
  simp only [Option.bind_some, some_, if_false, fields, version, other, Bool.not_true, Bool.or_false,
    List.isEmpty_nil, Bool.and_false, Bool.false_eq_true, valid.traceId, valid.spanId, valid.flags]

theorem parse_valid {value state : Option Str} (read : parseTraceparent value state = some c) :
    c.Valid := by
  unfold parseTraceparent at read
  obtain ⟨text, rfl, made⟩ := Option.bind_eq_some_iff.mp read
  split at made
  · cases made
  split at made
  · simp only [Bool.not_eq_true'] at made
    split at made
    · cases made
    split at made
    · cases made
    split at made
    · cases made
    next trace =>
    split at made
    · cases made
    next span =>
    split at made
    · cases made
    next flags =>
    obtain rfl := Option.some.inj made
    rw [Bool.not_eq_false] at trace span flags
    exact ⟨trace, span, flags, sanitize_again state⟩
  · cases made

theorem made_valid (made : Made c) : c.Valid := by
  induction made with
  | parsed value state read => exact parse_valid read
  | fresh sampled trace span =>
    have flags : ∀ sampled : Bool, isLowerHex (if sampled then traceFlagSampled else traceFlagNotSampled)
        traceFlagsHexLength = true := by decide
    exact ⟨trace, span, flags sampled, rfl⟩
  | child parent spanId generated span ih => exact ⟨ih.traceId, span, ih.flags, ih.state⟩

theorem state_ne_nil (valid : c.Valid) : c.traceState ≠ some [] := by
  intro empty
  have state := valid.state
  rw [empty] at state
  cases state

end Values
end DevopsCli.Telemetry
