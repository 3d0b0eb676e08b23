import DevopsCli.Roadmap.StopClear

/- The bounds of the automatic clears. A record that counts a clear is read back as it was
   written, so each clear sees those before it. -/
namespace DevopsCli.Roadmap.StopClear
open Run

section Decisions
variable {texts : Texts} {limits : ClearLimits} {item : Item} {comments : List IssueComment}
  {template : Template} {now : Int} {decision : Decision}

theorem continueDecision_spec (decided : continueDecision texts limits item = some decision) :
    ∃ klass used, item.retryClass = some klass ∧ usedContinuations texts item = some used ∧
      used < limits.continuations ∧
      decision = { rule := .continue_, failureClass := some klass, continuations := used + 1 } := by
  rw [continueDecision] at decided
  split at decided
  · exact absurd decided (by simp)
  · split at decided
    · rename_i klass used retried counted
      split at decided
      · exact absurd decided (by simp)
      · rename_i below
        exact ⟨klass, used, retried, counted, Nat.lt_of_not_le below, (Option.some.inj decided).symm⟩
    · exact absurd decided (by simp)

theorem digestDecision_spec
    (decided : digestDecision texts limits item template now = some (some decision)) :
    ∃ klass clears digest, item.retryClass = some klass ∧ recordedClears texts item = some clears ∧
      clears.length < limits.perItem ∧ clears.countP (·.failureClass = klass) < limits.perClass ∧
      decision.rule = .digest ∧ decision.failureClass = some klass ∧
      decision.clears = clears ++ [⟨klass, digest, now⟩] := by
  rw [digestDecision] at decided
  split at decided
  · rename_i klass clears commented retried recorded _
    split at decided
    · exact absurd decided (by simp)
    · rename_i below
      split at decided
      · exact absurd decided (by simp)
      · rename_i fewer
        obtain ⟨new, -, some_⟩ := Option.map_eq_some_iff.mp decided
        obtain ⟨digest, -, rfl⟩ := Option.map_eq_some_iff.mp some_
        exact ⟨klass, clears, digest, retried, recorded, Nat.lt_of_not_le below,
          Nat.lt_of_not_le fewer, rfl, rfl, rfl⟩
  · exact absurd decided (by simp)

/-- A retry, or a rule for a class that a new attempt can fix. -/
theorem rule_spec (decided : rule texts limits item comments template now = some (some decision)) :
    (retryAsked comments = true ∧ decision.rule = .retry) ∨
      continueDecision texts limits item = some decision ∨
      digestDecision texts limits item template now = some (some decision) := by
  rw [rule] at decided
  split at decided
  · rename_i asked
    exact Or.inl ⟨asked, by rw [← Option.some.inj (Option.some.inj decided)]⟩
  · split at decided
    · rename_i held continued
      rw [continued]
      exact Or.inr (Or.inl (Option.some.inj decided))
    · exact Or.inr (Or.inr decided)

theorem retryClass_spec {klass : FailureClass} (retried : item.retryClass = some klass)
    {text : String} (recorded : item.record .failure = some text) :
    klass.value = text ∧ actionByClass klass = .retry := by
  obtain ⟨found, action⟩ := Option.filter_eq_some_iff.mp retried
  rw [recorded] at found
  exact ⟨FailureClass.value_of_ofValue found, by simpa using action⟩

end Decisions

section Writes
variable {texts : Texts} {limits : ClearLimits} {s : Board} {pass : Pass} {decision : Decision}

def written (texts : Texts) (s : Board) (pass : Pass) (decision : Decision) : Item :=
  setField s.item (deriveStatus pass.planMerged) (marks texts decision pass.now)

/-- A pass leaves the item as it is, or writes one clear that a rule decided on it. -/
inductive Passed (texts : Texts) (limits : ClearLimits) (s : Board) (pass : Pass) (t : Board) : Prop
  | kept (same : t = s)
  | cleared (decision : Decision) (ours : s.item.isServiceStop = true)
      (decided : rule texts limits s.item s.comments pass.template pass.now = some (some decision))
      (item : t.item = written texts s pass decision)
      (writes : t.writes = s.writes ++ [⟨s.item, s.comments, decision⟩])

theorem writeClear_passed (ours : s.item.isServiceStop = true)
    (decided : rule texts limits s.item s.comments pass.template pass.now = some (some decision)) :
    Passed texts limits s pass (writeClear texts limits s pass decision) := by
  rw [writeClear]
  split
  · exact .kept rfl
  · exact .cleared decision ours decided rfl rfl
  · split <;> exact .cleared decision ours decided rfl rfl
  · exact .cleared decision ours decided rfl rfl

theorem clearStops_passed (texts : Texts) (limits : ClearLimits) (s : Board) (pass : Pass) :
    Passed texts limits s pass (clearStops texts limits s pass) := by
  rw [clearStops]
  split
  · rw [clearOne]
    split
    · split
      · rename_i ours
        split
        · rename_i decision decided
          exact writeClear_passed ours decided
        · exact .kept rfl
      · exact .kept rfl
    · exact .kept rfl
  · exact .kept rfl

theorem clearStops_other (other : s.item.isServiceStop = false) :
    clearStops texts limits s pass = s := by
  rcases clearStops_passed texts limits s pass with same | ⟨decision, ours, -⟩
  · exact same
  · rw [other] at ours
    exact absurd ours (by simp)

end Writes

section Bounds

def byDigest (write : ClearWrite) : Bool := write.decision.rule = .digest

def byContinue (write : ClearWrite) : Bool := write.decision.rule = .continue_

def byDigestOf (klass : FailureClass) (write : ClearWrite) : Bool :=
  byDigest write && write.decision.failureClass = some klass

/-- What the record counts of the clears by digest, once there is one. -/
def DigestsCounted (texts : Texts) (s : Board) : Prop :=
  s.writes.countP byDigest = 0 ∨ ∃ clears, s.item.record .digestClears = some (texts.encodeClears clears) ∧
    s.writes.countP byDigest ≤ clears.length ∧
    ∀ klass, s.writes.countP (byDigestOf klass) ≤ clears.countP (·.failureClass = klass)

def ContinuationsCounted (s : Board) : Prop :=
  s.writes.countP byContinue = 0 ∨ ∃ used, s.item.record .continuations = some (toString used) ∧
    s.writes.countP byContinue ≤ used

def ClearWrite.Right (write : ClearWrite) : Prop :=
  write.before.isServiceStop = true ∧
    ((retryAsked write.comments = true ∧ write.decision.rule = .retry) ∨
      ∃ klass, write.before.retryClass = some klass)

structure Bounded (texts : Texts) (limits : ClearLimits) (s : Board) : Prop where
  right : ∀ write ∈ s.writes, write.Right
  perItem : s.writes.countP byDigest ≤ limits.perItem
  perClass : ∀ klass, s.writes.countP (byDigestOf klass) ≤ limits.perClass
  continuations : s.writes.countP byContinue ≤ limits.continuations
  digests : DigestsCounted texts s
  continued : ContinuationsCounted s

variable {texts : Texts} {limits : ClearLimits} {s t : Board} {pass : Pass} {decision : Decision}

theorem bounded_of_same (bounded : Bounded texts limits s) (writes : t.writes = s.writes)
    (digests : t.item.record .digestClears = s.item.record .digestClears)
    (continued : t.item.record .continuations = s.item.record .continuations) :
    Bounded texts limits t := by
  obtain ⟨right, perItem, perClass, continuations, counted, used⟩ := bounded
  rw [DigestsCounted] at counted
  rw [ContinuationsCounted] at used
  rw [← writes] at right perItem perClass continuations counted used
  rw [← digests] at counted
  rw [← continued] at used
  exact ⟨right, perItem, perClass, continuations, counted, used⟩

/-- The clears on record are at least as many as the run has written. -/
theorem recordedClears_counts (counted : DigestsCounted texts s) {clears : List DigestClear}
    (recorded : recordedClears texts s.item = some clears) :
    s.writes.countP byDigest ≤ clears.length ∧
      ∀ klass, s.writes.countP (byDigestOf klass) ≤ clears.countP (·.failureClass = klass) := by
  rcases counted with none_ | ⟨held, text, total, each⟩
  · refine ⟨by omega, fun klass => ?_⟩
    have fewer : s.writes.countP (byDigestOf klass) ≤ s.writes.countP byDigest :=
      List.countP_mono_left fun write _ of => (Bool.and_eq_true_iff.mp of).1
    omega
  · have full : truthy (s.item.record .digestClears) = true := by
      simp [truthy, text, texts.clears_text]
    rw [recordedClears, if_pos full, text] at recorded
    obtain rfl := texts.clears_back held clears recorded
    exact ⟨total, each⟩

theorem usedContinuations_counts (counted : ContinuationsCounted s) {used : Nat}
    (read : usedContinuations texts s.item = some used) : s.writes.countP byContinue ≤ used := by
  rcases counted with none_ | ⟨held, text, total⟩
  · omega
  · have full : truthy (s.item.record .continuations) = true := by
      simp [truthy, text]
    rw [usedContinuations, if_pos full, text] at read
    obtain rfl := texts.count_back held used read
    exact total

theorem countP_snoc (p : ClearWrite → Bool) (writes : List ClearWrite) (write : ClearWrite) :
    (writes ++ [write]).countP p = writes.countP p + if p write then 1 else 0 := by
  rw [List.countP_append, List.countP_singleton]

theorem right_snoc {write : ClearWrite} (right : ∀ write ∈ s.writes, write.Right)
    (new : write.Right) (writes : t.writes = s.writes ++ [write]) : ∀ write ∈ t.writes, write.Right := by
  intro other mem
  rw [writes] at mem
  rcases List.mem_append.mp mem with old | last
  · exact right other old
  · exact List.mem_singleton.mp last ▸ new

theorem retry_bounded (bounded : Bounded texts limits s) (ours : s.item.isServiceStop = true)
    (asked : retryAsked s.comments = true) (retry : decision.rule = .retry)
    (item : t.item = written texts s pass decision)
    (writes : t.writes = s.writes ++ [⟨s.item, s.comments, decision⟩]) :
    Bounded texts limits t := by
  have digests : t.item.record .digestClears = s.item.record .digestClears := by
    simp [item, written, setField, marks, retry]
  have continued : t.item.record .continuations = s.item.record .continuations := by
    simp [item, written, setField, marks, retry]
  have none_ : ∀ p, p ⟨s.item, s.comments, decision⟩ = false → t.writes.countP p = s.writes.countP p :=
    fun p not_ => by rw [writes, countP_snoc, not_]; rfl
  have same := none_ byDigest (by simp [byDigest, retry])
  have same_class : ∀ klass, t.writes.countP (byDigestOf klass) = s.writes.countP (byDigestOf klass) :=
    fun klass => none_ _ (by simp [byDigestOf, byDigest, retry])
  have same_continue := none_ byContinue (by simp [byContinue, retry])
  exact {
    right := right_snoc bounded.right ⟨ours, Or.inl ⟨asked, retry⟩⟩ writes
    perItem := same ▸ bounded.perItem
    perClass := fun klass => same_class klass ▸ bounded.perClass klass
    continuations := same_continue ▸ bounded.continuations
    digests := by simpa only [DigestsCounted, same, same_class, digests] using bounded.digests
    continued := by
      simpa only [ContinuationsCounted, same_continue, continued] using bounded.continued }

theorem continue_bounded (bounded : Bounded texts limits s) (ours : s.item.isServiceStop = true)
    (decided : continueDecision texts limits s.item = some decision)
    (item : t.item = written texts s pass decision)
    (writes : t.writes = s.writes ++ [⟨s.item, s.comments, decision⟩]) :
    Bounded texts limits t := by
  obtain ⟨klass, used, retried, counted, below, rfl⟩ := continueDecision_spec decided
  have digests : t.item.record .digestClears = s.item.record .digestClears := by
    simp [item, written, setField, marks]
  have continued : t.item.record .continuations = some (toString (used + 1)) := by
    simp [item, written, setField, marks]
  have before := usedContinuations_counts bounded.continued counted
  have more : t.writes.countP byContinue = s.writes.countP byContinue + 1 := by
    rw [writes, countP_snoc]
    rfl
  have same : t.writes.countP byDigest = s.writes.countP byDigest := by
    rw [writes, countP_snoc]
    rfl
  have same_class : ∀ klass, t.writes.countP (byDigestOf klass) = s.writes.countP (byDigestOf klass) :=
    fun klass => by rw [writes, countP_snoc]; rfl
  exact {
    right := right_snoc bounded.right ⟨ours, Or.inr ⟨klass, retried⟩⟩ writes
    perItem := same ▸ bounded.perItem
    perClass := fun klass => same_class klass ▸ bounded.perClass klass
    continuations := by omega
    digests := by simpa only [DigestsCounted, same, same_class, digests] using bounded.digests
    continued := Or.inr ⟨used + 1, continued, by omega⟩ }

theorem digest_bounded (bounded : Bounded texts limits s) (ours : s.item.isServiceStop = true)
    (decided : digestDecision texts limits s.item pass.template pass.now = some (some decision))
    (item : t.item = written texts s pass decision)
    (writes : t.writes = s.writes ++ [⟨s.item, s.comments, decision⟩]) :
    Bounded texts limits t := by
  obtain ⟨klass, clears, digest, retried, recorded, below, fewer, byRule, ofClass, list⟩ :=
    digestDecision_spec decided
  obtain ⟨total, each⟩ := recordedClears_counts bounded.digests recorded
  have digests : t.item.record .digestClears =
      some (texts.encodeClears (clears ++ [⟨klass, digest, pass.now⟩])) := by
    simp [item, written, setField, marks, byRule, list]
  have continued : t.item.record .continuations = s.item.record .continuations := by
    simp [item, written, setField, marks, byRule]
  have more : t.writes.countP byDigest = s.writes.countP byDigest + 1 := by
    rw [writes, countP_snoc]
    simp [byDigest, byRule]
  have more_class : ∀ other, t.writes.countP (byDigestOf other) =
      s.writes.countP (byDigestOf other) + if klass = other then 1 else 0 := by
    intro other
    rw [writes, countP_snoc]
    simp [byDigestOf, byDigest, byRule, ofClass]
  have same_continue : t.writes.countP byContinue = s.writes.countP byContinue := by
    rw [writes, countP_snoc]
    simp [byContinue, byRule]
  have listed : ∀ other, (clears ++ [DigestClear.mk klass digest pass.now]).countP
      (·.failureClass = other) =
        clears.countP (·.failureClass = other) + if klass = other then 1 else 0 := by
    intro other
    simp [List.countP_append, List.countP_singleton]
  exact {
    right := right_snoc bounded.right ⟨ours, Or.inr ⟨klass, retried⟩⟩ writes
    perItem := by omega
    perClass := fun other => by
      have held := bounded.perClass other
      have counted := each other
      rw [more_class]
      split
      · rename_i same
        subst same
        omega
      · omega
    continuations := same_continue ▸ bounded.continuations
    digests := Or.inr ⟨_, digests, by rw [List.length_append, List.length_singleton]; omega,
      fun other => by rw [more_class, listed]; exact Nat.add_le_add_right (each other) _⟩
    continued := by
      simpa only [ContinuationsCounted, same_continue, continued] using bounded.continued }

theorem clearStops_bounded (bounded : Bounded texts limits s) :
    Bounded texts limits (clearStops texts limits s pass) := by
  rcases clearStops_passed texts limits s pass with same | ⟨decision, ours, decided, item, writes⟩
  · rw [same]
    exact bounded
  · rcases rule_spec decided with ⟨asked, retry⟩ | continued | digest
    · exact retry_bounded bounded ours asked retry item writes
    · exact continue_bounded bounded ours continued item writes
    · exact digest_bounded bounded ours digest item writes

theorem step_bounded {event : BoardEvent} (bounded : Bounded texts limits s)
    (taken : step texts limits s event = some t) : Bounded texts limits t := by
  cases event with
  | pass pass => exact Option.some.inj taken ▸ clearStops_bounded bounded
  | stop name klass =>
    obtain rfl := Option.some.inj taken
    exact bounded_of_same bounded rfl rfl rfl
  | comment comment =>
    obtain rfl := Option.some.inj taken
    exact bounded_of_same bounded rfl rfl rfl
  | other item comments =>
    rw [step] at taken
    split at taken
    · rename_i kept
      obtain rfl := Option.some.inj taken
      exact bounded_of_same bounded rfl kept.1 kept.2
    · exact absurd taken (by simp)

theorem start_bounded (item : Item) (comments : List IssueComment) :
    Bounded texts limits { item := item, comments := comments } where
  right := by simp
  perItem := Nat.zero_le _
  perClass _ := Nat.zero_le _
  continuations := Nat.zero_le _
  digests := Or.inl rfl
  continued := Or.inl rfl

/-- In every run from any item: each clear is of a stop that the service set, and one that no
    retry comment asked for is of a class that a new attempt can fix; the clears by digest and
    the continuations stay within their limits; a pass leaves every other item alone. The run
    may be the part between two retry comments of a longer one. -/
theorem automatic_clears_bounded (texts : Texts) (limits : ClearLimits) (item : Item)
    (comments : List IssueComment) (events : List BoardEvent) (s : Board)
    (run : exec (step texts limits) { item := item, comments := comments } events = some s) :
    (∀ write ∈ s.writes, write.before.isServiceStop = true ∧
      ((∀ klass, write.before.record .failure = some klass.value → actionByClass klass ≠ .retry) →
        retryAsked write.comments = true ∧ write.decision.rule = .retry)) ∧
    s.writes.countP byDigest ≤ limits.perItem ∧
    (∀ klass, s.writes.countP (byDigestOf klass) ≤ limits.perClass) ∧
    s.writes.countP byContinue ≤ limits.continuations ∧
    ∀ pass, s.item.isServiceStop = false → step texts limits s (.pass pass) = some s := by
  have bounded : Bounded texts limits s := exec_invariant_always
    (fun _ _ _ bounded taken => step_bounded bounded taken) (start_bounded item comments) run
  refine ⟨fun write mem => ?_, bounded.perItem, bounded.perClass, bounded.continuations,
    fun pass other => by rw [step, clearStops_other other]⟩
  obtain ⟨ours, asked | ⟨klass, retried⟩⟩ := bounded.right write mem
  · exact ⟨ours, fun _ => asked⟩
  · refine ⟨ours, fun never => ?_⟩
    cases text : write.before.record .failure with
    | none =>
      have no_class : FailureClass.ofValue "" = none := by decide
      rw [Item.retryClass, text, Option.getD_none, no_class] at retried
      exact absurd retried (by simp)
    | some text' =>
      obtain ⟨value, action⟩ := retryClass_spec retried text
      exact absurd action (never klass (by rw [text, value]))

def oneClear : DigestClear := ⟨.provider, "sha256:b", 5⟩

def oneClearText : String :=
  "[\x7b\"class\":\"provider\",\"digest\":\"sha256:b\",\"time\":\"1970-01-01T00:00:05Z\"\x7d]"

def isOneClear : List DigestClear → Bool
  | [clear] => clear.failureClass = .provider && clear.digest = "sha256:b" && clear.time = 5
  | _ => false

theorem isOneClear_eq {clears : List DigestClear} (one : isOneClear clears = true) :
    clears = [oneClear] := by
  match clears, one with
  | [⟨klass, digest, time⟩], one =>
    simp only [isOneClear, Bool.and_eq_true, decide_eq_true_eq] at one
    simp [oneClear, one.1.1, one.1.2, one.2]

def oneText : Texts where
  readCount _ := none
  readClears text := if text = oneClearText then some [oneClear] else none
  encodeClears clears := if isOneClear clears then oneClearText else "?"
  readTime text := if text = "1970-01-01T00:00:05+00:00" then some 5 else none
  isoformat time := if time = 5 then "1970-01-01T00:00:05+00:00" else "?"
  count_back := by simp
  clears_text clears := by split <;> decide
  clears_back clears more read := by
    split at read
    · rename_i one
      rw [if_pos rfl] at read
      rw [isOneClear_eq one, ← Option.some.inj read]
    · rw [if_neg (by decide)] at read
      exact absurd read (by simp)

def stoppedItem : Item where
  number := 7
  open_ := true
  status := some "Blocked"
  owner := some "Service"
  record
    | .status => some "Blocked"
    | .stopped => some "1"
    | .failure => some "provider"
    | .jobDigest => some "sha256:a"
    | _ => none

/-- A new image clears the stop, the next stop is over the limit of its class, and a retry comment
    clears it. -/
theorem automatic_clears_bounded_retried : ∃ s : Board, s.writes.length = 2 ∧
    ∀ klass, s.writes.countP (byDigestOf klass) ≤ 1 := by
  let pass : Pass :=
    { cached := stoppedItem, template := .digest (some "sha256:b"), now := 5, planMerged := true
      answer := .made, commentBy := some "NONE" }
  let events : List BoardEvent :=
    [.pass pass, .stop "1" .provider, .pass pass, .comment ⟨"OWNER", "implement: retry".toList⟩,
      .pass pass]
  have reached : (exec (step oneText ⟨1, 3, 2⟩) { item := stoppedItem, comments := [] } events).any
      (fun s => s.writes.length = 2) = true := by decide +kernel
  obtain ⟨s, ran, two⟩ := (Option.any_eq_true _ _).mp reached
  have clears := automatic_clears_bounded oneText ⟨1, 3, 2⟩ stoppedItem [] events s ran
  exact ⟨s, by simpa using two, clears.2.2.1⟩

end Bounds
end DevopsCli.Roadmap.StopClear
