import DevopsCli.K8s.MoveUndo

/- The roll back of a run that can still be undone, and the step that passes the point of no
   return. -/
namespace DevopsCli.K8s
open Act Saga

def Event.Disturbs : Event → Prop
  | .undo _ outcome => outcome ≠ .done
  | .interrupt => True
  | _ => False

instance (e : Event) : Decidable e.Disturbs :=
  match e with
  | .undo _ outcome => inferInstanceAs (Decidable (outcome ≠ .done))
  | .interrupt => .isTrue trivial
  | .step .. | .line _ | .request .. | .saved _ | .pastPointOfNoReturn => .isFalse id

def Smooth (trace : List Event) : Prop := ∀ e ∈ trace, ¬e.Disturbs

instance (trace : List Event) : Decidable (Smooth trace) :=
  inferInstanceAs (Decidable (∀ e ∈ trace, ¬e.Disturbs))

theorem smooth_push {trace : List Event} {event : Event} :
    Smooth (trace ++ [event]) ↔ Smooth trace ∧ ¬event.Disturbs := by
  simp [Smooth, or_imp, forall_and]

namespace Move
variable {o : Outside} {plan : VolumeMovePlan} {base : Cluster}

def Sent (plan : VolumeMovePlan) (trace : List Event) : Prop :=
  ∃ outcome, .request (.deleteClaim plan.claim) outcome ∈ trace

/-- The moved claim is in its first state, and its delete was not sent. -/
structure Untouched (plan : VolumeMovePlan) (base : Cluster) (w : World) : Prop where
  unsent : ¬Sent plan w.trace
  claim : w.cluster (.claim plan.claim) = base (.claim plan.claim)

theorem Untouched.push {w w' : World} (kept : Untouched plan base w) {event : Event}
    (made : List (Entry Resource.Value)) (trace : w'.trace = w.trace ++ [event])
    (cluster : w'.cluster = putAll w.cluster made)
    (other : ∀ outcome, event ≠ .request (.deleteClaim plan.claim) outcome)
    (apart : ∀ e ∈ made, e.1 ≠ .claim plan.claim) : Untouched plan base w' where
  unsent := by simpa [Sent, trace, fun outcome => (other outcome).symm] using kept.unsent
  claim := by rw [cluster, putAll_keeps apart, kept.claim]

section Undo
variable {fact : Prop} {store : Cluster}

def Undoing (plan : VolumeMovePlan) (base : Cluster) (fact : Prop) (store : Cluster) (w : World) :
    Prop :=
  Untouched plan base w ∧ (Smooth w.trace → fact ∧ w.cluster = store)

def Disturbed (plan : VolumeMovePlan) (base : Cluster) (e : Raised) (w : World) : Prop :=
  Untouched plan base w ∧ e = .keyboardInterrupt ∧ ¬Smooth w.trace

theorem spec_undoPoint : Spec (Undoing plan base fact store) (point o) fun
    | .ok _ => Undoing plan base fact store
    | .error e => Disturbed plan base e := by
  refine spec_point (fun w start => ⟨⟨start.1.unsent, start.1.claim⟩, start.2⟩)
    fun w start => ⟨?_, rfl, ?_⟩
  · exact start.1.push [] rfl rfl nofun nofun
  · simp [World.logged, smooth_push, Event.Disturbs]

theorem spec_undoLine (text : String) :
    Spec (Undoing plan base fact store) (progress o text) fun
      | .ok _ => Undoing plan base fact store
      | .error e => Disturbed plan base e :=
  spec_bind spec_undoPoint (fun _ => spec_change _ fun _ start =>
    ⟨start.1.push [] rfl rfl nofun nofun, fun smooth => start.2 (smooth_push.mp smooth).1⟩)
    fun _ _ ended => ended

theorem Undoing.partly {u : UndoStep} {w : World} {made : List (Entry Resource.Value)}
    {outcome : Outcome} (apart : ∀ e ∈ u.request.changes, e.1 ≠ .claim plan.claim)
    (start : Undoing plan base fact store w) (taken : ∀ e ∈ made, e ∈ u.request.changes)
    (other : outcome ≠ .done) : Untouched plan base (w.after made (.undo u.request outcome)) ∧
      ¬Smooth (w.after made (.undo u.request outcome)).trace :=
  ⟨start.1.push made rfl rfl (by simp) fun e member => apart e (taken e member), by
    simp [World.after, smooth_push, Event.Disturbs, other]⟩

theorem spec_undoAsk (u : UndoStep) (apart : ∀ e ∈ u.request.changes, e.1 ≠ .claim plan.claim) :
    Spec (Undoing plan base fact store) (ask o (.undo u.request) u.request) fun
      | .ok _ => Undoing plan base fact (putAll store u.request.changes)
      | .error _ => fun w => Untouched plan base w ∧ ¬Smooth w.trace := by
  refine spec_ask (fun w start => ?_) (fun w start => ?_)
    (fun w _ made start taken => start.partly apart taken (by simp))
    fun w made start taken => start.partly apart taken (by simp)
  · exact ⟨start.1.push [] rfl rfl (by simp) (by simp), by
      simp [World.logged, smooth_push, Event.Disturbs]⟩
  · refine ⟨start.1.push u.request.changes rfl rfl (by simp) apart, fun smooth => ?_⟩
    obtain ⟨holds, same⟩ := start.2 (smooth_push.mp smooth).1
    exact ⟨holds, by rw [World.after, same]⟩

theorem spec_undoTry (u : UndoStep) (apart : ∀ e ∈ u.request.changes, e.1 ≠ .claim plan.claim) :
    Spec (Undoing plan base fact store) (do ask o (.undo u.request) u.request; return none) fun
      | .ok failed => Undoing plan base (fact ∧ failed = (none : Option String))
          (putAll store u.request.changes)
      | .error _ => fun w => Untouched plan base w ∧ ¬Smooth w.trace :=
  spec_bind (spec_undoAsk u apart)
    (fun _ => spec_pure _ fun w kept => by simpa [Undoing] using kept) fun _ _ ended => ended

theorem spec_undoStep (u : UndoStep) (apart : ∀ e ∈ u.request.changes, e.1 ≠ .claim plan.claim) :
    Spec (Undoing plan base fact store)
      (handle (do ask o (.undo u.request) u.request; return none) fun e =>
        match e with
        | .keyboardInterrupt => raise .keyboardInterrupt
        | e => return some (u.text ++ ": " ++ e.text)) fun
      | .ok failed => Undoing plan base (fact ∧ failed = none) (putAll store u.request.changes)
      | .error e => Disturbed plan base e := by
  refine spec_handle (spec_undoTry u apart) (fun _ _ kept => kept) fun e => ?_
  cases e with
  | keyboardInterrupt => exact spec_raise _ fun w kept => ⟨kept.1, rfl, kept.2⟩
  | _ => exact spec_pure _ fun w kept => ⟨kept.1, fun smooth => absurd smooth kept.2⟩

theorem spec_undoAll {us : List UndoStep}
    (apart : ∀ u ∈ us, ∀ e ∈ u.request.changes, e.1 ≠ .claim plan.claim) :
    Spec (Undoing plan base fact store) (undoAll o us) fun
      | .ok (_, failures) => Undoing plan base (fact ∧ failures = [])
          (putAll store (us.flatMap (·.request.changes)))
      | .error e => Disturbed plan base e := by
  induction us generalizing fact store with
  | nil => exact spec_pure _ fun w start => by simpa [Undoing, putAll] using start
  | cons u rest ih =>
    obtain ⟨here, later⟩ := List.forall_mem_cons.mp apart
    refine spec_bind (spec_undoLine _) (fun _ => ?_) fun _ _ ended => ended
    refine spec_bind (spec_undoStep u here) (fun failed => ?_) fun _ _ ended => ended
    refine spec_bind (ih later) (fun reports => ?_) fun _ _ ended => ended
    obtain ⟨undone, failures⟩ := reports
    have whole : putAll (putAll store u.request.changes) (rest.flatMap (·.request.changes)) =
        putAll store ((u :: rest).flatMap (·.request.changes)) := by
      simp [putAll, List.foldl_append]
    rw [whole]
    cases failed with
    | none => exact spec_pure _ fun w ended => by simpa [Undoing] using ended
    | some failure =>
      refine spec_pure _ fun w ended => ⟨ended.1, fun smooth => ?_⟩
      exact absurd (ended.2 smooth).1.1.2 (by simp)

def RolledBack (plan : VolumeMovePlan) (base : Cluster) (failures : List String) (w : World) :
    Prop :=
  Untouched plan base w ∧ (plan.Matches base → Smooth w.trace → failures = [] ∧ w.cluster = base)

theorem Sound.untouched {number : Nat} {w : World} (sound : Sound plan base number w) :
    Untouched plan base w :=
  ⟨fun ⟨_, sent⟩ => (sound.early _ sent).1 rfl, sound.claim⟩

theorem spec_rollBack {number : Nat} : Spec (Sound plan base number) (rollBack o) fun
    | .ok (_, failures) => RolledBack plan base failures
    | .error e => Disturbed plan base e := by
  refine spec_look fun v sound => ?_
  have apart : ∀ u ∈ v.run.undo.reverse, ∀ e ∈ u.request.changes, e.1 ≠ .claim plan.claim :=
    fun u member => sound.apart u (List.mem_reverse.mp member)
  have started : ∀ w, w = v → Undoing plan base True v.cluster w := by
    rintro w rfl
    exact ⟨sound.untouched, fun _ => ⟨trivial, rfl⟩⟩
  refine spec_bind (spec_conseq (spec_undoAll apart) started fun _ _ ended => ended)
    (fun reports => ?_) fun _ _ ended => ended
  obtain ⟨texts, failures⟩ := reports
  intro w ended
  show RolledBack plan base failures { w with run := { w.run with undo := [] } }
  refine ⟨⟨ended.1.unsent, ended.1.claim⟩, fun as_read smooth => ?_⟩
  obtain ⟨⟨_, none⟩, same⟩ := ended.2 smooth
  refine ⟨none, same.trans (putAll_restores (sound.covered as_read) fun e => ?_)⟩
  simp

end Undo

/-- A run that has set the flag of the point of no return, in the step with this number. -/
structure Passed (plan : VolumeMovePlan) (number : Nat) (w : World) : Prop where
  past : w.run.pastPointOfNoReturn = true
  clean : Clean w.trace
  flag : .pastPointOfNoReturn ∈ w.trace
  kept : ∀ request outcome, .undo request outcome ∉ w.trace
  saved : .saved w.run.savedClaim ∈ w.trace
  order : ∀ pre outcome post,
    w.trace = pre ++ .request (.deleteClaim plan.claim) outcome :: post →
      .saved w.run.savedClaim ∈ pre
  paused : number ≠ 13 → ∀ application outcome,
    .request (.pauseApplication application true) outcome ∉ w.trace
  step : lastStep w.trace = number

section PointOfNoReturn
variable {number : Nat} {streamed touched : Bool} {w w' : World}

theorem Passed.push (passed : Passed plan number w) {event : Event} (run : w'.run = w.run)
    (trace : w'.trace = w.trace ++ [event]) (kept : ∀ request outcome, event ≠ .undo request outcome)
    (step : ∀ begun line, event ≠ .step begun line)
    (resumes : ∀ application outcome, event = .request (.pauseApplication application true) outcome →
      number = 13) : Passed plan number w' where
  past := run ▸ passed.past
  clean := trace ▸ clean_push passed.clean fun _ _ => .inl passed.flag
  flag := by simp [trace, passed.flag]
  kept request outcome := by
    simpa [trace, (kept request outcome).symm] using passed.kept request outcome
  saved := by simp [trace, run, passed.saved]
  order pre outcome post split := by
    rw [run]
    rcases split_push (trace ▸ split) with ⟨rfl, _⟩ | ⟨post', earlier⟩
    · exact passed.saved
    · exact passed.order pre outcome post' earlier
  paused early application outcome := by
    have other : event ≠ .request (.pauseApplication application true) outcome :=
      fun same => early (resumes application outcome same)
    simpa [trace, other.symm] using passed.paused early application outcome
  step := by rw [trace, lastStep_push step, passed.step]

def After (plan : VolumeMovePlan) (number : Nat) (w : World) : Prop :=
  Passed plan number w ∧ Sent plan w.trace

/-- Where a run stops that has set the flag: the delete was sent, or an interrupt came before. -/
def Stopped (plan : VolumeMovePlan) (base : Cluster) (number : Nat) (w : World) : Prop :=
  Passed plan number w ∧ (Sent plan w.trace ∨
    Untouched plan base w ∧ ∃ pre, w.trace = pre ++ [.pastPointOfNoReturn, .interrupt])

theorem After.push (after : After plan number w) {event : Event} (run : w'.run = w.run)
    (trace : w'.trace = w.trace ++ [event]) (kept : ∀ request outcome, event ≠ .undo request outcome)
    (step : ∀ begun line, event ≠ .step begun line)
    (resumes : ∀ application outcome, event = .request (.pauseApplication application true) outcome →
      number = 13) : After plan number w' := by
  obtain ⟨passed, outcome, sent⟩ := after
  exact ⟨passed.push run trace kept step resumes, outcome, by simp [trace, sent]⟩

theorem After.begun (after : After plan number w) {next : Nat} (open_ : next ≠ 13 → number ≠ 13)
    (line : String) : After plan next (w.logged (.step next line)) := by
  obtain ⟨passed, outcome, sent⟩ := after
  refine ⟨{ passed with
    clean := clean_push passed.clean (by simp)
    flag := by simp [World.logged, passed.flag]
    kept := by simpa [World.logged] using passed.kept
    saved := by simp [World.logged, passed.saved]
    order := fun pre outcome post split => ?_
    paused := fun early => by simpa [World.logged] using passed.paused (open_ early)
    step := lastStep_step w.trace next line }, outcome, by simp [World.logged, sent]⟩
  rcases split_push split with ⟨rfl, _⟩ | ⟨post', earlier⟩
  · exact passed.saved
  · exact passed.order pre outcome post' earlier

def Saved (plan : VolumeMovePlan) (base : Cluster) (number : Nat) (streamed touched : Bool)
    (w : World) : Prop :=
  Before plan base number streamed touched w ∧ .saved w.run.savedClaim ∈ w.trace

def Flagged (plan : VolumeMovePlan) (base : Cluster) (number : Nat) (w : World) : Prop :=
  Passed plan number w ∧ Untouched plan base w ∧ ∃ pre, w.trace = pre ++ [.pastPointOfNoReturn]

theorem guards_savedPoint : Guards (Saved plan base number streamed touched)
    (Saved plan base number streamed touched) (Sound plan base number) (point o) :=
  spec_point (fun _ saved => ⟨saved.1.ticked, saved.2⟩)
    fun _ saved => saved.1.toSound.ticked.logged (by trivial) nofun

theorem guards_savedProgress (text : String) : Guards (Saved plan base number streamed touched)
    (Saved plan base number streamed touched) (Sound plan base number) (progress o text) :=
  guards_bind guards_savedPoint fun _ => guards_change _ fun w saved =>
    ⟨saved.1.logged (by trivial) nofun nofun, by simpa [World.logged] using saved.2⟩

theorem flagged_of_saved (saved : Saved plan base number streamed touched w) :
    Flagged plan base number
      ({ w with run := { w.run with pastPointOfNoReturn := true } }.logged .pastPointOfNoReturn) := by
  obtain ⟨before, path⟩ := saved
  have unsent := before.toSound.untouched.unsent
  refine ⟨⟨rfl, clean_push before.clean (by simp), by simp [World.logged], ?_,
    by simpa [World.logged] using path, ?_, ?_, ?_⟩, ⟨?_, before.claim⟩, w.trace, rfl⟩
  · intro request outcome member
    have earlier : .undo request outcome ∈ w.trace := by simpa [World.logged] using member
    exact before.early _ earlier
  · intro pre outcome post split
    rcases split_push split with ⟨_, same⟩ | ⟨post', earlier⟩
    · exact absurd same (by simp)
    · have sent : w.trace = pre ++ .request (.deleteClaim plan.claim) outcome :: post' := earlier
      exact absurd ⟨outcome, by simp [sent]⟩ unsent
  · intro _ application outcome member
    have earlier : .request (.pauseApplication application true) outcome ∈ w.trace := by
      simpa [World.logged] using member
    exact (before.early _ earlier).2 application rfl
  · exact (lastStep_push (by simp) w.trace).trans before.step
  · simpa [Sent, World.logged] using unsent

theorem guards_delete : Guards (Flagged plan base number) (After plan number)
    (Stopped plan base number) (kubectl o (.deleteClaim plan.claim)) := by
  have sent {w : World} (made : List (Entry Resource.Value)) (outcome : Outcome)
      (flagged : Flagged plan base number w) :
      After plan number (w.after made (.request (.deleteClaim plan.claim) outcome)) :=
    ⟨flagged.1.push rfl rfl (by simp) (by simp) (by simp), outcome, by simp [World.after]⟩
  refine spec_ask (fun w flagged => ?_) (fun w flagged => sent _ .done flagged)
    (fun w _ made flagged _ => ?_) fun w made flagged _ => ?_
  · obtain ⟨passed, untouched, pre, last⟩ := flagged
    exact ⟨passed.push rfl rfl (by simp) (by simp) (by simp), .inr ⟨untouched.push [] rfl rfl (by simp) (by simp), pre,
      by simp [World.logged, World.ticked, last]⟩⟩
  · exact (sent made .failed flagged).imp_right .inl
  · exact (sent made .interrupted flagged).imp_right .inl

theorem guards_deleteOldClaim : Guards (Before plan base number streamed touched)
    (After plan number) (fun w => Sound plan base number w ∨ Stopped plan base number w)
    (deleteOldClaim o plan) := by
  have early {α : Type} {pre after : World → Prop} {act : Move α}
      (does : Guards pre after (Sound plan base number) act) :
      Guards pre after (fun w => Sound plan base number w ∨ Stopped plan base number w) act :=
    guards_conseq does (fun _ start => start) (fun _ ended => ended) fun _ sound => .inl sound
  refine guards_bind (early (guards_unchanging rfl nofun)) fun _ => ?_
  refine guards_bind (early guards_tick) fun now => ?_
  refine guards_bind (early (guards_read _)) fun saved => ?_
  refine guards_bind (early (guards_setRun (fun _ => rfl) fun _ => rfl)) fun _ => ?_
  refine guards_bind (early guards_point) fun _ => ?_
  refine guards_bind (early guards_tick) fun now => ?_
  refine guards_bind (early (guards_read _)) fun path => ?_
  have written : Guards (Before plan base number streamed touched)
      (fun w => Before plan base number streamed touched w ∧ .saved path ∈ w.trace)
      (Sound plan base number) (log (.saved path)) :=
    guards_change _ fun w before => ⟨before.logged (by trivial) nofun nofun, by simp⟩
  refine guards_bind (early written) fun _ => ?_
  have kept : Guards (fun w => Before plan base number streamed touched w ∧ .saved path ∈ w.trace)
      (Saved plan base number streamed touched) (Sound plan base number)
      (setRun fun run => { run with savedClaim := path }) :=
    guards_change _ fun w before => ⟨{ before.1 with }, before.2⟩
  refine guards_bind (early kept) fun _ => ?_
  refine guards_bind (early (guards_savedProgress _)) fun _ => ?_
  refine guards_bind (early guards_savedPoint) fun _ => ?_
  have set : Guards (Saved plan base number streamed touched)
      (fun w => ∃ v, Saved plan base number streamed touched v ∧
        w = { v with run := { v.run with pastPointOfNoReturn := true } })
      (Sound plan base number) (setRun fun run => { run with pastPointOfNoReturn := true }) :=
    guards_change _ fun w saved => ⟨w, saved, rfl⟩
  refine guards_bind (early set) fun _ => ?_
  have flag : Guards (fun w => ∃ v, Saved plan base number streamed touched v ∧
        w = { v with run := { v.run with pastPointOfNoReturn := true } })
      (Flagged plan base number) (Sound plan base number) (log .pastPointOfNoReturn) :=
    guards_change _ fun w ⟨v, saved, same⟩ => same ▸ flagged_of_saved saved
  refine guards_bind (early flag) fun _ => ?_
  exact guards_conseq guards_delete (fun _ start => start) (fun _ ended => ended)
    fun _ stopped => .inr stopped

end PointOfNoReturn
end Move
end DevopsCli.K8s
