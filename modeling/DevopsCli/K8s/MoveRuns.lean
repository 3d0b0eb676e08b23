import DevopsCli.K8s.MoveFailure

/- Whole runs of a volume move. -/
namespace DevopsCli.K8s
open Act Saga

def Raised.Strands : Raised → Prop
  | .stranded .. => True
  | _ => False

namespace Move
variable {o : Outside} {plan : VolumeMovePlan} {base : Cluster} {steps : List String}

section LateSteps
variable {number : Nat}

theorem After.ticked {w : World} (after : After plan number w) : After plan number w.ticked :=
  ⟨{ after.1 with }, after.2⟩

theorem keeps_request {request : Request}
    (resumes : ∀ application, request = .pauseApplication application true → number = 13) :
    Keeps (After plan number) (kubectl o request) := by
  have kept {w : World} (made : List (Entry Resource.Value)) (outcome : Outcome)
      (after : After plan number w) :
      After plan number (w.after made (.request request outcome)) :=
    after.push rfl rfl nofun nofun fun application _ same =>
      resumes application (Event.request.inj same).1
  exact spec_ask (fun _ after => after.push rfl rfl nofun nofun nofun)
    (fun _ after => kept _ .done after) (fun _ _ made after _ => kept made .failed after)
    fun _ made after _ => kept made .interrupted after

theorem keeps_read {α : Type} (reading : Except String α) :
    Keeps (After plan number) (read reading) := by
  cases reading with
  | ok value => exact keeps_pure value
  | error message => exact keeps_raise _

theorem keeps_tick : Keeps (After plan number) tick :=
  keeps_bind keeps_world fun _ => keeps_bind (keeps_change fun _ after => after.ticked) fun _ => keeps_pure _

theorem keeps_rebind : Keeps (After plan number) (rebind o plan) :=
  keeps_bind (keeps_request nofun) fun _ => keeps_bind keeps_world fun _ => keeps_request nofun

theorem keeps_recreateClaim : Keeps (After plan number) (recreateClaim o plan) := by
  refine keeps_bind (keeps_request nofun) fun _ => keeps_bind keeps_world fun w => ?_
  have waits : Keeps (After plan number)
      (kubectl o (.wait ("pvc/" ++ plan.claim) "jsonpath=\x7b.status.phase\x7d=Bound")) :=
    keeps_request nofun
  cases w.run.saved with
  | some lastApplied => exact keeps_bind (keeps_request nofun) fun _ => waits
  | none => exact waits

theorem keeps_startWorkloads : Keeps (After plan number) (startWorkloads o plan) := by
  refine keeps_bind (keeps_forM fun workload => keeps_request nofun) fun _ => ?_
  refine keeps_bind (keeps_forM fun workload => keeps_request nofun) fun _ => ?_
  refine keeps_bind (keeps_request nofun) fun _ => keeps_bind keeps_tick fun _ => ?_
  exact keeps_bind (keeps_read _) fun _ => keeps_ite (keeps_raise _) (keeps_pure _)

theorem keeps_resume : Keeps (After plan 13) (resume o plan) :=
  keeps_forM fun _ => keeps_request fun _ _ => rfl

end LateSteps

/-- A failure that was undone, or whose undo was interrupted. -/
structure Undone (plan : VolumeMovePlan) (base : Cluster) (raised : Raised) (w : World) : Prop where
  untouched : Untouched plan base w
  unstranded : ¬raised.Strands
  restored : plan.Matches base → Smooth w.trace →
    (∃ message undone, raised = .volumeMove message undone []) ∧ w.cluster = base

def StrandedAt (plan : VolumeMovePlan) (steps : List String) (number : Nat) (raised : Raised)
    (w : World) : Prop :=
  ∃ reason, raised = .stranded ("The move stopped at step " ++ toString number ++
    ", after the old claim was deleted: " ++ reason) w.run.savedClaim plan.paused
    (steps.drop (number - 1)) plan.oldVolume w.run.newVolume

def Ended {α : Type} (plan : VolumeMovePlan) (base : Cluster) (steps : List String) :
    Except Raised α → World → Prop
  | .ok _ => fun w => Clean w.trace
  | .error raised => fun w => Undone plan base raised w ∨ ∃ number,
      Stopped plan base number w ∧ StrandedAt plan steps number raised w

theorem spec_failure (e : Raised) (number : Nat) :
    Spec (fun w => Sound plan base number w ∨ Stopped plan base number w)
      (failure o plan e number steps) fun
      | .ok raised => Ended plan base steps (.error raised : Except Raised Unit)
      | .error raised => Ended plan base steps (.error raised : Except Raised Unit) := by
  refine spec_look fun v start => ?_
  rcases start with sound | stopped
  · rw [if_neg (by simp [sound.past])]
    refine spec_bind (spec_conseq spec_rollBack (fun w same => same ▸ sound) fun _ _ ended => ended)
      (fun reports => ?_) fun raised w ended => .inl ⟨ended.1, ?_, fun _ smooth => ?_⟩
    · obtain ⟨undone, failures⟩ := reports
      refine spec_pure _ fun w ended => .inl ⟨ended.1, id, fun as_read smooth => ?_⟩
      obtain ⟨none, same⟩ := ended.2 as_read smooth
      exact ⟨⟨_, undone, by rw [none]⟩, same⟩
    · exact ended.2.1 ▸ id
    · exact absurd smooth ended.2.2
  · rw [if_pos stopped.1.past]
    refine spec_pure _ ?_
    rintro w rfl
    exact .inr ⟨number, stopped, _, rfl⟩

section Loop
variable {before pre after : World → Prop} {number : Nat} {text : String} {action : Move Unit}
  {rest : List (Nat × String × Move Unit)}

/-- One step of the run, whose error is answered. -/
theorem spec_caught
    (does : Guards pre after (fun w => Sound plan base number w ∨ Stopped plan base number w) action) :
    Spec pre (handle action fun e => do raise (← failure o plan e number steps)) fun
      | .ok _ => after
      | .error raised => Ended plan base steps (.error raised : Except Raised Unit) :=
  spec_handle does (fun _ _ ended => ended) fun e =>
    spec_bind (spec_failure e number) (fun raised => spec_raise raised fun _ ended => ended)
      fun _ _ ended => ended

theorem spec_runStep (begins : ∀ w line, before w → pre (w.logged (.step number line)))
    (does : Guards pre after (fun w => Sound plan base number w ∨ Stopped plan base number w) action)
    (ends : Spec after (runSteps o plan steps rest) (Ended plan base steps)) :
    Spec before (runSteps o plan steps ((number, text, action) :: rest))
      (Ended plan base steps) := by
  intro w start
  exact spec_bind (spec_caught does) (fun _ => ends) (fun _ _ ended => ended) _ (begins w _ start)

theorem spec_earlyStep {previous : Nat} {streamed touched : Bool}
    (does : Guards (Before plan base number streamed touched) after (Sound plan base number) action)
    (ends : Spec after (runSteps o plan steps rest) (Ended plan base steps)) :
    Spec (Before plan base previous streamed touched)
      (runSteps o plan steps ((number, text, action) :: rest)) (Ended plan base steps) :=
  spec_runStep (fun _ line before => before.begun number line)
    (guards_conseq does (fun _ start => start) (fun _ ended => ended) fun _ sound => .inl sound) ends

theorem spec_lateStep {previous : Nat} (open_ : number ≠ 13 → previous ≠ 13)
    (does : Keeps (After plan number) action)
    (ends : Spec (After plan number) (runSteps o plan steps rest) (Ended plan base steps)) :
    Spec (After plan previous) (runSteps o plan steps ((number, text, action) :: rest))
      (Ended plan base steps) :=
  spec_runStep (fun _ line after => after.begun open_ line)
    (guards_conseq (guards_keeps does) (fun _ start => start) (fun _ ended => ended)
      fun _ after => .inr (after.imp_right .inl)) ends

end Loop

theorem spec_run : Spec (Before plan base 0 false false) (run o plan)
    (Ended plan base plan.describeVolumeMove) := by
  have finished : Spec (After plan 13) (runSteps o plan plan.describeVolumeMove [])
      (Ended plan base plan.describeVolumeMove) := spec_pure _ fun w after => after.1.clean
  have late : Spec (After plan 9) (runSteps o plan plan.describeVolumeMove
      (((List.range' 1 13).zip (plan.describeVolumeMove.zip (actions o plan))).drop 9))
      (Ended plan base plan.describeVolumeMove) :=
    spec_lateStep nofun keeps_rebind <| spec_lateStep nofun keeps_recreateClaim <|
      spec_lateStep nofun keeps_startWorkloads <| spec_lateStep nofun keeps_resume finished
  have ninth : Spec (Before plan base 8 true true) (runSteps o plan plan.describeVolumeMove
      (((List.range' 1 13).zip (plan.describeVolumeMove.zip (actions o plan))).drop 8))
      (Ended plan base plan.describeVolumeMove) :=
    spec_runStep (fun _ line before => before.begun 9 line) guards_deleteOldClaim late
  have all : Spec (Before plan base 0 false false) (runSteps o plan plan.describeVolumeMove
      ((List.range' 1 13).zip (plan.describeVolumeMove.zip (actions o plan))))
      (Ended plan base plan.describeVolumeMove) :=
    spec_earlyStep guards_pause <| spec_earlyStep guards_makeDestination <|
      spec_earlyStep guards_stopWorkloads <| spec_earlyStep guards_startSource <|
      spec_earlyStep guards_copy <| spec_earlyStep guards_compare <|
      spec_earlyStep guards_retainVolumes <| spec_earlyStep guards_deleteCopyPods ninth
  exact spec_bind all (fun _ => spec_look fun v clean => spec_pure _ fun w same => same ▸ clean)
    fun _ _ ended => ended

end Move

structure World.Fresh (w : World) : Prop where
  run : w.run = {}
  trace : w.trace = []

namespace Move
variable (o : Outside) (plan : VolumeMovePlan) (w : World)

theorem run_ended (fresh : w.Fresh) :
    Ended plan w.cluster plan.describeVolumeMove (Act.run (run o plan) w).1
      (Act.run (run o plan) w).2 := by
  refine spec_run w ⟨⟨?_, ?_, ?_, fun _ => ?_, rfl, ?_⟩, ?_, ?_, fun _ _ => rfl⟩
  · simp [fresh.run]
  · simp [fresh.trace]
  · simp [fresh.trace, lastStep]
  · simpa [fresh.run] using covered_start w.cluster
  · simp [fresh.run]
  · simp [fresh.trace, Clean]
  · simp [fresh.trace]

/-- A request that fails before the point of no return, and is no stream that the copy retries,
    fails the move, and its undo leaves the cluster as it was. -/
theorem failed_move_leaves_no_trace (fresh : w.Fresh) (as_read : plan.Matches w.cluster)
    (pre post : List Event) (request : Request)
    (fails : (Act.run (run o plan) w).2.trace = pre ++ .request request .failed :: post)
    (before : .pastPointOfNoReturn ∉ pre)
    (retried : request = .stream → ∃ outcome, .request .stream outcome ∈ pre)
    (smooth : Smooth (Act.run (run o plan) w).2.trace) :
    (∃ message undone, (Act.run (run o plan) w).1 = .error (.volumeMove message undone [])) ∧
      (Act.run (run o plan) w).2.cluster = w.cluster := by
  have ended := run_ended o plan w fresh
  have unclean : ¬Clean (Act.run (run o plan) w).2.trace := by
    intro clean
    obtain ⟨stream, first⟩ := clean pre request post fails before
    obtain ⟨outcome, earlier⟩ := retried stream
    exact first outcome earlier
  generalize Act.run (run o plan) w = result at ended unclean smooth ⊢
  obtain ⟨raised | value, w'⟩ := result
  · rcases ended with undone | ⟨_, stopped, _⟩
    · obtain ⟨⟨message, texts, same⟩, cluster⟩ := undone.restored as_read smooth
      exact ⟨⟨message, texts, by rw [same]⟩, cluster⟩
    · exact absurd stopped.1.clean unclean
  · exact absurd ended unclean

def smallPlan : VolumeMovePlan where
  «namespace» := "apps"
  claim := "data"
  oldVolume := "pv-old"
  oldReclaimPolicy := "Delete"
  sourceNode := "node-a"
  targetNode := "node-b"
  storageClass := "local-path"
  size := "1Gi"
  workloads := [⟨"Deployment", "web", 2⟩]
  pods := ["web-0"]
  paused := ["root"]

def smallWorld : World where
  run := {}
  cluster
    | .application _ => true
    | .workload _ => (2 : Int)
    | .volume _ => "Delete"
    | .claim name => name == "data"
    | .pod _ => false
  tick := 0
  trace := []

theorem smallPlan_matches : smallPlan.Matches smallWorld.cluster where
  paused _ _ := rfl
  replicas := by decide
  policy := rfl
  moveClaim := by decide
  sourcePod := rfl
  destinationPod := rfl

def willing : Outside where
  interrupts _ := false
  answer _ := .done
  volumeName _ := "pv-new"
  digest _ := .ok ⟨1, 1, 1, "m", "c"⟩
  claim _ := .ok none
  save _ := .ok "data.json"
  placed _ := .ok [("node-b", "Running")]

def failingAt (tick : Nat) : Outside :=
  { willing with answer := fun now => if now = tick then .failed "no" fun _ => true else .done }

/-- The last change of step 7 fails after it was made. -/
theorem failed_move_leaves_no_trace_late :
    (∃ message undone, (Act.run (run (failingAt 40) smallPlan) smallWorld).1 =
      .error (.volumeMove message undone [])) ∧
      (Act.run (run (failingAt 40) smallPlan) smallWorld).2.cluster = smallWorld.cluster := by
  have fails : (Act.run (run (failingAt 40) smallPlan) smallWorld).2.trace[22]? =
      some (.request (.setReclaim "pv-old" "Retain") .failed) := by decide +kernel
  exact failed_move_leaves_no_trace _ _ _ ⟨rfl, rfl⟩ smallPlan_matches _ _ _ (split_at fails)
    (by decide +kernel) (fun same => nomatch same) (by decide +kernel)

/-- The first stream fails, the second is done, and the move goes through. -/
theorem first_stream_fails_no_move :
    ¬∀ (o : Outside) (plan : VolumeMovePlan) (w : World), w.Fresh → plan.Matches w.cluster →
      ∀ (pre post : List Event) (request : Request),
        (Act.run (run o plan) w).2.trace = pre ++ .request request .failed :: post →
        .pastPointOfNoReturn ∉ pre → Smooth (Act.run (run o plan) w).2.trace →
        (∃ message undone, (Act.run (run o plan) w).1 = .error (.volumeMove message undone [])) ∧
          (Act.run (run o plan) w).2.cluster = w.cluster := by
  intro claim
  have fails : (Act.run (run (failingAt 25) smallPlan) smallWorld).2.trace[14]? =
      some (.request .stream .failed) := by decide +kernel
  obtain ⟨⟨message, undone, raises⟩, _⟩ := claim (failingAt 25) smallPlan smallWorld ⟨rfl, rfl⟩
    smallPlan_matches _ _ _ (split_at fails) (by decide +kernel) (by decide +kernel)
  have moved : (Act.run (run (failingAt 25) smallPlan) smallWorld).1.isOk = true := by
    decide +kernel
  simp [raises, Except.isOk, Except.toBool] at moved

end Move
end DevopsCli.K8s
