import DevopsCli.K8s.MoveRuns
import DevopsCli.K8s.MoveCommands

/- The dry run of a volume move lists what a move that returns has sent. -/
namespace DevopsCli.K8s
open Act Saga

def Event.asked : Event → Option Request
  | .request sent _ => some sent
  | _ => none

def askedOf (trace : List Event) : List Request := trace.filterMap Event.asked

/-- What decides the requests of a run, beside the plan. -/
structure Course where
  copyFailed : Bool
  newVolume : String
  newPolicy : String
  lastApplied : Option String

section Script
variable (plan : VolumeMovePlan) (course : Course)

def pauseRequests : List Request := plan.paused.map fun application => .pauseApplication application false

def destinationRequests : List Request :=
  [.createClaim plan.moveClaim, .createPod plan.destinationPod,
    .wait ("pod/" ++ plan.destinationPod) "condition=Ready", .getVolumeName plan.moveClaim]

def stopRequests : List Request :=
  plan.workloads.map (fun workload => .scale workload.ref 0) ++
    plan.pods.map fun pod => .wait ("pod/" ++ pod) "delete"

def sourceRequests : List Request :=
  [.createPod plan.sourcePod, .wait ("pod/" ++ plan.sourcePod) "condition=Ready"]

def copyRequests : List Request :=
  .stream :: if course.copyFailed then [.emptyDestination, .stream] else []

def compareRequests : List Request := [.digest plan.sourcePod, .digest plan.destinationPod]

def retainRequests (volume prior : String) : List Request :=
  if prior = "Retain" then [] else [.setReclaim volume "Retain"]

def volumeRequests : List Request :=
  .getReclaim course.newVolume :: (retainRequests course.newVolume course.newPolicy ++
    retainRequests plan.oldVolume plan.oldReclaimPolicy)

def rebindRequests : List Request :=
  [.deletePods [plan.sourcePod, plan.destinationPod], .getClaim plan.claim, .deleteClaim plan.claim,
    .deleteClaim plan.moveClaim, .claimRef course.newVolume plan.claim]

def recreateRequests : List Request :=
  .createClaim plan.claim :: ((course.lastApplied.map (Request.annotate plan.claim)).toList ++
    [.wait ("pvc/" ++ plan.claim) "jsonpath=\x7b.status.phase\x7d=Bound"])

def startRequests : List Request :=
  plan.workloads.map (fun workload => .scale workload.ref workload.replicas) ++
    (plan.workloads.map (fun workload => .wait workload.ref
      ("jsonpath=\x7b.status.readyReplicas\x7d=" ++ toString workload.replicas)) ++ [.getPods])

def resumeRequests : List Request :=
  plan.paused.reverse.map fun application => .pauseApplication application true

def script : List Request :=
  pauseRequests plan ++ destinationRequests plan ++ stopRequests plan ++ sourceRequests plan ++
    copyRequests course ++ compareRequests plan ++ volumeRequests plan course ++
    rebindRequests plan course ++ recreateRequests plan course ++ startRequests plan ++
    resumeRequests plan

end Script

/-- A world in which a run has sent these requests. Until it sets a reclaim policy, the volumes
    have their first ones. -/
structure Asked (base : Cluster) (requests : List Request) (copyFailed : Bool) (newVolume : String)
    (saved : Option String) (w : World) : Prop where
  asked : askedOf w.trace = requests
  failed : .request .stream .failed ∈ w.trace ↔ copyFailed = true
  newVolume : w.run.newVolume = newVolume
  saved : w.run.saved = saved
  volumes : (∀ volume policy, .setReclaim volume policy ∉ requests) →
    ∀ volume, w.cluster (.volume volume) = base (.volume volume)

def Followed (plan : VolumeMovePlan) (base : Cluster) (w : World) : Prop :=
  ∃ failed newVolume saved, Asked base
    (script plan ⟨failed, newVolume, base (.volume newVolume), saved⟩) failed newVolume saved w

section Worlds
variable {base : Cluster} {requests : List Request} {copyFailed : Bool} {newVolume : String}
  {saved : Option String} {w : World}

theorem Asked.logged (asked : Asked base requests copyFailed newVolume saved w) {event : Event}
    (quiet : event.asked = none) : Asked base requests copyFailed newVolume saved (w.logged event) where
  asked := by simp [World.logged, askedOf, quiet, ← asked.asked]
  failed := by
    have other : event ≠ .request .stream .failed := by
      rintro rfl
      cases quiet
    simpa [World.logged, other.symm] using asked.failed
  newVolume := asked.newVolume
  saved := asked.saved
  volumes := asked.volumes

theorem Asked.ticked (asked : Asked base requests copyFailed newVolume saved w) :
    Asked base requests copyFailed newVolume saved w.ticked :=
  ⟨asked.asked, asked.failed, asked.newVolume, asked.saved, asked.volumes⟩

theorem changes_volume {request : Request} {e : Entry Resource.Value} {volume : String}
    (other : ∀ policy, request ≠ .setReclaim volume policy) (member : e ∈ request.changes) :
    e.1 ≠ .volume volume := by
  rintro same
  cases request <;> simp [Request.changes] at member
  case setReclaim changed policy =>
    subst member
    cases same
    exact other policy rfl
  case deletePods names =>
    obtain ⟨name, _, rfl⟩ := member
    cases same
  all_goals
    subst member
    cases same

theorem Asked.after (asked : Asked base requests copyFailed newVolume saved w) {request : Request}
    {outcome : Outcome} {made : List (Entry Resource.Value)} {failed : Bool}
    (taken : ∀ e ∈ made, e ∈ request.changes)
    (fails : failed = true ↔
      copyFailed = true ∨ Event.request request outcome = .request .stream .failed) :
    Asked base (requests ++ [request]) failed newVolume saved
      (w.after made (.request request outcome)) where
  asked := by simp [World.after, askedOf, Event.asked, ← asked.asked]
  failed := by
    rw [fails, ← asked.failed, World.after, List.mem_append, List.mem_singleton]
    exact or_congr_right eq_comm
  newVolume := asked.newVolume
  saved := asked.saved
  volumes := by
    intro unset volume
    have kept : putAll w.cluster made (.volume volume) = w.cluster (.volume volume) := by
      refine putAll_keeps fun e member => changes_volume (fun policy same => ?_) (taken e member)
      exact unset volume policy (by simp [same])
    exact kept.trans (asked.volumes (fun v p member => unset v p (List.mem_append_left _ member)) volume)

end Worlds

namespace Move
variable {o : Outside} {plan : VolumeMovePlan} {base : Cluster} {requests : List Request}
  {copyFailed : Bool} {newVolume : String} {saved : Option String}

section Steps

theorem returns_point : Returns (Asked base requests copyFailed newVolume saved) (point o)
    fun _ => Asked base requests copyFailed newVolume saved :=
  spec_point (fun _ asked => asked.ticked) fun _ _ => trivial

theorem returns_kubectl (request : Request) :
    Returns (Asked base requests copyFailed newVolume saved) (kubectl o request)
      fun _ => Asked base (requests ++ [request]) copyFailed newVolume saved :=
  spec_ask (fun _ _ => trivial)
    (fun _ asked => asked.after (fun _ member => member) (by simp))
    (fun _ _ _ _ _ => trivial) fun _ _ _ _ => trivial

theorem returns_setRun {f : MoveRun → MoveRun} (newVolume_ : ∀ run, (f run).newVolume = run.newVolume)
    (saved_ : ∀ run, (f run).saved = run.saved) :
    Returns (Asked base requests copyFailed newVolume saved) (setRun f)
      fun _ => Asked base requests copyFailed newVolume saved :=
  returns_change _ fun _ asked => ⟨asked.asked, asked.failed, (newVolume_ _).trans asked.newVolume,
    (saved_ _).trans asked.saved, asked.volumes⟩

theorem returns_log {event : Event} (quiet : event.asked = none) :
    Returns (Asked base requests copyFailed newVolume saved) (log event)
      fun _ => Asked base requests copyFailed newVolume saved :=
  returns_change _ fun _ asked => asked.logged quiet

theorem returns_onUndo (text : String) (undo : Request) :
    Returns (Asked base requests copyFailed newVolume saved) (onUndo o text undo)
      fun _ => Asked base requests copyFailed newVolume saved :=
  returns_bind returns_point fun _ => returns_setRun (fun _ => rfl) fun _ => rfl

theorem returns_progress (text : String) :
    Returns (Asked base requests copyFailed newVolume saved) (progress o text)
      fun _ => Asked base requests copyFailed newVolume saved :=
  returns_bind returns_point fun _ => returns_log rfl

theorem returns_tick : Returns (Asked base requests copyFailed newVolume saved) tick
    fun _ => Asked base requests copyFailed newVolume saved :=
  returns_world fun _ asked => returns_bind
    (returns_change _ fun _ same => same ▸ asked.ticked) fun _ => returns_pure _ fun _ asked => asked

theorem returns_read {α : Type} (reading : Except String α) :
    Returns (Asked base requests copyFailed newVolume saved) (read reading)
      fun _ => Asked base requests copyFailed newVolume saved := by
  cases reading with
  | ok value => exact returns_pure value fun _ asked => asked
  | error message => exact returns_raise _

theorem returns_loop {α : Type} {xs : List α} {body : α → Move Unit} {request : α → Request}
    (round : ∀ x requests, Returns (Asked base requests copyFailed newVolume saved) (body x)
      fun _ => Asked base (requests ++ [request x]) copyFailed newVolume saved) :
    Returns (Asked base requests copyFailed newVolume saved) (xs.forM body)
      fun _ => Asked base (requests ++ xs.map request) copyFailed newVolume saved := by
  induction xs generalizing requests with
  | nil => exact returns_pure _ fun _ asked => by simpa using asked
  | cons x rest ih =>
    refine returns_bind (round x requests) fun _ => ?_
    rw [List.map_cons, List.append_cons requests (request x) (rest.map request)]
    exact ih

theorem returns_pause : Returns (Asked base requests copyFailed newVolume saved) (pause o plan)
    fun _ => Asked base (requests ++ pauseRequests plan) copyFailed newVolume saved :=
  returns_loop fun _ _ => returns_bind (returns_onUndo _ _) fun _ => returns_kubectl _

theorem returns_makeDestination :
    Returns (Asked base requests copyFailed newVolume saved) (makeDestination o plan)
      fun _ w => ∃ newVolume, Asked base (requests ++ destinationRequests plan) copyFailed newVolume
        saved w := by
  refine returns_bind (returns_onUndo _ _) fun _ => returns_bind (returns_kubectl _) fun _ => ?_
  refine returns_bind (returns_onUndo _ _) fun _ => returns_bind (returns_kubectl _) fun _ => ?_
  refine returns_bind (returns_kubectl _) fun _ => returns_bind (returns_kubectl _) fun _ => ?_
  refine returns_bind returns_tick fun now => ?_
  have named : Returns (Asked base (requests ++ destinationRequests plan) copyFailed newVolume saved)
      (setRun fun run => { run with newVolume := o.volumeName now }) fun _ =>
        Asked base (requests ++ destinationRequests plan) copyFailed (o.volumeName now) saved :=
    returns_change _ fun _ asked => ⟨asked.asked, asked.failed, rfl, asked.saved, asked.volumes⟩
  refine returns_bind (returns_conseq named (fun _ asked => ?_) fun _ _ asked => asked) fun _ => ?_
  · simpa [destinationRequests] using asked
  · exact returns_ite (fun _ => returns_raise _) fun _ => returns_pure _ fun _ asked => ⟨_, asked⟩

theorem returns_stopWorkloads :
    Returns (Asked base requests copyFailed newVolume saved) (stopWorkloads o plan)
      fun _ => Asked base (requests ++ stopRequests plan) copyFailed newVolume saved := by
  rw [stopRequests, ← List.append_assoc]
  exact returns_bind
    (returns_loop fun _ _ => returns_bind (returns_onUndo _ _) fun _ => returns_kubectl _)
    fun _ => returns_loop fun _ _ => returns_kubectl _

theorem returns_startSource :
    Returns (Asked base requests copyFailed newVolume saved) (startSource o plan)
      fun _ => Asked base (requests ++ sourceRequests plan) copyFailed newVolume saved := by
  rw [sourceRequests, List.append_cons]
  exact returns_bind (returns_onUndo _ _) fun _ => returns_bind (returns_kubectl _)
    fun _ => returns_kubectl _

theorem spec_stream : Spec (Asked base requests false newVolume saved) (kubectl o .stream) fun
    | .ok _ => Asked base (requests ++ [.stream]) false newVolume saved
    | .error e => fun w =>
        e = .keyboardInterrupt ∨ Asked base (requests ++ [.stream]) true newVolume saved w := by
  exact spec_ask (fun _ _ => .inl rfl)
    (fun _ asked => asked.after (fun _ member => member) (by simp))
    (fun _ _ _ asked taken => .inr (asked.after taken (by simp))) fun _ _ _ _ => .inl rfl

theorem returns_copy : Returns (Asked base requests false newVolume saved) (copy o) fun _ w =>
    ∃ failed, Asked base (requests ++ .stream :: if failed then [.emptyDestination, .stream] else [])
      failed newVolume saved w := by
  refine spec_handle spec_stream (fun _ _ asked => ⟨false, asked⟩) fun e => ?_
  have again : Returns (Asked base (requests ++ [.stream]) true newVolume saved) (do
      progress o ("The copy stopped (" ++ e.text ++ "). Empty /dst and copy one more time.")
      kubectl o .emptyDestination
      kubectl o .stream) fun _ w => ∃ failed, Asked base
        (requests ++ .stream :: if failed then [.emptyDestination, .stream] else []) failed newVolume
        saved w := by
    refine returns_bind (returns_progress _) fun _ => returns_bind (returns_kubectl _) fun _ => ?_
    exact returns_conseq (returns_kubectl _) (fun _ asked => asked)
      fun _ _ asked => ⟨true, by simpa using asked⟩
  cases e with
  | keyboardInterrupt => exact returns_raise _
  | _ =>
    intro w ended
    exact again w (ended.resolve_left nofun)

theorem returns_side (pod : String) :
    Returns (Asked base requests copyFailed newVolume saved) (side o pod)
      fun _ => Asked base (requests ++ [.digest pod]) copyFailed newVolume saved :=
  returns_bind (returns_kubectl _) fun _ => returns_bind returns_tick fun _ => returns_read _

theorem returns_compare : Returns (Asked base requests copyFailed newVolume saved) (compare o plan)
    fun _ => Asked base (requests ++ compareRequests plan) copyFailed newVolume saved := by
  rw [compareRequests, List.append_cons]
  refine returns_bind (returns_side _) fun source => returns_bind (returns_side _) fun destination => ?_
  have equal : Returns
      (Asked base (requests ++ [.digest plan.sourcePod] ++ [.digest plan.destinationPod]) copyFailed
        newVolume saved) (do
        setRun fun run => { run with digest := source }
        progress o ("The two sides are equal: " ++ toString source.entries ++ " entries, " ++
          toString source.files ++ " files, " ++ toString source.bytes ++
          " bytes of regular files, and equal metadata and content digests.")) fun _ =>
      Asked base (requests ++ [.digest plan.sourcePod] ++ [.digest plan.destinationPod]) copyFailed
        newVolume saved :=
    returns_bind (returns_setRun (fun _ => rfl) fun _ => rfl) fun _ => returns_progress _
  exact returns_ite (fun _ => returns_bind (returns_raise _) fun _ => equal) fun _ => equal

theorem returns_retain (volume prior : String) :
    Returns (Asked base requests copyFailed newVolume saved) (retain o volume prior)
      fun _ => Asked base (requests ++ retainRequests volume prior) copyFailed newVolume saved := by
  unfold retain retainRequests
  split
  · exact returns_pure _ fun _ asked => by simpa using asked
  · exact returns_bind (returns_onUndo _ _) fun _ => returns_kubectl _

theorem returns_retainVolumes (unset : ∀ volume policy, .setReclaim volume policy ∉ requests) :
    Returns (Asked base requests copyFailed newVolume saved) (retainVolumes o plan)
      fun _ => Asked base (requests ++ .getReclaim newVolume ::
        (retainRequests newVolume (base (.volume newVolume)) ++
          retainRequests plan.oldVolume plan.oldReclaimPolicy)) copyFailed newVolume saved := by
  refine returns_world fun v asked => ?_
  rw [asked.newVolume, List.append_cons, ← List.append_assoc]
  refine returns_bind (returns_conseq (returns_kubectl _) (fun _ same => same ▸ asked)
    fun _ _ asked => asked) fun _ => returns_world fun u asked => ?_
  have policy : u.cluster (.volume newVolume) = base (.volume newVolume) :=
    asked.volumes (by simpa using unset) newVolume
  rw [policy]
  exact returns_bind (returns_conseq (returns_retain _ _) (fun _ same => same ▸ asked)
    fun _ _ asked => asked) fun _ => returns_retain _ _

theorem returns_deleteOldClaim :
    Returns (Asked base requests copyFailed newVolume saved) (deleteOldClaim o plan) fun _ w =>
      ∃ saved, Asked base (requests ++ [.getClaim plan.claim, .deleteClaim plan.claim]) copyFailed
        newVolume saved w := by
  refine returns_bind (returns_kubectl _) fun _ => returns_bind returns_tick fun _ => ?_
  refine returns_bind (returns_read _) fun lastApplied => ?_
  have named : Returns (Asked base (requests ++ [.getClaim plan.claim]) copyFailed newVolume saved)
      (setRun fun run => { run with saved := lastApplied }) fun _ =>
        Asked base (requests ++ [.getClaim plan.claim]) copyFailed newVolume lastApplied :=
    returns_change _ fun _ asked => ⟨asked.asked, asked.failed, asked.newVolume, rfl, asked.volumes⟩
  refine returns_bind named fun _ => returns_bind returns_point fun _ => ?_
  refine returns_bind returns_tick fun _ => returns_bind (returns_read _) fun path => ?_
  refine returns_bind (returns_log rfl) fun _ => ?_
  refine returns_bind (returns_setRun (fun _ => rfl) fun _ => rfl) fun _ => ?_
  refine returns_bind (returns_progress _) fun _ => returns_bind returns_point fun _ => ?_
  refine returns_bind (returns_setRun (fun _ => rfl) fun _ => rfl) fun _ => ?_
  refine returns_bind (returns_log rfl) fun _ => returns_conseq (returns_kubectl _) (fun _ asked => asked)
    fun _ _ asked => ⟨lastApplied, ?_⟩
  simpa using asked

theorem returns_rebind : Returns (Asked base requests copyFailed newVolume saved) (rebind o plan)
    fun _ => Asked base (requests ++ [.deleteClaim plan.moveClaim, .claimRef newVolume plan.claim])
      copyFailed newVolume saved := by
  rw [List.append_cons]
  refine returns_bind (returns_kubectl _) fun _ => returns_world fun v asked => ?_
  rw [asked.newVolume]
  exact returns_conseq (returns_kubectl _) (fun _ same => same ▸ asked) fun _ _ asked => asked

theorem returns_recreateClaim :
    Returns (Asked base requests copyFailed newVolume saved) (recreateClaim o plan) fun _ =>
      Asked base (requests ++ .createClaim plan.claim ::
        ((saved.map (Request.annotate plan.claim)).toList ++
          [.wait ("pvc/" ++ plan.claim) "jsonpath=\x7b.status.phase\x7d=Bound"])) copyFailed newVolume
        saved := by
  rw [List.append_cons, ← List.append_assoc]
  refine returns_bind (returns_kubectl _) fun _ => returns_world fun v asked => ?_
  rw [asked.saved]
  cases saved with
  | none =>
    rw [Option.map_none, Option.toList_none, List.append_nil]
    exact returns_conseq (returns_kubectl _) (fun _ same => same ▸ asked) fun _ _ asked => asked
  | some lastApplied =>
    exact returns_bind (returns_conseq (returns_kubectl _) (fun _ same => same ▸ asked)
      fun _ _ asked => asked) fun _ => returns_kubectl _

theorem returns_startWorkloads :
    Returns (Asked base requests copyFailed newVolume saved) (startWorkloads o plan)
      fun _ => Asked base (requests ++ startRequests plan) copyFailed newVolume saved := by
  rw [startRequests, ← List.append_assoc, ← List.append_assoc]
  refine returns_bind (returns_loop fun _ _ => returns_kubectl _) fun _ => ?_
  refine returns_bind (returns_loop fun _ _ => returns_kubectl _) fun _ => ?_
  refine returns_bind (returns_kubectl _) fun _ => returns_bind returns_tick fun _ => ?_
  refine returns_bind (returns_read _) fun placed => ?_
  exact returns_ite (fun _ => returns_raise _) fun _ => returns_pure _ fun _ asked => asked

theorem returns_resume : Returns (Asked base requests copyFailed newVolume saved) (resume o plan)
    fun _ => Asked base (requests ++ resumeRequests plan) copyFailed newVolume saved :=
  returns_loop fun _ _ => returns_kubectl _

section Loop
variable {pre mid : World → Prop} {post : Unit → World → Prop} {steps : List String} {number : Nat}
  {text : String} {action : Move Unit} {rest : List (Nat × String × Move Unit)}

theorem returns_step (logs : ∀ w line, pre w → pre (w.logged (.step number line)))
    (does : Returns pre action fun _ => mid) (ends : Returns mid (runSteps o plan steps rest) post) :
    Returns pre (runSteps o plan steps ((number, text, action) :: rest)) post := by
  have handled : Returns pre (handle action fun e => do raise (← failure o plan e number steps))
      fun _ => mid := by
    refine spec_handle does (fun _ _ kept => kept) fun e => ?_
    have fails : Returns (fun _ => True) (failure o plan e number steps) fun _ _ => True := by
      intro w _
      generalize Act.run (failure o plan e number steps) w = ended
      obtain ⟨_ | _, _⟩ := ended <;> trivial
    exact returns_bind fails fun _ => returns_raise _
  exact returns_bind (returns_change _ fun w start => logs w _ start) fun _ =>
    returns_bind handled fun _ => ends

theorem returns_next {requests' : List Request} {action : Move Unit}
    (does : Returns (Asked base requests copyFailed newVolume saved) action
      fun _ => Asked base requests' copyFailed newVolume saved)
    (ends : Returns (Asked base requests' copyFailed newVolume saved)
      (runSteps o plan steps rest) post) :
    Returns (Asked base requests copyFailed newVolume saved)
      (runSteps o plan steps ((number, text, action) :: rest)) post :=
  returns_step (fun _ _ asked => asked.logged rfl) does ends

theorem returns_some {γ : Type} {pre_ : γ → World → Prop} {action : Move Unit}
    (each : ∀ c, Returns (pre_ c) action post) : Returns (fun w => ∃ c, pre_ c w) action post :=
  spec_exists each

end Loop

theorem returns_runSteps (steps : List String) : Returns (Asked base [] false "" none)
    (runSteps o plan steps ((List.range' 1 13).zip (plan.describeVolumeMove.zip (actions o plan))))
    fun _ => Followed plan base := by
  refine returns_next returns_pause ?_
  refine returns_step (fun _ _ asked => asked.logged rfl) returns_makeDestination ?_
  refine returns_some fun newVolume => ?_
  refine returns_next returns_stopWorkloads <| returns_next returns_startSource ?_
  refine returns_step (fun _ _ asked => asked.logged rfl) returns_copy ?_
  refine returns_some fun failed => ?_
  refine returns_next returns_compare ?_
  have unset : ∀ volume policy, .setReclaim volume policy ∉ [] ++ pauseRequests plan ++
      destinationRequests plan ++ stopRequests plan ++ sourceRequests plan ++
      (.stream :: if failed then [.emptyDestination, .stream] else []) ++ compareRequests plan := by
    intro volume policy member
    cases failed <;> simp [pauseRequests, destinationRequests, stopRequests, sourceRequests,
      compareRequests] at member
  refine returns_next (returns_retainVolumes unset) ?_
  refine returns_next (returns_kubectl _) ?_
  refine returns_step (fun _ _ asked => asked.logged rfl) returns_deleteOldClaim ?_
  refine returns_some fun saved => ?_
  refine returns_next returns_rebind <| returns_next returns_recreateClaim ?_
  refine returns_next returns_startWorkloads <| returns_next returns_resume ?_
  refine returns_pure _ fun w asked => ⟨failed, newVolume, saved, ?_⟩
  simpa [script, copyRequests, volumeRequests, rebindRequests, recreateRequests] using asked

theorem returns_run (o : Outside) (plan : VolumeMovePlan) {base : Cluster} :
    Returns (Asked base [] false "" none) (run o plan) fun _ => Followed plan base :=
  returns_bind (returns_runSteps _) fun _ => returns_world fun _ followed =>
    returns_pure _ fun _ same => same ▸ followed

end Steps
end Move

section Expansion
variable {F : Type} (floats : Floats F) (plan : ManifestPlan F) (context : Option String)

theorem sourcePod_ne : plan.sourcePod ≠ plan.destinationPod := by
  intro same
  have texts := congrArg String.toList same
  rw [VolumeMovePlan.sourcePod, VolumeMovePlan.destinationPod, String.toList_append,
    String.toList_append] at texts
  exact absurd (List.append_cancel_left texts) (by decide)

theorem secondsOf_ready (replicas : String) : secondsOf (readyReplicas ++ replicas) = rolloutSeconds := by
  have ready : readyReplicas.toList.isPrefixOf (readyReplicas ++ replicas).toList = true := by
    rw [String.toList_append, List.isPrefixOf_iff_prefix]
    exact List.prefix_append _ _
  rw [secondsOf, if_pos ready]

variable (course : Course) (saved : SavedClaim F)

def Course.facts : Facts F := ⟨course.copyFailed, course.newVolume, course.newPolicy, saved⟩

section Lines
variable {plan context} {facts : Facts F} {verb target : String} {args : Names F → List String}

theorem expand_plain : (plannedAs context verb args target none none).expand plan facts =
    [⟨buildKubectlCmd (args facts.names) context, none⟩] := rfl

theorem expand_each (repeat_ : Repeat) :
    (plannedAs context verb args target none (some repeat_)).expand plan facts =
      (repeat_.instances plan facts).map fun names => ⟨buildKubectlCmd (args names) context, none⟩ :=
  rfl

theorem expand_when (condition : Condition) :
    (plannedAs context verb args target (some condition) none).expand plan facts =
      if condition.holds plan facts then [⟨buildKubectlCmd (args facts.names) context, none⟩]
      else [] := rfl

theorem expand_create {stdin : Names F → Json F} : (plannedCreate context target stdin).expand plan facts =
    [⟨buildKubectlCmd createArgs context, some (stdin facts.names)⟩] := rfl

theorem expand_copy : (plannedCopy plan context none).expand plan facts =
    [⟨copyArgv plan.toVolumeMovePlan context, none⟩] := rfl

theorem expand_copyWhen (condition : Condition) :
    (plannedCopy plan context (some condition)).expand plan facts =
      if condition.holds plan facts then [⟨copyArgv plan.toVolumeMovePlan context, none⟩] else [] := rfl

end Lines

section Conditions

theorem copy_commands : (copyRequests course).map
    (Request.command floats plan context saved course.newVolume) =
      ⟨copyArgv plan.toVolumeMovePlan context, none⟩ ::
        ((if Condition.copyFails.holds plan (course.facts saved) then
            [⟨buildKubectlCmd (emptyDestinationArgs plan.toVolumeMovePlan) context, none⟩] else []) ++
          if Condition.copyFails.holds plan (course.facts saved) then
            [⟨copyArgv plan.toVolumeMovePlan context, none⟩] else []) := by
  obtain ⟨failed, _, _, _⟩ := course
  cases failed <;> rfl

theorem retain_commands (condition : Condition) (volume prior : String)
    (holds : condition.holds plan (course.facts saved) = decide (prior ≠ retainPolicy)) :
    (retainRequests volume prior).map (Request.command floats plan context saved course.newVolume) =
      if condition.holds plan (course.facts saved) then
        [⟨buildKubectlCmd (reclaimArgs floats volume retainPolicy) context, none⟩] else [] := by
  rw [holds]
  by_cases kept : prior = "Retain"
  · rw [retainRequests, if_pos kept, if_neg (by simp [kept, retainPolicy]), List.map_nil]
  · rw [retainRequests, if_neg kept, if_pos (by simp [kept, retainPolicy])]
    rfl

theorem annotate_commands (same : saved.lastApplied = course.lastApplied) :
    ((course.lastApplied.map (Request.annotate plan.claim)).toList).map
        (Request.command floats plan context saved course.newVolume) =
      if Condition.lastApplied.holds plan (course.facts saved) then
        [⟨buildKubectlCmd (annotateArgs plan.claim plan.namespace
          (course.facts saved).names.lastApplied) context, none⟩] else [] := by
  have holds : Condition.lastApplied.holds plan (course.facts saved) = course.lastApplied.isSome := by
    rw [← same]
    rfl
  have shown : (course.facts saved).names.lastApplied = course.lastApplied.getD "" := by
    rw [← same]
    rfl
  rw [holds, shown]
  cases course.lastApplied <;> rfl

end Conditions

/-- The commands of the requests of a run are the listed ones, each expanded. -/
theorem script_expands (same : saved.lastApplied = course.lastApplied) :
    (script plan.toVolumeMovePlan course).map
        (Request.command floats plan context saved course.newVolume) =
      (writes floats plan context).flatMap (Line.expand plan (course.facts saved)) := by
  have ready : secondsOf "condition=Ready" = waitSeconds := by decide
  have gone : secondsOf "delete" = waitSeconds := by decide
  have bound : secondsOf "jsonpath=\x7b.status.phase\x7d=Bound" = waitSeconds := by decide
  have rollout (replicas : Int) :
      secondsOf ("jsonpath=\x7b.status.readyReplicas\x7d=" ++ toString replicas) = rolloutSeconds :=
    secondsOf_ready (toString replicas)
  have zero : toString (0 : Int) = "0" := rfl
  have claims := (moveClaim_ne_claim plan.toVolumeMovePlan).symm
  have pods := sourcePod_ne plan
  have newPolicy := retain_commands floats plan context course saved .newVolumePolicy
    course.newVolume course.newPolicy rfl
  have oldPolicy := retain_commands floats plan context course saved .oldVolumePolicy plan.oldVolume
    plan.oldReclaimPolicy rfl
  have annotated := annotate_commands floats plan context course saved same
  -- the commands of the run, then those of the list, each as one list
  simp only [script, pauseRequests, destinationRequests, stopRequests, sourceRequests,
    compareRequests, volumeRequests, rebindRequests, recreateRequests, startRequests, resumeRequests,
    List.map_append, List.map_cons, List.map_nil, List.map_map, Function.comp_def, copy_commands,
    newPolicy, oldPolicy, annotated, Request.command, ready, gone, bound, rollout, zero, claims, pods,
    if_true, if_false, decide_true, decide_false]
  simp only [writes, dryRunCopy, List.flatMap_cons, List.flatMap_nil,
    expand_plain, expand_each, expand_when, expand_create, expand_copy, expand_copyWhen,
    Repeat.instances, List.map_map, Function.comp_def, List.append_assoc, List.cons_append,
    List.nil_append, List.append_nil]
  rfl

end Expansion

section Law
variable {F : Type} (floats : Floats F) (plan : ManifestPlan F) (context : Option String)

/-- A run that returns has sent the listed requests, each expanded by what the run learnt; and the
    dry run shows those requests with their placeholders, where the plan has a workload. -/
theorem move_sends_listed (o : Outside) (w : World) (fresh : w.Fresh) (result : VolumeMoveResult)
    (returns : (Act.run (Move.run o plan.toVolumeMovePlan) w).1 = .ok result) :
    let w' := (Act.run (Move.run o plan.toVolumeMovePlan) w).2
    (∀ saved : SavedClaim F, saved.lastApplied = w'.run.saved →
      (askedOf w'.trace).map (Request.command floats plan context saved w'.run.newVolume) =
        (writes floats plan context).flatMap (Line.expand plan
          ⟨decide (.request .stream .failed ∈ w'.trace), w'.run.newVolume,
            w.cluster (.volume w'.run.newVolume), saved⟩)) ∧
    ∀ listed, dryRunWrites floats plan context = some listed →
      ∃ workload ∈ plan.workloads.head?,
        listed = (writes floats plan context).map (·.planned (placeholders plan workload)) := by
  intro w'
  constructor
  · intro saved read
    have start : Asked w.cluster [] false "" none w :=
      ⟨by simp [fresh.trace, askedOf], by simp [fresh.trace], by simp [fresh.run], by simp [fresh.run],
        fun _ _ => rfl⟩
    have followed : Followed plan.toVolumeMovePlan w.cluster w' :=
      returns_of_run (Move.returns_run o plan.toVolumeMovePlan) start (Prod.ext returns rfl)
    obtain ⟨failed, newVolume, saved_, asked⟩ := followed
    obtain rfl : w'.run.newVolume = newVolume := asked.newVolume
    have last : saved.lastApplied = saved_ := read.trans asked.saved
    have failed_ : decide (.request .stream .failed ∈ w'.trace) = failed :=
      Bool.eq_iff_iff.mpr (decide_eq_true_iff.trans asked.failed)
    rw [asked.asked, failed_]
    exact script_expands floats plan context ⟨failed, _, _, saved_⟩ saved last
  · intro listed shown
    obtain ⟨workload, first, rfl⟩ := Option.map_eq_some_iff.mp shown
    exact ⟨workload, first, rfl⟩

end Law

section Instances

def smallMove : ManifestPlan Unit :=
  { Move.smallPlan with targetHostname := "node-b", accessModes := ["ReadWriteOnce"], volumeMode := "Filesystem" }

def savedData : SavedClaim Unit where
  metadata := [("name", text "data"), ("namespace", text "apps")]
  annotations := []
  spec := [("volumeName", text "pv-old")]

/-- A move of one workload and one pod, with every request done. -/
theorem move_sends_listed_small :
    let w' := (Act.run (Move.run Move.willing smallMove.toVolumeMovePlan) Move.smallWorld).2
    (askedOf w'.trace).map
        (Request.command Json.zeroFloats smallMove none savedData w'.run.newVolume) =
      (writes Json.zeroFloats smallMove none).flatMap (Line.expand smallMove
        ⟨decide (.request .stream .failed ∈ w'.trace), w'.run.newVolume,
          Move.smallWorld.cluster (.volume w'.run.newVolume), savedData⟩) := by
  have returns : (Act.run (Move.run Move.willing smallMove.toVolumeMovePlan) Move.smallWorld).1 =
      .ok ⟨smallMove.toVolumeMovePlan, "pv-new", "data.json", ⟨1, 1, 1, "m", "c"⟩⟩ := by
    decide +kernel
  exact (move_sends_listed Json.zeroFloats smallMove none Move.willing Move.smallWorld ⟨rfl, rfl⟩ _
    returns).1 savedData (by decide +kernel)

def Event.smooth : Event → Bool
  | .request _ outcome => outcome = .done
  | .undo _ outcome => outcome = .done
  | .interrupt => false
  | _ => true

def differing : Outside := { Move.willing with digest := fun now => .ok ⟨now, 1, 1, "m", "c"⟩ }

/-- Each request is done and the digests differ: the move stops and undoes its steps, and the list
    goes on. And a plan without a workload has no list. -/
theorem stopped_move_sends_less :
    (¬∀ (plan : ManifestPlan Unit) (o : Outside) (w : World), w.Fresh →
      (Act.run (Move.run o plan.toVolumeMovePlan) w).2.trace.all Event.smooth = true →
      ∀ saved : SavedClaim Unit, ∃ facts,
        (askedOf (Act.run (Move.run o plan.toVolumeMovePlan) w).2.trace).map
          (Request.command Json.zeroFloats plan none saved facts.newVolume) =
        (writes Json.zeroFloats plan none).flatMap (Line.expand plan facts)) ∧
    dryRunWrites Json.zeroFloats { smallMove with workloads := [] } none = none := by
  refine ⟨fun claim => ?_, rfl⟩
  obtain ⟨facts, same⟩ := claim smallMove differing Move.smallWorld ⟨rfl, rfl⟩ (by decide +kernel)
    savedData
  have short : (askedOf (Act.run (Move.run differing smallMove.toVolumeMovePlan)
      Move.smallWorld).2.trace).length = 12 := by decide +kernel
  have lengths := congrArg List.length same
  rw [List.length_map, short] at lengths
  simp [writes, dryRunCopy, expand_plain, expand_each, expand_when, expand_create, expand_copy,
    expand_copyWhen, Repeat.instances] at lengths
  omega

end Instances
end DevopsCli.K8s
