import DevopsCli.K8s.VolumeMove

/- What a move keeps until the point of no return: each change has an undo step that puts the
   first value back, and no undo step touches the claim that is moved. -/
namespace DevopsCli.K8s
open Act Saga

/-- The cluster is as the plan read it. -/
structure VolumeMovePlan.Matches (plan : VolumeMovePlan) (cluster : Cluster) : Prop where
  paused : ∀ application ∈ plan.paused, cluster (.application application) = true
  replicas : ∀ workload ∈ plan.workloads, cluster (.workload workload.ref) = workload.replicas
  policy : cluster (.volume plan.oldVolume) = plan.oldReclaimPolicy
  moveClaim : cluster (.claim plan.moveClaim) = false
  sourcePod : cluster (.pod plan.sourcePod) = false
  destinationPod : cluster (.pod plan.destinationPod) = false

theorem moveClaim_ne_claim (plan : VolumeMovePlan) : plan.moveClaim ≠ plan.claim := by
  intro same
  have lengths := congrArg String.length same
  simp [VolumeMovePlan.moveClaim] at lengths

def Event.Early (plan : VolumeMovePlan) : Event → Prop
  | .request asked _ =>
    asked ≠ .deleteClaim plan.claim ∧ ∀ application, asked ≠ .pauseApplication application true
  | .undo .. => False
  | .pastPointOfNoReturn => False
  | _ => True

def lastStep (trace : List Event) : Nat :=
  trace.foldl (fun number event =>
    match event with
    | .step begun _ => begun
    | _ => number) 0

@[simp] theorem lastStep_step (trace : List Event) (number : Nat) (line : String) :
    lastStep (trace ++ [.step number line]) = number := by
  simp [lastStep]

theorem lastStep_push {event : Event} (other : ∀ number line, event ≠ .step number line)
    (trace : List Event) : lastStep (trace ++ [event]) = lastStep trace := by
  cases event with
  | step number line => exact absurd rfl (other number line)
  | _ => simp [lastStep]

theorem split_push {α : Type} {trace pre post : List α} {x e : α}
    (split : trace ++ [e] = pre ++ x :: post) :
    (trace = pre ∧ e = x) ∨ ∃ post', trace = pre ++ x :: post' := by
  rcases List.eq_nil_or_concat post with rfl | ⟨post', last, rfl⟩
  · obtain ⟨same, last⟩ := List.append_inj' split rfl
    exact .inl ⟨same, List.singleton_inj.mp last⟩
  · have whole : trace ++ [e] = (pre ++ x :: post') ++ [last] := by simpa using split
    exact .inr ⟨post', (List.append_inj' whole rfl).1⟩

theorem split_at {α : Type} {xs : List α} {k : Nat} {e : α} (at_ : xs[k]? = some e) :
    xs = xs.take k ++ e :: xs.drop (k + 1) := by
  obtain ⟨bound, same⟩ := List.getElem?_eq_some_iff.mp at_
  rw [← same, ← List.drop_eq_getElem_cons bound, List.take_append_drop]

/-- Before the point of no return, only the first stream of the copy fails and is retried. -/
def Clean (trace : List Event) : Prop :=
  ∀ pre request post, trace = pre ++ .request request .failed :: post →
    .pastPointOfNoReturn ∉ pre → request = .stream ∧ ∀ outcome, .request .stream outcome ∉ pre

theorem clean_push {trace : List Event} {event : Event} (clean : Clean trace)
    (may : ∀ request, event = .request request .failed → .pastPointOfNoReturn ∈ trace ∨
      request = .stream ∧ ∀ outcome, .request .stream outcome ∉ trace) :
    Clean (trace ++ [event]) := by
  intro pre request post split before
  rcases split_push split with ⟨rfl, same⟩ | ⟨post', earlier⟩
  · exact (may request same).resolve_left before
  · exact clean pre request post' earlier before

namespace World

def logged (w : World) (event : Event) : World := { w with trace := w.trace ++ [event] }

def ticked (w : World) : World := { w with tick := w.tick + 1 }

def after (w : World) (made : List (Entry Resource.Value)) (event : Event) : World :=
  { w with cluster := putAll w.cluster made, tick := w.tick + 2, trace := w.trace ++ [event] }

end World

namespace Move
variable {o : Outside} {plan : VolumeMovePlan} {base : Cluster}

section Primitives
variable {pre : World → Prop} {post : Except Raised Unit → World → Prop} {request : Request}
  {event : Outcome → Event}

theorem spec_point (goes : ∀ w, pre w → post (.ok ()) w.ticked)
    (stops : ∀ w, pre w → post (.error .keyboardInterrupt) (w.ticked.logged .interrupt)) :
    Spec pre (point o) post := by
  intro w start
  cases interrupts : o.interrupts w.tick with
  | false => simpa [point, tick, run_bind, interrupts, World.ticked] using goes w start
  | true =>
    simpa [point, tick, log, run_bind, interrupts, World.ticked, World.logged] using stops w start

theorem spec_ask
    (stops : ∀ w, pre w → post (.error .keyboardInterrupt) (w.ticked.logged .interrupt))
    (done : ∀ w, pre w → post (.ok ()) (w.after request.changes (event .done)))
    (fails : ∀ w reason made, pre w → (∀ e ∈ made, e ∈ request.changes) →
      post (.error (.volumeMove reason [] [])) (w.after made (event .failed)))
    (interrupted : ∀ w made, pre w → (∀ e ∈ made, e ∈ request.changes) →
      post (.error .keyboardInterrupt) (w.after made (event .interrupted))) :
    Spec pre (ask o event request) post := by
  have first : Spec pre (point o) fun
      | .ok _ => fun w => ∃ v, pre v ∧ w = v.ticked
      | .error e => post (.error e) :=
    spec_point (fun w start => ⟨w, start, rfl⟩) stops
  refine spec_bind first ?_ fun _ _ ended => ended
  rintro - _ ⟨w, start, rfl⟩
  have taken (took : Resource → Bool) :
      ∀ e ∈ request.changes.filter (fun e => took e.1), e ∈ request.changes :=
    fun e member => (List.mem_filter.mp member).1
  cases answer : o.answer (w.tick + 1) with
  | done => simpa [tick, log, run_bind, World.ticked, World.after, answer] using done w start
  | failed reason took =>
    simpa [tick, log, fail, run_bind, World.ticked, World.after, answer] using
      fails w reason _ start (taken took)
  | interrupted took =>
    simpa [tick, log, run_bind, World.ticked, World.after, answer] using
      interrupted w _ start (taken took)

end Primitives

/-- A run that can still be undone, in the step with this number. -/
structure Sound (plan : VolumeMovePlan) (base : Cluster) (number : Nat) (w : World) : Prop where
  past : w.run.pastPointOfNoReturn = false
  early : ∀ e ∈ w.trace, e.Early plan
  step : lastStep w.trace = number
  covered : plan.Matches base → Covered base w.cluster (w.run.undo.flatMap (·.request.changes))
  claim : w.cluster (.claim plan.claim) = base (.claim plan.claim)
  apart : ∀ u ∈ w.run.undo, ∀ e ∈ u.request.changes, e.1 ≠ .claim plan.claim

/-- A run that no failure has stopped. Until it has streamed, its trace has no stream; until it
    has touched the volumes, they have their first policies. -/
structure Before (plan : VolumeMovePlan) (base : Cluster) (number : Nat) (streamed touched : Bool)
    (w : World) : Prop extends Sound plan base number w where
  clean : Clean w.trace
  unstreamed : streamed = false → ∀ outcome, .request .stream outcome ∉ w.trace
  untouched : touched = false → ∀ volume, w.cluster (.volume volume) = base (.volume volume)

def Fits (plan : VolumeMovePlan) (base : Cluster) (request : Request) (w : World) : Prop :=
  ∀ c ∈ request.changes, c.1 ≠ .claim plan.claim ∧ (plan.Matches base →
    c.2 = base c.1 ∨ ∃ u ∈ w.run.undo, ∃ e ∈ u.request.changes, e.1 = c.1)

section Kept
variable {number : Nat} {streamed touched : Bool} {w : World} {request : Request}
  {made : List (Entry Resource.Value)}

theorem Sound.ticked (sound : Sound plan base number w) : Sound plan base number w.ticked :=
  ⟨sound.past, sound.early, sound.step, sound.covered, sound.claim, sound.apart⟩

theorem Before.ticked (before : Before plan base number streamed touched w) :
    Before plan base number streamed touched w.ticked :=
  ⟨before.toSound.ticked, before.clean, before.unstreamed, before.untouched⟩

theorem Sound.logged (sound : Sound plan base number w) {event : Event} (early : event.Early plan)
    (other : ∀ begun line, event ≠ .step begun line) : Sound plan base number (w.logged event) where
  past := sound.past
  early := by simpa [World.logged, or_imp, forall_and] using ⟨sound.early, early⟩
  step := (lastStep_push other w.trace).trans sound.step
  covered := sound.covered
  claim := sound.claim
  apart := sound.apart

theorem Before.logged (before : Before plan base number streamed touched w) {event : Event}
    (early : event.Early plan) (other : ∀ begun line, event ≠ .step begun line)
    (request : ∀ request outcome, event ≠ .request request outcome) :
    Before plan base number streamed touched (w.logged event) where
  toSound := before.toSound.logged early other
  clean := clean_push before.clean fun asked same => absurd same (request asked _)
  unstreamed first outcome := by
    simpa [World.logged, (request .stream outcome).symm] using before.unstreamed first outcome
  untouched := before.untouched

theorem Before.begun (before : Before plan base number streamed touched w) (next : Nat)
    (line : String) : Before plan base next streamed touched (w.logged (.step next line)) where
  past := before.past
  early := by simpa [World.logged, or_imp, forall_and, Event.Early] using before.early
  step := lastStep_step w.trace next line
  covered := before.covered
  claim := before.claim
  apart := before.apart
  clean := clean_push before.clean (by simp)
  unstreamed := by simpa [World.logged] using before.unstreamed
  untouched := before.untouched

theorem Sound.after (sound : Sound plan base number w) (fits : Fits plan base request w)
    (resumes : ∀ application, request ≠ .pauseApplication application true)
    (taken : ∀ e ∈ made, e ∈ request.changes) (outcome : Outcome) :
    Sound plan base number (w.after made (.request request outcome)) where
  past := sound.past
  early := by
    have other : request ≠ .deleteClaim plan.claim := by
      rintro rfl
      exact (fits ⟨.claim plan.claim, false⟩ (by simp [Request.changes])).1 rfl
    simpa [World.after, or_imp, forall_and, Event.Early] using ⟨sound.early, other, resumes⟩
  step := (lastStep_push (by simp) w.trace).trans sound.step
  covered as_read := by
    refine covered_putAll (sound.covered as_read) fun e member => ?_
    refine ((fits e (taken e member)).2 as_read).imp_right ?_
    rintro ⟨u, undo, entry, change, key⟩
    exact ⟨entry, List.mem_flatMap.mpr ⟨u, undo, change⟩, key⟩
  claim := (putAll_keeps fun e member => (fits e (taken e member)).1).trans sound.claim
  apart := sound.apart

theorem Before.after (before : Before plan base number streamed touched w)
    (fits : Fits plan base request w)
    (resumes : ∀ application, request ≠ .pauseApplication application true)
    (stream : request = .stream → streamed = true)
    (reclaim : ∀ volume policy, request = .setReclaim volume policy → touched = true) :
    Before plan base number streamed touched (w.after request.changes (.request request .done)) where
  toSound := before.toSound.after fits resumes (fun _ member => member) .done
  clean := clean_push before.clean nofun
  unstreamed first outcome := by
    have other : request ≠ .stream := fun same => by simp [stream same] at first
    simpa [World.after, other.symm] using before.unstreamed first outcome
  untouched first volume := by
    refine (putAll_keeps fun e member key => ?_).trans (before.untouched first volume)
    have policy : ∃ policy, request = .setReclaim volume policy := by
      cases request <;> simp [Request.changes] at member <;> aesop
    obtain ⟨policy, rfl⟩ := policy
    simp [reclaim volume policy rfl] at first

end Kept

section Rules
variable {pre : World → Prop} {number : Nat} {streamed touched : Bool} {request undo : Request}

theorem guards_point : Guards (Before plan base number streamed touched)
    (Before plan base number streamed touched) (Sound plan base number) (point o) :=
  spec_point (fun _ before => before.ticked)
    fun _ before => before.toSound.ticked.logged trivial nofun

theorem guards_progress (text : String) : Guards (Before plan base number streamed touched)
    (Before plan base number streamed touched) (Sound plan base number) (progress o text) :=
  guards_bind guards_point fun _ =>
    guards_change _ fun _ before => before.logged trivial nofun nofun

theorem guards_tick : Guards (Before plan base number streamed touched)
    (Before plan base number streamed touched) (Sound plan base number) tick :=
  fun _ before => before.ticked

theorem guards_fail {α : Type} (message : String) :
    Guards (Before plan base number streamed touched)
      (Before plan base number streamed touched) (Sound plan base number)
      (fail message : Move α) :=
  guards_raise _ fun _ before => before.toSound

theorem guards_read {α : Type} (reading : Except String α) :
    Guards (Before plan base number streamed touched)
      (Before plan base number streamed touched) (Sound plan base number) (read reading) := by
  cases reading with
  | ok value => exact guards_pure value fun _ before => before
  | error message => exact guards_fail message

theorem guards_setRun {f : MoveRun → MoveRun} (undo : ∀ run, (f run).undo = run.undo)
    (past : ∀ run, (f run).pastPointOfNoReturn = run.pastPointOfNoReturn) :
    Guards (Before plan base number streamed touched)
      (Before plan base number streamed touched) (Sound plan base number) (setRun f) :=
  guards_change _ fun w before =>
    { before with
      past := (past w.run).trans before.past
      covered := by simpa [undo] using before.covered
      apart := by simpa [undo] using before.apart }

theorem guards_kubectl
    (start : ∀ w, pre w → Before plan base number streamed touched w ∧ Fits plan base request w)
    (resumes : ∀ application, request ≠ .pauseApplication application true)
    (stream : request = .stream → streamed = true)
    (reclaim : ∀ volume policy, request = .setReclaim volume policy → touched = true) :
    Guards pre (Before plan base number streamed touched) (Sound plan base number)
      (kubectl o request) :=
  spec_ask
    (fun w holds => (start w holds).1.toSound.ticked.logged trivial nofun)
    (fun w holds => (start w holds).1.after (start w holds).2 resumes stream reclaim)
    (fun w _ _ holds taken => (start w holds).1.toSound.after (start w holds).2 resumes taken _)
    (fun w _ holds taken => (start w holds).1.toSound.after (start w holds).2 resumes taken _)

theorem guards_unchanging (none : request.changes = [])
    (stream : request = .stream → streamed = true) :
    Guards (Before plan base number streamed touched)
      (Before plan base number streamed touched) (Sound plan base number) (kubectl o request) :=
  guards_kubectl (fun _ before => ⟨before, by simp [Fits, none]⟩)
    (fun _ same => by simp [same, Request.changes] at none) stream
    fun _ _ same => by simp [same, Request.changes] at none

def Armed (plan : VolumeMovePlan) (base : Cluster) (number : Nat) (streamed touched : Bool)
    (undo : Request) (w : World) : Prop :=
  Before plan base number streamed touched w ∧ ∃ u ∈ w.run.undo, u.request = undo

theorem guards_onUndo (text : String)
    (first : plan.Matches base → ∀ e ∈ undo.changes, e.2 = base e.1)
    (apart : ∀ e ∈ undo.changes, e.1 ≠ .claim plan.claim) :
    Guards (Before plan base number streamed touched)
      (Armed plan base number streamed touched undo) (Sound plan base number)
      (onUndo o text undo) := by
  refine guards_bind guards_point fun _ => guards_change _ fun w before => ⟨?_, ?_⟩
  · refine { before with covered := fun as_read => ?_, apart := ?_ }
    · simpa using covered_append (before.covered as_read) (first as_read)
    · simpa [or_imp, forall_and] using ⟨before.apart, apart⟩
  · exact ⟨⟨text, undo⟩, by simp, rfl⟩

theorem guards_undone (keys : ∀ c ∈ request.changes, ∃ e ∈ undo.changes, e.1 = c.1)
    (resumes : ∀ application, request ≠ .pauseApplication application true)
    (stream : request = .stream → streamed = true)
    (reclaim : ∀ volume policy, request = .setReclaim volume policy → touched = true) :
    Guards (Armed plan base number streamed touched undo)
      (Before plan base number streamed touched) (Sound plan base number) (kubectl o request) := by
  refine guards_kubectl (fun w ⟨before, u, member, same⟩ => ⟨before, fun c change => ?_⟩) resumes
    stream reclaim
  obtain ⟨e, entry, key⟩ := keys c change
  exact ⟨key ▸ before.apart u member e (same ▸ entry), fun _ => .inr ⟨u, member, e, same ▸ entry, key⟩⟩

end Rules

section Steps
variable {number : Nat} {streamed touched : Bool}

theorem guards_pause : Guards (Before plan base number streamed touched)
    (Before plan base number streamed touched) (Sound plan base number) (pause o plan) :=
  guards_forM fun application member =>
    guards_bind (guards_onUndo _ (by simpa [Request.changes] using (·.paused application member))
      (by simp [Request.changes]))
    fun _ => guards_undone (by simp [Request.changes]) (by simp) nofun nofun

theorem guards_makeDestination : Guards (Before plan base number streamed touched)
    (Before plan base number streamed touched) (Sound plan base number)
    (makeDestination o plan) := by
  refine guards_bind (guards_onUndo _ (fun as_read => by simp [Request.changes, as_read.moveClaim])
    (by simp [Request.changes, moveClaim_ne_claim])) fun _ => ?_
  refine guards_bind (guards_undone (by simp [Request.changes]) nofun nofun nofun) fun _ => ?_
  refine guards_bind (guards_onUndo _
    (fun as_read => by simp [Request.changes, as_read.destinationPod])
    (by simp [Request.changes])) fun _ => ?_
  refine guards_bind (guards_undone (by simp [Request.changes]) nofun nofun nofun) fun _ => ?_
  refine guards_bind (guards_unchanging rfl nofun) fun _ => ?_
  refine guards_bind (guards_unchanging rfl nofun) fun _ => ?_
  refine guards_bind guards_tick fun now => ?_
  refine guards_bind (guards_setRun (fun _ => rfl) fun _ => rfl) fun _ => ?_
  exact guards_ite (fun _ => guards_fail _) fun _ => guards_pure _ fun _ before => before

theorem guards_stopWorkloads : Guards (Before plan base number streamed touched)
    (Before plan base number streamed touched) (Sound plan base number) (stopWorkloads o plan) := by
  refine guards_bind (guards_forM fun workload member => ?_) fun _ =>
    guards_forM fun pod _ => guards_unchanging rfl nofun
  refine guards_bind (guards_onUndo _ (fun as_read => ?_) (by simp [Request.changes])) fun _ =>
    guards_undone (by simp [Request.changes]) nofun nofun nofun
  simp [Request.changes, as_read.replicas workload member]

theorem guards_startSource : Guards (Before plan base number streamed touched)
    (Before plan base number streamed touched) (Sound plan base number) (startSource o plan) := by
  refine guards_bind (guards_onUndo _ (fun as_read => by simp [Request.changes, as_read.sourcePod])
    (by simp [Request.changes])) fun _ => ?_
  refine guards_bind (guards_undone (by simp [Request.changes]) nofun nofun nofun) fun _ => ?_
  exact guards_unchanging rfl nofun

theorem spec_firstStream : Spec (Before plan base number false touched) (kubectl o .stream) fun
    | .ok _ => Before plan base number true touched
    | .error e => fun w => Sound plan base number w ∧
        (e = .keyboardInterrupt ∨ Before plan base number true touched w) := by
  have fits (w : World) : Fits plan base .stream w := by simp [Fits, Request.changes]
  have streams {w : World} (before : Before plan base number false touched w) :
      Before plan base number true touched w := { before with unstreamed := nofun }
  refine spec_ask (fun w before => ⟨before.toSound.ticked.logged trivial nofun, .inl rfl⟩)
    (fun w before => (streams before).after (fits w) nofun (fun _ => rfl) nofun)
    (fun w reason made before taken => ?_)
    fun w made before taken => ⟨before.toSound.after (fits w) nofun taken _, .inl rfl⟩
  have sound := before.toSound.after (fits w) nofun taken .failed
  have none : made = [] := List.eq_nil_iff_forall_not_mem.mpr fun e member => nomatch taken e member
  subst none
  refine ⟨sound, .inr ⟨sound, clean_push before.clean fun request same => ?_, nofun,
    before.untouched⟩⟩
  cases same
  exact .inr ⟨rfl, before.unstreamed rfl⟩

theorem guards_copy : Guards (Before plan base number false touched)
    (Before plan base number true touched) (Sound plan base number) (copy o) := by
  refine spec_handle spec_firstStream (fun _ _ before => before) fun e => ?_
  have again : Guards (Before plan base number true touched) (Before plan base number true touched)
      (Sound plan base number) (do
        progress o ("The copy stopped (" ++ e.text ++ "). Empty /dst and copy one more time.")
        kubectl o .emptyDestination
        kubectl o .stream) :=
    guards_bind (guards_progress _) fun _ => guards_bind (guards_unchanging rfl nofun)
      fun _ => guards_unchanging rfl fun _ => rfl
  cases e with
  | keyboardInterrupt => exact guards_raise _ fun _ ended => ended.1
  | _ =>
    intro w ended
    exact again w (ended.2.resolve_left nofun)

theorem guards_side (pod : String) : Guards (Before plan base number streamed touched)
    (Before plan base number streamed touched) (Sound plan base number) (side o pod) :=
  guards_bind (guards_unchanging rfl nofun) fun _ => guards_bind guards_tick fun _ => guards_read _

theorem guards_compare : Guards (Before plan base number streamed touched)
    (Before plan base number streamed touched) (Sound plan base number) (compare o plan) := by
  refine guards_bind (guards_side _) fun source => guards_bind (guards_side _) fun destination => ?_
  have equal : Guards (Before plan base number streamed touched)
      (Before plan base number streamed touched) (Sound plan base number) (do
        setRun fun run => { run with digest := source }
        progress o ("The two sides are equal: " ++ toString source.entries ++ " entries, " ++
          toString source.files ++ " files, " ++ toString source.bytes ++
          " bytes of regular files, and equal metadata and content digests.")) :=
    guards_bind (guards_setRun (fun _ => rfl) fun _ => rfl) fun _ => guards_progress _
  exact guards_ite (fun _ => guards_bind (guards_fail _) fun _ => equal) fun _ => equal

theorem guards_retain {volume prior : String}
    (first : plan.Matches base → prior = base (.volume volume)) :
    Guards (Before plan base number streamed true) (Before plan base number streamed true)
      (Sound plan base number) (retain o volume prior) := by
  refine guards_ite (fun _ => guards_pure _ fun _ before => before) fun _ => ?_
  exact guards_bind (guards_onUndo _ (by simpa [Request.changes] using first)
    (by simp [Request.changes])) fun _ =>
    guards_undone (by simp [Request.changes]) (fun _ same => nomatch same) nofun fun _ _ _ => rfl

theorem guards_retainVolumes : Guards (Before plan base number streamed false)
    (Before plan base number streamed true) (Sound plan base number) (retainVolumes o plan) := by
  refine guards_world fun v _ => guards_bind (guards_unchanging rfl nofun) fun _ => ?_
  refine guards_world fun w before => ?_
  have both : Guards (Before plan base number streamed true) (Before plan base number streamed true)
      (Sound plan base number) (do
        retain o v.run.newVolume (w.cluster (.volume v.run.newVolume))
        retain o plan.oldVolume plan.oldReclaimPolicy) :=
    guards_bind (guards_retain fun _ => before.untouched rfl _)
      fun _ => guards_retain fun as_read => as_read.policy.symm
  exact guards_conseq both (fun _ before => { before with untouched := nofun }) (fun _ kept => kept)
    fun _ kept => kept

theorem guards_deleteCopyPods : Guards (Before plan base number streamed touched)
    (Before plan base number streamed touched) (Sound plan base number)
    (deleteCopyPods o plan) := by
  apply guards_kubectl
  · intro w before
    refine ⟨before, ?_⟩
    intro c change
    simp only [Request.changes, List.map_cons, List.map_nil, List.mem_cons, List.not_mem_nil,
      or_false] at change
    rcases change with rfl | rfl
    · exact ⟨Resource.noConfusion, fun as_read => .inl as_read.sourcePod.symm⟩
    · exact ⟨Resource.noConfusion, fun as_read => .inl as_read.destinationPod.symm⟩
  · intro application same
    cases same
  · intro same
    cases same
  · intro volume policy same
    cases same

end Steps
end Move
end DevopsCli.K8s
