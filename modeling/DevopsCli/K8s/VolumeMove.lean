import DevopsCli.Lib.Act
import DevopsCli.Lib.Saga

/- The run of a volume move, k8s/volume_move.py. The cluster keeps what a move changes and puts
   back; the manifests and the flags of the requests are left out. The outside answers by tick:
   whether a request is done, fails or is interrupted, and which of its changes it made then. -/
namespace DevopsCli.K8s
open Act Saga

structure Workload where
  kind : String
  name : String
  replicas : Int
  deriving DecidableEq, Repr

def Workload.ref (w : Workload) : String := w.kind ++ "/" ++ w.name

structure VolumeMovePlan where
  «namespace» : String
  claim : String
  oldVolume : String
  oldReclaimPolicy : String
  sourceNode : String
  targetNode : String
  storageClass : String
  size : String
  workloads : List Workload
  pods : List String
  paused : List String
  deriving DecidableEq, Repr

namespace VolumeMovePlan
variable (plan : VolumeMovePlan)

def moveClaim : String := plan.claim ++ "-move"

def sourcePod : String := plan.claim ++ "-src"

def destinationPod : String := plan.claim ++ "-dst"

def describeVolumeMove : List String :=
  let workloads := ", ".intercalate (plan.workloads.map Workload.ref)
  let scaled := ", ".intercalate
    (plan.workloads.map fun w => w.ref ++ " to " ++ toString w.replicas)
  let claim := plan.namespace ++ "/" ++ plan.claim
  [ if plan.paused.isEmpty then
      "Pause nothing: no Argo CD Application tracks the claim or its workloads."
    else "Pause automated sync of the Argo CD Applications " ++ ", ".intercalate plan.paused ++
      ", from the top down.",
    "Create claim " ++ plan.moveClaim ++ " (" ++ plan.size ++ ", " ++ plan.storageClass ++
      ") and pod " ++ plan.destinationPod ++ " on node " ++ plan.targetNode ++
      ", and wait until the pod is Ready.",
    "Scale " ++ workloads ++ " to 0, and wait until these pods are gone: " ++
      ", ".intercalate plan.pods ++ ".",
    "Start pod " ++ plan.sourcePod ++ " with claim " ++ plan.claim ++ " read-only on node " ++
      plan.sourceNode ++ ", and wait until it is Ready.",
    "Copy /src of pod " ++ plan.sourcePod ++ " to /dst of pod " ++ plan.destinationPod ++
      " with GNU tar through the API server. If the stream stops, empty /dst and copy one more time.",
    "Compare the two sides: the entries, the files, the bytes of regular files, a metadata " ++
      "digest and a content digest. Stop at a difference.",
    "Set the reclaim policy of the new volume of claim " ++ plan.moveClaim ++ " and of volume " ++
      plan.oldVolume ++ " to Retain.",
    "Delete the pods " ++ plan.sourcePod ++ " and " ++ plan.destinationPod ++ ".",
    "Save claim " ++ claim ++ " and delete it. This is the point of no return.",
    "Delete claim " ++ plan.moveClaim ++ ", and reserve its volume for claim " ++ claim ++ ".",
    "Create claim " ++ claim ++ " again from the saved claim, bound to the new volume, " ++
      "put back its last-applied configuration if it has one, and wait until it is Bound.",
    "Scale " ++ scaled ++ " again, wait until the pods are ready, and make sure that they run on " ++
      "node " ++ plan.targetNode ++ ".",
    if plan.paused.isEmpty then "Resume nothing: the move paused no Argo CD Application."
    else "Resume automated sync of the Argo CD Applications " ++
      ", ".intercalate plan.paused.reverse ++ "." ]

end VolumeMovePlan

structure CopyDigest where
  entries : Nat
  files : Nat
  bytes : Nat
  metadata : String
  content : String
  deriving DecidableEq, Repr

def differences (source destination : CopyDigest) : String :=
  let field {T : Type} [DecidableEq T] [ToString T] (name : String) (of : CopyDigest → T) :=
    if of source = of destination then []
    else [name ++ " " ++ toString (of source) ++ " and " ++ toString (of destination)]
  "; ".intercalate (field "entries" CopyDigest.entries ++ field "files" CopyDigest.files ++
    field "bytes" CopyDigest.bytes ++ field "metadata" CopyDigest.metadata ++
    field "content" CopyDigest.content)

/-- What a move changes in the cluster: whether an Application syncs by itself, the replicas of
    a workload, the reclaim policy of a volume, and whether a claim or a pod exists. -/
inductive Resource where
  | application (name : String)
  | workload (ref : String)
  | volume (name : String)
  | claim (name : String)
  | pod (name : String)
  deriving DecidableEq, Repr

abbrev Resource.Value : Resource → Type
  | .application _ => Bool
  | .workload _ => Int
  | .volume _ => String
  | .claim _ => Bool
  | .pod _ => Bool

abbrev Cluster := (r : Resource) → r.Value

inductive Request where
  | pauseApplication (application : String) (enabled : Bool)
  | createClaim (name : String)
  | createPod (name : String)
  | deleteClaim (name : String)
  | deletePods (names : List String)
  | wait (target condition : String)
  | getVolumeName (claim : String)
  | scale (ref : String) (replicas : Int)
  | stream
  | emptyDestination
  | digest (pod : String)
  | getReclaim (volume : String)
  | setReclaim (volume policy : String)
  | getClaim (name : String)
  | claimRef (volume claim : String)
  | annotate (claim lastApplied : String)
  | getPods
  deriving DecidableEq, Repr

def Request.changes : Request → List (Entry Resource.Value)
  | .pauseApplication application enabled => [⟨.application application, enabled⟩]
  | .createClaim name => [⟨.claim name, true⟩]
  | .createPod name => [⟨.pod name, true⟩]
  | .deleteClaim name => [⟨.claim name, false⟩]
  | .deletePods names => names.map fun name => ⟨.pod name, false⟩
  | .scale ref replicas => [⟨.workload ref, replicas⟩]
  | .setReclaim volume policy => [⟨.volume volume, policy⟩]
  | _ => []

inductive Answer where
  | done
  | failed (reason : String) (took : Resource → Bool)
  | interrupted (took : Resource → Bool)

inductive Outcome where
  | done
  | failed
  | interrupted
  deriving DecidableEq, Repr

inductive Event where
  | step (number : Nat) (line : String)
  | line (text : String)
  | request (request : Request) (outcome : Outcome)
  | undo (request : Request) (outcome : Outcome)
  | saved (path : String)
  | pastPointOfNoReturn
  | interrupt
  deriving DecidableEq, Repr

inductive Raised where
  | volumeMove (message : String) (undone undoFailures : List String)
  | stranded (message savedClaim : String) (paused remaining : List String)
      (oldVolume newVolume : String)
  | keyboardInterrupt
  deriving DecidableEq, Repr

def Raised.text : Raised → String
  | .volumeMove message _ _ => message
  | .stranded message _ _ _ _ _ => message
  | .keyboardInterrupt => ""

structure UndoStep where
  text : String
  request : Request
  deriving DecidableEq, Repr

structure MoveRun where
  undo : List UndoStep := []
  newVolume : String := ""
  /-- The last-applied configuration of the saved claim; the rest of it is left out. -/
  saved : Option String := none
  savedClaim : String := ""
  digest : CopyDigest := ⟨0, 0, 0, "", ""⟩
  pastPointOfNoReturn : Bool := false
  deriving DecidableEq, Repr

structure World where
  run : MoveRun
  cluster : Cluster
  tick : Nat
  trace : List Event

/-- What the outside gives at a tick. A reading stands for the output of a request that was
    done, or says why it cannot be read. -/
structure Outside where
  interrupts : Nat → Bool
  answer : Nat → Answer
  volumeName : Nat → String
  digest : Nat → Except String CopyDigest
  claim : Nat → Except String (Option String)
  /-- The path of the saved claim, or why it cannot be written. -/
  save : Nat → Except String String
  /-- The node and the phase of each pod that mounts the claim. -/
  placed : Nat → Except String (List (String × String))

structure VolumeMoveResult where
  plan : VolumeMovePlan
  newVolume : String
  savedClaim : String
  digest : CopyDigest
  deriving DecidableEq, Repr

abbrev Move (α : Type) := Act World Raised α

namespace Move

def log (event : Event) : Move Unit := change fun w => { w with trace := w.trace ++ [event] }

def setRun (f : MoveRun → MoveRun) : Move Unit := change fun w => { w with run := f w.run }

def fail {α : Type} (message : String) : Move α := raise (.volumeMove message [] [])

def read {α : Type} (reading : Except String α) : Move α :=
  match reading with
  | .ok value => pure value
  | .error message => fail message

section
variable (o : Outside)

def tick : Move Nat := do
  let w ← world
  change fun w => { w with tick := w.tick + 1 }
  return w.tick

def point : Move Unit := do
  let now ← tick
  if o.interrupts now then
    log .interrupt
    raise .keyboardInterrupt

def progress (text : String) : Move Unit := do
  point o
  log (.line text)

def ask (event : Outcome → Event) (request : Request) : Move Unit := do
  point o
  let now ← tick
  match o.answer now with
  | .done =>
    change fun w => { w with cluster := putAll w.cluster request.changes }
    log (event .done)
  | .failed reason took =>
    change fun w =>
      { w with cluster := putAll w.cluster (request.changes.filter fun e => took e.1) }
    log (event .failed)
    fail reason
  | .interrupted took =>
    change fun w =>
      { w with cluster := putAll w.cluster (request.changes.filter fun e => took e.1) }
    log (event .interrupted)
    raise .keyboardInterrupt

def kubectl (request : Request) : Move Unit := ask o (.request request) request

def onUndo (text : String) (request : Request) : Move Unit := do
  point o
  setRun fun run => { run with undo := run.undo ++ [⟨text, request⟩] }

end

section Steps
variable (o : Outside) (plan : VolumeMovePlan)

def pause : Move Unit :=
  plan.paused.forM fun application => do
    onUndo o ("Resume automated sync of Application " ++ application)
      (.pauseApplication application true)
    kubectl o (.pauseApplication application false)

def makeDestination : Move Unit := do
  onUndo o ("Delete claim " ++ plan.moveClaim) (.deleteClaim plan.moveClaim)
  kubectl o (.createClaim plan.moveClaim)
  onUndo o ("Delete pod " ++ plan.destinationPod) (.deletePods [plan.destinationPod])
  kubectl o (.createPod plan.destinationPod)
  kubectl o (.wait ("pod/" ++ plan.destinationPod) "condition=Ready")
  kubectl o (.getVolumeName plan.moveClaim)
  let newVolume := o.volumeName (← tick)
  setRun fun run => { run with newVolume := newVolume }
  if newVolume = "" then
    fail ("Claim " ++ plan.moveClaim ++ " has no volume after its pod started.")

def stopWorkloads : Move Unit := do
  plan.workloads.forM fun workload => do
    onUndo o ("Scale " ++ workload.ref ++ " back to " ++ toString workload.replicas)
      (.scale workload.ref workload.replicas)
    kubectl o (.scale workload.ref 0)
  plan.pods.forM fun pod => kubectl o (.wait ("pod/" ++ pod) "delete")

def startSource : Move Unit := do
  onUndo o ("Delete pod " ++ plan.sourcePod) (.deletePods [plan.sourcePod])
  kubectl o (.createPod plan.sourcePod)
  kubectl o (.wait ("pod/" ++ plan.sourcePod) "condition=Ready")

/-- Copies once, and once more on an empty destination when the stream stops. -/
def copy : Move Unit :=
  handle (kubectl o .stream) fun e =>
    match e with
    | .keyboardInterrupt => raise .keyboardInterrupt
    | e => do
      progress o ("The copy stopped (" ++ e.text ++ "). Empty /dst and copy one more time.")
      kubectl o .emptyDestination
      kubectl o .stream

def side (pod : String) : Move CopyDigest := do
  kubectl o (.digest pod)
  read (o.digest (← tick))

def compare : Move Unit := do
  let source ← side o plan.sourcePod
  let destination ← side o plan.destinationPod
  if source ≠ destination then
    fail ("The two sides are different (" ++ differences source destination ++
      "). The destination is not a full copy.")
  setRun fun run => { run with digest := source }
  progress o ("The two sides are equal: " ++ toString source.entries ++ " entries, " ++
    toString source.files ++ " files, " ++ toString source.bytes ++
    " bytes of regular files, and equal metadata and content digests.")

def retain (volume prior : String) : Move Unit :=
  if prior = "Retain" then pure ()
  else do
    onUndo o ("Set the reclaim policy of volume " ++ volume ++ " back to " ++ prior)
      (.setReclaim volume prior)
    kubectl o (.setReclaim volume "Retain")

def retainVolumes : Move Unit := do
  let newVolume := (← world).run.newVolume
  kubectl o (.getReclaim newVolume)
  let newPolicy := (← world).cluster (.volume newVolume)
  retain o newVolume newPolicy
  retain o plan.oldVolume plan.oldReclaimPolicy

def deleteCopyPods : Move Unit :=
  kubectl o (.deletePods [plan.sourcePod, plan.destinationPod])

def deleteOldClaim : Move Unit := do
  kubectl o (.getClaim plan.claim)
  let saved ← read (o.claim (← tick))
  setRun fun run => { run with saved := saved }
  point o
  let path ← read (o.save (← tick))
  log (.saved path)
  setRun fun run => { run with savedClaim := path }
  progress o ("Saved claim " ++ plan.namespace ++ "/" ++ plan.claim ++ " to " ++ path ++ ".")
  point o
  setRun fun run => { run with pastPointOfNoReturn := true }
  log .pastPointOfNoReturn
  kubectl o (.deleteClaim plan.claim)

def rebind : Move Unit := do
  kubectl o (.deleteClaim plan.moveClaim)
  kubectl o (.claimRef (← world).run.newVolume plan.claim)

def recreateClaim : Move Unit := do
  kubectl o (.createClaim plan.claim)
  match (← world).run.saved with
  | some lastApplied => kubectl o (.annotate plan.claim lastApplied)
  | none => pure ()
  kubectl o (.wait ("pvc/" ++ plan.claim) "jsonpath=\x7b.status.phase\x7d=Bound")

def startWorkloads : Move Unit := do
  plan.workloads.forM fun workload => kubectl o (.scale workload.ref workload.replicas)
  plan.workloads.forM fun workload => kubectl o
    (.wait workload.ref ("jsonpath=\x7b.status.readyReplicas\x7d=" ++ toString workload.replicas))
  kubectl o .getPods
  let placed ← read (o.placed (← tick))
  if placed.isEmpty || placed.any fun place => place != (plan.targetNode, "Running") then
    let pods := ", ".intercalate (placed.map fun (node, phase) =>
      (if node = "" then "no node" else node) ++ " (" ++ phase ++ ")")
    fail ("After the move, the pods of claim " ++ plan.claim ++ " must run on node " ++
      plan.targetNode ++ ", but they are: " ++ (if pods = "" then "none" else pods) ++ ".")

def resume : Move Unit :=
  plan.paused.reverse.forM fun application => kubectl o (.pauseApplication application true)

def actions : List (Move Unit) :=
  [pause o plan, makeDestination o plan, stopWorkloads o plan, startSource o plan, copy o,
    compare o plan, retainVolumes o plan, deleteCopyPods o plan, deleteOldClaim o plan,
    rebind o plan, recreateClaim o plan, startWorkloads o plan, resume o plan]

/-- Runs the undo steps as given; each one that fails is reported, and the rest go on. -/
def undoAll : List UndoStep → Move (List String × List String)
  | [] => return ([], [])
  | u :: rest => do
    progress o ("Undo: " ++ u.text ++ ".")
    let failed ← handle (do ask o (.undo u.request) u.request; return none) fun e =>
      match e with
      | .keyboardInterrupt => raise .keyboardInterrupt
      | e => return some (u.text ++ ": " ++ e.text)
    let (undone, failures) ← undoAll rest
    match failed with
    | none => return (u.text :: undone, failures)
    | some failure => return (undone, failure :: failures)

def rollBack : Move (List String × List String) := do
  let reports ← undoAll o (← world).run.undo.reverse
  setRun fun run => { run with undo := [] }
  return reports

def failure (e : Raised) (number : Nat) (steps : List String) : Move Raised := do
  let reason := if e.text = "" then "the move was interrupted" else e.text
  let run := (← world).run
  if run.pastPointOfNoReturn then
    return .stranded ("The move stopped at step " ++ toString number ++
      ", after the old claim was deleted: " ++ reason) run.savedClaim plan.paused
      (steps.drop (number - 1)) plan.oldVolume run.newVolume
  else
    let (undone, failures) ← rollBack o
    return .volumeMove ("The move stopped at step " ++ toString number ++ ": " ++ reason) undone
      failures

/-- The steps with their numbers and texts. An interrupt of the loop itself, between two
    actions, is not caught, and not modelled. -/
def runSteps (steps : List String) : List (Nat × String × Move Unit) → Move Unit
  | [] => pure ()
  | (number, text, action) :: rest => do
    log (.step number ("Step " ++ toString number ++ "/" ++ toString steps.length ++ ": " ++ text))
    handle action fun e => do
      raise (← failure o plan e number steps)
    runSteps steps rest

def run : Move VolumeMoveResult := do
  let steps := plan.describeVolumeMove
  runSteps o plan steps ((List.range' 1 steps.length).zip (steps.zip (actions o plan)))
  let run := (← world).run
  return ⟨plan, run.newVolume, run.savedClaim, run.digest⟩

end Steps
end Move
end DevopsCli.K8s
