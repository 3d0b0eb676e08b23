import DevopsCli.K8s.VolumeMove
import DevopsCli.Lib.Json

/- The commands of a volume move, with the bodies they send, and the writes that the dry run lists,
   k8s/volume_move.py. A body is kept as its document: the run sends it on one line, and the dry
   run shows it indented. -/
namespace DevopsCli.K8s

structure Command (F : Type) where
  argv : List String
  stdin : Option (Json F) := none

structure ManifestPlan (F : Type) extends VolumeMovePlan where
  targetHostname : String
  accessModes : List String
  volumeMode : String
  sourceTolerations : List (Json F) := []

structure SavedClaim (F : Type) where
  metadata : List (String × Json F)
  annotations : List (String × String)
  spec : List (String × Json F)

def retainPolicy : String := "Retain"
def boundPhase : String := "jsonpath=\x7b.status.phase\x7d=Bound"
def readyReplicas : String := "jsonpath=\x7b.status.readyReplicas\x7d="
def waitSeconds : Nat := 300
def rolloutSeconds : Nat := 600
def argocdNamespace : String := "argocd"
def sourceDir : String := "/src"
def destinationDir : String := "/dst"
def hostnameLabel : String := "kubernetes.io/hostname"
def lastAppliedAnnotation : String := "kubectl.kubernetes.io/last-applied-configuration"

def claimControllerAnnotations : List String :=
  ["pv.kubernetes.io/bind-completed", "pv.kubernetes.io/bound-by-controller",
    "volume.beta.kubernetes.io/storage-provisioner", "volume.kubernetes.io/selected-node",
    "volume.kubernetes.io/storage-provisioner"]

def recreatedClaimMetadataKeys : List String := ["name", "namespace", "labels", "ownerReferences"]

def digestScript : String :=
  "set -euo pipefail\n" ++
  "cd \"$1\"\n" ++
  "entries=$(find . -mindepth 1 -printf x | wc -c)\n" ++
  "files=$(find . -type f -printf x | wc -c)\n" ++
  "bytes=$(find . -type f -printf '%s\\n' | awk '\x7bs += $1\x7d END \x7bprintf \"%.0f\", s\x7d')\n" ++
  "metadata=$(find . -printf '%y %m %U:%G %P\\n' | LC_ALL=C sort | sha256sum | cut -d' ' -f1)\n" ++
  "content=$(find . -type f -print0 | LC_ALL=C sort -z | xargs -0r sha256sum | sha256sum" ++
  " | cut -d' ' -f1)\n" ++
  "printf 'entries %s\\nfiles %s\\nbytes %s\\nmetadata %s\\ncontent %s\\n'" ++
  " \"$entries\" \"$files\" \"$bytes\" \"$metadata\" \"$content\"\n"

section Shell

def isSafe (c : Char) : Bool :=
  c.isAlphanum || c == '_' || "@%+=:,./-".toList.contains c

def quote (word : String) : String :=
  if word.isEmpty then "''"
  else if word.toList.all isSafe then word
  else "'" ++ String.join (word.toList.map fun c => if c.toNat = 39 then "'\"'\"'" else c.toString) ++ "'"

def shellJoin (words : List String) : String := " ".intercalate (words.map quote)

end Shell

def buildKubectlCmd (args : List String) (context : Option String) : List String :=
  match context with
  | none => "kubectl" :: args
  | some context =>
    if context.isEmpty then "kubectl" :: args else "kubectl" :: "--context" :: context :: args

section Args
variable {F : Type} (floats : Floats F)

def object (fields : List (String × Json F)) : Json F :=
  .obj (fields.map fun (name, value) => (name.toList, value))

def text (value : String) : Json F := .str value.toList

def dumps (value : Json F) : String := String.ofList (Json.dumps floats value)

def waitArgs (target ns condition : String) (seconds : Nat) : List String :=
  ["wait", target, "-n", ns, "--for=" ++ condition, "--timeout=" ++ toString seconds ++ "s"]

def pauseArgs (application : String) (enabled : Bool) : List String :=
  let patch := object [("spec", object [("syncPolicy", object [("automated",
    object [("enabled", .bool enabled)])])])]
  ["patch", "application", application, "-n", argocdNamespace, "--type", "merge", "-p",
    dumps floats patch]

def reclaimArgs (volume policy : String) : List String :=
  let patch := object [("spec", object [("persistentVolumeReclaimPolicy", text policy)])]
  ["patch", "pv", volume, "--type", "merge", "-p", dumps floats patch]

def claimRefArgs (volume ns claim : String) : List String :=
  let patch := object [("spec", object [("claimRef", object [("name", text claim),
    ("namespace", text ns), ("uid", .null), ("resourceVersion", .null)])])]
  ["patch", "pv", volume, "--type", "merge", "-p", dumps floats patch]

def scaleArgs (workload ns replicas : String) : List String :=
  ["scale", workload, "-n", ns, "--replicas=" ++ replicas]

def deleteArgs (kind : String) (names : List String) (ns : String) : List String :=
  ["delete", kind] ++ names ++ ["-n", ns, "--wait=true", "--timeout=" ++ toString waitSeconds ++ "s"]

def digestArgs (pod ns directory : String) : List String :=
  ["exec", pod, "-n", ns, "--", "bash", "-c", digestScript, "digest", directory]

def createArgs : List String := ["create", "-f", "-", "-o", "name"]

def annotateArgs (claim ns lastApplied : String) : List String :=
  ["annotate", "pvc", claim, "-n", ns, "--overwrite", lastAppliedAnnotation ++ "=" ++ lastApplied]

section Plan
variable (plan : VolumeMovePlan) (context : Option String)

def emptyDestinationArgs : List String :=
  ["exec", plan.destinationPod, "-n", plan.namespace, "--", "find", destinationDir, "-mindepth", "1",
    "-delete"]

def copyArgv : List String :=
  let source := buildKubectlCmd
    ["exec", "-i", plan.sourcePod, "-n", plan.namespace, "--", "bash", "-c",
      shellJoin ["tar", "-C", sourceDir, "--numeric-owner", "--sparse", "-cpf", "-", "."] ++
        " && exec cat"] context
  let destination := buildKubectlCmd
    ["exec", "-i", plan.destinationPod, "-n", plan.namespace, "--", "tar", "-C", destinationDir,
      "--numeric-owner", "-xpf", "-"] context
  let hold := "hold=$(mktemp -d) && trap 'rm -rf \"$hold\"' EXIT && mkfifo \"$hold/end\" && "
  let pipe := shellJoin source ++ " <\"$hold/end\" | " ++ shellJoin destination ++ " >\"$hold/end\""
  ["bash", "-o", "pipefail", "-c", hold ++ pipe]

end Plan
end Args

section Manifests
variable {F : Type} (floats : Floats F) (plan : ManifestPlan F)

def moveLabels : Json F :=
  object [("app.kubernetes.io/managed-by", text "devops-cli"),
    ("app.kubernetes.io/component", text "volume-move")]

def moveClaimSpec : List (String × Json F) :=
  [("accessModes", .arr (plan.accessModes.map text)), ("storageClassName", text plan.storageClass),
    ("volumeMode", text plan.volumeMode),
    ("resources", object [("requests", object [("storage", text plan.size)])])]

def moveClaimManifest : Json F :=
  object [("apiVersion", text "v1"), ("kind", text "PersistentVolumeClaim"),
    ("metadata", object [("name", text plan.moveClaim), ("namespace", text plan.namespace),
      ("labels", moveLabels)]),
    ("spec", object (moveClaimSpec plan))]

def copyPodManifest (destination : Bool) : Json F :=
  let (name, claim, path) :=
    if destination then (plan.destinationPod, plan.moveClaim, destinationDir)
    else (plan.sourcePod, plan.claim, sourceDir)
  let placed : List (String × Json F) :=
    if destination then [("nodeSelector", object [(hostnameLabel, text plan.targetHostname)])]
    else if plan.sourceTolerations.isEmpty then []
    else [("tolerations", .arr plan.sourceTolerations)]
  object [("apiVersion", text "v1"), ("kind", text "Pod"),
    ("metadata", object [("name", text name), ("namespace", text plan.namespace),
      ("labels", moveLabels)]),
    ("spec", object ([("restartPolicy", text "Never"), ("terminationGracePeriodSeconds", .int 0),
      ("automountServiceAccountToken", .bool false),
      ("containers", .arr [object [("name", text "copy"), ("image", text "debian:trixie-slim"),
        ("command", .arr [text "sleep", text "infinity"]),
        ("volumeMounts", .arr [object [("name", text "data"), ("mountPath", text path),
          ("readOnly", .bool !destination)]])]]),
      ("volumes", .arr [object [("name", text "data"),
        ("persistentVolumeClaim", object [("claimName", text claim),
          ("readOnly", .bool !destination)])]])] ++ placed))]

def withMember (fields : List (String × Json F)) (name : String) (value : Json F) :
    List (String × Json F) :=
  if fields.any fun field => field.1 = name then
    fields.map fun field => if field.1 = name then (name, value) else field
  else fields ++ [(name, value)]

def truthy : Json F → Bool
  | .null => false
  | .bool value => value
  | .int value => value ≠ 0
  | .float value => floats.repr value ≠ "0.0".toList ∧ floats.repr value ≠ "-0.0".toList
  | .str value => !value.isEmpty
  | .arr elements => !elements.isEmpty
  | .obj members => !members.isEmpty
  | _ => true

def SavedClaim.lastApplied (saved : SavedClaim F) : Option String :=
  saved.annotations.lookup lastAppliedAnnotation

def reboundClaim (saved : SavedClaim F) (volume : String) : Json F × Option String :=
  let kept := saved.annotations.filter fun (key, _) =>
    key ≠ lastAppliedAnnotation ∧ key ∉ claimControllerAnnotations
  let newMetadata := recreatedClaimMetadataKeys.filterMap fun key =>
    (saved.metadata.lookup key).bind fun value => if truthy floats value then some (key, value) else none
  let annotations :=
    if kept.isEmpty then []
    else [("annotations", object (kept.map fun (key, value) => (key, text value)))]
  (object [("apiVersion", text "v1"), ("kind", text "PersistentVolumeClaim"),
      ("metadata", object (newMetadata ++ annotations)),
      ("spec", object (withMember saved.spec "volumeName" (text volume)))],
    saved.lastApplied)

end Manifests

section Commands
variable {F : Type} (floats : Floats F) (plan : ManifestPlan F) (context : Option String)
  (saved : SavedClaim F) (newVolume : String)

/-- The time of a wait: that of a rollout for ready replicas. -/
def secondsOf (condition : String) : Nat :=
  if readyReplicas.toList.isPrefixOf condition.toList then rolloutSeconds else waitSeconds

/-- The command of a request of a step. A claim is created from the manifest of its name, and the
    claim that is moved from the one that was saved. -/
def Request.command : Request → Command F
  | .pauseApplication application enabled =>
    ⟨buildKubectlCmd (pauseArgs floats application enabled) context, none⟩
  | .createClaim name =>
    ⟨buildKubectlCmd createArgs context,
      if name = plan.moveClaim then moveClaimManifest plan else (reboundClaim floats saved newVolume).1⟩
  | .createPod name =>
    ⟨buildKubectlCmd createArgs context, copyPodManifest plan (name = plan.destinationPod)⟩
  | .deleteClaim name => ⟨buildKubectlCmd (deleteArgs "pvc" [name] plan.namespace) context, none⟩
  | .deletePods names => ⟨buildKubectlCmd (deleteArgs "pod" names plan.namespace) context, none⟩
  | .wait target condition =>
    ⟨buildKubectlCmd (waitArgs target plan.namespace condition (secondsOf condition)) context, none⟩
  | .getVolumeName claim =>
    ⟨buildKubectlCmd ["get", "pvc", claim, "-n", plan.namespace, "-o",
      "jsonpath=\x7b.spec.volumeName\x7d"] context, none⟩
  | .scale ref replicas =>
    ⟨buildKubectlCmd (scaleArgs ref plan.namespace (toString replicas)) context, none⟩
  | .stream => ⟨copyArgv plan.toVolumeMovePlan context, none⟩
  | .emptyDestination =>
    ⟨buildKubectlCmd (emptyDestinationArgs plan.toVolumeMovePlan) context, none⟩
  | .digest pod =>
    ⟨buildKubectlCmd (digestArgs pod plan.namespace
      (if pod = plan.destinationPod then destinationDir else sourceDir)) context, none⟩
  | .getReclaim volume =>
    ⟨buildKubectlCmd ["get", "pv", volume, "-o",
      "jsonpath=\x7b.spec.persistentVolumeReclaimPolicy\x7d"] context, none⟩
  | .setReclaim volume policy => ⟨buildKubectlCmd (reclaimArgs floats volume policy) context, none⟩
  | .getClaim name =>
    ⟨buildKubectlCmd ["get", "pvc", name, "-n", plan.namespace, "-o", "json"] context, none⟩
  | .claimRef volume claim =>
    ⟨buildKubectlCmd (claimRefArgs floats volume plan.namespace claim) context, none⟩
  | .annotate claim lastApplied =>
    ⟨buildKubectlCmd (annotateArgs claim plan.namespace lastApplied) context, none⟩
  | .getPods => ⟨buildKubectlCmd ["get", "pods", "-n", plan.namespace, "-o", "json"] context, none⟩

end Commands

section DryRun

structure PlannedRequest (F : Type) where
  method : String
  target : String
  argv : List String
  stdin : Option (Json F) := none
  condition : String := ""
  repeat_ : String := ""

inductive Condition where
  | copyFails
  | newVolumePolicy
  | oldVolumePolicy
  | lastApplied
  deriving DecidableEq

def Condition.text : Condition → String
  | .copyFails => "the copy fails one time"
  | .newVolumePolicy => "its policy is not Retain"
  | .oldVolumePolicy => "its policy is not Retain"
  | .lastApplied => "the saved claim has a last-applied configuration"

inductive Repeat where
  | applications
  | workloads
  | pods
  | applicationsReversed
  deriving DecidableEq

def Repeat.text : Repeat → String
  | .applications =>
    "for bootstrap, cluster and each Application, top down, whose automated sync is on"
  | .workloads => "for each workload"
  | .pods => "for each pod that mounts the claim"
  | .applicationsReversed => "for each paused Application, in reverse order"

structure Names (F : Type) where
  application : String
  workload : String
  pod : String
  replicas : String
  newVolume : String
  lastApplied : String
  saved : SavedClaim F

structure Line (F : Type) where
  method : String
  target : String
  argv : Names F → List String
  stdin : Names F → Option (Json F) := fun _ => none
  condition : Option Condition := none
  repeat_ : Option Repeat := none

def Line.planned {F : Type} (line : Line F) (names : Names F) : PlannedRequest F where
  method := line.method
  target := line.target
  argv := line.argv names
  stdin := line.stdin names
  condition := (line.condition.map Condition.text).getD ""
  repeat_ := (line.repeat_.map Repeat.text).getD ""

variable {F : Type} (floats : Floats F) (plan : ManifestPlan F) (context : Option String)

def plannedAs (verb : String) (args : Names F → List String) (target : String)
    (condition : Option Condition) (repeat_ : Option Repeat) : Line F where
  method := "kubectl " ++ verb
  target := target
  argv names := buildKubectlCmd (args names) context
  condition := condition
  repeat_ := repeat_

def plannedCreate (target : String) (stdin : Names F → Json F) : Line F where
  method := "kubectl create"
  target := target
  argv _ := buildKubectlCmd createArgs context
  stdin names := some (stdin names)

def plannedCopy (condition : Option Condition) : Line F where
  method := "bash"
  target := "the copy"
  argv _ := copyArgv plan.toVolumeMovePlan context
  condition := condition

def dryRunCopy : List (Line F) :=
  let ns := plan.namespace
  [ plannedCopy plan context none,
    plannedAs context "exec" (fun _ => emptyDestinationArgs plan.toVolumeMovePlan)
      ("pod " ++ plan.destinationPod) (some .copyFails) none,
    plannedCopy plan context (some .copyFails),
    plannedAs context "exec" (fun _ => digestArgs plan.sourcePod ns sourceDir)
      ("pod " ++ plan.sourcePod) none none,
    plannedAs context "exec" (fun _ => digestArgs plan.destinationPod ns destinationDir)
      ("pod " ++ plan.destinationPod) none none ]

def writes : List (Line F) :=
  let ns := plan.namespace
  let claim := plan.claim
  let named := "claim " ++ ns ++ "/" ++ claim
  [ plannedAs context "patch" (fun n => pauseArgs floats n.application false)
      "an Argo CD Application" none (some .applications),
    plannedCreate context ("claim " ++ plan.moveClaim) fun _ => moveClaimManifest plan,
    plannedCreate context ("pod " ++ plan.destinationPod) fun _ => copyPodManifest plan true,
    plannedAs context "wait"
      (fun _ => waitArgs ("pod/" ++ plan.destinationPod) ns "condition=Ready" waitSeconds)
      "the destination pod" none none,
    plannedAs context "get"
      (fun _ => ["get", "pvc", plan.moveClaim, "-n", ns, "-o", "jsonpath=\x7b.spec.volumeName\x7d"])
      "the new volume" none none,
    plannedAs context "scale" (fun n => scaleArgs n.workload ns "0") "a workload" none
      (some .workloads),
    plannedAs context "wait" (fun n => waitArgs ("pod/" ++ n.pod) ns "delete" waitSeconds) "a pod"
      none (some .pods),
    plannedCreate context ("pod " ++ plan.sourcePod) fun _ => copyPodManifest plan false,
    plannedAs context "wait"
      (fun _ => waitArgs ("pod/" ++ plan.sourcePod) ns "condition=Ready" waitSeconds)
      "the source pod" none none ] ++
  dryRunCopy plan context ++
  [ plannedAs context "get"
      (fun n => ["get", "pv", n.newVolume, "-o", "jsonpath=\x7b.spec.persistentVolumeReclaimPolicy\x7d"])
      "the new volume" none none,
    plannedAs context "patch" (fun n => reclaimArgs floats n.newVolume retainPolicy) "the new volume"
      (some .newVolumePolicy) none,
    plannedAs context "patch" (fun _ => reclaimArgs floats plan.oldVolume retainPolicy)
      "the old volume" (some .oldVolumePolicy) none,
    plannedAs context "delete"
      (fun _ => deleteArgs "pod" [plan.sourcePod, plan.destinationPod] ns) "the copy pods" none none,
    plannedAs context "get" (fun _ => ["get", "pvc", claim, "-n", ns, "-o", "json"])
      (named ++ ", saved to a file") none none,
    plannedAs context "delete" (fun _ => deleteArgs "pvc" [claim] ns)
      (named ++ ": the point of no return") none none,
    plannedAs context "delete" (fun _ => deleteArgs "pvc" [plan.moveClaim] ns)
      ("claim " ++ plan.moveClaim) none none,
    plannedAs context "patch" (fun n => claimRefArgs floats n.newVolume ns claim) "the new volume"
      none none,
    plannedCreate context named fun n => (reboundClaim floats n.saved n.newVolume).1,
    plannedAs context "annotate" (fun n => annotateArgs claim ns n.lastApplied) named
      (some .lastApplied) none,
    plannedAs context "wait" (fun _ => waitArgs ("pvc/" ++ claim) ns boundPhase waitSeconds) named
      none none,
    plannedAs context "scale" (fun n => scaleArgs n.workload ns n.replicas) "a workload" none
      (some .workloads),
    plannedAs context "wait"
      (fun n => waitArgs n.workload ns (readyReplicas ++ n.replicas) rolloutSeconds) "a workload" none
      (some .workloads),
    plannedAs context "get" (fun _ => ["get", "pods", "-n", ns, "-o", "json"])
      "the pods that mount the claim" none none,
    plannedAs context "patch" (fun n => pauseArgs floats n.application true) "an Argo CD Application"
      none (some .applicationsReversed) ]

/-- The placeholders of the list. The first workload of the plan stands for each. -/
def placeholders (workload : Workload) : Names F where
  application := "<application>"
  workload := workload.ref
  pod := "<pod>"
  replicas := "<replicas>"
  newVolume := "<new-volume>"
  lastApplied := "<saved last-applied configuration>"
  saved :=
    { metadata := [("name", text plan.claim), ("namespace", text plan.namespace),
        ("labels", object [("<saved label>", text "<value>")])]
      annotations := [("<saved annotation>", "<value>")]
      spec := withMember (moveClaimSpec plan) "storageClassName" (text plan.storageClass) }

/-- Nothing when the list of workloads is empty, an IndexError of the source. -/
def dryRunWrites : Option (List (PlannedRequest F)) :=
  plan.workloads.head?.map fun workload =>
    (writes floats plan context).map fun line => line.planned (placeholders plan workload)

end DryRun

section Expansion

/-- What a run learns, which decides its requests. -/
structure Facts (F : Type) where
  copyFailed : Bool
  newVolume : String
  newPolicy : String
  saved : SavedClaim F

variable {F : Type} (plan : ManifestPlan F) (facts : Facts F)

def Condition.holds : Condition → Bool
  | .copyFails => facts.copyFailed
  | .newVolumePolicy => facts.newPolicy ≠ retainPolicy
  | .oldVolumePolicy => plan.oldReclaimPolicy ≠ retainPolicy
  | .lastApplied => facts.saved.lastApplied.isSome

def Facts.names : Names F where
  application := ""
  workload := ""
  pod := ""
  replicas := ""
  newVolume := facts.newVolume
  lastApplied := facts.saved.lastApplied.getD ""
  saved := facts.saved

def Repeat.instances : Repeat → List (Names F)
  | .applications => plan.paused.map fun application => { facts.names with application }
  | .workloads => plan.workloads.map fun workload =>
    { facts.names with workload := workload.ref, replicas := toString workload.replicas }
  | .pods => plan.pods.map fun pod => { facts.names with pod }
  | .applicationsReversed =>
    plan.paused.reverse.map fun application => { facts.names with application }

def Line.expand (line : Line F) : List (Command F) :=
  if line.condition.all (Condition.holds plan facts) then
    ((line.repeat_.map (Repeat.instances plan facts)).getD [facts.names]).map fun names =>
      ⟨line.argv names, line.stdin names⟩
  else []

end Expansion
end DevopsCli.K8s
