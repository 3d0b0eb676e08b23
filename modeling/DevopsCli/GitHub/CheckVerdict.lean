import DevopsCli.Lib.Json
import DevopsCli.Lib.PyStr

/- The checks of a commit, github/check_verdict.py: its check runs and commit statuses, classified and
   aggregated, and the blockers that github/merge_readiness.py makes of them. The text of a float, a
   list or an object, lower case, and what a request answers come from outside. -/
namespace DevopsCli.GitHub.CheckVerdict
open PyStr

inductive CheckBucket where
  | pass
  | fail
  | pending
  | skipping
  | cancel
  | unread
  deriving DecidableEq, Repr

def bucketClassifierMap : List (Str × CheckBucket) :=
  [("pass".toList, .pass), ("success".toList, .pass), ("fail".toList, .fail),
    ("failure".toList, .fail), ("error".toList, .fail), ("timed_out".toList, .fail),
    ("action_required".toList, .fail), ("startup_failure".toList, .fail), ("stale".toList, .fail),
    ("pending".toList, .pending), ("in_progress".toList, .pending), ("queued".toList, .pending),
    ("waiting".toList, .pending), ("requested".toList, .pending), ("skipping".toList, .skipping),
    ("skipped".toList, .skipping), ("neutral".toList, .skipping), ("cancel".toList, .cancel),
    ("cancelled".toList, .cancel)]

def bucketOf (token : Str) : Option CheckBucket :=
  (bucketClassifierMap.find? fun entry => entry.1 = token).map Prod.snd

structure PRCheckItem where
  name : Str
  state : Str := []
  bucket : CheckBucket := .unread
  workflow : Str := []
  link : Str := []
  deriving DecidableEq

structure CheckVerdictSummary where
  items : List PRCheckItem := []
  unreadReason : Str := []
  deriving DecidableEq

def CheckVerdictSummary.count (summary : CheckVerdictSummary) (bucket : CheckBucket) : Nat :=
  summary.items.countP fun item => item.bucket = bucket

def CheckVerdictSummary.exitCode (summary : CheckVerdictSummary) : Nat :=
  if 0 < summary.count .unread || summary.unreadReason ≠ [] then 1
  else if 0 < summary.count .fail || 0 < summary.count .cancel then 1
  else if 0 < summary.count .pending then 8
  else 0

/-- What a read raises: a value that a caller catches, or an error that nothing catches. -/
inductive Raised where
  | value (message : Str)
  | attribute
  | overflow
  deriving DecidableEq

structure Python (F : Type) where
  floatZero : F → Bool
  floatTrunc : F → Int
  -- The text of a float, a list or an object.
  repr : Json F → Str
  lower : Str → Str
  lower_small : ∀ text : Str, text.all Char.isLower = true → lower text = text

section Reads
variable {F : Type} (python : Python F)

def truthy : Json F → Bool
  | .null => false
  | .bool value => value
  | .int value => value ≠ 0
  | .float value => !python.floatZero value
  | .nan => true
  | .infinity _ => true
  | .str text => text ≠ []
  | .arr elements => !elements.isEmpty
  | .obj members => !members.isEmpty

def pyStr : Json F → Str
  | .null => "None".toList
  | .bool true => "True".toList
  | .bool false => "False".toList
  | .int value => Json.intRepr value
  | .nan => "nan".toList
  | .infinity false => "inf".toList
  | .infinity true => "-inf".toList
  | .str text => text
  | value => python.repr value

def get (members : Json.Members F) (key : String) : Option (Json F) :=
  (members.find? fun member => member.1 = key.toList).map Prod.snd

def textOr (value : Option (Json F)) (default : String) : Str :=
  match value with
  | some value => if truthy python value then pyStr python value else default.toList
  | none => default.toList

def normalizeToken : Option (Json F) → Str
  | none => []
  | some .null => []
  | some value => python.lower (strip (pyStr python value))

def running : List Str :=
  ["in_progress".toList, "queued".toList, "waiting".toList, "requested".toList, "pending".toList]

def resolveBucket (bucket conclusion status : Str) : CheckBucket × Str :=
  match bucketOf bucket with
  | some found => (found, bucket)
  | none =>
    if status ∈ running then (.pending, status)
    else
      match bucketOf conclusion, bucketOf status with
      | some found, _ => (found, conclusion)
      | none, some found => (found, status)
      | none, none => (.unread, "unknown".toList)

def classifyCheckItem (name : Str) (bucket : Option (Json F)) (state : Option Str)
    (conclusion status : Option (Json F)) (workflow link : Str) : PRCheckItem :=
  -- A null status is None, as a missing one is.
  let rawStatus := match status with
    | none => state.map .str
    | some .null => state.map .str
    | some value => some value
  let resolved := resolveBucket (normalizeToken python bucket) (normalizeToken python conclusion)
    (normalizeToken python rawStatus)
  { name := if name ≠ [] then name else "unknown".toList
    state := if state.getD [] ≠ [] then state.getD [] else resolved.2
    bucket := resolved.1
    workflow := workflow
    link := link }

def checkRunDictToItem (run : Json.Members F) : Except Raised PRCheckItem := do
  let workflow ←
    match get run "app" with
    | none => .ok []
    | some (.obj app) => .ok (textOr python (get app "name") "")
    | some _ => .error .attribute
  return classifyCheckItem python (textOr python (get run "name") "unknown") none none
    (get run "conclusion") (get run "status") workflow (textOr python (get run "html_url") "")

def runName (run : Json.Members F) : Str := textOr python (get run "name") ""

def runStarted (run : Json.Members F) : Str := textOr python (get run "started_at") ""

def newest (runs : List (Json.Members F)) : Str → Str :=
  runs.foldl (fun newest run =>
    let name := runName python run
    let started := runStarted python run
    Function.update newest name (if newest name < started then started else newest name)) fun _ => []

def isCancelled (run : Json.Members F) : Bool :=
  bucketOf (normalizeToken python (get run "conclusion")) = some .cancel

def withoutReplacedCancellations (runs : List (Json.Members F)) : List (Json.Members F) :=
  runs.filter fun run => !isCancelled python run ||
    !(decide (runStarted python run < newest python runs (runName python run)))

def parseSingleStatusItem (status : Json F) : Option PRCheckItem :=
  match status with
  | .obj members => some (classifyCheckItem python (textOr python (get members "context") "status") none
      (some (textOr python (get members "state") "")) none none "Commit Status".toList
      (textOr python (get members "target_url") ""))
  | _ => none

def combinedStatus (state : Str) : PRCheckItem :=
  classifyCheckItem python "commit status (combined)".toList none (some state) none none
    "Commit Status".toList []

def resolveCombinedStatusItem (total : Int) (currentCount : Nat) (combinedState : Str)
    (items : List PRCheckItem) : Option PRCheckItem :=
  if total ≤ currentCount then none
  else if combinedState = "failure".toList ∨ combinedState = "error".toList then
    if items.any fun item => item.bucket = .fail then none
    else some (combinedStatus python combinedState)
  else if combinedState = "pending".toList then
    if items.any fun item => item.bucket = .pending then none
    else some (combinedStatus python "pending".toList)
  else none

/-- The number of contexts that a reply counts. Without a number it is the number it lists. -/
def totalCount (value : Option (Json F)) (listed : Nat) : Except Raised Int :=
  match value with
  | some (.int n) => .ok n
  | some (.bool b) => .ok (if b then 1 else 0)
  | some (.float f) => .ok (python.floatTrunc f)
  | some .nan => .error (.value "cannot convert float NaN to integer".toList)
  | some (.infinity _) => .error .overflow
  | _ => .ok listed

def statusList (reply : Json.Members F) : List (Json F) :=
  match get reply "statuses" with
  | some (.arr elements) => elements
  | _ => []

def combinedState (reply : Json.Members F) : Str := python.lower (textOr python (get reply "state") "")

def parseRestCommitStatusesPayload (data : Json F) :
    Except Raised (List PRCheckItem × Option PRCheckItem) :=
  match data with
  | .obj reply => do
    let items := (statusList reply).filterMap (parseSingleStatusItem python)
    let total ← totalCount python (get reply "total_count") items.length
    return (items, resolveCombinedStatusItem python total items.length (combinedState python reply) items)
  | _ => .error (.value "GitHub commit status API returned non-object response".toList)

def maxErrorDetailLength : Nat := 256

/-- The entries of every page of the check runs, or why a page can't be read. -/
abbrev Listing (F : Type) := Except Str (List (Json F))

inductive StatusReply (F : Type) where
  | failed (message : Str)
  | empty
  | invalid (detail : Str)
  | json (data : Json F)

def isObject : Json F → Option (Json.Members F)
  | .obj members => some members
  | _ => none

def fetchCheckRunsFromRest (listing : Listing F) : Except Raised (List PRCheckItem × Str) :=
  match listing with
  | .error message =>
    .ok ([], "GitHub check-runs API error: ".toList ++ message.take maxErrorDetailLength)
  | .ok runs => do
    let items ← (withoutReplacedCancellations python (runs.filterMap isObject)).mapM
      (checkRunDictToItem python)
    return (items, [])

def fetchCommitStatusesFromRest (reply : StatusReply F) :
    Except Raised (List PRCheckItem × Option PRCheckItem × Str) :=
  match reply with
  | .failed message => .ok ([], none, "GitHub commit status API error: ".toList ++ message)
  | .empty => .ok ([], none, "GitHub commit status API returned empty response".toList)
  | .invalid detail => .ok ([], none, "Invalid JSON from commit status API: ".toList ++ detail)
  | .json data =>
    match parseRestCommitStatusesPayload python data with
    | .ok parsed => .ok (parsed.1, parsed.2, [])
    | .error (.value message) => .ok ([], none, message)
    | .error raised => .error raised

def synthesizeCheckItems (checkItems statusItems : List PRCheckItem)
    (combinedItem : Option PRCheckItem) : List PRCheckItem :=
  let all := checkItems ++ statusItems ++ combinedItem.toList
  if all = [] then
    [{ name := "no checks reported".toList, bucket := .pending, state := "pending".toList }]
  else all

def missingHead : CheckVerdictSummary where
  unreadReason := "PR head commit SHA is missing for checks query".toList

def readCheckRuns (headSha : Str) (listing : Listing F) : Except Raised CheckVerdictSummary :=
  if headSha = [] then .ok missingHead
  else do
    let runs ← fetchCheckRunsFromRest python listing
    if runs.2 ≠ [] then return { unreadReason := runs.2 }
    return { items := synthesizeCheckItems runs.1 [] none }

def readCommitChecks (headSha : Str) (listing : Listing F) (reply : StatusReply F) :
    Except Raised CheckVerdictSummary :=
  if headSha = [] then .ok missingHead
  else do
    let runs ← fetchCheckRunsFromRest python listing
    if runs.2 ≠ [] then return { unreadReason := runs.2 }
    let statuses ← fetchCommitStatusesFromRest python reply
    if statuses.2.2 ≠ [] then return { unreadReason := statuses.2.2 }
    return { items := synthesizeCheckItems runs.1 statuses.1 statuses.2.1 }

end Reads

inductive BlockerKind where
  | checksUnread
  | checksFailing
  | checksPending
  deriving DecidableEq

structure Judged where
  blocking : List (BlockerKind × List Str) := []
  pending : List Str := []
  warned : Bool := false

def named (items : List PRCheckItem) (buckets : List CheckBucket) : List Str :=
  ((items.filter fun item => item.bucket ∈ buckets).map PRCheckItem.name).mergeSort

def judgeSummary (checks : CheckVerdictSummary) (allowPendingChecks : Bool) : Judged :=
  if checks.unreadReason ≠ [] then { blocking := [(.checksUnread, [checks.unreadReason])] }
  else
    let failing := named checks.items [.fail, .cancel, .unread]
    let pending := named checks.items [.pending]
    let failed := if failing ≠ [] then [(BlockerKind.checksFailing, failing)] else []
    if pending = [] then { blocking := failed }
    else if allowPendingChecks then { blocking := failed, pending := pending, warned := true }
    else { blocking := failed ++ [(.checksPending, pending)], pending := pending }

def judgeChecks {F : Type} (python : Python F) (headSha : Str) (listing : Listing F)
    (reply : StatusReply F) (commitStatuses allowPendingChecks : Bool) : Except Raised Judged :=
  if headSha = [] then .ok {}
  else do
    let checks ← if commitStatuses then readCommitChecks python headSha listing reply
      else readCheckRuns python headSha listing
    return judgeSummary checks allowPendingChecks

end DevopsCli.GitHub.CheckVerdict
