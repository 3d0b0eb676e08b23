import DevopsCli.Lib.PyStr
import DevopsCli.GitHub.SlotHolds

/- run_gh of github/rate_limiter.py: the response cache, the attempts of a command with the backoff
   between them, and the threads of one process that share the limiter. What argparse, the header
   readers, the classifiers of other modules and SHA-256 say comes from outside. Commands of gh that
   send nothing, metrics and logs are left out. -/
namespace DevopsCli.GitHub.RunGh
open PyStr Act

structure ApiArgs where
  method : Str
  hasParams : Bool
  printsBody : Bool
  hostname : Option Str

structure Readers (Digest : Type) where
  lower : Str → Str
  ghCommandWords : List Str → Option (Option Str × Option Str)
  parseGhApiArgs : List Str → Option ApiArgs
  isWriteGhCommand : List Str → Option Str → Bool
  detectResource : List Str → Resource
  /-- The reports in the headers and the GraphQL body of an output, for a resource. -/
  rateLimits : Resource → Str → List (Resource × ReportLine)
  /-- The resources of a rate_limit answer. -/
  rateLimitEndpoint : Str → List (Resource × ReportLine)
  extractRetryAfter : Str → ℚ → Option ℚ
  digest : Str → Digest

structure Proc where
  returncode : Int
  stdout : Str
  stderr : Str
  deriving DecidableEq

structure Call where
  args : List Str
  input : Option Str := none
  check : Bool := false
  useCache : Bool := false
  cacheTtl : ℚ := 60
  maxRetries : Int := 2
  resource : Option Resource := none
  cost : Int := 1
  deriving DecidableEq

def ghCli : Str := "gh".toList
def apiSubcommand : Str := "api".toList
def githubHost : Str := "github.com".toList

def nonApiCommands : List Str :=
  ["auth".toList, "version".toList, "--version".toList, "help".toList, "--help".toList]

def readVerbs : List Str :=
  ["view".toList, "list".toList, "status".toList, "checks".toList, "diff".toList, "show".toList,
    "item-list".toList, "field-list".toList]

def cacheableCliGroups : List Str :=
  ["pr".toList, "issue".toList, "project".toList, "label".toList, "milestone".toList, "repo".toList,
    "workflow".toList, "run".toList]

def sensitiveMarkers : List Str :=
  ["token".toList, "authorization".toList, "bearer".toList, "password".toList, "secret".toList,
    "cookie".toList]

def rateLimitPatterns : List Str :=
  ["rate limit exceeded".toList, "rate limit already exceeded".toList, "secondary rate limit".toList,
    "too many requests".toList, "http 429".toList, "wait a few minutes before you try again".toList]

def secondaryRateLimitPatterns : List Str :=
  ["secondary rate limit".toList, "wait a few minutes before you try again".toList,
    "please retry your request again later".toList, "exceeded a secondary rate limit".toList]

def contains (text part : Str) : Bool := decide (part <:+: text)

section Command
variable {Digest : Type} (read : Readers Digest)

def normalizeGhArgs (args : List Str) : List Str :=
  match args with
  | first :: rest => if first = ghCli then rest else args
  | [] => []

def cleanWords (args : List Str) : List Str := (args.filter (· ≠ ghCli)).map read.lower

def isRateLimitCheck (args : List Str) : Bool :=
  match cleanWords read args with
  | first :: second :: _ =>
    decide (first = apiSubcommand) &&
      decide (second.dropWhile (· == '/') = "rate_limit".toList)
  | _ => false

def isLocalGhCommand (args : List Str) : Bool :=
  match args with
  | first :: _ => decide (read.lower first ∈ nonApiCommands)
  | [] => true

def isRateLimitExempt (args : List Str) : Bool :=
  let clean := cleanWords read args
  !clean.isEmpty && (isLocalGhCommand read clean || isRateLimitCheck read clean)

def printsRateLimitAnswer (args : List Str) : Bool :=
  isRateLimitCheck read args &&
    (read.parseGhApiArgs (args.drop 1)).any fun apiArgs =>
      apiArgs.printsBody && apiArgs.hostname.all fun host => decide (host = githubHost)

def isSensitiveCommand (args : List Str) : Bool :=
  sensitiveMarkers.any fun marker => contains (read.lower (join [' '] args)) marker

def isCacheableCliRead (args : List Str) : Bool :=
  (read.ghCommandWords args).any fun (group, verb) =>
    (group.any fun group => decide (group ∈ cacheableCliGroups)) &&
      verb.any fun verb => decide (verb ∈ readVerbs)

def isCacheableApiCall (args : List Str) : Bool :=
  (read.parseGhApiArgs (args.drop 1)).any fun apiArgs =>
    decide (apiArgs.method = "GET".toList) && !apiArgs.hasParams

def shouldCache (args : List Str) (useCache : Bool) (input : Option Str) : Bool :=
  if !useCache || (input.any fun text => !text.isEmpty) || args.isEmpty then false
  else if isSensitiveCommand read args then false
  else if isCacheableCliRead read args then true
  else args.head? == some apiSubcommand && isCacheableApiCall read args

/-- The key of a command without input: no other is cached. -/
def buildCacheKey (args : List Str) : Str := "gh:".toList ++ join [':'] args

def calculateEffectiveCost (args : List Str) (target : Resource) (cost : Int) : Int :=
  if cost ≠ 1 then cost
  else if target = "graphql" ∨ args.head? = some "project".toList then 2
  else cost

namespace Call
variable (call : Call)

def clean : List Str := normalizeGhArgs call.args

def target : Resource :=
  match call.resource with
  | some name => if name = "" then read.detectResource call.clean else name
  | none => read.detectResource call.clean

def isExempt : Bool := isRateLimitExempt read call.clean

def isMutation : Bool := !call.isExempt read && read.isWriteGhCommand call.clean call.input

def effectiveCost : Int := calculateEffectiveCost call.clean (call.target read) call.cost

def shouldCache : Bool := RunGh.shouldCache read call.clean call.useCache call.input

def cacheKey : Str := buildCacheKey call.clean

end Call

def parseRateLimitFromOutput (output : Str) (target : Resource) : List (Resource × ReportLine) :=
  if output = [] then [] else read.rateLimits target output

def postProcessRun (call : Call) (proc : Proc) : List (Resource × ReportLine) :=
  if printsRateLimitAnswer read call.clean then
    if proc.returncode = 0 ∧ proc.stdout ≠ [] then read.rateLimitEndpoint proc.stdout else []
  else if call.isExempt read then []
  else parseRateLimitFromOutput read proc.stdout (call.target read) ++
    parseRateLimitFromOutput read proc.stderr (call.target read)

end Command

section Backoff

structure Waits where
  secondaryRateWait : ℚ := 60
  secondaryMaxCap : ℚ := 300
  maxRateLimitWait : Option ℚ := none

variable {Digest : Type} (read : Readers Digest) (w : Waits)

def isRateLimitError (message : Str) : Bool :=
  (rateLimitPatterns ++ secondaryRateLimitPatterns).any fun phrase =>
    contains (read.lower message) phrase

def boundedWait (wait : ℚ) (text : String) : Except LimiterError ℚ :=
  if w.maxRateLimitWait.any fun most => decide (most < wait) then .error (.rateLimitError text)
  else .ok wait

def handleRetryAfterWait (retryAfter : ℚ) : Except LimiterError ℚ :=
  boundedWait w retryAfter "Required Retry-After wait exceeds max_rate_limit_wait"

def primaryWait (state : Option QuotaState) (now : ℚ) : Option ℚ :=
  state.bind fun q => q.resetEpoch.bind fun reset =>
    if q.remaining = some 0 ∧ 0 < reset ∧ now < reset then some (reset - now) else none

def calculateSecondaryDelay (draw : ℚ) : Except LimiterError ℚ :=
  boundedWait w (min (w.secondaryRateWait + draw) w.secondaryMaxCap)
    "Required secondary rate limit backoff exceeds max_rate_limit_wait"

/-- The draw is the random wait of the attempt. -/
def retryDelay (retryAfter : Option ℚ) (state : Option QuotaState) (now draw : ℚ) :
    Except LimiterError ℚ :=
  match retryAfter.filter fun seconds => decide (0 < seconds) with
  | some seconds => handleRetryAfterWait w seconds
  | none =>
    match primaryWait state now with
    | some wait => boundedWait w wait "Required primary rate limit wait exceeds max_rate_limit_wait"
    | none => calculateSecondaryDelay w draw

def calculateBackoffDelay (message : Str) (state : Option QuotaState) (now draw : ℚ) :
    Except LimiterError ℚ :=
  if !isRateLimitError read message then .ok 0
  else retryDelay w (read.extractRetryAfter message now) state now draw

def backoffOf (proc : Proc) (state : Option QuotaState) (now draw : ℚ) : Except LimiterError ℚ :=
  if !isRateLimitError read proc.stderr then .ok 0
  else calculateBackoffDelay read w (proc.stderr ++ ' ' :: proc.stdout) state now draw

end Backoff

section Cache

structure CacheEntry where
  data : Str
  expiresAt : ℚ
  deriving DecidableEq

/-- The dict of the process, and the files beside the ledger. A file that does not hold an entry is
    corrupt. -/
structure Responses (Digest : Type) where
  memory : Str → Option CacheEntry := fun _ => none
  files : Digest → Option (Option CacheEntry) := fun _ => none
  lastDiskPrune : ℚ := 0

/-- What the file system does during a call, and a later reading of the clock. A write that fails
    may leave a torn file. -/
structure FileSystem (Digest : Type) where
  reads : Bool := true
  writes : Bool := true
  tears : Bool := false
  unlinks : Digest → Bool := fun _ => true
  later : ℚ := 0

def defaultCacheTtl : ℚ := 60

namespace Responses
variable {Digest : Type} [DecidableEq Digest] (persists : Bool) (fs : FileSystem Digest)
  (c : Responses Digest)

def pruneExpiredCache (now : ℚ) : Responses Digest where
  lastDiskPrune := now
  memory key := (c.memory key).filter fun entry => decide (now ≤ entry.expiresAt)
  files name := (c.files name).filter fun file =>
    !(persists && fs.unlinks name &&
      (!fs.reads || file.all fun entry => decide (entry.expiresAt < now)))

def clearCache : Responses Digest :=
  { c with
    memory := fun _ => none
    files := fun name => if persists && fs.unlinks name then none else c.files name }

def loadDiskCache (name : Digest) : Option CacheEntry × Responses Digest :=
  match (if fs.reads then c.files name else none) with
  | some (some entry) =>
    if entry.expiresAt < fs.later then
      (none, if fs.unlinks name then { c with files := Function.update c.files name none } else c)
    else (some entry, c)
  | _ => (none, c)

def getCached (digest : Str → Digest) (key : Str) (now : ℚ) :
    Option (Str × ℚ) × Responses Digest :=
  match (c.memory key).filter fun entry => decide (now ≤ entry.expiresAt) with
  | some entry => (some (entry.data, now), c)
  | none =>
    let c := { c with memory := Function.update c.memory key none }
    if persists then
      match c.loadDiskCache fs (digest key) with
      | (some entry, c) =>
        (some (entry.data, fs.later), { c with memory := Function.update c.memory key (some entry) })
      | (none, c) => (none, c)
    else (none, c)

def saveDiskCache (name : Digest) (entry : CacheEntry) : Responses Digest :=
  if fs.writes then { c with files := Function.update c.files name (some (some entry)) }
  else if fs.tears then { c with files := Function.update c.files name (some none) }
  else c

def setCached (digest : Str → Digest) (key data : Str) (ttl now : ℚ) : Responses Digest :=
  let entry : CacheEntry := ⟨data, now + ttl⟩
  let c := { c with memory := Function.update c.memory key (some entry) }
  if persists then
    let c := c.saveDiskCache fs (digest key) entry
    if defaultCacheTtl < fs.later - c.lastDiskPrune then c.pruneExpiredCache true fs fs.later else c
  else c

end Responses
end Cache

/-- An attempt that gh answered: when its request was sent, and the hold that its backoff made. -/
structure Tried where
  proc : Proc
  sent : ℚ
  hold : Option Hold
  deriving DecidableEq

inductive Point where
  | opens
  | paces
  | runs
  | reads (proc : Proc) (lines : List (Resource × ReportLine))
  | holds (proc : Proc) (wait : ℚ)
  | throttles (wait : ℚ)

structure Job where
  call : Call
  tries : List Tried := []
  since : ℚ
  sent : ℚ := 0
  point : Point := .opens

inductive Outcome where
  | cached (text : Str) (seen : ℚ)
  | returned (proc : Proc)
  | calledProcessError (proc : Proc)
  | raised
  deriving DecidableEq

structure Ended (Thread : Type) where
  thread : Thread
  call : Call
  tries : List Tried
  outcome : Outcome
  at_ : ℚ
  deriving DecidableEq

structure Line (Thread Digest : Type) where
  watched : Watched Thread
  stage : Thread → Option Job
  cache : Responses Digest
  ended : List (Ended Thread)
  given : List (Digest × CacheEntry)

inductive Move (Digest : Type) where
  | begins (call : Call) (fs : FileSystem Digest)
  | gets
  | sleeps
  | sends
  | runs
  | answers (proc : Proc)
  | charges
  | judges (draw : ℚ) (fs : FileSystem Digest)
  | holds
  | throttles
  | fails

inductive Event (Thread Digest : Type) where
  | gh (thread : Thread) (move : Move Digest) (at_ : ℚ)
  /-- Another user of the limiter, or a thread that is in no call. -/
  | session (event : GitHub.Event Thread)
  | prune (fs : FileSystem Digest) (now : ℚ)
  | clear (fs : FileSystem Digest)
  /-- Another process writes, or removes, a file of the cache. -/
  | file (name : Digest) (entry : Option CacheEntry)

def raiseForStatus (check : Bool) (proc : Proc) : Outcome :=
  if check ∧ proc.returncode ≠ 0 then .calledProcessError proc else .returned proc

def senderOf {Thread : Type} : GitHub.Event Thread → Option Thread
  | .acquire thread .. | .sleep thread _ | .send thread _ => some thread
  | .hold _ | .other .. | .ledger _ => none

namespace Line
variable {Thread Digest : Type} [DecidableEq Thread] [DecidableEq Digest]
  (o : Outside) (read : Readers Digest) (w : Waits)

def put (s : Line Thread Digest) (thread : Thread) (job : Job) : Line Thread Digest :=
  { s with stage := Function.update s.stage thread (some job) }

def finish (s : Line Thread Digest) (thread : Thread) (call : Call) (tries : List Tried)
    (outcome : Outcome) (at_ : ℚ) : Line Thread Digest :=
  { s with
    stage := Function.update s.stage thread none
    ended := ⟨thread, call, tries, outcome, at_⟩ :: s.ended }

def persists (s : Line Thread Digest) : Bool := s.watched.traffic.desk.limiter.persists

def open_ (s : Line Thread Digest) (thread : Thread) (call : Call) (at_ : ℚ) : Line Thread Digest :=
  if call.maxRetries < 0 then s.finish thread call [] (raiseForStatus call.check ⟨1, [], []⟩) at_
  else s.put thread { call := call, since := at_ }

def begin_ (s : Line Thread Digest) (thread : Thread) (call : Call) (fs : FileSystem Digest)
    (at_ : ℚ) : Line Thread Digest :=
  if call.shouldCache read then
    match s.cache.getCached s.persists fs read.digest call.cacheKey at_ with
    | (some (text, seen), c) => { s with cache := c }.finish thread call [] (.cached text seen) at_
    | (none, c) => { s with cache := c }.open_ thread call at_
  else s.open_ thread call at_

/-- What follows an answer: it is stored, or its call ends, or its backoff holds the requests. -/
def judge (s : Line Thread Digest) (thread : Thread) (job : Job) (proc : Proc) (draw : ℚ)
    (fs : FileSystem Digest) (at_ : ℚ) : Line Thread Digest :=
  let call := job.call
  let tries := ⟨proc, job.sent, none⟩ :: job.tries
  if proc.returncode = 0 then
    let c := if call.shouldCache read ∧ proc.stdout ≠ [] then
        s.cache.setCached s.persists fs read.digest call.cacheKey proc.stdout call.cacheTtl at_
      else s.cache
    { s with cache := c }.finish thread call tries (.returned proc) at_
  else
    match backoffOf read w proc (s.watched.traffic.desk.limiter.quotas (call.target read)) at_ draw with
    | .error _ => s.finish thread call tries .raised at_
    | .ok wait =>
      if wait ≤ 0 then s.finish thread call tries (raiseForStatus call.check proc) at_
      else s.put thread { job with since := at_, point := .holds proc wait }

/-- The backoff holds the requests. The last attempt makes the hold, and sleeps no backoff. -/
def held (s : Line Thread Digest) (thread : Thread) (job : Job) (proc : Proc) (wait at_ : ℚ) :
    Line Thread Digest :=
  let tries := ⟨proc, job.sent, some ⟨at_, wait⟩⟩ :: job.tries
  if job.call.maxRetries ≤ job.tries.length then
    s.finish thread job.call tries (raiseForStatus job.call.check proc) at_
  else s.put thread { job with tries := tries, since := at_, point := .throttles wait }

def charge (s : Line Thread Digest) (thread : Thread) (job : Job) (proc : Proc)
    (line : Resource × ReportLine) (lines : List (Resource × ReportLine)) (at_ : ℚ) :
    Option (Line Thread Digest) :=
  let raises (s : Line Thread Digest) :=
    s.finish thread job.call (⟨proc, job.sent, none⟩ :: job.tries) .raised at_
  let goesOn (s : Line Thread Digest) :=
    s.put thread { job with since := at_, point := .reads proc lines }
  match line with
  | (_, .skipped) => some (goesOn s)
  | (_, .malformed) => some (raises s)
  | (name, .numbers report) =>
    (s.watched.step o (.other (.updateQuota name report) at_)).map fun watched =>
      match validateQuotaUpdateArgs report with
      | .error _ => raises { s with watched := watched }
      | .ok () => goesOn { s with watched := watched }

def moves (s : Line Thread Digest) (thread : Thread) (job : Job) (at_ : ℚ) :
    Move Digest → Option (Line Thread Digest)
  | .gets =>
    match job.point, job.call.isExempt read with
    | .opens, false =>
      let asked := .acquire thread (job.call.target read) (job.call.isMutation read)
        (job.call.effectiveCost read) at_
      (s.watched.step o asked).map fun watched =>
        if watched.traffic.phase thread = .free then
          { s with watched := watched }.finish thread job.call job.tries .raised at_
        else { s with watched := watched }.put thread { job with since := at_, point := .paces }
    | _, _ => none
  | .sleeps =>
    match job.point with
    | .paces => (s.watched.step o (.sleep thread at_)).map fun watched =>
        { s with watched := watched }.put thread { job with since := at_ }
    | _ => none
  | .sends =>
    match job.point with
    | .paces => (s.watched.step o (.send thread at_)).map fun watched =>
        { s with watched := watched }.put thread { job with since := at_, sent := at_, point := .runs }
    | _ => none
  | .runs =>
    match job.point, job.call.isExempt read with
    | .opens, true => some (s.put thread { job with since := at_, sent := at_, point := .runs })
    | _, _ => none
  | .answers proc =>
    match job.point with
    | .runs => some (s.put thread
        { job with since := at_, point := .reads proc (postProcessRun read job.call proc) })
    | _ => none
  | .charges =>
    match job.point with
    | .reads proc (line :: lines) => s.charge o thread job proc line lines at_
    | _ => none
  | .judges draw fs =>
    match job.point with
    | .reads proc [] => some (s.judge read w thread job proc draw fs at_)
    | _ => none
  | .holds =>
    match job.point with
    | .holds proc wait =>
      if at_ = o.clock s.watched.traffic.desk.tick then
        (s.watched.step o (.hold wait)).map fun watched =>
          { s with watched := watched }.held thread job proc wait at_
      else none
    | _ => none
  | .throttles =>
    match job.point with
    | .throttles wait => (s.watched.step o (.other (.recordThrottle wait) at_)).map fun watched =>
        { s with watched := watched }.put thread { job with since := at_ + wait, point := .opens }
    | _ => none
  | .fails =>
    match job.point with
    | .opens | .runs => some (s.finish thread job.call job.tries .raised at_)
    | _ => none
  | .begins .. => none

def step (s : Line Thread Digest) : Event Thread Digest → Option (Line Thread Digest)
  | .gh thread move at_ =>
    match s.stage thread, move with
    | none, .begins call fs =>
      if isLocalGhCommand read call.clean then none else some (s.begin_ read thread call fs at_)
    | some job, move => if job.since ≤ at_ then s.moves o read w thread job at_ move else none
    | none, _ => none
  | .session event =>
    if (senderOf event).all fun thread => (s.stage thread).isNone then
      (s.watched.step o event).map fun watched => { s with watched := watched }
    else none
  | .prune fs now => some { s with cache := s.cache.pruneExpiredCache s.persists fs now }
  | .clear fs => some { s with cache := s.cache.clearCache s.persists fs }
  | .file name entry => some { s with
      cache := { s.cache with files := Function.update s.cache.files name (entry.map some) }
      given := (entry.map fun entry => (name, entry)).toList ++ s.given }

def start (limiter : RateLimiter) (file : Option Ledger) (now : ℚ) : Line Thread Digest :=
  ⟨.start limiter file now, fun _ => none, {}, [], []⟩

end Line
end DevopsCli.GitHub.RunGh
