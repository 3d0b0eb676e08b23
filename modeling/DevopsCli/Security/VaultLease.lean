import DevopsCli.Lib.Json
import DevopsCli.Lib.Keyed
import DevopsCli.Lib.PyDigits

/- The leases of Vault, security/vault_lease.py, with the requests of security/vault_http.py. What
   each request meets and what the clock shows come from outside. -/
namespace DevopsCli.Vault
open PyStr

/-- The floats that count seconds. An integer beyond their range has none. -/
structure Seconds (T : Type) where
  ofInt : Int → Option T
  zero : T
  sub : T → T → T
  mul : T → T → T
  lt : T → T → Bool
  le : T → T → Bool

structure VaultLease (T : Type) where
  leaseId : Str
  durationSeconds : Int := 0
  renewable : Bool := false
  secretPath : Str := []
  issuedAt : T
  renewalCount : Nat := 0
  deriving DecidableEq

inductive Body (F : Type) where
  | empty
  | notJson
  | json (value : Json F)

/-- What comes of one request: a reply, no answer, a redirect to another origin, or another failure
    of HTTP. -/
inductive Outcome (F : Type) where
  | reply (status : Nat) (body : Body F)
  | transportError (kind : Str)
  | elsewhere (target : Str)
  | httpError (kind : Str)

inductive Raised where
  | vaultLease (message : Str) (status : Option Nat)
  | vaultOperation (message : Str)
  | vaultUnreachable (message : Str)
  | valueError
  | typeError
  | overflowError
  deriving DecidableEq

def Raised.isVaultLease : Raised → Bool
  | .vaultLease _ _ => true
  | _ => false

structure Connection (T : Type) where
  vaultAddr : Str
  token : Str
  vaultNamespace : Option Str := none
  renewThreshold : T
  renewIncrement : Int := 3600

structure LeaseRegistry (T : Type) extends Connection T where
  leases : Keyed (VaultLease.leaseId (T := T)) := {}

def renewPath : Str := "sys/leases/renew".toList
def revokePath : Str := "sys/leases/revoke".toList

def tokenHeaders (token : Str) (vaultNamespace : Option Str) : List (Str × Str) :=
  [("Content-Type".toList, "application/json".toList), ("X-Vault-Token".toList, token)] ++
    match vaultNamespace.filter (· ≠ []) with
    | some name => [("X-Vault-Namespace".toList, name)]
    | none => []

structure Request where
  addr : Str
  path : Str
  leaseId : Str
  increment : Option Int := none
  headers : List (Str × Str)
  deriving DecidableEq

structure Session (T : Type) where
  registry : LeaseRegistry T
  sent : List Request := []

structure World (T F : Type) where
  answer : Str → Outcome F
  now : Str → T
  stamp : Str → T

section Reading
variable {F : Type} (decimals : Decimals) (trunc : F → Option Int)

def maxStrDigits : Nat := 4300

def signOf : Str → Int × Str
  | '-' :: body => (-1, body)
  | '+' :: body => (1, body)
  | body => (1, body)

/-- The blanks at the ends of a text that int() takes: not U+001C to U+001F, which strip takes. -/
def isIntSpace (c : Char) : Bool := isSpace c && !(28 ≤ c.toNat && c.toNat ≤ 31)

def intOfText (text : Str) : Except Raised Int :=
  let (sign, body) := signOf ((text.dropWhile isIntSpace).rdropWhile isIntSpace)
  let groups := body.splitOn '_'
  if groups.all (fun group => group ≠ [] && group.all decimals.isDigit) &&
      groups.flatten.length ≤ maxStrDigits then
    .ok (sign * decimals.number groups.flatten)
  else .error .valueError

/-- int(value or 0). An infinite float has no integer. -/
def intOrZero : Json F → Except Raised Int
  | .null => .ok 0
  | .bool value => .ok (if value then 1 else 0)
  | .int value => .ok value
  | .float value =>
    match trunc value with
    | some whole => .ok whole
    | none => .error .overflowError
  | .nan => .error .valueError
  | .infinity _ => .error .overflowError
  | .str [] => .ok 0
  | .str text => intOfText decimals text
  | .arr [] => .ok 0
  | .obj [] => .ok 0
  | _ => .error .typeError

def leaseDurationKey : Str := "lease_duration".toList

def leaseDuration (payload : Json.Members F) (increment : Int) : Except Raised Int :=
  match payload.lookup leaseDurationKey with
  | some value => intOrZero decimals trunc value
  | none => .ok increment

end Reading

def payloadOf {F : Type} : Body F → Except Raised (Json.Members F)
  | .empty => .ok []
  | .notJson => .error .valueError
  | .json (.obj members) => .ok members
  | .json _ => .ok []

def post {F : Type} (addr path : Str) : Outcome F → Except Raised (Json.Members F)
  | .transportError kind =>
    .error (.vaultUnreachable ("Vault at ".toList ++ addr ++ " did not answer: ".toList ++ kind))
  | .elsewhere target =>
    .error (.vaultOperation ("Vault at ".toList ++ addr ++ " redirected the request to ".toList ++
      target))
  | .httpError kind =>
    .error (.vaultOperation ("Vault request to '".toList ++ path ++ "' failed: ".toList ++ kind))
  | .reply status body =>
    if 400 ≤ status then
      .error (.vaultLease ("Vault API call to '".toList ++ path ++ "' failed with status ".toList ++
        digits status) (some status))
    else payloadOf body

section Lifecycle
variable {T F : Type} (seconds : Seconds T) (decimals : Decimals) (trunc : F → Option Int)
  (world : World T F)

def VaultLease.remainingSeconds (lease : VaultLease T) (now : T) : Except Raised T :=
  match seconds.ofInt lease.durationSeconds with
  | none => .error .overflowError
  | some duration =>
    let left := seconds.sub duration (seconds.sub now lease.issuedAt)
    .ok (if seconds.lt seconds.zero left then left else seconds.zero)

def needsRenewal (vault : Connection T) (lease : VaultLease T) (now : T) : Except Raised Bool :=
  if !lease.renewable || lease.durationSeconds ≤ 0 then .ok false
  else
    match lease.remainingSeconds seconds now, seconds.ofInt lease.durationSeconds with
    | .ok remaining, some duration =>
      .ok (seconds.le remaining (seconds.mul duration vault.renewThreshold))
    | .error raised, _ => .error raised
    | .ok _, none => .error .overflowError

def Connection.headers (vault : Connection T) : List (Str × Str) :=
  tokenHeaders vault.token vault.vaultNamespace

def Connection.increment (vault : Connection T) (increment : Option Int) : Int :=
  (increment.filter (· ≠ 0)).getD vault.renewIncrement

def Connection.renewRequest (vault : Connection T) (leaseId : Str) (increment : Option Int) : Request where
  addr := vault.vaultAddr
  path := renewPath
  leaseId
  increment := some (vault.increment increment)
  headers := vault.headers

def Connection.revokeRequest (vault : Connection T) (leaseId : Str) : Request where
  addr := vault.vaultAddr
  path := revokePath
  leaseId
  headers := vault.headers

def renewal (vault : Connection T) (lease : VaultLease T) (increment : Option Int) :
    Except Raised (VaultLease T) :=
  match post vault.vaultAddr renewPath (world.answer lease.leaseId) with
  | .error raised => .error raised
  | .ok payload =>
    match leaseDuration decimals trunc payload (vault.increment increment) with
    | .error raised => .error raised
    | .ok duration =>
      .ok { lease with
        durationSeconds := duration
        issuedAt := world.stamp lease.leaseId
        renewalCount := lease.renewalCount + 1 }

def renew (session : Session T) (leaseId : Str) (increment : Option Int) :
    Except Raised (VaultLease T) × Session T :=
  let registry := session.registry
  match registry.leases.lookup leaseId with
  | none =>
    (.error (.vaultLease ("Lease '".toList ++ leaseId ++ "' is not tracked".toList) none), session)
  | some lease =>
    if !lease.renewable then
      (.error (.vaultLease ("Lease '".toList ++ leaseId ++ "' is not renewable".toList) none), session)
    else
      let sent := session.sent ++ [registry.renewRequest leaseId increment]
      match renewal decimals trunc world registry.toConnection lease increment with
      | .error raised => (.error raised, { session with sent })
      | .ok renewed =>
        (.ok renewed, { registry := { registry with leases := registry.leases.put renewed }, sent })

def revoke (session : Session T) (leaseId : Str) : Except Raised Unit × Session T :=
  let registry := session.registry
  let answered := (post registry.vaultAddr revokePath (world.answer leaseId)).map fun _ => ()
  (answered,
    { registry := { registry with leases := registry.leases.keep fun lease => lease.leaseId ≠ leaseId }
      sent := session.sent ++ [registry.revokeRequest leaseId] })

def revokeLoop (refused : List Str) : List Str → Session T → Except Raised (List Str) × Session T
  | [], session => (.ok refused, session)
  | leaseId :: rest, session =>
    match revoke world session leaseId with
    | (.ok _, session) => revokeLoop refused rest session
    | (.error raised, session) =>
      if raised.isVaultLease then revokeLoop (refused ++ [leaseId]) rest session
      else (.error raised, session)

def revokeAll (session : Session T) : Except Raised (List Str) × Session T :=
  revokeLoop world [] (session.registry.leases.rows.map VaultLease.leaseId) session

structure VaultLeaseReport where
  renewed : List Str := []
  failed : List Str := []
  skipped : List Str := []
  trackedCount : Nat := 0
  deriving DecidableEq

def renewLoop (report : VaultLeaseReport) :
    List (VaultLease T) → Session T → Except Raised VaultLeaseReport × Session T
  | [], session => (.ok report, session)
  | lease :: rest, session =>
    match needsRenewal seconds session.registry.toConnection lease (world.now lease.leaseId) with
    | .error raised => (.error raised, session)
    | .ok false =>
      renewLoop { report with skipped := report.skipped ++ [lease.leaseId] } rest session
    | .ok true =>
      match renew decimals trunc world session lease.leaseId none with
      | (.ok _, session) =>
        renewLoop { report with renewed := report.renewed ++ [lease.leaseId] } rest session
      | (.error raised, session) =>
        if raised.isVaultLease then
          renewLoop { report with failed := report.failed ++ [lease.leaseId] } rest session
        else (.error raised, session)

def renewExpiring (session : Session T) : Except Raised VaultLeaseReport × Session T :=
  match renewLoop seconds decimals trunc world {} session.registry.leases.rows session with
  | (.ok report, session) =>
    (.ok { report with trackedCount := session.registry.leases.rows.length }, session)
  | (.error raised, session) => (.error raised, session)

end Lifecycle
end DevopsCli.Vault
