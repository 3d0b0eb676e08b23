import DevopsCli.Lib.Matches
import DevopsCli.Lib.PyDict
import DevopsCli.Lib.PyWords

/- LogQL queries, k8s/logql.py: how a query is parsed, which queries the kubectl fallback takes, and
   how it answers them from what kubectl logs prints. -/
namespace DevopsCli.K8s.Logql
open PyStr Matches

section Tokens

/-- The text up to a quote that no backslash escapes, and what follows the quote. -/
def quoted (quote : Char) : Str → Option (Str × Str)
  | [] => none
  | '\\' :: c :: rest =>
    if c = '\n' then none
    else (quoted quote rest).map fun (text, rest) => ('\\' :: c :: text, rest)
  | c :: rest =>
    if c = quote then some ([], rest)
    else if c = '\\' then none
    else (quoted quote rest).map fun (text, rest) => (c :: text, rest)

structure QuotedText where
  quote : Char
  text : Str
  deriving DecidableEq, Repr

def quotedText (text : Str) : Option (QuotedText × Str) :=
  match text.dropWhile isSpace with
  | '"' :: rest => (quoted '"' rest).map fun (text, rest) => (⟨'"', text⟩, rest)
  | '\'' :: rest => (quoted '\'' rest).map fun (text, rest) => (⟨'\'', text⟩, rest)
  | _ => none

inductive MatchOp where
  | regexMatch
  | notRegexMatch
  | notEqual
  | equal
  deriving DecidableEq, Repr

def matchOp : Str → Option (MatchOp × Str)
  | '=' :: '~' :: rest => some (.regexMatch, rest)
  | '!' :: '~' :: rest => some (.notRegexMatch, rest)
  | '!' :: '=' :: rest => some (.notEqual, rest)
  | '=' :: rest => some (.equal, rest)
  | _ => none

structure LabelMatcher where
  name : Str
  op : MatchOp
  value : Str
  deriving DecidableEq, Repr

def isNameChar (c : Char) : Bool := c.isAlphanum || c == '_' || c == '-' || c == '.'

def matcherToken : Pattern Char LabelMatcher := fun text =>
  if text.takeWhile isNameChar = [] then none
  else do
    let (op, rest) ← matchOp ((text.dropWhile isNameChar).dropWhile isSpace)
    let (value, rest) ← quotedText rest
    return (⟨text.takeWhile isNameChar, op, value.text⟩, rest)

def containsFilter : Pattern Char QuotedText
  | '|' :: '=' :: rest => quotedText rest
  | _ => none

inductive FilterOp where
  | contains
  | notContains
  | regexMatch
  | notRegexMatch
  deriving DecidableEq, Repr

def filterOp : Str → Option (FilterOp × Str)
  | '|' :: '=' :: rest => some (.contains, rest)
  | '!' :: '=' :: rest => some (.notContains, rest)
  | '|' :: '~' :: rest => some (.regexMatch, rest)
  | '!' :: '~' :: rest => some (.notRegexMatch, rest)
  | _ => none

structure LogQLFilter where
  op : FilterOp
  pattern : Str
  deriving DecidableEq, Repr

def doubleQuoted (text : Str) : Option (Str × Str) :=
  match text.dropWhile isSpace with
  | '"' :: rest =>
    match rest.dropWhile (· ≠ '"') with
    | '"' :: after => some (rest.takeWhile (· ≠ '"'), after)
    | _ => none
  | _ => none

def filterToken : Pattern Char LogQLFilter := fun text => do
  let (op, rest) ← filterOp text
  let (pattern, rest) ← doubleQuoted rest
  return (⟨op, pattern⟩, rest)

def literal (old : Str) : Pattern Char Unit := fun text =>
  if old ≠ [] ∧ old <+: text then some ((), text.drop old.length) else none

end Tokens

inductive LogqlError where
  /-- The kubectl fallback does not support the query. -/
  | unsupported (query : Str)
  | invalidRegex (pattern : Str)
  | invalidNamespace (value : Str)
  | invalidPod (value : Str)
  deriving DecidableEq, Repr

inductive Pipeline where
  | json
  | logfmt
  deriving DecidableEq, Repr

structure LogQLQuery where
  rawQuery : Str
  selectors : Dict Str Str := .empty
  filters : List LogQLFilter := []
  formatPipeline : Option Pipeline := none

def namespaceLabel : Str := "namespace".toList
def podLabel : Str := "pod".toList
def jsonStage : Str := "| json".toList
def logfmtStage : Str := "| logfmt".toList

section Parse

/-- The labels of matchers: a later value of a label replaces an earlier one. -/
def labelsOf (matchers : List LabelMatcher) : Dict Str Str :=
  matchers.foldl (fun labels m => labels.set m.name m.value) .empty

def parseStreamSelectors (selectorPart : Str) : Dict Str Str :=
  let content := strip (((strip selectorPart).dropWhile (· = '{')).rdropWhile (· = '}'))
  if content = [] then .empty
  else labelsOf ((finditer matcherToken content).filter fun m => m.op = .equal)

def takeStage (text : Str) : Option Pipeline × Str :=
  if jsonStage <:+: text then (some .json, cut (literal jsonStage) text)
  else if logfmtStage <:+: text then (some .logfmt, cut (literal logfmtStage) text)
  else (none, text)

variable (compiles : Str → Bool)

def checkFilters : List LogQLFilter → Except LogqlError (List LogQLFilter)
  | [] => .ok []
  | filter :: rest =>
    if (filter.op = .regexMatch ∨ filter.op = .notRegexMatch) ∧ compiles filter.pattern = false then
      .error (.invalidRegex filter.pattern)
    else (checkFilters rest).map (filter :: ·)

def parseFiltersAndPipeline (remaining : Str) :
    Except LogqlError (List LogQLFilter × Option Pipeline) :=
  let (pipeline, text) := takeStage remaining
  (checkFilters compiles (finditer filterToken text)).map fun filters => (filters, pipeline)

def parseLogqlQuery (queryStr : Str) : Except LogqlError LogQLQuery := do
  let cleaned := strip queryStr
  if cleaned = [] then return { rawQuery := queryStr }
  if cleaned.head? = some '{' ∧ '}' ∈ cleaned then
    let braceEnd := cleaned.idxOf '}'
    let (filters, pipeline) ← parseFiltersAndPipeline compiles (strip (cleaned.drop (braceEnd + 1)))
    return {
      rawQuery := queryStr
      selectors := parseStreamSelectors (cleaned.take (braceEnd + 1))
      filters
      formatPipeline := pipeline }
  let (filters, pipeline) ← parseFiltersAndPipeline compiles cleaned
  return {
    rawQuery := queryStr
    filters := if filters = [] then [⟨.contains, cleaned⟩] else filters
    formatPipeline := pipeline }

def LogQLQuery.contained (query : LogQLQuery) : List Str :=
  (query.filters.filter fun f => f.op = .contains).map (·.pattern)

end Parse

section Fallback

def selectorContent (raw : Str) : Str := strip ((raw.take (raw.idxOf '}')).drop 1)
def remainingText (raw : Str) : Str := strip (raw.drop (raw.idxOf '}' + 1))

def matchers (rawQuery : Str) : List LabelMatcher :=
  finditer matcherToken (selectorContent (strip rawQuery))

def filterTexts (rawQuery : Str) : List QuotedText :=
  finditer containsFilter (remainingText (strip rawQuery))

def validateFallbackQuery (rawQuery : Str) : Except LogqlError (Dict Str Str × List Str) :=
  let raw := strip rawQuery
  if ¬(raw.head? = some '{' ∧ '}' ∈ raw) then .error (.unsupported rawQuery)
  else if selectorContent raw = [] then .error (.unsupported rawQuery)
  else if (matchers rawQuery).any fun m => m.op ≠ .equal then .error (.unsupported rawQuery)
  else if matchers rawQuery = [] then .error (.unsupported rawQuery)
  else if strip ((cut matcherToken (selectorContent raw)).filter (· ≠ ',')) ≠ [] then
    .error (.unsupported rawQuery)
  else if remainingText raw ≠ [] ∧ strip (cut containsFilter (remainingText raw)) ≠ [] then
    .error (.unsupported rawQuery)
  else .ok (labelsOf (matchers rawQuery), (filterTexts rawQuery).map (·.text))

/-- is_valid_k8s_name: a label of RFC 1123 for a namespace, a subdomain otherwise. -/
def isValidK8sName (value : Str) («namespace» : Bool) : Bool :=
  let alnum (c : Char) : Bool := c.isLower || c.isDigit
  value.head?.any alnum && value.getLast?.any alnum &&
    value.all (fun c => alnum c || c == '-' || (!«namespace» && c == '.')) &&
    value.length ≤ (if «namespace» then 63 else 253)

def kubectlLogs (ns : Str) (target : List Str) (limit : Nat) (since : Option Str) : List Str :=
  ["kubectl".toList, "logs".toList, "-n".toList, ns] ++ target ++
    ["--tail=".toList ++ digits limit] ++
    match since with
    | some time => if time = [] then [] else ["--since=".toList ++ time]
    | none => []

def podStart : Str := "pod/".toList

def podName (value : Str) : Str := if podStart <+: value then value.drop podStart.length else value

def labelSelector (selectors : Dict Str Str) : List Str :=
  (selectors.rows.filter fun row => row.1 ≠ namespaceLabel).map fun row => row.1 ++ '=' :: row.2

def buildKubectlLogsCmd (ns : Str) (selectors : Dict Str Str) (limit : Nat) (since : Option Str) :
    Except LogqlError (List Str) :=
  match selectors.get podLabel with
  | some value =>
    if isValidK8sName (podName value) false then
      .ok (kubectlLogs ns [podName value] limit since)
    else .error (.invalidPod (podName value))
  | none =>
    if labelSelector selectors = [] then .ok (kubectlLogs ns [] limit since)
    else .ok (kubectlLogs ns ["-l".toList, join [','] (labelSelector selectors)] limit since)

structure LogEntry where
  line : Str
  streamLabels : Dict Str Str
  traceId : Option Str

structure Reply where
  returncode : Int
  stdout : Str
  deriving DecidableEq, Repr

variable (extractTraceId : Str → Option Str)

def passes (filters : List Str) (line : Str) : Bool :=
  line ≠ [] && filters.all fun pattern => pattern <:+: line

def collect (labels : Dict Str Str) (filters : List Str) (limit : Nat) (entries : List LogEntry) :
    List Str → List LogEntry
  | [] => entries
  | line :: rest =>
    if passes filters (strip line) = false then collect labels filters limit entries rest
    else
      let more := entries ++ [⟨strip line, labels, extractTraceId (strip line)⟩]
      if limit ≤ more.length then more else collect labels filters limit more rest

def executeKubectlLogql (runSubprocess : List Str → Reply) (rawQuery «namespace» : Str)
    (limit : Nat) (since : Option Str) : Except LogqlError (List LogEntry) := do
  let (selectors, substringFilters) ← validateFallbackQuery rawQuery
  let ns := (selectors.get namespaceLabel).getD «namespace»
  if isValidK8sName ns true = false then throw (.invalidNamespace ns)
  let cmd ← buildKubectlLogsCmd ns selectors limit since
  let proc := runSubprocess cmd
  if proc.returncode ≠ 0 ∨ strip proc.stdout = [] then return []
  let labels := selectors.rows.foldl (fun labels row => labels.set row.1 row.2)
    (Dict.empty.set namespaceLabel ns)
  return collect extractTraceId labels substringFilters limit [] (splitlines proc.stdout)

end Fallback
end DevopsCli.K8s.Logql
