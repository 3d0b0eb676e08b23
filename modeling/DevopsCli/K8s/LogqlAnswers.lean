import DevopsCli.K8s.LogqlFilters

/- What the kubectl fallback answers a query, and what the query asks of the pods of a cluster. -/
namespace DevopsCli.K8s.Logql
open PyStr Matches

section Cluster

/-- A pod, and the lines that kubectl logs gives of it. -/
structure Pod where
  name : Str
  «namespace» : Str
  labels : Dict Str Str
  log : List Str

structure Cluster where
  pods : List Pod
  distinct : (pods.map fun p => (p.namespace, p.name)).Nodup

def printed (lines : List Str) : Str := lines.flatMap fun line => line ++ ['\n']

def tails (limit : Nat) (pods : List Pod) : List Str := pods.flatMap fun p => p.log.rtake limit

def listed (selector : Str) : List (Str × Str) :=
  (selector.splitOn ',').map fun part =>
    (part.takeWhile (· ≠ '='), (part.dropWhile (· ≠ '=')).drop 1)

structure Listing (selector : Str) : Prop where
  pairs : ∀ part ∈ selector.splitOn ',', '=' ∈ part
  plain : ∀ row ∈ listed selector, (∀ c ∈ row.1, isNameChar c) ∧ ∀ c ∈ row.2, isNameChar c
  distinct : ((listed selector).map Prod.fst).Nodup

def Pod.holds (p : Pod) (labels : List (Str × Str)) : Bool :=
  labels.all fun row => p.labels.get row.1 = some row.2

/-- What kubectl answers: the lines of the pod that is named, or of the pods that hold every listed
    label. A selector that is no list of labels is refused, or taken for some of the pods; without
    a pod and a selector kubectl logs is refused. -/
structure Answers (cluster : Cluster) (limit : Nat) (since : Option Str) (argv : List Str)
    (reply : Reply) : Prop where
  pod : ∀ ns name, argv = kubectlLogs ns [name] limit since →
    match cluster.pods.find? fun p => p.namespace = ns ∧ p.name = name with
    | some p => reply = ⟨0, printed (tails limit [p])⟩
    | none => reply.returncode ≠ 0
  labels : ∀ ns selector, argv = kubectlLogs ns ["-l".toList, selector] limit since →
    Listing selector → reply = ⟨0, printed (tails limit
      (cluster.pods.filter fun p => p.namespace = ns ∧ p.holds (listed selector)))⟩
  selector : ∀ ns selector, argv = kubectlLogs ns ["-l".toList, selector] limit since →
    reply.returncode ≠ 0 ∨ ∃ chosen, chosen.Sublist cluster.pods ∧
      reply = ⟨0, printed (tails limit chosen)⟩
  refused : ∀ ns, argv = kubectlLogs ns [] limit since → reply.returncode ≠ 0

end Cluster

section Query

structure Reader where
  read : Str → Str
  plain : ∀ text, '\\' ∉ text → read text = text

def Pod.value (p : Pod) (label : Str) : Option Str :=
  if label = namespaceLabel then some p.namespace
  else if label = podLabel then some p.name
  else p.labels.get label

variable (r : Reader) (rawQuery «namespace» : Str)

/-- The pod satisfies every matcher of the query, in the namespace that is asked when the query
    names none. -/
def Satisfies (p : Pod) : Prop :=
  (∀ m ∈ matchers rawQuery, p.value m.name = some (r.read m.value)) ∧
    ((∀ m ∈ matchers rawQuery, m.name ≠ namespaceLabel) → p.namespace = «namespace»)

instance (p : Pod) : Decidable (Satisfies r rawQuery «namespace» p) :=
  inferInstanceAs (Decidable (_ ∧ _))

def wanted (line : Str) : Bool := (filterTexts rawQuery).all fun f => r.read f.text <:+: line

def asked (limit : Nat) (cluster : Cluster) : List Str :=
  ((tails limit (cluster.pods.filter fun p => Satisfies r rawQuery «namespace» p)).filter
    (wanted r rawQuery)).take limit

/-- Both parsers read the query alike, and for every cluster whose pods write lines of the given
    kind the entries are the lines that the query asks for. -/
structure Answered (compiles : Str → Bool) (extractTraceId : Str → Option Str) (limit : Nat)
    (since : Option Str) (Line : Str → Prop) : Prop where
  parsed : ∃ query, parseLogqlQuery compiles rawQuery = .ok query ∧
    validateFallbackQuery rawQuery = .ok (query.selectors, query.contained)
  entries : ∀ cluster : Cluster, (∀ p ∈ cluster.pods, ∀ line ∈ p.log, Line line) →
    ∀ kubectl, (∀ argv, Answers cluster limit since argv (kubectl argv)) →
    ∃ entries, executeKubectlLogql extractTraceId kubectl rawQuery «namespace» limit since =
        .ok entries ∧
      entries.map (·.line) = asked r rawQuery «namespace» limit cluster

end Query

section Conditions
variable (r : Reader) (rawQuery «namespace» : Str)

structure Named : Prop where
  «namespace» : isValidK8sName
    (((labelsOf (matchers rawQuery)).get namespaceLabel).getD «namespace») true = true
  pod : ∀ value, (labelsOf (matchers rawQuery)).get podLabel = some value →
    isValidK8sName (podName value) false = true

/-- No label is given two values. -/
def Consistent : Prop :=
  ∀ a ∈ matchers rawQuery, ∀ b ∈ matchers rawQuery, a.name = b.name → r.read a.value = r.read b.value

def Asks : Prop := ∃ row ∈ labelsOf (matchers rawQuery), row.1 ≠ namespaceLabel

/-- kubectl logs can select the pods: by the name of one pod and nothing else, or by labels whose
    values have the characters of a label. -/
def Selects : Prop :=
  match (labelsOf (matchers rawQuery)).get podLabel with
  | some value => ¬podStart <+: value ∧
    ∀ row ∈ labelsOf (matchers rawQuery), row.1 = podLabel ∨ row.1 = namespaceLabel
  | none => Asks rawQuery ∧ ∀ row ∈ labelsOf (matchers rawQuery), row.1 ≠ namespaceLabel →
    ∀ c ∈ row.2, isNameChar c

structure Clean (line : Str) : Prop where
  some_ : line ≠ []
  unbroken : Unbroken line
  stripped : strip line = line

/-- No part of the line that the fallback takes for a line contains every filter text, its escapes
    not read. -/
def Silent (line : Str) : Prop :=
  ∀ piece ∈ splitlines (line ++ ['\n']),
    passes ((filterTexts rawQuery).map (·.text)) (strip piece) = false

/-- A wanted line is clean and contains the texts also with their escapes not read; another line is
    silent. -/
def Faithful (line : Str) : Prop :=
  if wanted r rawQuery line then Clean line ∧ passes ((filterTexts rawQuery).map (·.text)) line = true
  else Silent rawQuery line

structure Unasked (Line : Str → Prop) : Prop where
  silent : Asks rawQuery → ∀ line, Line line → Silent rawQuery line
  unwanted : Consistent r rawQuery → ∀ line, Line line → wanted r rawQuery line = false

/-- The queries that the fallback answers, for lines of the given kind: a query that kubectl logs can
    select the pods of, where each line is faithful, and another query where no line is an answer.
    With a limit of zero no line is asked for. -/
structure Answerable (limit : Nat) (Line : Str → Prop) : Prop where
  plain : PlainFilters rawQuery
  named : Named rawQuery «namespace»
  lines : 0 < limit →
    (Consistent r rawQuery ∧ Selects rawQuery ∧ ∀ line, Line line → Faithful r rawQuery line) ∨
    ¬(Consistent r rawQuery ∧ Selects rawQuery) ∧ Unasked r rawQuery Line

end Conditions
end DevopsCli.K8s.Logql
