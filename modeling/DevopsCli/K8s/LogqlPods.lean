import DevopsCli.K8s.LogqlFallback

/- Which pods a query is satisfied by, and which ones kubectl logs is asked for. -/
namespace DevopsCli.K8s.Logql
open PyStr Matches

section Labels
variable {ms : List LabelMatcher} {label value : Str}

theorem labelsOf_get (ms : List LabelMatcher) (label : Str) :
    (labelsOf ms).get label = ((ms.filter fun m => m.name = label).getLast?.map (·.value)) := by
  have rows : labelsOf ms = (ms.map fun m => (m.name, m.value)).foldl
      (fun t row => t.set (id row.1) row.2) .empty := by
    rw [labelsOf, List.foldl_map]
    rfl
  rw [rows, Dict.get_foldl_set, List.filter_map, List.getLast?_map, Option.map_map]
  have none_ : Dict.get (.empty : Dict Str Str) label = none := rfl
  rw [none_, Option.or_none]
  rfl

theorem exists_matcher (found : (labelsOf ms).get label = some value) :
    ∃ m ∈ ms, m.name = label ∧ m.value = value := by
  rw [labelsOf_get, Option.map_eq_some_iff] at found
  obtain ⟨m, last, same⟩ := found
  have kept := List.mem_filter.mp (List.mem_of_getLast? last)
  exact ⟨m, kept.1, of_decide_eq_true kept.2, same⟩

theorem exists_label {m : LabelMatcher} (member : m ∈ ms) :
    ∃ value, (labelsOf ms).get m.name = some value := by
  rw [labelsOf_get]
  have some_ : (ms.filter fun other => other.name = m.name) ≠ [] :=
    List.ne_nil_of_mem (List.mem_filter.mpr ⟨member, decide_eq_true rfl⟩)
  rw [List.getLast?_eq_some_getLast some_]
  exact ⟨_, rfl⟩

theorem labelsOf_same (there : ∃ m ∈ ms, m.name = label)
    (same : ∀ m ∈ ms, m.name = label → m.value = value) :
    (labelsOf ms).get label = some value := by
  obtain ⟨m, member, rfl⟩ := there
  obtain ⟨other, found⟩ := exists_label member
  obtain ⟨last, inside, name, rfl⟩ := exists_matcher found
  rw [found, same last inside name]

theorem matcher_name {rawQuery : Str} :
    ∀ m ∈ matchers rawQuery, m.name ≠ [] ∧ ∀ c ∈ m.name, isNameChar c = true :=
  finditer_forall matcherToken_consumes (fun _ _ _ read => by
    obtain ⟨name, some_, _⟩ := matcherToken_eq read
    refine ⟨some_, ?_⟩
    rw [name]
    exact fun c member => List.mem_takeWhile_imp member) _

end Labels

section Values
variable {r : Reader} {rawQuery «namespace» : Str} {p : Pod}

theorem name_plain {text : Str} (names : ∀ c ∈ text, isNameChar c = true) : r.read text = text := by
  apply r.plain
  intro member
  exact absurd (names _ member) (by decide)

theorem valid_plain {text : Str} {«namespace» : Bool} (valid : isValidK8sName text «namespace» = true) :
    '\\' ∉ text := by
  intro member
  simp only [isValidK8sName, Bool.and_eq_true, List.all_eq_true] at valid
  have bad := valid.1.2 _ member
  revert bad
  cases «namespace» <;> decide

theorem consistent_of_satisfies (satisfies : Satisfies r rawQuery «namespace» p) :
    Consistent r rawQuery := by
  intro a mem_a b mem_b same
  have value_a := satisfies.1 a mem_a
  have value_b := satisfies.1 b mem_b
  rw [same, value_b] at value_a
  exact (Option.some.inj value_a).symm

theorem Consistent.value (consistent : Consistent r rawQuery) {m : LabelMatcher}
    (member : m ∈ matchers rawQuery) : ∃ value,
      (labelsOf (matchers rawQuery)).get m.name = some value ∧ r.read m.value = r.read value := by
  obtain ⟨value, found⟩ := exists_label member
  obtain ⟨other, inside, name, rfl⟩ := exists_matcher found
  exact ⟨other.value, found, consistent m member other inside name.symm⟩

theorem asked_read (named : Named rawQuery «namespace») {value : Str}
    (found : (labelsOf (matchers rawQuery)).get namespaceLabel = some value) :
    r.read value = value ∧ askedNamespace rawQuery «namespace» = value := by
  have valid := named.namespace
  rw [found, Option.getD_some] at valid
  refine ⟨r.plain _ (valid_plain valid), ?_⟩
  rw [askedNamespace, found, Option.getD_some]

/-- A pod satisfies a consistent query when it stands in the namespace that is asked and has the
    value of each label. -/
theorem satisfies_iff (named : Named rawQuery «namespace») (consistent : Consistent r rawQuery) :
    Satisfies r rawQuery «namespace» p ↔ p.namespace = askedNamespace rawQuery «namespace» ∧
      ∀ label value, (labelsOf (matchers rawQuery)).get label = some value →
        label ≠ namespaceLabel → p.value label = some (r.read value) := by
  constructor
  · intro satisfies
    constructor
    · cases found : (labelsOf (matchers rawQuery)).get namespaceLabel with
      | some value =>
        obtain ⟨read, same⟩ := asked_read (r := r) named found
        obtain ⟨m, member, name, rfl⟩ := exists_matcher found
        have here := satisfies.1 m member
        rw [name, Pod.value, if_pos rfl, read] at here
        rw [same, Option.some.inj here]
      | none =>
        rw [askedNamespace, found, Option.getD_none]
        apply satisfies.2
        intro m member name
        obtain ⟨value, there⟩ := exists_label member
        rw [name, found] at there
        exact nomatch there
    · intro label value found _
      obtain ⟨m, member, rfl, rfl⟩ := exists_matcher found
      exact satisfies.1 m member
  · rintro ⟨place, values⟩
    constructor
    · intro m member
      obtain ⟨value, found, read⟩ := consistent.value member
      rw [read]
      by_cases name : m.name = namespaceLabel
      · rw [name] at found ⊢
        obtain ⟨same, asked⟩ := asked_read (r := r) named found
        rw [same, Pod.value, if_pos rfl, place, asked]
      · exact values m.name value found name
    · intro none_
      rw [place, askedNamespace]
      cases found : (labelsOf (matchers rawQuery)).get namespaceLabel with
      | none => rfl
      | some value =>
        obtain ⟨m, member, name, _⟩ := exists_matcher found
        exact absurd name (none_ m member)

def fitting (r : Reader) (rawQuery «namespace» : Str) (log : List Str) : Pod where
  name := r.read (((labelsOf (matchers rawQuery)).get podLabel).getD [])
  «namespace» := askedNamespace rawQuery «namespace»
  labels := labelsOf ((matchers rawQuery).map fun m => { m with value := r.read m.value })
  log := log

theorem fitting_satisfies (named : Named rawQuery «namespace») (consistent : Consistent r rawQuery)
    (log : List Str) : Satisfies r rawQuery «namespace» (fitting r rawQuery «namespace» log) := by
  rw [satisfies_iff named consistent]
  unfold fitting Pod.value
  refine ⟨by rfl, fun label value found place => ?_⟩
  rw [if_neg place]
  split
  · next pod =>
    rw [pod] at found
    rw [found, Option.getD_some]
  · obtain ⟨m, member, rfl, rfl⟩ := exists_matcher found
    apply labelsOf_same
    · exact ⟨_, List.mem_map_of_mem member, rfl⟩
    · intro other moved same
      obtain ⟨source, inside, rfl⟩ := List.mem_map.mp moved
      exact consistent source inside m member same

end Values

section Chosen
variable {r : Reader} {rawQuery «namespace» : Str} {p : Pod} {cluster : Cluster} {limit : Nat}
  {since : Option Str} {reply : Reply}

theorem filter_key {α κ : Type} [DecidableEq κ] {key : α → κ} {rows : List α}
    (distinct : (rows.map key).Nodup) (k : κ) :
    rows.filter (fun row => key row = k) = (rows.find? fun row => key row = k).toList := by
  induction rows with
  | nil => rfl
  | cons row rest ih =>
    rw [List.map_cons, List.nodup_cons] at distinct
    by_cases here : key row = k
    · rw [List.filter_cons_of_pos (by simpa using here), List.find?_cons_of_pos (by simpa using here),
        Option.toList_some, List.cons.injEq, List.filter_eq_nil_iff]
      refine ⟨rfl, fun other member same => ?_⟩
      apply distinct.1
      rw [here, ← of_decide_eq_true same]
      exact List.mem_map_of_mem member
    · rw [List.filter_cons_of_neg (by simpa using here), List.find?_cons_of_neg (by simpa using here),
        ih distinct.2]

theorem Cluster.only (cluster : Cluster) (ns name : Str) :
    cluster.pods.filter (fun p => p.namespace = ns ∧ p.name = name) =
      (cluster.pods.find? fun p => p.namespace = ns ∧ p.name = name).toList := by
  have pair := filter_key cluster.distinct (ns, name)
  simp only [Prod.mk.injEq] at pair
  exact pair

theorem podName_bare {value : Str} (bare : ¬podStart <+: value) : podName value = value := by
  rw [podName, if_neg bare]

theorem satisfies_pod (named : Named rawQuery «namespace») (consistent : Consistent r rawQuery)
    {value : Str} (found : (labelsOf (matchers rawQuery)).get podLabel = some value)
    (bare : ¬podStart <+: value)
    (only : ∀ row ∈ labelsOf (matchers rawQuery), row.1 = podLabel ∨ row.1 = namespaceLabel) :
    Satisfies r rawQuery «namespace» p ↔
      p.namespace = askedNamespace rawQuery «namespace» ∧ p.name = value := by
  have valid := named.pod value found
  rw [podName_bare bare] at valid
  have read : r.read value = value := r.plain _ (valid_plain valid)
  have other : podLabel ≠ namespaceLabel := by decide
  have name : p.value podLabel = some p.name := by rw [Pod.value, if_neg other, if_pos rfl]
  rw [satisfies_iff named consistent]
  apply and_congr_right
  intro _
  constructor
  · intro values
    have here := values podLabel value found other
    rw [name, read] at here
    exact Option.some.inj here
  · intro same label value' found' place
    obtain rfl := (only _ (Dict.get_eq_some.mp found')).resolve_right place
    rw [found] at found'
    obtain rfl := Option.some.inj found'
    rw [name, read, same]

variable {selectors : Dict Str Str}

theorem listed_part {label value : Str} (plain : ∀ c ∈ label, isNameChar c = true) :
    ((label ++ '=' :: value).takeWhile (· ≠ '='),
      ((label ++ '=' :: value).dropWhile (· ≠ '=')).drop 1) = (label, value) := by
  have before : ∀ c ∈ label, decide (c ≠ '=') = true := by
    intro c member
    apply decide_eq_true
    rintro rfl
    exact absurd (plain _ member) (by decide)
  rw [List.takeWhile_append_of_pos before, List.dropWhile_append_of_pos before]
  simp

theorem listing_selector (some_ : labelSelector selectors ≠ [])
    (plain : ∀ row ∈ selectors, row.1 ≠ namespaceLabel →
      (∀ c ∈ row.1, isNameChar c) ∧ ∀ c ∈ row.2, isNameChar c) :
    Listing (join [','] (labelSelector selectors)) ∧
      listed (join [','] (labelSelector selectors)) =
        selectors.rows.filter fun row => row.1 ≠ namespaceLabel := by
  have each : ∀ row ∈ selectors.rows.filter fun row => row.1 ≠ namespaceLabel,
      (∀ c ∈ row.1, isNameChar c) ∧ ∀ c ∈ row.2, isNameChar c := by
    intro row member
    obtain ⟨inside, place⟩ := List.mem_filter.mp member
    exact plain row inside (of_decide_eq_true place)
  have parts : (join [','] (labelSelector selectors)).splitOn ',' = labelSelector selectors := by
    refine List.splitOn_intercalate ',' ?_ some_
    intro part member comma
    obtain ⟨row, inside, rfl⟩ := List.mem_map.mp member
    have names := each row inside
    rcases List.mem_append.mp comma with left | right
    · exact absurd (names.1 _ left) (by decide)
    · have right := (List.mem_cons.mp right).resolve_left (by decide)
      exact absurd (names.2 _ right) (by decide)
  have rows : listed (join [','] (labelSelector selectors)) =
      selectors.rows.filter fun row => row.1 ≠ namespaceLabel := by
    rw [listed, parts, labelSelector, List.map_map]
    conv_rhs => rw [← List.map_id (selectors.rows.filter _)]
    apply List.map_congr_left
    intro row member
    exact listed_part (each row member).1
  refine ⟨⟨?_, ?_, ?_⟩, rows⟩
  · rw [parts]
    intro part member
    obtain ⟨row, _, rfl⟩ := List.mem_map.mp member
    exact List.mem_append_right _ List.mem_cons_self
  · rw [rows]
    exact each
  · rw [rows]
    exact (List.filter_sublist.map _).nodup selectors.distinct

theorem satisfies_labels (named : Named rawQuery «namespace») (consistent : Consistent r rawQuery)
    (found : (labelsOf (matchers rawQuery)).get podLabel = none)
    (plain : ∀ row ∈ labelsOf (matchers rawQuery), row.1 ≠ namespaceLabel →
      ∀ c ∈ row.2, isNameChar c) :
    Satisfies r rawQuery «namespace» p ↔ p.namespace = askedNamespace rawQuery «namespace» ∧
      p.holds ((labelsOf (matchers rawQuery)).rows.filter fun row => row.1 ≠ namespaceLabel) := by
  rw [satisfies_iff named consistent]
  apply and_congr_right
  intro _
  have value {label value : Str} (here : (labelsOf (matchers rawQuery)).get label = some value)
      (place : label ≠ namespaceLabel) :
      p.value label = some (r.read value) ↔ p.labels.get label = some value := by
    have other := Dict.ne_of_get_eq_none found (Dict.get_eq_some.mp here)
    rw [Pod.value, if_neg place, if_neg other,
      name_plain (plain _ (Dict.get_eq_some.mp here) place)]
  rw [Pod.holds, List.all_eq_true]
  constructor
  · intro values row member
    obtain ⟨inside, place⟩ := List.mem_filter.mp member
    have place := of_decide_eq_true place
    have here := Dict.get_eq_some.mpr inside
    exact decide_eq_true ((value here place).mp (values row.1 row.2 here place))
  · intro holds label found_ here place
    have member : (label, found_) ∈
        (labelsOf (matchers rawQuery)).rows.filter fun row => row.1 ≠ namespaceLabel :=
      List.mem_filter.mpr ⟨Dict.get_eq_some.mp here, decide_eq_true place⟩
    exact (value here place).mpr (of_decide_eq_true (holds _ member))

theorem labels_plain : ∀ row ∈ labelsOf (matchers rawQuery), ∀ c ∈ row.1, isNameChar c = true := by
  intro row member
  obtain ⟨m, inside, name, _⟩ := exists_matcher (Dict.get_eq_some.mpr member)
  rw [← name]
  exact (matcher_name m inside).2

theorem labelSelector_ne_nil : labelSelector selectors ≠ [] ↔
    ∃ row ∈ selectors, row.1 ≠ namespaceLabel := by
  rw [labelSelector, Ne, List.map_eq_nil_iff, List.filter_eq_nil_iff]
  push Not
  constructor
  · rintro ⟨row, member, place⟩
    exact ⟨row, member, of_decide_eq_true place⟩
  · rintro ⟨row, member, place⟩
    exact ⟨row, member, decide_eq_true place⟩

/-- Where kubectl logs can select the pods, its reply has the lines of the pods that satisfy the
    query. -/
theorem reply_selected (named : Named rawQuery «namespace») (consistent : Consistent r rawQuery)
    (selects : Selects rawQuery) (texts : List Str)
    (answers : Answers cluster limit since (command rawQuery «namespace» limit since) reply) :
    answered texts limit reply =
      ((tails limit (cluster.pods.filter fun p => Satisfies r rawQuery «namespace» p)).flatMap
        (shown texts)).take limit := by
  unfold Selects at selects
  split at selects
  · next value found =>
    have chosen : cluster.pods.filter (fun p => Satisfies r rawQuery «namespace» p) =
        (cluster.pods.find? fun p =>
          p.namespace = askedNamespace rawQuery «namespace» ∧ p.name = value).toList := by
      rw [← cluster.only]
      apply List.filter_congr
      intro p _
      exact decide_eq_decide.mpr (satisfies_pod named consistent found selects.1 selects.2)
    have here := answers.pod (askedNamespace rawQuery «namespace») value (by
      rw [command, target, found]
      simp only [podName_bare selects.1])
    rw [chosen]
    split at here
    · next p there =>
      rw [here, there, answered_printed]
      rfl
    · next there =>
      rw [there, answered, if_pos here, Option.toList_none, tails, List.flatMap_nil,
        List.flatMap_nil, List.take_nil]
  · next found =>
    obtain ⟨some_, plain⟩ := selects
    obtain ⟨listing, rows⟩ := listing_selector (labelSelector_ne_nil.mpr some_)
      (fun row member place => ⟨labels_plain row member, plain row member place⟩)
    have here := answers.labels (askedNamespace rawQuery «namespace») _ (by
      rw [command, target, found]
      simp only [if_neg (labelSelector_ne_nil.mpr some_)]) listing
    rw [here, answered_printed, rows]
    have chosen : cluster.pods.filter (fun p => Satisfies r rawQuery «namespace» p) =
        cluster.pods.filter fun p => p.namespace = askedNamespace rawQuery «namespace» ∧
          p.holds ((labelsOf (matchers rawQuery)).rows.filter fun row => row.1 ≠ namespaceLabel) := by
      apply List.filter_congr
      intro p _
      exact decide_eq_decide.mpr (satisfies_labels named consistent found plain)
    rw [chosen]

end Chosen
end DevopsCli.K8s.Logql
