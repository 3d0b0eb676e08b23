import DevopsCli.K8s.LogqlPods

/- The kubectl fallback answers a query exactly when the query and the lines meet the conditions of
   Answerable. -/
namespace DevopsCli.K8s.Logql
open PyStr Matches

section Commas
variable {α : Type} {sep c : α} {parts : List (List α)} {part : List α}

theorem mem_intercalate (here : part ∈ parts) (member : c ∈ part) : c ∈ [sep].intercalate parts := by
  induction parts with
  | nil => exact absurd here List.not_mem_nil
  | cons first rest ih =>
    cases rest with
    | nil =>
      obtain rfl := List.mem_singleton.mp here
      rw [List.intercalate_singleton]
      exact member
    | cons second rest =>
      rw [List.intercalate_cons_cons, List.append_assoc, List.mem_append, List.mem_append]
      rcases List.mem_cons.mp here with rfl | later
      · exact .inl member
      · exact .inr (.inr (ih later))

theorem of_mem_intercalate (member : c ∈ [sep].intercalate parts) :
    c = sep ∨ ∃ part ∈ parts, c ∈ part := by
  induction parts with
  | nil => exact absurd member List.not_mem_nil
  | cons first rest ih =>
    cases rest with
    | nil =>
      rw [List.intercalate_singleton] at member
      exact .inr ⟨first, List.mem_singleton_self _, member⟩
    | cons second rest =>
      rw [List.intercalate_cons_cons, List.append_assoc, List.mem_append, List.mem_append] at member
      rcases member with left | between | right
      · exact .inr ⟨first, List.mem_cons_self, left⟩
      · exact .inl (List.mem_singleton.mp between)
      · rcases ih right with same | ⟨part, inside, here⟩
        · exact .inl same
        · exact .inr ⟨part, List.mem_cons_of_mem _ inside, here⟩

theorem Listing.chars {selector : Str} (listing : Listing selector) :
    ∀ c ∈ selector, c = ',' ∨ c = '=' ∨ isNameChar c = true := by
  intro c member
  have joined : [','].intercalate (selector.splitOn ',') = selector := List.intercalate_splitOn ','
  rw [← joined] at member
  rcases of_mem_intercalate member with same | ⟨part, inside, here⟩
  · exact .inl same
  apply Or.inr
  have row := listing.plain _ (List.mem_map_of_mem inside)
  rw [← List.takeWhile_append_dropWhile (p := (· ≠ '=')) (l := part), List.mem_append] at here
  rcases here with label | value
  · exact .inr (row.1 c label)
  · cases behind : part.dropWhile (· ≠ '=') with
    | nil =>
      rw [behind] at value
      exact absurd value List.not_mem_nil
    | cons d rest =>
      have first := List.head?_dropWhile_not (fun c : Char => decide (c ≠ '=')) part
      rw [behind] at value first row
      obtain rfl : d = '=' := by simpa using first
      rcases List.mem_cons.mp value with rfl | later
      · exact .inl rfl
      · exact .inr (row.2 c later)

end Commas

section Replies
variable {r : Reader} {raw ns : Str} {cluster : Cluster} {limit : Nat} {since : Option Str}
  {reply : Reply} {texts : List Str}

theorem command_pod {value : Str} (found : (labelsOf (matchers raw)).get podLabel = some value) :
    command raw ns limit since =
      kubectlLogs (askedNamespace raw ns) [podName value] limit since := by
  rw [command, target, found]

theorem command_labels (found : (labelsOf (matchers raw)).get podLabel = none)
    (some_ : labelSelector (labelsOf (matchers raw)) ≠ []) :
    command raw ns limit since = kubectlLogs (askedNamespace raw ns)
      ["-l".toList, join [','] (labelSelector (labelsOf (matchers raw)))] limit since := by
  rw [command, target, found]
  simp only [if_neg some_]

theorem silent_tails {pods : List Pod} (silent : ∀ p ∈ pods, ∀ line ∈ p.log, Silent raw line) :
    (tails limit pods).flatMap (shown ((filterTexts raw).map (·.text))) = [] := by
  rw [List.flatMap_eq_nil_iff]
  intro line member
  obtain ⟨p, inside, here⟩ := List.mem_flatMap.mp member
  exact silent_iff.mp (silent p inside line (List.mem_of_mem_drop here))

theorem answered_silent (answers : Answers cluster limit since (command raw ns limit since) reply)
    (silent : Asks raw → ∀ p ∈ cluster.pods, ∀ line ∈ p.log, Silent raw line) :
    answered ((filterTexts raw).map (·.text)) limit reply = [] := by
  have refused (failed : reply.returncode ≠ 0) :
      answered ((filterTexts raw).map (·.text)) limit reply = [] := by
    rw [answered, if_pos failed]
  cases found : (labelsOf (matchers raw)).get podLabel with
  | some value =>
    have other : podLabel ≠ namespaceLabel := by decide
    have asks : Asks raw := ⟨_, Dict.get_eq_some.mp found, other⟩
    have here := answers.pod _ _ (command_pod found)
    split at here
    · next p there =>
      have one : ∀ q ∈ [p], ∀ line ∈ q.log, Silent raw line := by
        intro q member
        obtain rfl := List.mem_singleton.mp member
        exact silent asks q (List.mem_of_find?_eq_some there)
      rw [here, answered_printed, silent_tails one, List.take_nil]
    · exact refused here
  | none =>
    by_cases some_ : labelSelector (labelsOf (matchers raw)) = []
    · exact refused (answers.refused (askedNamespace raw ns) (by
        rw [command, target, found]
        simp only [if_pos some_]))
    · rcases answers.selector _ _ (command_labels found some_) with failed | ⟨chosen, part, rfl⟩
      · exact refused failed
      · rw [answered_printed, silent_tails, List.take_nil]
        intro p member
        exact silent (labelSelector_ne_nil.mp some_) p (part.subset member)

def lone (p : Pod) : Cluster where
  pods := [p]
  distinct := List.nodup_singleton _

theorem tails_one {p : Pod} {line : Str} (log : p.log = [line]) (positive : 0 < limit) :
    tails limit [p] = [line] := by
  obtain ⟨n, rfl⟩ := Nat.exists_eq_succ_of_ne_zero positive.ne'
  simp [tails, log, List.rtake]

theorem asked_lone {p : Pod} {line : Str} (log : p.log = [line]) (positive : 0 < limit)
    (satisfies : Satisfies r raw ns p) :
    asked r raw ns limit (lone p) = if wanted r raw line then [line] else [] := by
  have chosen : (lone p).pods.filter (fun p => Satisfies r raw ns p) = [p] :=
    List.filter_cons_of_pos (decide_eq_true satisfies)
  rw [asked, chosen, tails_one log positive]
  by_cases want : wanted r raw line = true
  · rw [List.filter_cons_of_pos want, List.filter_nil, if_pos want,
      List.take_of_length_le (Nat.succ_le_of_lt positive)]
  · rw [List.filter_cons_of_neg want, List.filter_nil, if_neg want, List.take_nil]

theorem asked_none (none_ : ∀ p ∈ cluster.pods, ¬Satisfies r raw ns p) :
    asked r raw ns limit cluster = [] := by
  have empty : cluster.pods.filter (fun p => Satisfies r raw ns p) = [] := by
    rw [List.filter_eq_nil_iff]
    intro p member satisfies
    exact none_ p member (of_decide_eq_true satisfies)
  rw [asked, empty, tails, List.flatMap_nil, List.filter_nil, List.take_nil]

theorem asked_unwanted
    (unwanted : ∀ p ∈ cluster.pods, ∀ line ∈ p.log, wanted r raw line = false) :
    asked r raw ns limit cluster = [] := by
  rw [asked, List.filter_eq_nil_iff.mpr, List.take_nil]
  intro line member
  obtain ⟨p, inside, here⟩ := List.mem_flatMap.mp member
  rw [unwanted p (List.mem_filter.mp inside).1 line (List.mem_of_mem_drop here)]
  exact Bool.false_ne_true

theorem faithful_tails {pods : List Pod} (faithful : ∀ p ∈ pods, ∀ line ∈ p.log, Faithful r raw line) :
    (tails limit pods).flatMap (shown ((filterTexts raw).map (·.text))) =
      (tails limit pods).filter (wanted r raw) := by
  have each : ∀ line ∈ tails limit pods, Faithful r raw line := by
    intro line member
    obtain ⟨p, inside, here⟩ := List.mem_flatMap.mp member
    exact faithful p inside line (List.mem_of_mem_drop here)
  generalize tails limit pods = lines at each
  induction lines with
  | nil => rfl
  | cons line rest ih =>
    obtain ⟨first, later⟩ := List.forall_mem_cons.mp each
    rw [List.flatMap_cons, faithful_shown first, ih later, List.filter_cons]
    split <;> rfl

end Replies

section Missed
variable {r : Reader} {raw ns line : Str} {limit : Nat} {since : Option Str}

theorem bare_unsatisfied (named : Named raw ns) {p : Pod} (bare : p.labels = .empty)
    {row : Str × Str} (member : row ∈ labelsOf (matchers raw)) (place : row.1 ≠ namespaceLabel)
    (pod : row.1 ≠ podLabel) : ¬Satisfies r raw ns p := by
  intro satisfies
  have values := (satisfies_iff named (consistent_of_satisfies satisfies)).mp satisfies
  have here := values.2 row.1 row.2 (Dict.get_eq_some.mpr member) place
  rw [Pod.value, if_neg place, if_neg pod, bare] at here
  cases here

theorem missed_pod (named : Named raw ns) {value : Str}
    (found : (labelsOf (matchers raw)).get podLabel = some value)
    (cannot : ¬(Consistent r raw ∧ Selects raw)) {p : Pod} (name : p.name = podName value)
    (bare : p.labels = .empty) : ¬Satisfies r raw ns p := by
  intro satisfies
  have consistent := consistent_of_satisfies satisfies
  apply cannot
  refine ⟨consistent, ?_⟩
  rw [Selects, found]
  constructor
  · intro starts
    have valid := named.pod value found
    have values := (satisfies_iff named consistent).mp satisfies
    have here := values.2 podLabel value found (by decide)
    obtain ⟨rest, rfl⟩ := starts
    have cut : podName (podStart ++ rest) = rest := by
      rw [podName, if_pos (List.prefix_append _ _), List.drop_left]
    have read : r.read (podStart ++ rest) = podStart ++ rest := by
      apply r.plain
      rw [List.mem_append]
      rintro (start | behind)
      · exact absurd start (by decide)
      · rw [cut] at valid
        exact valid_plain valid behind
    rw [Pod.value, if_neg (by decide), if_pos rfl, name, cut, read] at here
    have lengths := congrArg List.length (Option.some.inj here)
    rw [List.length_append] at lengths
    have start : podStart.length = 4 := rfl
    omega
  · intro row member
    by_contra other
    rw [not_or] at other
    exact bare_unsatisfied named bare member other.2 other.1 satisfies

def Listing.labels {selector : Str} (listing : Listing selector) : Dict Str Str where
  rows := listed selector
  distinct := listing.distinct

theorem Listing.mem_labels {selector : Str} {listing : Listing selector} {row : Str × Str} :
    row ∈ listing.labels ↔ row ∈ listed selector := Iff.rfl

theorem missed_labels (named : Named raw ns)
    (found : (labelsOf (matchers raw)).get podLabel = none) (asks : Asks raw)
    (cannot : ¬(Consistent r raw ∧ Selects raw))
    (listing : Listing (join [','] (labelSelector (labelsOf (matchers raw))))) {p : Pod}
    (labels : p.labels = listing.labels) : ¬Satisfies r raw ns p := by
  intro satisfies
  have consistent := consistent_of_satisfies satisfies
  apply cannot
  refine ⟨consistent, ?_⟩
  rw [Selects, found]
  refine ⟨asks, ?_⟩
  intro row member place
  have pod := Dict.ne_of_get_eq_none found member
  have values := (satisfies_iff named consistent).mp satisfies
  have here := values.2 row.1 row.2 (Dict.get_eq_some.mpr member) place
  have read : r.read row.2 = row.2 := by
    apply r.plain
    intro slash
    have inside : row.1 ++ '=' :: row.2 ∈ labelSelector (labelsOf (matchers raw)) :=
      List.mem_map.mpr ⟨row, List.mem_filter.mpr ⟨member, decide_eq_true place⟩, rfl⟩
    have char := listing.chars '\\' (mem_intercalate inside
      (List.mem_append_right _ (List.mem_cons_of_mem _ slash)))
    exact absurd char (by decide)
  rw [Pod.value, if_neg place, if_neg pod, read, labels, Dict.get_eq_some,
    Listing.mem_labels] at here
  exact (listing.plain _ here).2

theorem lone_pod (ns name : Str) (log : List Str) (limit : Nat) (since : Option Str) :
    Answers (lone ⟨name, ns, .empty, log⟩) limit since (kubectlLogs ns [name] limit since)
      ⟨0, printed (tails limit [⟨name, ns, .empty, log⟩])⟩ := by
  apply answers_pod
  rw [lone, List.find?_cons_of_pos (by simp)]

theorem lone_labels {selector : Str} (listing : Listing selector) (ns : Str) (log : List Str)
    (limit : Nat) (since : Option Str) :
    Answers (lone ⟨[], ns, listing.labels, log⟩) limit since
      (kubectlLogs ns ["-l".toList, selector] limit since)
      ⟨0, printed (tails limit [⟨[], ns, listing.labels, log⟩])⟩ := by
  apply answers_labels
  · intro _
    have holds : Pod.holds ⟨[], ns, listing.labels, log⟩ (listed selector) = true := by
      rw [Pod.holds, List.all_eq_true]
      intro row member
      have here : (row.1, row.2) ∈ listing.labels := Listing.mem_labels.mpr member
      exact decide_eq_true (Dict.get_eq_some.mpr here)
    rw [lone, List.filter_cons_of_pos (by simpa using holds), List.filter_nil]
  · exact .inr ⟨_, List.Sublist.refl _, rfl⟩

theorem lone_other {selector : Str} (other : ¬Listing selector) (p : Pod) (ns : Str) (limit : Nat)
    (since : Option Str) :
    Answers (lone p) limit since (kubectlLogs ns ["-l".toList, selector] limit since)
      ⟨0, printed (tails limit [p])⟩ := by
  apply answers_labels
  · exact fun listing => absurd listing other
  · exact .inr ⟨_, List.Sublist.refl _, rfl⟩

/-- Where kubectl logs cannot select the pods, it may print the line of a pod that does not satisfy
    the query. -/
theorem exists_missed (named : Named raw ns) (asks : Asks raw)
    (cannot : ¬(Consistent r raw ∧ Selects raw)) (line : Str) (limit : Nat) (since : Option Str) :
    ∃ p, p.log = [line] ∧ ¬Satisfies r raw ns p ∧
      Answers (lone p) limit since (command raw ns limit since) ⟨0, printed (tails limit [p])⟩ := by
  cases found : (labelsOf (matchers raw)).get podLabel with
  | some value =>
    rw [command_pod found]
    exact ⟨_, rfl, missed_pod named found cannot rfl rfl, lone_pod _ _ _ limit since⟩
  | none =>
    rw [command_labels found (labelSelector_ne_nil.mpr asks)]
    by_cases listing : Listing (join [','] (labelSelector (labelsOf (matchers raw))))
    · have answers := lone_labels listing (askedNamespace raw ns) [line] limit since
      generalize labels : listing.labels = rows at answers
      exact ⟨_, rfl, missed_labels named found asks cannot listing labels.symm, answers⟩
    · obtain ⟨row, member, place⟩ := asks
      exact ⟨⟨[], [], .empty, [line]⟩, rfl,
        bare_unsatisfied named rfl member place (Dict.ne_of_get_eq_none found member),
        lone_other listing _ _ limit since⟩

end Missed

section Exact
variable {r : Reader} {raw ns : Str} {compiles : Str → Bool} {extractTraceId : Str → Option Str}
  {limit : Nat} {since : Option Str} {Line : Str → Prop}

/-- With a limit of zero kubectl logs prints nothing. -/
theorem answers_zero {cluster : Cluster} {reply : Reply}
    (answers : Answers cluster 0 since (command raw ns 0 since) reply) :
    reply.returncode ≠ 0 ∨ reply.stdout = [] := by
  have none_ (pods : List Pod) : printed (tails 0 pods) = [] := by
    simp [printed, tails, List.rtake]
  cases found : (labelsOf (matchers raw)).get podLabel with
  | some value =>
    have here := answers.pod _ _ (command_pod found)
    split at here
    · rw [here]
      exact .inr (none_ _)
    · exact .inl here
  | none =>
    by_cases some_ : labelSelector (labelsOf (matchers raw)) = []
    · exact .inl (answers.refused (askedNamespace raw ns) (by
        rw [command, target, found]
        simp only [if_pos some_]))
    · rcases answers.selector _ _ (command_labels found some_) with failed | ⟨chosen, _, rfl⟩
      · exact .inl failed
      · exact .inr (none_ _)

theorem answered_replies (accepted : validateFallbackQuery raw =
      .ok (labelsOf (matchers raw), (filterTexts raw).map (·.text))) :
    Answered r raw ns compiles extractTraceId limit since Line ↔
      PlainFilters raw ∧ Named raw ns ∧
        ∀ cluster : Cluster, (∀ p ∈ cluster.pods, ∀ line ∈ p.log, Line line) →
          ∀ reply, Answers cluster limit since (command raw ns limit since) reply →
            answered ((filterTexts raw).map (·.text)) limit reply = asked r raw ns limit cluster := by
  have taken := (accepted_of accepted).1
  have parsed : (∃ query, parseLogqlQuery compiles raw = .ok query ∧
      validateFallbackQuery raw = .ok (query.selectors, query.contained)) ↔ PlainFilters raw := by
    rw [← @filters_same_iff raw compiles taken]
    apply exists_congr
    intro query
    rw [accepted, Except.ok.injEq, Prod.mk.injEq, @eq_comm _ query.selectors,
      @eq_comm _ query.contained]
  have execute (named : Named raw ns) {cluster : Cluster} {kubectl : List Str → Reply}
      (answers : ∀ argv, Answers cluster limit since argv (kubectl argv)) :
      ∃ entries, executeKubectlLogql extractTraceId kubectl raw ns limit since = .ok entries ∧
        entries.map (·.line) = answered ((filterTexts raw).map (·.text)) limit
          (kubectl (command raw ns limit since)) := by
    apply execute_lines accepted named
    rcases Nat.eq_zero_or_pos limit with rfl | positive
    · exact .inr (answers_zero (answers _))
    · exact .inl positive
  constructor
  · intro answered_
    have named : Named raw ns := by
      choose kubectl all using exists_answer ⟨[], List.nodup_nil⟩ limit since
      obtain ⟨entries, done, _⟩ := answered_.entries ⟨[], List.nodup_nil⟩
        (fun _ member => absurd member List.not_mem_nil) kubectl all
      exact execute_named accepted done
    refine ⟨parsed.mp answered_.parsed, named, ?_⟩
    intro cluster lines reply answers
    obtain ⟨kubectl, all, rfl⟩ := exists_kubectl answers
    obtain ⟨entries, done, same⟩ := answered_.entries cluster lines kubectl all
    obtain ⟨entries', done', same'⟩ := execute named all
    rw [done] at done'
    obtain rfl := Except.ok.inj done'
    rw [← same', same]
  · rintro ⟨plain, named, replies⟩
    refine ⟨parsed.mpr plain, fun cluster lines kubectl all => ?_⟩
    obtain ⟨entries, done, same⟩ := execute named all
    exact ⟨entries, done, same.trans (replies cluster lines _ (all _))⟩

variable (named : Named raw ns) (positive : 0 < limit)
  (replies : ∀ cluster : Cluster, (∀ p ∈ cluster.pods, ∀ line ∈ p.log, Line line) →
    ∀ reply, Answers cluster limit since (command raw ns limit since) reply →
      answered ((filterTexts raw).map (·.text)) limit reply = asked r raw ns limit cluster)

theorem lone_lines {p : Pod} {line : Str} (log : p.log = [line]) (kind : Line line) :
    ∀ q ∈ (lone p).pods, ∀ line ∈ q.log, Line line := by
  intro q member other inside
  obtain rfl := List.mem_singleton.mp member
  rw [log] at inside
  obtain rfl := List.mem_singleton.mp inside
  exact kind

include named positive replies

theorem faithful_of_replies (consistent : Consistent r raw) (selects : Selects raw) :
    ∀ line, Line line → Faithful r raw line := by
  intro line kind
  apply faithful_of_shown positive
  have satisfies := fitting_satisfies named consistent [line]
  obtain ⟨reply, answers⟩ := exists_answer (lone (fitting r raw ns [line])) limit since
    (command raw ns limit since)
  have same := replies _ (lone_lines rfl kind) reply answers
  have chosen : (lone (fitting r raw ns [line])).pods.filter (fun p => Satisfies r raw ns p) =
      [fitting r raw ns [line]] := List.filter_cons_of_pos (decide_eq_true satisfies)
  rw [asked_lone rfl positive satisfies, reply_selected named consistent selects _ answers, chosen,
    tails_one rfl positive, List.flatMap_singleton] at same
  exact same

theorem unasked_of_replies (cannot : ¬(Consistent r raw ∧ Selects raw)) : Unasked r raw Line := by
  have silent : Asks raw → ∀ line, Line line → Silent raw line := by
    intro asks line kind
    obtain ⟨p, log, missed, answers⟩ := exists_missed named asks cannot line limit since
    have same := replies _ (lone_lines log kind) _ answers
    have none_ : ∀ q ∈ (lone p).pods, ¬Satisfies r raw ns q := by
      intro q member
      obtain rfl := List.mem_singleton.mp member
      exact missed
    rw [asked_none none_, answered_printed, tails_one log positive, List.flatMap_singleton,
      List.take_eq_nil_iff] at same
    exact silent_iff.mpr (same.resolve_left positive.ne')
  refine ⟨silent, ?_⟩
  intro consistent line kind
  have satisfies := fitting_satisfies named consistent [line]
  obtain ⟨reply, answers⟩ := exists_answer (lone (fitting r raw ns [line])) limit since
    (command raw ns limit since)
  have same := replies _ (lone_lines rfl kind) reply answers
  have quiet : Asks raw → ∀ p ∈ (lone (fitting r raw ns [line])).pods, ∀ line ∈ p.log,
      Silent raw line := fun asks p member other inside =>
    silent asks other (lone_lines rfl kind p member other inside)
  rw [asked_lone rfl positive satisfies, answered_silent answers quiet] at same
  by_contra want
  rw [if_pos (Bool.eq_true_of_not_eq_false want)] at same
  exact nomatch same

end Exact

section Answer
variable {r : Reader} {raw ns : Str} {limit : Nat} {since : Option Str} {Line : Str → Prop}

theorem replies_of_answerable (answerable : Answerable r raw ns limit Line) (cluster : Cluster)
    (lines : ∀ p ∈ cluster.pods, ∀ line ∈ p.log, Line line) (reply : Reply)
    (answers : Answers cluster limit since (command raw ns limit since) reply) :
    answered ((filterTexts raw).map (·.text)) limit reply = asked r raw ns limit cluster := by
  rcases Nat.eq_zero_or_pos limit with rfl | positive
  · rw [asked, List.take_zero, answered, List.take_zero, ite_self]
  rcases answerable.lines positive with ⟨consistent, selects, faithful⟩ | ⟨cannot, unasked⟩
  · rw [reply_selected answerable.named consistent selects _ answers, faithful_tails, asked]
    intro p member line inside
    exact faithful line (lines p (List.mem_filter.mp member).1 line inside)
  · rw [answered_silent answers fun asks p member line inside =>
      unasked.silent asks line (lines p member line inside)]
    symm
    by_cases consistent : Consistent r raw
    · exact asked_unwanted fun p member line inside =>
        unasked.unwanted consistent line (lines p member line inside)
    · exact asked_none fun p _ satisfies => consistent (consistent_of_satisfies satisfies)

/-- The fallback answers a query that it takes with the lines that the query asks for, for every
    cluster whose pods write lines of the given kind, exactly when the query and the lines are
    answerable. -/
theorem answered_iff {selectors : Dict Str Str} {texts : List Str}
    (accepted : validateFallbackQuery raw = .ok (selectors, texts)) (r : Reader) (ns : Str)
    (compiles : Str → Bool) (extractTraceId : Str → Option Str) (limit : Nat) (since : Option Str)
    (Line : Str → Prop) :
    Answered r raw ns compiles extractTraceId limit since Line ↔ Answerable r raw ns limit Line := by
  obtain ⟨_, rfl, rfl⟩ := accepted_of accepted
  rw [answered_replies accepted]
  constructor
  · rintro ⟨plain, named, replies⟩
    refine ⟨plain, named, fun positive => ?_⟩
    by_cases can : Consistent r raw ∧ Selects raw
    · exact .inl ⟨can.1, can.2, faithful_of_replies named positive replies can.1 can.2⟩
    · exact .inr ⟨can, unasked_of_replies named positive replies can⟩
  · intro answerable
    exact ⟨answerable.plain, answerable.named, replies_of_answerable answerable⟩

def unescape : Str → Str
  | [] => []
  | '\\' :: 'n' :: rest => '\n' :: unescape rest
  | '\\' :: 't' :: rest => '\t' :: unescape rest
  | '\\' :: c :: rest => c :: unescape rest
  | c :: rest => c :: unescape rest

theorem unescape_plain (text : Str) (plain : '\\' ∉ text) : unescape text = text := by
  fun_induction unescape text with
  | case1 => rfl
  | case2 => exact absurd List.mem_cons_self plain
  | case3 => exact absurd List.mem_cons_self plain
  | case4 => exact absurd List.mem_cons_self plain
  | case5 c rest _ _ _ ih => rw [ih (List.not_mem_of_not_mem_cons plain)]

def unescaping : Reader where
  read := unescape
  plain := unescape_plain

def errorsOfWeb : Str := "\x7bapp=\"web\"\x7d |= \"err\"".toList

theorem errorsOfWeb_matchers :
    matchers errorsOfWeb = [⟨"app".toList, .equal, "web".toList⟩] := by decide +kernel

theorem errorsOfWeb_texts : filterTexts errorsOfWeb = [⟨'"', "err".toList⟩] := by decide +kernel

theorem errorsOfWeb_faithful {line : Str} (clean : Clean line) : Faithful r errorsOfWeb line := by
  have read : r.read "err".toList = "err".toList := r.plain _ (by decide)
  have want : wanted r errorsOfWeb line = decide ("err".toList <:+: line) := by
    rw [wanted, errorsOfWeb_texts, List.all_cons, List.all_nil, Bool.and_true, read]
  have pass : passes ((filterTexts errorsOfWeb).map (·.text)) line =
      decide ("err".toList <:+: line) := by
    rw [errorsOfWeb_texts, passes, decide_eq_true clean.some_]
    simp
  rw [Faithful, want]
  split
  · next here => exact ⟨clean, pass.trans here⟩
  · next absent =>
    rw [silent_iff, shown, clean_lines clean, List.map_singleton, clean.stripped,
      List.filter_cons_of_neg (by rw [pass]; exact absent), List.filter_nil]

theorem errorsOfWeb_answerable (limit : Nat) :
    Answerable r errorsOfWeb "default".toList limit Clean where
  plain := by
    refine ⟨?_, by decide +kernel, by decide +kernel⟩
    rw [errorsOfWeb_texts]
    decide
  named := by
    have none_ : (labelsOf (matchers errorsOfWeb)).get podLabel = none := by
      rw [errorsOfWeb_matchers]
      decide
    refine ⟨?_, fun value found => ?_⟩
    · rw [errorsOfWeb_matchers]
      decide
    · rw [none_] at found
      exact nomatch found
  lines _ := by
    refine .inl ⟨?_, ?_, fun _ clean => errorsOfWeb_faithful clean⟩
    · unfold Consistent
      rw [errorsOfWeb_matchers]
      simp
    · have labels : labelsOf [⟨"app".toList, .equal, "web".toList⟩] =
          ({ rows := [("app".toList, "web".toList)] } : Dict Str Str) := rfl
      have none_ : (labelsOf (matchers errorsOfWeb)).get podLabel = none := by
        rw [errorsOfWeb_matchers]
        decide
      rw [Selects, none_, Asks, errorsOfWeb_matchers, labels]
      constructor
      · exact ⟨_, List.mem_singleton_self _, by decide⟩
      · intro row member _
        obtain rfl := List.mem_singleton.mp member
        have plain : "web".toList.all isNameChar = true := by decide
        exact List.all_eq_true.mp plain

theorem errorsOfWeb_answered : Answered unescaping errorsOfWeb "default".toList (fun _ => true)
    (fun _ => none) 100 none Clean :=
  (answered_iff (accepted_of_isOk (by decide +kernel)) unescaping _ _ _ 100 none Clean).mpr
    (errorsOfWeb_answerable 100)

def podOfApp : Str := "\x7bpod=\"a\", app=\"b\"\x7d".toList

def barePod : Pod where
  name := "a".toList
  «namespace» := "default".toList
  labels := .empty
  log := ["x".toList]

/-- The line of a pod that does not have the label that the query names. -/
theorem podOfApp_stray : ∃ kubectl : List Str → Reply,
    (∀ argv, Answers (lone barePod) 100 none argv (kubectl argv)) ∧
      (∃ entries, executeKubectlLogql (fun _ => none) kubectl podOfApp "default".toList 100 none =
          .ok entries ∧ entries.map (·.line) = ["x".toList]) ∧
      asked unescaping podOfApp "default".toList 100 (lone barePod) = [] := by
  have accepted : validateFallbackQuery podOfApp =
      .ok (labelsOf (matchers podOfApp), (filterTexts podOfApp).map (·.text)) :=
    accepted_of_isOk (by decide +kernel)
  have labels : matchers podOfApp =
      [⟨"pod".toList, .equal, "a".toList⟩, ⟨"app".toList, .equal, "b".toList⟩] := by decide +kernel
  have found : (labelsOf (matchers podOfApp)).get podLabel = some "a".toList := by
    rw [labels]
    decide
  have place : askedNamespace podOfApp "default".toList = "default".toList := by
    rw [askedNamespace, labels]
    decide
  have named : Named podOfApp "default".toList := by
    refine ⟨?_, fun value here => ?_⟩
    · rw [labels]
      decide
    · rw [found] at here
      obtain rfl := Option.some.inj here
      decide
  have other : ¬Satisfies unescaping podOfApp "default".toList barePod := by
    unfold Satisfies
    rw [labels]
    decide
  obtain ⟨kubectl, all, reply⟩ := exists_kubectl
    (lone_pod "default".toList "a".toList ["x".toList] 100 none)
  refine ⟨kubectl, all, ?_, asked_none ?_⟩
  · have answer : ∃ entries,
        executeKubectlLogql (fun _ => none) kubectl podOfApp "default".toList 100 none =
          .ok entries ∧
        entries.map (·.line) = answered ((filterTexts podOfApp).map (·.text)) 100
          (kubectl (command podOfApp "default".toList 100 none)) :=
      execute_lines accepted named (.inl (by decide))
    obtain ⟨entries, done, same⟩ := answer
    refine ⟨entries, done, same.trans ?_⟩
    rw [command_pod found, place, show podName "a".toList = "a".toList from rfl, reply]
    decide +kernel
  · intro p member
    obtain rfl := List.mem_singleton.mp member
    exact other

end Answer
end DevopsCli.K8s.Logql
