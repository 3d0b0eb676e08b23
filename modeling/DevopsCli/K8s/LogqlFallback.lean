import DevopsCli.K8s.LogqlAnswers

/- When the kubectl fallback answers a query with the lines that it asks for. -/
namespace DevopsCli.K8s.Logql
open PyStr Matches

section Lines
variable {texts lines : List Str} {line : Str} {limit : Nat}

def shown (texts : List Str) (line : Str) : List Str :=
  ((splitlines (line ++ ['\n'])).map strip).filter (passes texts)

def answered (texts : List Str) (limit : Nat) (reply : Reply) : List Str :=
  if reply.returncode ≠ 0 then []
  else (((splitlines reply.stdout).map strip).filter (passes texts)).take limit

theorem splitlines_printed (lines : List Str) :
    splitlines (printed lines) = lines.flatMap fun line => splitlines (line ++ ['\n']) := by
  induction lines with
  | nil => rfl
  | cons line lines ih =>
    have text : printed (line :: lines) = line ++ '\n' :: printed lines := by
      simp [printed]
    rw [text, splitlines, splitlinesFrom_feed, ih]
    rfl

theorem answered_printed (texts lines : List Str) (limit : Nat) :
    answered texts limit ⟨0, printed lines⟩ = (lines.flatMap (shown texts)).take limit := by
  rw [answered, if_neg (by simp)]
  simp only [splitlines_printed, List.map_flatMap, List.filter_flatMap]
  rfl

theorem collect_lines {extractTraceId : Str → Option Str} {labels : Dict Str Str}
    {entries : List LogEntry} (room : entries.length < limit) (lines : List Str) :
    (collect extractTraceId labels texts limit entries lines).map (·.line) =
      entries.map (·.line) ++
        ((lines.map strip).filter (passes texts)).take (limit - entries.length) := by
  induction lines generalizing entries with
  | nil => simp [collect]
  | cons line rest ih =>
    rw [collect]
    cases pass : passes texts (strip line) with
    | false =>
      rw [if_pos rfl, ih room, List.map_cons, List.filter_cons_of_neg (by simp [pass])]
    | true =>
      rw [if_neg (by simp), List.map_cons, List.filter_cons_of_pos pass]
      obtain ⟨more, gap⟩ : ∃ more, limit - entries.length = more + 1 :=
        ⟨limit - entries.length - 1, by omega⟩
      rw [gap, List.take_succ_cons]
      simp only [List.length_append, List.length_singleton]
      split
      · next full =>
        obtain rfl : more = 0 := by omega
        simp
      · next space =>
        have rest_ : limit - (entries.length + 1) = more := by omega
        rw [ih (by simp only [List.length_append, List.length_singleton]; omega)]
        simp [rest_]

theorem silent_iff {rawQuery : Str} :
    Silent rawQuery line ↔ shown ((filterTexts rawQuery).map (·.text)) line = [] := by
  simp [Silent, shown, List.filter_eq_nil_iff]

theorem clean_lines (clean : Clean line) : splitlines (line ++ ['\n']) = [line] :=
  splitlines_cons clean.unbroken []

theorem shown_clean (clean : Clean line) (pass : passes texts line = true) :
    shown texts line = [line] := by
  rw [shown, clean_lines clean, List.map_singleton, clean.stripped, List.filter_cons_of_pos pass,
    List.filter_nil]

theorem mem_shown {piece : Str} (member : piece ∈ shown texts line) :
    Clean piece ∧ passes texts piece = true := by
  obtain ⟨stripped, pass⟩ := List.mem_filter.mp member
  obtain ⟨whole, part, rfl⟩ := List.mem_map.mp stripped
  refine ⟨⟨?_, ?_, strip_strip whole⟩, pass⟩
  · intro none_
    rw [none_] at pass
    exact absurd pass (by simp [passes])
  · intro c inside
    exact splitlines_unbroken _ whole part c ((strip_within whole).subset inside)

theorem faithful_shown {r : Reader} {rawQuery : Str} (faithful : Faithful r rawQuery line) :
    shown ((filterTexts rawQuery).map (·.text)) line =
      if wanted r rawQuery line then [line] else [] := by
  unfold Faithful at faithful
  split at faithful
  · next want => rw [if_pos want, shown_clean faithful.1 faithful.2]
  · next want => rw [if_neg want, silent_iff.mp faithful]

theorem faithful_of_shown {r : Reader} {rawQuery : Str} (positive : 0 < limit)
    (same : (shown ((filterTexts rawQuery).map (·.text)) line).take limit =
      if wanted r rawQuery line then [line] else []) : Faithful r rawQuery line := by
  unfold Faithful
  split
  · next want =>
    rw [if_pos want] at same
    have member : line ∈ (shown ((filterTexts rawQuery).map (·.text)) line).take limit :=
      same ▸ List.mem_singleton_self line
    exact mem_shown (List.mem_of_mem_take member)
  · next want =>
    rw [if_neg want, List.take_eq_nil_iff] at same
    exact silent_iff.mpr (same.resolve_left (by omega))

end Lines

section Commands
variable {raw ns : Str} {limit : Nat} {since : Option Str}

def target (selectors : Dict Str Str) : List Str :=
  match selectors.get podLabel with
  | some value => [podName value]
  | none =>
    if labelSelector selectors = [] then []
    else ["-l".toList, join [','] (labelSelector selectors)]

def askedNamespace (rawQuery «namespace» : Str) : Str :=
  ((labelsOf (matchers rawQuery)).get namespaceLabel).getD «namespace»

def command (rawQuery «namespace» : Str) (limit : Nat) (since : Option Str) : List Str :=
  kubectlLogs (askedNamespace rawQuery «namespace») (target (labelsOf (matchers rawQuery))) limit since

theorem kubectlLogs_inj {ns' : Str} {target target' : List Str}
    (same : kubectlLogs ns target limit since = kubectlLogs ns' target' limit since) :
    ns = ns' ∧ target = target' := by
  unfold kubectlLogs at same
  have front := List.append_cancel_right (List.append_cancel_right same)
  simp only [List.cons_append, List.nil_append, List.cons.injEq, true_and] at front
  exact front

theorem build_named {«namespace» : Str} (named : Named raw «namespace») :
    buildKubectlLogsCmd (askedNamespace raw «namespace») (labelsOf (matchers raw)) limit since =
      .ok (command raw «namespace» limit since) := by
  unfold command target buildKubectlLogsCmd
  cases found : (labelsOf (matchers raw)).get podLabel with
  | some value => simp only [named.pod value found, if_true]
  | none =>
    by_cases empty : labelSelector (labelsOf (matchers raw)) = []
    · simp only [if_pos empty]
    · simp only [if_neg empty]

theorem named_of_build {«namespace» : Str} {cmd : List Str}
    (valid : isValidK8sName (askedNamespace raw «namespace») true = true)
    (built : buildKubectlLogsCmd (askedNamespace raw «namespace») (labelsOf (matchers raw)) limit
      since = .ok cmd) : Named raw «namespace» := by
  refine ⟨valid, fun value found => ?_⟩
  by_contra invalid
  simp only [buildKubectlLogsCmd, found, invalid, if_false] at built
  cases built

theorem blank_silent {stdout : Str} {texts : List Str} (blank : strip stdout = []) :
    ((splitlines stdout).map strip).filter (passes texts) = [] := by
  rw [List.filter_eq_nil_iff]
  intro line member
  obtain ⟨whole, part, rfl⟩ := List.mem_map.mp member
  have spaces : Blank whole := fun c inside =>
    strip_eq_nil_iff.mp blank c (mem_splitlines part inside)
  rw [strip_eq_nil_iff.mpr spaces]
  simp [passes]

variable {extractTraceId : Str → Option Str} {kubectl : List Str → Reply} {«namespace» : Str}

theorem execute_reply (extractTraceId : Str → Option Str) (kubectl : List Str → Reply) (limit : Nat)
    (since : Option Str) (accepted : validateFallbackQuery raw =
      .ok (labelsOf (matchers raw), (filterTexts raw).map (·.text)))
    (named : Named raw «namespace») : ∃ labels,
    executeKubectlLogql extractTraceId kubectl raw «namespace» limit since =
      .ok (if (kubectl (command raw «namespace» limit since)).returncode ≠ 0 ∨
          strip (kubectl (command raw «namespace» limit since)).stdout = [] then []
        else collect extractTraceId labels ((filterTexts raw).map (·.text)) limit []
          (splitlines (kubectl (command raw «namespace» limit since)).stdout)) := by
  have valid : isValidK8sName (((labelsOf (matchers raw)).get namespaceLabel).getD «namespace») true =
    true := named.namespace
  have built : buildKubectlLogsCmd (askedNamespace raw «namespace») (labelsOf (matchers raw)) limit
      since = .ok (command raw «namespace» limit since) := build_named named
  unfold askedNamespace at built
  simp only [executeKubectlLogql, accepted, bind, Except.bind, valid, Bool.true_eq_false, if_false,
    built, pure, Except.pure]
  generalize kubectl (command raw «namespace» limit since) = reply
  split
  · exact ⟨.empty, rfl⟩
  · exact ⟨_, rfl⟩

/-- The entries of a query with valid names are the lines of the reply to its command; with a limit
    of zero the reply is blank. -/
theorem execute_lines (accepted : validateFallbackQuery raw =
      .ok (labelsOf (matchers raw), (filterTexts raw).map (·.text)))
    (named : Named raw «namespace»)
    (room : 0 < limit ∨ (kubectl (command raw «namespace» limit since)).returncode ≠ 0 ∨
      (kubectl (command raw «namespace» limit since)).stdout = []) :
    ∃ entries, executeKubectlLogql extractTraceId kubectl raw «namespace» limit since =
        .ok entries ∧
      entries.map (·.line) = answered ((filterTexts raw).map (·.text)) limit
        (kubectl (command raw «namespace» limit since)) := by
  obtain ⟨labels, done⟩ := execute_reply extractTraceId kubectl limit since accepted named
  refine ⟨_, done, ?_⟩
  generalize kubectl (command raw «namespace» limit since) = reply at room
  unfold answered
  by_cases failed : reply.returncode ≠ 0
  · rw [if_pos (.inl failed), if_pos failed]
    rfl
  by_cases blank : strip reply.stdout = []
  · rw [if_pos (.inr blank), if_neg failed, blank_silent blank, List.take_nil]
    rfl
  · have positive : 0 < limit := by
      rcases room with positive | other | none_
      · exact positive
      · exact absurd other failed
      · rw [none_] at blank
        exact absurd rfl blank
    rw [if_neg (not_or.mpr ⟨failed, blank⟩), if_neg failed, collect_lines positive]
    rfl

theorem execute_named {entries : List LogEntry} (accepted : validateFallbackQuery raw =
      .ok (labelsOf (matchers raw), (filterTexts raw).map (·.text)))
    (done : executeKubectlLogql extractTraceId kubectl raw «namespace» limit since = .ok entries) :
    Named raw «namespace» := by
  simp only [executeKubectlLogql, accepted, bind, Except.bind] at done
  split at done
  · cases done
  · next valid =>
    split at done
    · cases done
    · next built => exact named_of_build (Bool.eq_true_of_not_eq_false valid) built

end Commands

section Replies
variable {cluster : Cluster} {limit : Nat} {since : Option Str} {ns name selector : Str}
  {reply : Reply}

theorem answers_pod
    (answer : match cluster.pods.find? fun p => p.namespace = ns ∧ p.name = name with
      | some p => reply = ⟨0, printed (tails limit [p])⟩
      | none => reply.returncode ≠ 0) :
    Answers cluster limit since (kubectlLogs ns [name] limit since) reply where
  pod _ _ same := by
    obtain ⟨rfl, target⟩ := kubectlLogs_inj same
    obtain ⟨rfl, _⟩ := List.cons.inj target
    exact answer
  labels _ _ same := absurd (congrArg List.length (kubectlLogs_inj same).2) (by simp)
  selector _ _ same := absurd (congrArg List.length (kubectlLogs_inj same).2) (by simp)
  refused _ same := absurd (congrArg List.length (kubectlLogs_inj same).2) (by simp)

theorem answers_labels
    (listing : Listing selector → reply = ⟨0, printed (tails limit
      (cluster.pods.filter fun p => p.namespace = ns ∧ p.holds (listed selector)))⟩)
    (other : reply.returncode ≠ 0 ∨ ∃ chosen, chosen.Sublist cluster.pods ∧
      reply = ⟨0, printed (tails limit chosen)⟩) :
    Answers cluster limit since (kubectlLogs ns ["-l".toList, selector] limit since) reply where
  pod _ _ same := absurd (congrArg List.length (kubectlLogs_inj same).2) (by simp)
  labels _ _ same list := by
    obtain ⟨rfl, target⟩ := kubectlLogs_inj same
    obtain ⟨_, second⟩ := List.cons.inj target
    obtain ⟨rfl, _⟩ := List.cons.inj second
    exact listing list
  selector _ _ _ := other
  refused _ same := absurd (congrArg List.length (kubectlLogs_inj same).2) (by simp)

theorem exists_answer (cluster : Cluster) (limit : Nat) (since : Option Str) (argv : List Str) :
    ∃ reply, Answers cluster limit since argv reply := by
  by_cases pod : ∃ ns name, argv = kubectlLogs ns [name] limit since
  · obtain ⟨ns, name, rfl⟩ := pod
    cases found : cluster.pods.find? fun p => p.namespace = ns ∧ p.name = name with
    | some p => exact ⟨⟨0, printed (tails limit [p])⟩, answers_pod (by rw [found])⟩
    | none => exact ⟨⟨1, []⟩, answers_pod (by rw [found]; exact Int.one_ne_zero)⟩
  by_cases labels : ∃ ns selector, argv = kubectlLogs ns ["-l".toList, selector] limit since
  · obtain ⟨ns, selector, rfl⟩ := labels
    exact ⟨⟨0, _⟩, answers_labels (fun _ => rfl) (.inr ⟨_, List.filter_sublist, rfl⟩)⟩
  refine ⟨⟨1, []⟩, fun ns name same => absurd ⟨ns, name, same⟩ pod,
    fun ns selector same => absurd ⟨ns, selector, same⟩ labels, fun _ _ _ => .inl Int.one_ne_zero,
    fun _ _ => Int.one_ne_zero⟩

theorem exists_kubectl {argv : List Str} (answer : Answers cluster limit since argv reply) :
    ∃ kubectl : List Str → Reply, (∀ argv, Answers cluster limit since argv (kubectl argv)) ∧
      kubectl argv = reply := by
  choose others all using exists_answer cluster limit since
  refine ⟨Function.update others argv reply, fun asked => ?_, Function.update_self ..⟩
  by_cases same : asked = argv
  · rw [same, Function.update_self]
    exact answer
  · rw [Function.update_of_ne same]
    exact all asked

end Replies
end DevopsCli.K8s.Logql
