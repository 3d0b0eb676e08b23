import DevopsCli.Roadmap.Intake

/- A new candidate is filed once: a later run finds the issue that a stopped run filed by the title
   and the body that it files, so long as a run files the body of the candidate. -/
namespace DevopsCli.Roadmap.Intake
open Json PyStr Run

section Fields
variable {held : Held} {field other : ItemField} {name : Text} {value : Text}

theorem heldValues_congr {a b : List Text} {field : ItemField}
    (same : ∀ label, inFamily field label = true → (label ∈ a ↔ label ∈ b)) :
    heldValues a field = heldValues b field := by
  refine List.filter_congr fun value _ => ?_
  simp only [List.mem_map, decide_eq_decide]
  constructor
  · rintro ⟨label, mem, spelled⟩
    exact ⟨label, (same label (inFamily_of_lower spelled)).mp mem, spelled⟩
  · rintro ⟨label, mem, spelled⟩
    exact ⟨label, (same label (inFamily_of_lower spelled)).mpr mem, spelled⟩

theorem fieldValue_congr {a b : List Text} {before after : JobRecord} {field : ItemField}
    (same : ∀ label, inFamily field label = true → (label ∈ a ↔ label ∈ b))
    (record : before field = after field) : fieldValue a before field = fieldValue b after field := by
  rw [fieldValue, fieldValue, heldValues_congr same, record]

theorem fieldValue_none {labels : List Text} {record : JobRecord} {field : ItemField} :
    fieldValue labels record field = none ↔ heldValues labels field = [] := by
  rw [fieldValue]
  cases shown : (heldValues labels field).filter fun value => some value ≠ record field with
  | nil => simp
  | cons value more =>
    have mem : value ∈ heldValues labels field :=
      (List.mem_filter.mp (shown ▸ List.mem_cons_self : value ∈ List.filter _ _)).1
    simp only [reduceCtorEq, false_iff]
    exact List.ne_nil_of_mem mem

theorem relabeled_held (valid : value ∈ field.choices) (labels : List Text) :
    heldValues (relabeled labels field (some value)) field ≠ [] := by
  refine List.ne_nil_of_mem (a := value) (List.mem_filter.mpr ⟨valid, ?_⟩)
  simp only [decide_eq_true_eq, List.mem_map]
  exact ⟨fieldLabel field value, mem_relabeled.mpr (by simp [fieldLabel_inFamily]), lower_fieldLabel valid⟩

theorem relabeled_other (apart : other ≠ field) {label : Text} (family : inFamily other label = true)
    (labels : List Text) (value : Option Text) : label ∈ relabeled labels field value ↔ label ∈ labels := by
  have outside : inFamily field label = false := by
    by_contra mine
    exact apart (inFamily_unique family (Bool.eq_true_of_not_eq_false mine))
  simp [mem_relabeled, outside]

theorem inFamily_apart {first : Text} (small : lower first = first)
    (apart : ∀ field, ¬ first <+: familyPrefix field ∧ ¬ familyPrefix field <+: first)
    (begins : first <+: name) (field : ItemField) : inFamily field name = false := by
  by_contra family
  have its := List.isPrefixOf_iff_prefix.mp (Bool.eq_true_of_not_eq_false family)
  obtain ⟨rest, rfl⟩ := begins
  rw [lower_append, small] at its
  rcases List.prefix_or_prefix_of_prefix its (List.prefix_append first (lower rest)) with one | two
  · exact (apart field).2 one
  · exact (apart field).1 two

theorem type_apart (begins : typePrefix <+: name) (field : ItemField) : inFamily field name = false :=
  inFamily_apart (by decide +kernel) (by decide +kernel) begins field

theorem scope_apart (begins : scopePrefix <+: name) (field : ItemField) : inFamily field name = false :=
  inFamily_apart (by decide +kernel) (by decide +kernel) begins field

end Fields

section Writes
variable {held : Held} {a b : Write}

def placedFields : List ItemField := [.status, .value, .effort]

def Safe (held : Held) : Write → Prop
  | .file => False
  | .link _ => True
  | .label name => ∀ field, inFamily field name = false
  | .setField field value => field ≠ .priority ∧ value ∈ field.choices ∧
      ∀ label ∈ held.labels, inFamily field label = false
  | .comment => held.reasonComments = 0
  | .priority _ => True

/-- What may come after a write: another field, no second comment, and nothing after Priority. -/
def Follows : Write → Write → Prop
  | .setField field _, .setField other _ => field ≠ other
  | .comment, .comment => False
  | .priority _, _ => False
  | _, _ => True

def Tidy (held : Held) : Prop :=
  ∀ field ∈ placedFields, fieldOf held field = none → ∀ label ∈ held.labels, inFamily field label = false

theorem label_labels (name : Text) : (Write.apply (.label name) held).labels = addLabel name held.labels :=
  rfl

theorem setField_labels (field : ItemField) (value : Text) :
    (Write.apply (.setField field value) held).labels = relabeled held.labels field (some value) := rfl

theorem safe_after (first : Safe held a) (second : Safe held b) (follows : Follows a b) :
    Safe (a.apply held) b := by
  cases b with
  | file => exact second
  | link parent => trivial
  | label name => exact second
  | priority value => trivial
  | comment =>
    cases a with
    | comment => exact follows.elim
    | priority value => exact follows.elim
    | _ => exact second
  | setField other value =>
    obtain ⟨apart, valid, free⟩ := second
    refine ⟨apart, valid, ?_⟩
    cases a with
    | label name =>
      intro label mem
      rcases mem_addLabel.mp mem with rfl | old
      · exact first other
      · exact free label old
    | setField field new =>
      intro label mem
      rw [setField_labels] at mem
      by_contra family
      have family := Bool.eq_true_of_not_eq_false family
      exact absurd (free label ((relabeled_other (Ne.symm follows) family _ _).mp mem)) (by simp [family])
    | priority value => exact follows.elim
    | _ => exact free

theorem apply_priority (safe : Safe held a) (before : a.isPriority = false) :
    fieldOf (a.apply held) .priority = fieldOf held .priority := by
  cases a with
  | priority value => exact absurd before (by simp [Write.isPriority])
  | label name =>
    refine fieldValue_congr (fun label family => ?_) rfl
    have other : label ≠ name := by
      rintro rfl
      exact absurd (safe .priority) (by simp [family])
    simp [label_labels, mem_addLabel, other]
  | setField field value =>
    have apart : ItemField.priority ≠ field := Ne.symm safe.1
    refine fieldValue_congr (fun label family => ?_) (Function.update_of_ne apart _ _)
    rw [setField_labels]
    exact relabeled_other apart family _ _
  | _ => rfl

theorem apply_labels (safe : Safe held a) (before : a.isPriority = false) {label : Text}
    (mem : label ∈ held.labels) : label ∈ (a.apply held).labels := by
  cases a with
  | priority value => exact absurd before (by simp [Write.isPriority])
  | label name => exact mem_addLabel.mpr (Or.inr mem)
  | setField field value =>
    rw [setField_labels, mem_relabeled, safe.2.2 label mem]
    exact mem
  | _ => exact mem

theorem apply_tidy (safe : Safe held a) (before : a.isPriority = false) (tidy : Tidy held) :
    Tidy (a.apply held) := by
  intro field placed none_ label mem
  cases a with
  | priority value => exact absurd before (by simp [Write.isPriority])
  | label name =>
    have same : fieldOf held field = none := by
      rw [← none_]
      refine fieldValue_congr (fun label family => ?_) rfl
      have other : label ≠ name := by
        rintro rfl
        exact absurd (safe field) (by simp [family])
      simp [label_labels, mem_addLabel, other]
    rcases mem_addLabel.mp mem with rfl | old
    · exact safe field
    · exact tidy field placed same label old
  | setField other value =>
    by_cases same : field = other
    · subst same
      exact absurd (fieldValue_none.mp none_) (relabeled_held safe.2.1 _)
    · have kept : fieldOf held field = none := by
        rw [← none_]
        refine fieldValue_congr (fun label family => ?_) (Function.update_of_ne same _ _).symm
        rw [setField_labels]
        exact (relabeled_other same family _ _).symm
      rw [setField_labels] at mem
      by_contra family
      have family := Bool.eq_true_of_not_eq_false family
      exact absurd (tidy field placed kept label ((relabeled_other same family _ _).mp mem))
        (by simp [family])
  | _ => exact tidy field placed none_ label mem

end Writes

section Filed
variable {new : NewCandidate} {s : State} {issue : IssueRecord} {write : Write}

theorem find_map {change : IssueRecord → IssueRecord} {issues : List IssueRecord}
    (same : ∀ issue ∈ issues, isFiled new (change issue) = isFiled new issue) :
    (issues.map change).find? (isFiled new) = (issues.find? (isFiled new)).map change := by
  induction issues with
  | nil => rfl
  | cons first rest ih =>
    have here := same first (by simp)
    rw [List.map_cons, List.find?_cons, List.find?_cons, here,
      ih fun issue mem => same issue (List.mem_cons_of_mem _ mem)]
    cases isFiled new first <;> rfl

def filedIssue (new : NewCandidate) (s : State) : Option IssueRecord := s.repo.issues.find? (isFiled new)

theorem isFiled_held {after : Held} (priority : fieldOf after .priority = fieldOf issue.held .priority) :
    isFiled new { issue with held := after } = isFiled new issue := by
  simp [isFiled, isCandidate, isItem, priority]

theorem write_found (found : filedIssue new s = some issue) (safe : Safe issue.held write)
    (before : write.isPriority = false) :
    ∃ after, filedIssue new (s.write issue.number write) = some after ∧ after.number = issue.number ∧
      after.held = write.apply issue.held := by
  have mem := List.mem_of_find?_eq_some found
  let change (issue : IssueRecord) : IssueRecord := { issue with held := write.apply issue.held }
  have same : ∀ other ∈ s.repo.issues,
      isFiled new (editIssue issue.number change other) = isFiled new other := by
    intro other held
    by_cases number : other.number = issue.number
    · obtain rfl := List.inj_on_of_nodup_map s.repo.distinct held mem number
      simpa [editIssue, change] using isFiled_held (apply_priority safe before)
    · simp [editIssue, number]
  have edited : (s.repo.edit issue.number change).issues.find? (isFiled new) =
      some { issue with held := write.apply issue.held } := by
    rw [Repo.edit, find_map same, ← filedIssue, found]
    simp [editIssue, change]
  cases write with
  | link parent =>
    have later : ∀ other ∈ (s.repo.edit issue.number change).issues,
        isFiled new (editIssue parent (fun issue => { issue with subIssues := issue.subIssues + 1 }) other) =
          isFiled new other := by
      intro other _
      unfold editIssue
      split <;> rfl
    refine ⟨editIssue parent (fun issue => { issue with subIssues := issue.subIssues + 1 })
      { issue with held := Write.apply (.link parent) issue.held }, ?_, editIssue_number _ _ _, ?_⟩
    · rw [filedIssue, State.write]
      simp only [Repo.edit] at edited later ⊢
      rw [find_map later, edited]
      rfl
    · unfold editIssue
      split <;> rfl
  | _ => exact ⟨_, edited, rfl, rfl⟩

theorem keepsLabels_safe (mem : issue ∈ s.repo.issues) (safe : Safe issue.held write)
    (before : write.isPriority = false) : keepsLabels s.repo issue.number write = true := by
  rw [keepsLabels, List.all_eq_true]
  intro other held
  by_cases number : other.number = issue.number
  · obtain rfl := List.inj_on_of_nodup_map s.repo.distinct held mem number
    simp only [Bool.or_eq_true, List.all_eq_true]
    exact Or.inr fun label held => List.contains_iff_mem.mpr (apply_labels safe before held)
  · simp [number]

end Filed

section Kept
variable {new : NewCandidate} {s : State} {issue : IssueRecord} {write : Write}

def State.count (s : State) (write : Write) : Nat := s.log.countP (·.write = write)

/-- The candidate is filed once and has one reason comment, and no write before Priority takes a
    label from its issue. -/
structure FiledOnce (s : State) : Prop where
  filed : s.count .file ≤ 1
  commented : s.count .comment ≤ 1
  labels : ∀ made ∈ s.log, made.write.isPriority = false → made.kept = true

/-- What the runs keep: a filed or commented issue is found again, with its comment. -/
structure Kept (new : NewCandidate) (s : State) : Prop where
  once : FiledOnce s
  found : s.placed = false → 0 < s.count .file + s.count .comment → (filedIssue new s).isSome = true
  commented : s.placed = false → 0 < s.count .comment →
    ∀ issue, filedIssue new s = some issue → 0 < issue.held.reasonComments
  tidy : ∀ issue, filedIssue new s = some issue → Tidy issue.held

theorem placed_write : (s.write issue.number write).placed = (s.placed || write.isPriority) := by
  cases write <;> simp [State.placed, State.write, Write.isPriority]

theorem count_write (other : Write) :
    (s.write issue.number write).count other = s.count other + if write = other then 1 else 0 := by
  simp [State.count, State.write, List.countP_append, List.countP_cons]

theorem priority_kept (issue : IssueRecord) (kept : Kept new s) (value : Text) :
    FiledOnce (s.write issue.number (.priority value)) ∧
      (s.write issue.number (.priority value)).placed = true := by
  refine ⟨⟨by simpa [count_write] using kept.once.filed, by simpa [count_write] using kept.once.commented,
    ?_⟩, by simp [placed_write, Write.isPriority]⟩
  intro made mem before
  rcases List.mem_append.mp mem with old | last
  · exact kept.once.labels made old before
  · rw [List.mem_singleton.mp last] at before
    exact absurd before (by simp [Write.isPriority])

theorem write_kept (kept : Kept new s) (open_ : s.placed = false) (found : filedIssue new s = some issue)
    (safe : Safe issue.held write) (before : write.isPriority = false) :
    Kept new (s.write issue.number write) ∧ (s.write issue.number write).placed = false := by
  obtain ⟨after, again, _, held⟩ := write_found found safe before
  have unfiled : write ≠ .file := by
    rintro rfl
    exact safe
  have uncommented : write = .comment → s.count .comment = 0 := by
    rintro rfl
    by_contra some_
    have held := kept.commented open_ (Nat.pos_of_ne_zero some_) issue found
    have none_ : issue.held.reasonComments = 0 := safe
    omega
  refine ⟨⟨⟨?_, ?_, ?_⟩, fun _ _ => by rw [again]; rfl, ?_, ?_⟩, by rw [placed_write, open_, before]; rfl⟩
  · simpa [count_write, unfiled] using kept.once.filed
  · rw [count_write]
    split
    · rename_i comment
      rw [uncommented comment]
    · exact kept.once.commented
  · intro made mem priority
    rcases List.mem_append.mp mem with old | last
    · exact kept.once.labels made old priority
    · rw [List.mem_singleton.mp last]
      exact keepsLabels_safe (List.mem_of_find?_eq_some found) safe before
  · intro _ some_ other same
    obtain rfl := Option.some.inj (again.symm.trans same)
    rw [held]
    cases write with
    | comment => exact Nat.succ_pos _
    | priority value => exact absurd before (by simp [Write.isPriority])
    | _ => exact kept.commented open_ (by simpa [count_write] using some_) issue found
  · intro other same
    obtain rfl := Option.some.inj (again.symm.trans same)
    rw [held]
    exact apply_tidy safe before (kept.tidy issue found)

/-- What a placement leaves: the candidate is an item, or the next run finds what this one kept. -/
def Left (new : NewCandidate) (s : State) : Prop :=
  FiledOnce s ∧ (s.placed = false → Kept new s)

theorem writeAll_left (writes : List Write) (kept : Kept new s) (open_ : s.placed = false)
    (found : filedIssue new s = some issue) (safe : ∀ write ∈ writes, Safe issue.held write)
    (follows : writes.Pairwise Follows) : Left new (s.writeAll issue.number writes) := by
  induction writes generalizing s issue with
  | nil => exact ⟨kept.once, fun _ => kept⟩
  | cons write rest ih =>
    have here := safe write (by simp)
    obtain ⟨first, later⟩ := List.pairwise_cons.mp follows
    cases before : write.isPriority with
    | false =>
      obtain ⟨next, still⟩ := write_kept kept open_ found here before
      obtain ⟨after, again, number, held⟩ := write_found found here before
      have done_ := ih next still again
        (fun other mem => held ▸ safe_after here (safe other (List.mem_cons_of_mem _ mem)) (first other mem))
        later
      rw [number] at done_
      exact done_
    | true =>
      cases write with
      | priority value =>
        obtain ⟨once, placed⟩ := priority_kept issue kept value
        have last : rest = [] := List.eq_nil_iff_forall_not_mem.mpr fun other mem => first other mem
        subst last
        exact ⟨once, fun open_ => absurd (placed.symm.trans open_) (by simp)⟩
      | _ => exact absurd before (by simp [Write.isPriority])

end Kept

section Plans
variable {new : NewCandidate} {repo : Repo} {run : IntakeRun} {subject : Subject} {proposal : Proposal}
  {judgement : Judgement} {raw : ModelProposal} {decision : IntakeDecision}

theorem titleType_apart {title label : Text} {declared : List Text}
    (given : (titleLabels title declared).typeLabel = some label) (field : ItemField) :
    inFamily field label = false := by
  obtain ⟨mapped, _⟩ := Option.filter_eq_some_iff.mp given
  obtain ⟨kind, _, found⟩ := Option.bind_eq_some_iff.mp mapped
  have mem : label ∈ commitTypeLabels.map Prod.snd := by
    obtain ⟨before, after, whole, _⟩ := List.lookup_eq_some_iff.mp found
    simp [whole]
  have all : ∀ label ∈ commitTypeLabels.map Prod.snd, typePrefix <+: label := by decide +kernel
  exact type_apart (all label mem) field

theorem titleScope_apart {title label : Text} {declared : List Text}
    (given : (titleLabels title declared).scopeLabel = some label) (field : ItemField) :
    inFamily field label = false := by
  obtain ⟨mapped, _⟩ := Option.filter_eq_some_iff.mp given
  obtain ⟨scope, _, rfl⟩ := Option.map_eq_some_iff.mp mapped
  exact scope_apart (List.prefix_append _ _) field

theorem types_apart {label : Text} {declared : List Text} (mem : label ∈ types declared)
    (field : ItemField) : inFamily field label = false := by
  have begins := (Bool.and_eq_true_iff.mp (List.mem_filter.mp mem).2).1
  exact type_apart (List.isPrefixOf_iff_prefix.mp begins) field

theorem place_labels (typed : typeLabelOf subject.held.labels = none →
      (titleLabels subject.title run.declared).typeLabel = none → proposal.type ∈ types run.declared) :
    ∀ label ∈ (place repo new run subject proposal judgement).labels, ∀ field,
      inFamily field label = false := by
  intro label mem field
  simp only [place, List.mem_filter, List.mem_append, Option.mem_toList] at mem
  rcases mem.1 with type | scope
  · split at type
    · exact absurd type (by simp)
    · rename_i untyped
      have untyped : typeLabelOf subject.held.labels = none := by simpa using untyped
      cases titled : (titleLabels subject.title run.declared).typeLabel with
      | some title =>
        simp only [titled, Option.getD_some, Option.some.injEq] at type
        exact type ▸ titleType_apart titled field
      | none =>
        simp only [titled, Option.getD_none, Option.some.injEq] at type
        exact type ▸ types_apart (typed untyped titled) field
  · split at scope
    · exact absurd scope (by simp)
    · exact titleScope_apart scope field

theorem place_fields (value : proposal.value ∈ sizeOptions) (effort : proposal.effort ∈ sizeOptions) :
    ∀ wanted ∈ fields subject proposal, wanted.1 ∈ placedFields ∧ wanted.2 ∈ wanted.1.choices ∧
      fieldOf subject.held wanted.1 = none := by
  intro wanted mem
  obtain ⟨listed, none_⟩ := List.mem_filter.mp mem
  refine ⟨?_, ?_, by simpa using none_⟩
  · simp only [List.mem_cons, List.not_mem_nil, or_false] at listed
    rcases listed with rfl | rfl | rfl <;> simp [placedFields]
  · simp only [List.mem_cons, List.not_mem_nil, or_false] at listed
    rcases listed with rfl | rfl | rfl
    · decide +kernel
    · exact value
    · exact effort

theorem follows_early {a b : Write} (early : (∃ parent, a = .link parent) ∨ ∃ name, a = .label name) :
    Follows a b := by
  rcases early with ⟨parent, rfl⟩ | ⟨name, rfl⟩ <;> cases b <;> trivial

theorem writes_follow : (place repo new run subject proposal judgement).writes.Pairwise Follows := by
  generalize placed : place repo new run subject proposal judgement = decision
  have names : decision.fields.Pairwise fun a b => a.1 ≠ b.1 := by
    rw [← placed]
    have listed : [(ItemField.status, "New".toList), (.value, proposal.value),
        (.effort, proposal.effort)].Pairwise fun a b => a.1 ≠ b.1 := by simp
    exact listed.filter fun wanted => (fieldOf subject.held wanted.1).isNone
  have set : (decision.fields.map fun wanted => Write.setField wanted.1 wanted.2).Pairwise Follows :=
    names.map _ fun _ _ apart => apart
  have early (writes : List Write)
      (all : ∀ a ∈ writes, (∃ parent, a = .link parent) ∨ ∃ name, a = .label name) :
      writes.Pairwise Follows := by
    rw [List.pairwise_iff_forall_sublist]
    intro a b sub
    exact follows_early (all a (sub.subset (by simp)))
  have links : ∀ a ∈ decision.parent.toList.map Write.link,
      (∃ parent, a = .link parent) ∨ ∃ name, a = .label name := by
    intro a mem
    obtain ⟨parent, _, rfl⟩ := List.mem_map.mp mem
    exact Or.inl ⟨parent, rfl⟩
  have labels : ∀ a ∈ decision.labels.map Write.label,
      (∃ parent, a = .link parent) ∨ ∃ name, a = .label name := by
    intro a mem
    obtain ⟨name, _, rfl⟩ := List.mem_map.mp mem
    exact Or.inr ⟨name, rfl⟩
  have comment : (if decision.comment then [Write.comment] else []).Pairwise Follows := by
    split <;> simp
  rw [IntakeDecision.writes]
  refine List.pairwise_append.mpr ⟨List.pairwise_append.mpr ⟨List.pairwise_append.mpr
    ⟨early _ fun a mem => ?_, set, fun a mem b _ => ?_⟩, comment, fun a mem b last => ?_⟩,
    List.pairwise_singleton _ _, fun a mem b last => ?_⟩
  · rcases List.mem_append.mp mem with link | label
    · exact links a link
    · exact labels a label
  · rcases List.mem_append.mp mem with link | label
    · exact follows_early (links a link)
    · exact follows_early (labels a label)
  · split at last
    · obtain rfl := List.mem_singleton.mp last
      rcases List.mem_append.mp mem with first | field
      · rcases List.mem_append.mp first with link | label
        · exact follows_early (links a link)
        · exact follows_early (labels a label)
      · obtain ⟨wanted, _, rfl⟩ := List.mem_map.mp field
        trivial
    · exact absurd last (by simp)
  · obtain rfl := List.mem_singleton.mp last
    rcases List.mem_append.mp mem with first | comment
    · rcases List.mem_append.mp first with early | field
      · rcases List.mem_append.mp early with link | label
        · exact follows_early (links a link)
        · exact follows_early (labels a label)
      · obtain ⟨wanted, _, rfl⟩ := List.mem_map.mp field
        trivial
    · split at comment
      · obtain rfl := List.mem_singleton.mp comment
        trivial
      · exact absurd comment (by simp)

/-- Each write of a plan is safe on an issue that holds no label of a field that the plan sets, and
    no reason comment where the plan writes one. -/
theorem writes_safe (held : Held) (placed : place repo new run subject proposal judgement = decision)
    (typed : typeLabelOf subject.held.labels = none →
      (titleLabels subject.title run.declared).typeLabel = none → proposal.type ∈ types run.declared)
    (value : proposal.value ∈ sizeOptions) (effort : proposal.effort ∈ sizeOptions)
    (free : ∀ field ∈ placedFields, fieldOf subject.held field = none →
      ∀ label ∈ held.labels, inFamily field label = false)
    (comments : decision.comment = true → held.reasonComments = 0) :
    ∀ write ∈ decision.writes, Safe held write := by
  intro write mem
  simp only [IntakeDecision.writes, List.mem_append, List.mem_map, Option.mem_toList,
    List.mem_singleton] at mem
  rcases mem with (((⟨parent, _, rfl⟩ | ⟨name, given, rfl⟩) | ⟨wanted, given, rfl⟩) | comment) | rfl
  · trivial
  · exact fun field => place_labels typed name (placed ▸ given) field
  · have listed : wanted ∈ fields subject proposal := by
      rw [← placed] at given
      exact given
    obtain ⟨field, choice, none_⟩ := place_fields value effort wanted listed
    refine ⟨?_, choice, free wanted.1 field none_⟩
    intro priority
    rw [priority] at field
    exact absurd field (by decide)
  · split at comment
    · rename_i writes
      obtain rfl := List.mem_singleton.mp comment
      exact comments writes
    · exact absurd comment (by simp)
  · trivial

theorem validateProposal_spec {declared : List Text} {needsType : Bool}
    (valid : validateProposal raw declared needsType = some proposal) :
    (needsType = true → proposal.type ∈ declared) ∧ proposal.value ∈ sizeOptions ∧
      proposal.effort ∈ sizeOptions := by
  rw [validateProposal] at valid
  split at valid
  · rename_i checks
    obtain rfl := Option.some.inj valid
    simp only [Bool.and_eq_true, Bool.or_eq_true, Bool.not_eq_true', decide_eq_true_eq] at checks
    refine ⟨fun needs => ?_, checks.1.2, checks.2⟩
    exact checks.1.1.1.resolve_left (by simp [needs])
  · exact absurd valid (by simp)

theorem judge_subject (raw : ModelProposal) (shortlist : List Entry) (subject : Subject) :
    ∃ body, (judge raw shortlist subject).2 = { subject with body := body } := by
  rw [judge]
  split
  · exact ⟨_, rfl⟩
  · split
    · unfold withRegressionReference
      simp only []
      split
      · exact ⟨_, rfl⟩
      · exact ⟨_, rfl⟩
    · split <;> exact ⟨_, rfl⟩

theorem judge_body {shortlist : List Entry} (subject : Subject)
    (plain : ∀ entry ∈ shortlist, raw.duplicateOf = some entry.number → entry.done = true →
      (DevopsCli.Text.find subject.body (regressionReference entry.number)).isSome = true) :
    (judge raw shortlist subject).2 = subject := by
  rw [judge]
  split
  · rfl
  · rename_i entry found
    split
    · rename_i done_
      obtain ⟨named, names, listed⟩ := Option.bind_eq_some_iff.mp found
      have number : entry.number = named := by simpa using List.find?_some listed
      have holds := plain entry (List.mem_of_find?_eq_some listed) (number ▸ names) done_
      simp [withRegressionReference, holds]
    · split <;> rfl

theorem planIntake_spec (planned : planIntake repo new run = some decision) :
    ∃ raw proposal judgement, run.reply = some raw ∧
      validateProposal raw (types run.declared) ((typeLabelOf (newSubject repo new).held.labels).isNone &&
        (titleLabels (newSubject repo new).title run.declared).typeLabel.isNone) = some proposal ∧
      place repo new run (judge raw (shortlist repo new (newSubject repo new) run.near)
        (newSubject repo new)).2 proposal judgement = decision := by
  rw [planIntake] at planned
  simp only [] at planned
  split at planned
  · exact absurd planned (by simp)
  · obtain ⟨raw, reply, planned⟩ := Option.bind_eq_some_iff.mp planned
    obtain ⟨proposal, valid, placed⟩ := Option.map_eq_some_iff.mp planned
    exact ⟨raw, proposal, _, reply, valid, placed⟩

end Plans

section Runs
variable {new : NewCandidate} {s t : State} {run : IntakeRun} {decision : IntakeDecision}

/-- The run files the candidate: no issue is its own yet, the reply is valid, and the run does not
    stop before its first write. -/
def Files (new : NewCandidate) (s : State) (run : IntakeRun) : Prop :=
  filedIssue new s = none ∧ (planIntake s.repo new run).isSome = true ∧ 0 < run.stop

/-- A run that files the candidate files its body: the reply names no done entry of the shortlist as
    the original, or the body refers to the one that it names. -/
def FilesBody (new : NewCandidate) (s : State) (run : IntakeRun) : Prop :=
  Files new s run → ∀ raw, run.reply = some raw →
    ∀ entry ∈ shortlist s.repo new (newSubject s.repo new) run.near,
      raw.duplicateOf = some entry.number → entry.done = true →
        (DevopsCli.Text.find new.filedBody (regressionReference entry.number)).isSome = true

theorem newSubject_found {issue : IssueRecord} (found : filedIssue new s = some issue) :
    newSubject s.repo new = ⟨issue.title, issue.body, some issue.number, issue.held⟩ := by
  rw [newSubject, ← filedIssue, found]

theorem newSubject_none (absent : filedIssue new s = none) :
    newSubject s.repo new = ⟨new.title, new.filedBody, none, { labels := [] }⟩ := by
  rw [newSubject, ← filedIssue, absent]

theorem sourceAgent_apart (field : ItemField) : inFamily field sourceAgentLabel = false := by
  revert field
  decide +kernel

theorem filingLabels_apart {labels : List Text}
    (given : labels = if new.byAgent then [sourceAgentLabel] else []) (field : ItemField) :
    ∀ label ∈ labels, inFamily field label = false := by
  intro label mem
  rw [given] at mem
  split at mem
  · rw [List.mem_singleton.mp mem]
    exact sourceAgent_apart field
  · exact absurd mem (by simp)

theorem filed_fields {labels : List Text} (apart : ∀ field, ∀ label ∈ labels, inFamily field label = false)
    (field : ItemField) : fieldOf { labels := labels } field = none := by
  have same : heldValues labels field = heldValues [] field :=
    heldValues_congr fun label family => by
      refine iff_of_false (fun mem => ?_) (by simp)
      exact absurd (apart field label mem) (by simp [family])
  refine fieldValue_none.mpr (same.trans ?_)
  simp [heldValues]

theorem file_found (absent : filedIssue new s = none) (title : decision.subject.title = new.title)
    (body : decision.subject.body = new.filedBody)
    (apart : ∀ field, ∀ label ∈ decision.filingLabels, inFamily field label = false) :
    filedIssue new (s.file decision) =
      some (s.repo.opened decision.subject.title decision.subject.body decision.filingLabels) := by
  have unprioritised := filed_fields apart .priority
  rw [filedIssue, State.file, Repo.create, List.find?_append, ← filedIssue, absent]
  simp [Repo.opened, isFiled, isCandidate, isItem, unprioritised, title, body]

theorem file_kept (kept : Kept new s) (open_ : s.placed = false) (absent : filedIssue new s = none)
    (title : decision.subject.title = new.title) (body : decision.subject.body = new.filedBody)
    (apart : ∀ field, ∀ label ∈ decision.filingLabels, inFamily field label = false) :
    Kept new (s.file decision) ∧ (s.file decision).placed = false := by
  have found := file_found absent title body apart
  have unmade : s.count .file + s.count .comment = 0 := by
    by_contra made
    have held := kept.found open_ (Nat.pos_of_ne_zero made)
    rw [absent] at held
    exact absurd held (by simp)
  have filed : (s.file decision).count .file = 1 := by
    have before : s.count .file = 0 := by omega
    simp only [State.count, State.file, List.countP_append] at before ⊢
    simp [before]
  have comments : (s.file decision).count .comment = 0 := by
    have before : s.count .comment = 0 := by omega
    simp only [State.count, State.file, List.countP_append] at before ⊢
    simp [before]
  refine ⟨⟨⟨by rw [filed], by rw [comments]; exact Nat.zero_le 1, ?_⟩, fun _ _ => by rw [found]; rfl, ?_, ?_⟩, ?_⟩
  · intro made mem priority
    rcases List.mem_append.mp mem with old | last
    · exact kept.once.labels made old priority
    · rw [List.mem_singleton.mp last]
  · intro _ some_
    rw [comments] at some_
    exact absurd some_ (by simp)
  · intro issue same
    obtain rfl := Option.some.inj (found.symm.trans same)
    exact fun field _ _ => apart field
  · have old : s.log.any (·.write.isPriority) = false := open_
    rw [State.placed, State.file, List.any_append, old]
    rfl

theorem applyPlacement_there {number : Nat} (there : decision.subject.number = some number) (stop : Nat) :
    applyPlacement s decision stop = s.writeAll number (decision.writes.take stop) := by
  simp only [applyPlacement, there]

theorem applyPlacement_new (absent : decision.subject.number = none) (stop : Nat) :
    applyPlacement s decision (stop + 1) =
      (s.file decision).writeAll s.repo.next (decision.writes.take stop) := by
  simp only [applyPlacement, absent]

theorem step_left (run : IntakeRun) (left : Left new s) (files : FilesBody new s run)
    (taken : step new s run = some t) : Left new t := by
  rw [step] at taken
  split at taken
  · exact absurd taken (by simp)
  · rename_i unplaced
    have open_ : s.placed = false := by simpa using unplaced
    have kept := left.2 open_
    split at taken
    · exact Option.some.inj taken ▸ left
    · rename_i decision planned
      obtain rfl := Option.some.inj taken
      obtain ⟨raw, proposal, judgement, reply, valid, placed⟩ := planIntake_spec planned
      obtain ⟨typed, value, effort⟩ := validateProposal_spec valid
      have follow (stop : Nat) : (decision.writes.take stop).Pairwise Follows :=
        (placed ▸ writes_follow).sublist (List.take_sublist _ _)
      cases found : filedIssue new s with
      | some issue =>
        obtain ⟨body, judged⟩ := judge_subject raw (shortlist s.repo new (newSubject s.repo new) run.near)
          (newSubject s.repo new)
        rw [judged, newSubject_found found] at placed
        rw [newSubject_found found] at typed
        have number : decision.subject.number = some issue.number := by rw [← placed, place_subject]
        have safe := writes_safe issue.held placed
          (fun untyped untitled => typed (by simp [untyped, untitled])) value effort
          (fun field mem none_ => kept.tidy issue found field mem none_)
          (fun writes => by
            rw [← placed, place_comment] at writes
            simpa using writes)
        rw [applyPlacement_there number]
        exact writeAll_left _ kept open_ found (fun write mem => safe write (List.mem_of_mem_take mem))
          (follow run.stop)
      | none =>
        cases stops : run.stop with
        | zero =>
          obtain ⟨body, judged⟩ := judge_subject raw
            (shortlist s.repo new (newSubject s.repo new) run.near) (newSubject s.repo new)
          have unnamed : decision.subject.number = none := by
            rw [← placed, place_subject, judged, newSubject_none found]
          simpa only [applyPlacement, unnamed] using left
        | succ stop =>
          have body := judge_body (newSubject s.repo new) fun entry mem names done_ => by
            rw [newSubject_none found]
            exact files ⟨found, by rw [planned, Option.isSome_some], stops ▸ stop.succ_pos⟩ raw reply
              entry mem names done_
          rw [body, newSubject_none found] at placed
          rw [newSubject_none found] at typed
          have number : decision.subject.number = none := by rw [← placed, place_subject]
          have apart := filingLabels_apart (placed ▸ place_filingLabels _ _ _ _ _ _)
          rw [applyPlacement_new number]
          have title : decision.subject.title = new.title := by rw [← placed, place_subject]
          have filed : decision.subject.body = new.filedBody := by rw [← placed, place_subject]
          obtain ⟨next, still⟩ := file_kept kept open_ found title filed apart
          have safe := writes_safe ⟨decision.filingLabels, fun _ => none, 0, none⟩ placed
            (fun untyped untitled => typed (by simp [untyped, untitled])) value effort
            (fun field _ _ => apart field) (fun _ => rfl)
          exact writeAll_left _ next still (file_found found title filed apart)
            (fun write mem => safe write (List.mem_of_mem_take mem)) (follow stop)

/-- Runs of intake on a candidate file it once, comment once and take no label from its issue until
    its Priority makes it an item, when each run that files it files its body. -/
theorem candidate_filed_once (new : NewCandidate) (s t : State) (runs : List IntakeRun)
    (start : s.log = []) (tidy : ∀ issue, filedIssue new s = some issue → Tidy issue.held)
    (files : Meets (step new) (FilesBody new) s runs) (run : exec (step new) s runs = some t) :
    FiledOnce t := by
  have none_ (write : Write) : s.count write = 0 := by simp [State.count, start]
  have once : FiledOnce s :=
    ⟨by rw [none_]; exact Nat.zero_le 1, by rw [none_]; exact Nat.zero_le 1, by simp [start]⟩
  have kept : Kept new s :=
    ⟨once, fun _ made => absurd made (by simp [none_]), fun _ made => absurd made (by simp [none_]), tidy⟩
  have left : Left new t := exec_invariant (Left new)
    (fun _ run _ left files taken => step_left run left files taken) ⟨once, fun _ => kept⟩ files run
  exact left.1

end Runs

section Inputs

def lostRetry : NewCandidate where
  title := "Retry is lost".toList
  body := "A call is sent once.".toList

def oneDone : Repo where
  issues := [{
    number := 1
    title := "Retry".toList
    body := "Retry a call.".toList
    isOpen := false
    held := { labels := ["priority/p2-medium".toList] } }]
  next := 2
  distinct := List.nodup_singleton _
  free := by
    intro issue mem
    rw [List.mem_singleton.mp mem]
    exact Nat.one_lt_two

def replyNaming (original : Option Nat) : ModelProposal where
  duplicateOf := original
  type := "type/bug".toList
  priority := "P2-Medium".toList
  value := "High".toList
  effort := "Low".toList

def runNaming (original : Option Nat) (stop : Nat) : IntakeRun where
  declared := ["type/bug".toList]
  near := [1]
  reply := some (replyNaming original)
  critical := false
  stop := stop

theorem untidy_free (repo : Repo) (absent : repo.issues.find? (isFiled lostRetry) = none) :
    ∀ issue, filedIssue lostRetry ⟨repo, []⟩ = some issue → Tidy issue.held :=
  fun _ found => absurd (absent.symm.trans found) (by simp)

/-- A run stops after it filed the issue, and the next one places it. -/
theorem candidate_filed_once_resumed : ∃ t : State,
    exec (step lostRetry) ⟨oneDone, []⟩ [runNaming none 1, runNaming none 9] = some t ∧ FiledOnce t := by
  have reached : (exec (step lostRetry) ⟨oneDone, []⟩ [runNaming none 1, runNaming none 9]).any
      (fun t => t.count .file = 1 ∧ t.count .comment = 1) = true := by
    decide +kernel
  obtain ⟨t, run, _⟩ := (Option.any_eq_true _ _).mp reached
  have unnamed (s : State) (stop : Nat) : FilesBody lostRetry s (runNaming none stop) := by
    intro _ raw reply entry _ names _
    obtain rfl := Option.some.inj reply
    exact absurd names (by simp [replyNaming])
  exact ⟨t, run, candidate_filed_once lostRetry ⟨oneDone, []⟩ t [runNaming none 1, runNaming none 9] rfl
    (untidy_free oneDone (by decide +kernel))
    ⟨unnamed _ 1, fun _ _ => ⟨unnamed _ 9, fun _ _ => trivial⟩⟩ run⟩

/-- The reply names a done item as the original, so the issue is filed with a reference that the
    candidate does not have, and the next run does not find it. -/
theorem regression_is_filed_again : ¬ ∀ (new : NewCandidate) (s t : State) (runs : List IntakeRun),
    s.log = [] → (∀ issue, filedIssue new s = some issue → Tidy issue.held) →
      exec (step new) s runs = some t → FiledOnce t := by
  intro once
  have reached : (exec (step lostRetry) ⟨oneDone, []⟩ [runNaming (some 1) 1, runNaming (some 1) 1]).any
      (fun t => t.count .file = 2) = true := by
    decide +kernel
  obtain ⟨t, run, twice⟩ := (Option.any_eq_true _ _).mp reached
  have filed := (once lostRetry ⟨oneDone, []⟩ t _ rfl (untidy_free oneDone (by decide +kernel)) run).filed
  have two : t.count .file = 2 := of_decide_eq_true twice
  omega

end Inputs
end DevopsCli.Roadmap.Intake
