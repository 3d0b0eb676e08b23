import DevopsCli.Lib.Run
import DevopsCli.Ai.Verdicts

/- The two session files in step, over any verdicts on their findings and candidates. -/
namespace DevopsCli.Ai.Review
open PyStr DevopsCli.Run

/-- The payloads of the two files, and the candidates that a call set to a reported verdict. -/
structure Session where
  reported : List SavedFinding
  candidates : List SavedFinding
  settled : List Nat := []

inductive Call where
  | reported (number : Int) (verdict : Verdict) (now : Str)
  | candidate (number : Int) (verdict : Verdict) (now : Str)

def hasReportedVerdict (pool : List SavedFinding) (n : Nat) : Bool :=
  ((pool[n - 1]?).map fun one => decide (one.fields.status ∈ reportedVerdicts)).getD false

def step (casing : Casing) (s : Session) : Call → Option Session
  | .reported number verdict now =>
    match s.reported[(number - 1).toNat]?,
      judgeReported casing s.reported (some s.candidates) number verdict now with
    | some finding, .ok (reported, some candidates) =>
      some
        { reported := reported
          candidates := candidates
          settled := (candidatesOf casing s.candidates finding).filter
            (hasReportedVerdict candidates) ++ s.settled }
    | _, _ => none
  | .candidate number verdict now =>
    match judgeCandidate casing s.candidates s.reported number verdict now with
    | .ok (candidates, reported, _) =>
      some
        { reported := reported
          candidates := candidates
          settled := [number.toNat].filter (hasReportedVerdict candidates) ++ s.settled }
    | .error _ => none

section Links
variable {casing : Casing} {pool other : List SavedFinding} {finding judged : SavedFinding}

theorem candidatesOf_congr (keys : pool.map (identity casing) = other.map (identity casing))
    (moved : finding.movedFromCandidate = judged.movedFromCandidate)
    (key : identity casing finding = identity casing judged) :
    candidatesOf casing pool finding = candidatesOf casing other judged := by
  have length : pool.length = other.length := by simpa using congrArg List.length keys
  rw [candidatesOf, candidatesOf, moved, key, length]
  cases judged.movedFromCandidate with
  | some n => rfl
  | none =>
    refine List.filter_congr fun n _ => ?_
    rw [← List.getElem?_map, ← List.getElem?_map, keys]

theorem candidatesOf_range {n : Nat} (link : n ∈ candidatesOf casing pool finding) :
    1 ≤ n ∧ n ≤ pool.length := by
  rw [candidatesOf] at link
  cases moved : finding.movedFromCandidate with
  | some number =>
    simp only [moved] at link
    split_ifs at link with within
    · rw [List.mem_singleton] at link
      omega
    · exact absurd link List.not_mem_nil
  | none =>
    simp only [moved] at link
    have inside := List.mem_range'_1.mp (List.mem_of_mem_filter link)
    omega

theorem mirrored_mirrored (target : SavedFinding) :
    mirrored (mirrored target judged) judged = mirrored target judged := rfl

theorem mirrorAll_keys (mirrors : List Nat) :
    (mirrorAll pool mirrors judged).map (identity casing) = pool.map (identity casing) := by
  induction mirrors generalizing pool with
  | nil => rfl
  | cons n rest ih =>
    rw [mirrorAll, List.foldl_cons]
    refine ih.trans ?_
    apply List.ext_getElem?
    intro k
    rw [List.getElem?_map, List.getElem?_map, List.getElem?_modify]
    cases pool[k]? with
    | none => rfl
    | some one =>
      simp only [Option.map_some]
      split_ifs
      · rfl
      · rfl

theorem mirrorAll_get (mirrors : List Nat) (k : Nat) :
    (mirrorAll pool mirrors judged)[k]? =
      if ∃ n ∈ mirrors, n - 1 = k then (pool[k]?).map fun target => mirrored target judged
      else pool[k]? := by
  induction mirrors generalizing pool with
  | nil => simp [mirrorAll]
  | cons n rest ih =>
    have first : mirrorAll pool (n :: rest) judged =
      mirrorAll (pool.modify (n - 1) fun target => mirrored target judged) rest judged := rfl
    rw [first, ih, List.getElem?_modify]
    cases pool[k]? with
    | none => simp
    | some one =>
      by_cases here : n - 1 = k
      · simp [here, mirrored_mirrored]
      · simp [here]

theorem mirrorAll_fields {mirrors : List Nat} (numbers : ∀ m ∈ mirrors, 1 ≤ m) {n : Nat}
    (positive : 1 ≤ n) (within : n ≤ pool.length) :
    ((mirrorAll pool mirrors judged)[n - 1]?).map SavedFinding.fields =
      if n ∈ mirrors then some judged.fields else (pool[n - 1]?).map SavedFinding.fields := by
  have same : (∃ m ∈ mirrors, m - 1 = n - 1) ↔ n ∈ mirrors := by
    constructor
    · rintro ⟨m, mirror, equal⟩
      have : m = n := by have := numbers m mirror; omega
      exact this ▸ mirror
    · exact fun mirror => ⟨n, mirror, rfl⟩
  rw [mirrorAll_get, List.getElem?_eq_getElem (by omega)]
  simp only [same]
  split_ifs
  · rfl
  · rfl

end Links

section Calls
variable {casing : Casing} {reported candidates : List SavedFinding} {number : Int}
  {verdict : Verdict} {now : Str}

theorem recordVerdict_fields {finding judged : SavedFinding}
    (recorded : recordVerdict casing finding verdict now = .ok judged) :
    judged = { finding with fields := judged.fields } := by
  simp only [recordVerdict, applyVerdict, bind, Except.bind, pure, Except.pure] at recorded
  split at recorded
  · cases recorded
  split at recorded
  · cases recorded
  split at recorded
  · cases recorded
  split at recorded
  · cases recorded
  cases recorded
  rfl

theorem numberedFinding_ok {field : String} {finding : SavedFinding}
    (found : numberedFinding reported number field = .ok finding) :
    1 ≤ number ∧ reported[(number - 1).toNat]? = some finding := by
  rw [numberedFinding] at found
  split at found
  · rename_i own listed
    split_ifs at found with positive
    cases found
    exact ⟨positive, listed⟩
  · cases found

theorem judgeReported_ok {result : List SavedFinding × Option (List SavedFinding)}
    (judged : judgeReported casing reported (some candidates) number verdict now = .ok result) :
    ∃ finding next, reported[(number - 1).toNat]? = some finding ∧
      recordVerdict casing finding verdict now = .ok next ∧
      result = (reported.set (number - 1).toNat next,
        some (mirrorAll candidates (candidatesOf casing candidates finding) next)) := by
  simp only [judgeReported, bind, Except.bind, pure, Except.pure] at judged
  split at judged
  · cases judged
  rename_i finding found
  split at judged
  · cases judged
  rename_i next recorded
  cases judged
  exact ⟨finding, next, (numberedFinding_ok found).2, recorded, rfl⟩

theorem mem_copiesOf {n i : Nat} :
    i ∈ copiesOf casing candidates n reported ↔
      ∃ finding, reported[i]? = some finding ∧ n ∈ candidatesOf casing candidates finding := by
  rw [copiesOf, List.mem_filter, List.mem_range]
  constructor
  · rintro ⟨-, linked⟩
    cases listed : reported[i]? with
    | none => simp [listed] at linked
    | some finding => exact ⟨finding, rfl, by simpa [listed] using linked⟩
  · rintro ⟨finding, listed, linked⟩
    exact ⟨(List.getElem?_eq_some_iff.mp listed).1, by simp [listed, linked]⟩

theorem copyOf_some {n i : Nat} (copy : copyOf casing candidates n reported = .ok (some i)) :
    copiesOf casing candidates n reported = [i] ∧
      ∃ finding, reported[i]? = some finding ∧ n ∈ candidatesOf casing candidates finding ∧
        ∀ m ∈ candidatesOf casing candidates finding, m = n := by
  rw [copyOf] at copy
  cases copies : copiesOf casing candidates n reported with
  | nil =>
    rw [copies] at copy
    cases copy
  | cons first rest =>
    simp only [copies] at copy
    split_ifs at copy with ambiguous
    cases copy
    rw [not_or, not_not] at ambiguous
    obtain ⟨rfl, single⟩ := ambiguous
    have copied : i ∈ copiesOf casing candidates n reported := by rw [copies]; exact List.mem_singleton_self i
    obtain ⟨finding, listed, linked⟩ := mem_copiesOf.mp copied
    refine ⟨rfl, finding, listed, linked, fun m other => ?_⟩
    simp only [List.flatMap_cons, List.flatMap_nil, listed, Option.map_some, Option.getD_some,
      List.append_nil, List.length_mergeSort, not_lt] at single
    have own := List.mem_dedup.mpr linked
    obtain ⟨only, one⟩ := List.length_eq_one_iff.mp
      (Nat.le_antisymm single (List.length_pos_of_mem own))
    have others := List.mem_dedup.mpr other
    rw [one, List.mem_singleton] at own others
    rw [own, others]

theorem copyOf_none {n : Nat} (copy : copyOf casing candidates n reported = .ok none)
    {finding : SavedFinding} (listed : finding ∈ reported) :
    n ∉ candidatesOf casing candidates finding := by
  intro linked
  obtain ⟨i, here⟩ := List.mem_iff_getElem?.mp listed
  have copied := mem_copiesOf.mpr ⟨finding, here, linked⟩
  rw [copyOf] at copy
  split at copy
  · rename_i empty
    rw [empty] at copied
    exact absurd copied List.not_mem_nil
  · dsimp only at copy
    split_ifs at copy
    cases copy

theorem judgeCandidate_ok {result : List SavedFinding × List SavedFinding × Bool}
    (judged : judgeCandidate casing candidates reported number verdict now = .ok result) :
    ∃ candidate next copy, 1 ≤ number ∧ candidates[(number - 1).toNat]? = some candidate ∧
      copyOf casing candidates number.toNat reported = .ok copy ∧
      recordVerdict casing candidate verdict now = .ok next ∧
      result.1 = candidates.set (number - 1).toNat next ∧
      ((∃ i, copy = some i ∧ result.2.1 = reported.modify i fun target => mirrored target next) ∨
        copy = none ∧ next.fields.status ∉ reportedVerdicts ∧ result.2.1 = reported ∨
        copy = none ∧ next.fields.status ∈ reportedVerdicts ∧
          result.2.1 = reported ++ [{ next with movedFromCandidate := some number }]) := by
  simp only [judgeCandidate, bind, Except.bind, pure, Except.pure] at judged
  split at judged
  · cases judged
  rename_i candidate found
  split at judged
  · cases judged
  rename_i copy placed
  split at judged
  · cases judged
  rename_i next recorded
  obtain ⟨positive, listed⟩ := numberedFinding_ok found
  refine ⟨candidate, next, copy, positive, listed, placed, recorded, ?_⟩
  cases copy with
  | some i =>
    cases judged
    exact ⟨rfl, .inl ⟨i, rfl, rfl⟩⟩
  | none =>
    dsimp only at judged
    split_ifs at judged with kept
    · cases judged
      exact ⟨rfl, .inr (.inr ⟨rfl, kept, rfl⟩)⟩
    · cases judged
      exact ⟨rfl, .inr (.inl ⟨rfl, kept, rfl⟩)⟩

end Calls

section Law
variable {casing : Casing}

/-- Each finding has the verdict of each candidate that it reports. -/
def InStep (casing : Casing) (s : Session) : Prop :=
  ∀ finding ∈ s.reported, ∀ n ∈ candidatesOf casing s.candidates finding,
    (s.candidates[n - 1]?).map SavedFinding.fields = some finding.fields

def Alone (casing : Casing) (s : Session) (i : Nat) (finding : SavedFinding) : Prop :=
  ∀ j other, s.reported[j]? = some other → j ≠ i →
    ∀ n ∈ candidatesOf casing s.candidates finding, n ∉ candidatesOf casing s.candidates other

def Unchanged (casing : Casing) (finding : SavedFinding) (verdict : Verdict) (now : Str) : Prop :=
  (recordVerdict casing finding verdict now).map SavedFinding.fields = .ok finding.fields

/-- A verdict by the number of a finding goes to one that shares no candidate, or changes
    nothing. -/
def Unshared (casing : Casing) (s : Session) : Call → Prop
  | .candidate _ _ _ => True
  | .reported number verdict now => ∀ finding, s.reported[(number - 1).toNat]? = some finding →
      Alone casing s (number - 1).toNat finding ∨ Unchanged casing finding verdict now

variable {s t : Session} {number : Int} {verdict : Verdict} {now : Str}

theorem step_reported (taken : step casing s (.reported number verdict now) = some t) :
    ∃ finding next, s.reported[(number - 1).toNat]? = some finding ∧
      recordVerdict casing finding verdict now = .ok next ∧
      t.reported = s.reported.set (number - 1).toNat next ∧
      t.candidates = mirrorAll s.candidates (candidatesOf casing s.candidates finding) next ∧
      t.settled = (candidatesOf casing s.candidates finding).filter
        (hasReportedVerdict t.candidates) ++ s.settled := by
  rw [step] at taken
  split at taken
  · rename_i finding reported candidates listed judged
    obtain ⟨own, next, found, recorded, result⟩ := judgeReported_ok judged
    obtain rfl := Option.some.inj (listed.symm.trans found)
    cases result
    cases taken
    exact ⟨finding, next, listed, recorded, rfl, rfl, rfl⟩
  · cases taken

theorem step_candidate (taken : step casing s (.candidate number verdict now) = some t) :
    ∃ moved, judgeCandidate casing s.candidates s.reported number verdict now =
        .ok (t.candidates, t.reported, moved) ∧
      t.settled = [number.toNat].filter (hasReportedVerdict t.candidates) ++ s.settled := by
  rw [step] at taken
  split at taken
  · rename_i candidates reported moved judged
    cases taken
    exact ⟨moved, judged, rfl⟩
  · cases taken

theorem identity_recorded {finding next : SavedFinding}
    (recorded : recordVerdict casing finding verdict now = .ok next) :
    identity casing next = identity casing finding ∧
      next.movedFromCandidate = finding.movedFromCandidate := by
  rw [recordVerdict_fields recorded]
  exact ⟨rfl, rfl⟩

theorem set_keys {pool : List SavedFinding} {k : Nat} {finding next : SavedFinding}
    (listed : pool[k]? = some finding) (key : identity casing next = identity casing finding) :
    (pool.set k next).map (identity casing) = pool.map (identity casing) := by
  obtain ⟨within, own⟩ := List.getElem?_eq_some_iff.mp listed
  have mapped : k < (pool.map (identity casing)).length := by rwa [List.length_map]
  have same := List.set_getElem_self mapped
  rw [List.getElem_map, own] at same
  rw [List.map_set, key, same]

theorem step_keys {call : Call} (taken : step casing s call = some t) :
    t.candidates.map (identity casing) = s.candidates.map (identity casing) := by
  cases call with
  | reported number verdict now =>
    obtain ⟨finding, next, -, -, -, mirrors, -⟩ := step_reported taken
    rw [mirrors]
    exact mirrorAll_keys _
  | candidate number verdict now =>
    obtain ⟨_, judged, -⟩ := step_candidate taken
    obtain ⟨candidate, next, copy, -, listed, -, recorded, candidates, -⟩ := judgeCandidate_ok judged
    rw [show t.candidates = _ from candidates]
    exact set_keys listed (identity_recorded recorded).1

theorem step_links {call : Call} (taken : step casing s call = some t) (one : SavedFinding) :
    candidatesOf casing t.candidates one = candidatesOf casing s.candidates one :=
  candidatesOf_congr (step_keys taken) rfl rfl

theorem fields_reported {finding next : SavedFinding} {n : Nat} (positive : 1 ≤ n)
    (within : n ≤ s.candidates.length)
    (mirrors : t.candidates = mirrorAll s.candidates (candidatesOf casing s.candidates finding) next) :
    (t.candidates[n - 1]?).map SavedFinding.fields =
      if n ∈ candidatesOf casing s.candidates finding then some next.fields
      else (s.candidates[n - 1]?).map SavedFinding.fields := by
  rw [mirrors]
  exact mirrorAll_fields (fun m link => (candidatesOf_range link).1) positive within

theorem reported_inStep (inStep : InStep casing s)
    (taken : step casing s (.reported number verdict now) = some t) :
    InStep casing t ↔ Unshared casing s (.reported number verdict now) := by
  obtain ⟨finding, next, listed, recorded, reported, mirrors, -⟩ := step_reported taken
  obtain ⟨key, moved⟩ := identity_recorded recorded
  have links := step_links taken
  have own : candidatesOf casing t.candidates next = candidatesOf casing s.candidates finding :=
    candidatesOf_congr (step_keys taken) moved key
  have before := inStep finding (List.mem_of_getElem? listed)
  constructor
  · intro after found again
    obtain rfl := Option.some.inj (listed.symm.trans again)
    by_cases alone : Alone casing s (number - 1).toNat finding
    · exact .inl alone
    refine .inr ?_
    rw [Alone] at alone
    push Not at alone
    obtain ⟨j, other, place, apart, n, link, shared⟩ := alone
    have kept : t.reported[j]? = some other := by
      rw [reported, List.getElem?_set_ne (Ne.symm apart)]
      exact place
    have held := after other (List.mem_of_getElem? kept) n (by rw [links]; exact shared)
    obtain ⟨positive, within⟩ := candidatesOf_range link
    rw [fields_reported positive within mirrors, if_pos link] at held
    have old := inStep other (List.mem_of_getElem? place) n shared
    rw [before n link] at old
    rw [Unchanged, recorded, Except.map]
    exact congrArg Except.ok (Option.some.inj (held.trans old.symm))
  · intro unshared one member n link
    obtain ⟨j, place⟩ := List.mem_iff_getElem?.mp member
    rw [reported] at place
    by_cases here : j = (number - 1).toNat
    · subst here
      rw [List.getElem?_set_self (List.getElem?_eq_some_iff.mp listed).1] at place
      obtain rfl := Option.some.inj place
      rw [own] at link
      obtain ⟨positive, within⟩ := candidatesOf_range link
      rw [fields_reported positive within mirrors, if_pos link]
    · rw [List.getElem?_set_ne (Ne.symm here)] at place
      rw [links] at link
      obtain ⟨positive, within⟩ := candidatesOf_range link
      rw [fields_reported positive within mirrors]
      have old := inStep one (List.mem_of_getElem? place) n link
      split_ifs with shared
      · rcases unshared finding listed with alone | unchanged
        · exact absurd link (alone j one place here n shared)
        · rw [Unchanged, recorded, Except.map] at unchanged
          rw [Except.ok.inj unchanged, ← before n shared, old]
      · exact old

theorem candidate_inStep (inStep : InStep casing s)
    (taken : step casing s (.candidate number verdict now) = some t) : InStep casing t := by
  obtain ⟨_, judged, -⟩ := step_candidate taken
  obtain ⟨candidate, next, copy, positive, listed, placed, recorded, candidates, files⟩ :=
    judgeCandidate_ok judged
  dsimp only at candidates files
  have links := step_links taken
  have here : (number - 1).toNat = number.toNat - 1 := by omega
  have inside := (List.getElem?_eq_some_iff.mp listed).1
  have judgedFields : (t.candidates[number.toNat - 1]?).map SavedFinding.fields = some next.fields := by
    rw [candidates, ← here, List.getElem?_set_self inside, Option.map_some]
  have others {n : Nat} (within : 1 ≤ n) (apart : n ≠ number.toNat) :
      t.candidates[n - 1]? = s.candidates[n - 1]? := by
    rw [candidates, List.getElem?_set_ne (by omega)]
  have untouched (one : SavedFinding) (member : one ∈ s.reported)
      (free : number.toNat ∉ candidatesOf casing s.candidates one) (n : Nat)
      (link : n ∈ candidatesOf casing s.candidates one) :
      (t.candidates[n - 1]?).map SavedFinding.fields = some one.fields := by
    rw [others (candidatesOf_range link).1 (fun same => free (same ▸ link))]
    exact inStep one member n link
  intro one member n link
  rw [links] at link
  rcases files with ⟨i, rfl, reported⟩ | ⟨rfl, -, reported⟩ | ⟨rfl, -, reported⟩
  · obtain ⟨copies, target, place, linked, only⟩ := copyOf_some placed
    rw [reported] at member
    obtain ⟨j, at_⟩ := List.mem_iff_getElem?.mp member
    rw [List.getElem?_modify] at at_
    cases old : s.reported[j]? with
    | none => simp [old] at at_
    | some before =>
      by_cases same : i = j
      · subst same
        obtain rfl := Option.some.inj (old.symm.trans place)
        simp only [old, if_true, Option.map_eq_map, Option.map_some, Option.some.injEq] at at_
        subst at_
        have linkedHere : n = number.toNat := only n link
        rw [linkedHere]
        exact judgedFields
      · simp only [old, same, if_false, Option.map_eq_map, Option.map_some, Option.some.injEq] at at_
        subst at_
        refine untouched before (List.mem_of_getElem? old) (fun link => ?_) n link
        have copied := mem_copiesOf.mpr ⟨before, old, link⟩
        rw [copies, List.mem_singleton] at copied
        exact same copied.symm
  · rw [reported] at member
    exact untouched one member (copyOf_none placed member) n link
  · rw [reported] at member
    rcases List.mem_append.mp member with member | added
    · exact untouched one member (copyOf_none placed member) n link
    · rw [List.mem_singleton] at added
      subst added
      rw [candidatesOf] at link
      dsimp only at link
      split_ifs at link with range
      · rw [List.mem_singleton] at link
        rw [link]
        exact judgedFields
      · exact absurd link List.not_mem_nil

def Reports (casing : Casing) (s : Session) (n : Nat) : Prop :=
  ∃ finding ∈ s.reported, n ∈ candidatesOf casing s.candidates finding

theorem reported_reports {n : Nat} (taken : step casing s (.reported number verdict now) = some t)
    (reports : Reports casing s n ∨ n ∈ t.settled ∧ n ∉ s.settled) : Reports casing t n := by
  obtain ⟨finding, next, listed, recorded, reported, -, settled⟩ := step_reported taken
  obtain ⟨key, moved⟩ := identity_recorded recorded
  have own : candidatesOf casing t.candidates next = candidatesOf casing s.candidates finding :=
    candidatesOf_congr (step_keys taken) moved key
  have placed : t.reported[(number - 1).toNat]? = some next := by
    rw [reported, List.getElem?_set_self (List.getElem?_eq_some_iff.mp listed).1]
  have judged (link : n ∈ candidatesOf casing s.candidates finding) : Reports casing t n :=
    ⟨next, List.mem_of_getElem? placed, own ▸ link⟩
  rcases reports with ⟨one, member, link⟩ | ⟨set_, fresh⟩
  · obtain ⟨j, place⟩ := List.mem_iff_getElem?.mp member
    by_cases here : j = (number - 1).toNat
    · subst here
      obtain rfl := Option.some.inj (listed.symm.trans place)
      exact judged link
    · refine ⟨one, List.mem_of_getElem? (i := j) ?_, by rw [step_links taken]; exact link⟩
      rw [reported, List.getElem?_set_ne (Ne.symm here)]
      exact place
  · rw [settled] at set_
    rcases List.mem_append.mp set_ with link | old
    · exact judged (List.mem_of_mem_filter link)
    · exact absurd old fresh

theorem candidate_reports {n : Nat} (taken : step casing s (.candidate number verdict now) = some t)
    (reports : Reports casing s n ∨ n ∈ t.settled ∧ n ∉ s.settled) : Reports casing t n := by
  obtain ⟨_, judged, settled⟩ := step_candidate taken
  obtain ⟨candidate, next, copy, positive, listed, placed, recorded, candidates, files⟩ :=
    judgeCandidate_ok judged
  dsimp only at candidates files
  have links := step_links taken
  have inside := (List.getElem?_eq_some_iff.mp listed).1
  rcases reports with ⟨one, member, link⟩ | ⟨set_, fresh⟩
  · rcases files with ⟨i, rfl, reported⟩ | ⟨rfl, -, reported⟩ | ⟨rfl, -, reported⟩
    · obtain ⟨j, place⟩ := List.mem_iff_getElem?.mp member
      refine ⟨if i = j then mirrored one next else one, List.mem_of_getElem? (i := j) ?_, ?_⟩
      · rw [reported, List.getElem?_modify, place]
        split_ifs
        · rfl
        · rfl
      · rw [links]
        split_ifs
        · exact link
        · exact link
    · exact ⟨one, by rwa [reported], by rwa [links]⟩
    · refine ⟨one, ?_, by rwa [links]⟩
      rw [reported]
      exact List.mem_append_left _ member
  · rw [settled] at set_
    rcases List.mem_append.mp set_ with written | old
    · obtain ⟨only, shown⟩ := List.mem_filter.mp written
      rw [List.mem_singleton] at only
      subst only
      have here : number.toNat - 1 = (number - 1).toNat := by omega
      have status : next.fields.status ∈ reportedVerdicts := by
        rw [hasReportedVerdict, here, candidates, List.getElem?_set_self inside] at shown
        simpa using shown
      rcases files with ⟨i, rfl, reported⟩ | ⟨rfl, kept, -⟩ | ⟨rfl, -, reported⟩
      · obtain ⟨-, target, place, linked, -⟩ := copyOf_some placed
        refine ⟨mirrored target next, List.mem_of_getElem? (i := i) ?_, ?_⟩
        · rw [reported, List.getElem?_modify, place]
          simp
        · rw [links]
          exact linked
      · exact absurd status kept
      · refine ⟨{ next with movedFromCandidate := some number }, ?_, ?_⟩
        · rw [reported]
          exact List.mem_append_right _ (List.mem_singleton_self _)
        · have range : 1 ≤ number ∧ number ≤ s.candidates.length := by omega
          rw [links]
          show number.toNat ∈ if 1 ≤ number ∧ number ≤ s.candidates.length then [number.toNat] else []
          rw [if_pos range]
          exact List.mem_singleton_self _
    · exact absurd old fresh

theorem step_inStep {call : Call} (inStep : InStep casing s) (taken : step casing s call = some t) :
    InStep casing t ↔ Unshared casing s call := by
  cases call with
  | reported number verdict now => exact reported_inStep inStep taken
  | candidate number verdict now => exact iff_of_true (candidate_inStep inStep taken) trivial

/-- What a call set to a reported verdict is reported. -/
def Settled (casing : Casing) (s : Session) : Prop := ∀ n ∈ s.settled, Reports casing s n

theorem step_settled {call : Call} (settled : Settled casing s)
    (taken : step casing s call = some t) : Settled casing t := by
  intro n set_
  have reports : Reports casing s n ∨ n ∈ t.settled ∧ n ∉ s.settled := by
    by_cases old : n ∈ s.settled
    · exact .inl (settled n old)
    · exact .inr ⟨set_, old⟩
  cases call with
  | reported number verdict now => exact reported_reports taken reports
  | candidate number verdict now => exact candidate_reports taken reports

/-- From two files in step, over any calls that do not raise: the files are in step after each call
    exactly when no verdict by the number of a finding changes one that shares a candidate, and
    each candidate that was set to a reported verdict is reported. -/
theorem session_files_agree {reported candidates : List SavedFinding} {calls : List Call}
    (start : InStep casing { reported := reported, candidates := candidates })
    (run : exec (step casing) { reported := reported, candidates := candidates } calls = some s) :
    (Meets (step casing) (Unshared casing) { reported := reported, candidates := candidates } calls ↔
      ∀ done_ rest, calls = done_ ++ rest → ∀ m,
        exec (step casing) { reported := reported, candidates := candidates } done_ = some m →
        InStep casing m) ∧
    ∀ n ∈ s.settled, Reports casing s n := by
  constructor
  · exact meets_iff_reached (InStep casing) (fun _ _ _ inStep taken => step_inStep inStep taken)
      start run
  · have settled : Settled casing s := exec_invariant_always
      (fun _ _ _ settled taken => step_settled settled taken)
      (fun _ none_ => absurd none_ List.not_mem_nil) run
    exact settled

end Law

section Instances

def ascii : Casing where
  lower text := text.map Char.toLower
  upper text := text.map Char.toUpper

def traversal (fingerprint title : String) : SavedFinding where
  fingerprint := fingerprint.toList
  location := "src/a.py:1".toList
  title := title.toList

def verified : Call := .reported 1 ⟨"VERIFIED".toList, []⟩ "t".toList

def verifiedFields : VerdictFields where
  status := "VERIFIED".toList
  verified := true
  verifiedBy := some human
  verifiedAt := some "t".toList

def traversalVerified (fingerprint title : String) : SavedFinding :=
  { traversal fingerprint title with fields := verifiedFields }

theorem session_files_agree_one :
    (Meets (step ascii) (Unshared ascii)
        { reported := [traversal "f" "A"], candidates := [traversal "f" "A"] } [verified] ↔
      ∀ done_ rest, [verified] = done_ ++ rest → ∀ m, exec (step ascii)
        { reported := [traversal "f" "A"], candidates := [traversal "f" "A"] } done_ = some m →
        InStep ascii m) ∧
    ∀ n ∈ [1], Reports ascii
      ⟨[traversalVerified "f" "A"], [traversalVerified "f" "A"], [1]⟩ n :=
  session_files_agree (s := ⟨[traversalVerified "f" "A"], [traversalVerified "f" "A"], [1]⟩)
    (by unfold InStep; decide) rfl

/-- Two findings report one candidate, and a verdict on the first of them is not on the second. -/
theorem shared_candidate_out_of_step :
    InStep ascii
      { reported := [traversal "f" "A", traversal "f" "B"], candidates := [traversal "f" "A"] } ∧
    ∃ t, step ascii
        { reported := [traversal "f" "A", traversal "f" "B"], candidates := [traversal "f" "A"] }
        verified = some t ∧ ¬InStep ascii t := by
  refine ⟨by unfold InStep; decide, _, rfl, ?_⟩
  intro inStep
  have second := inStep (traversal "f" "B") (List.mem_cons_of_mem _ List.mem_cons_self) 1
    (by decide)
  exact absurd second (by decide)

end Instances
end DevopsCli.Ai.Review
