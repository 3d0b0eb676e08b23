import DevopsCli.Security.Suppression

/- The order of inherited suppressions: when the rules of a file stand before those of the files
   that it extends. -/
namespace DevopsCli.Security.Suppression
open PyStr DepthFirst

section Graph
variable (files : Files)

def rulesOf (file : Str) : List SuppressionRule :=
  match readPolicy files file with
  | .ok (rules, _) => rules
  | .error _ => []

def parentsOf (file : Str) : List Str :=
  match readPolicy files file with
  | .ok (_, parents) => parents
  | .error _ => []

def IsPolicy (file : Str) : Prop := (readPolicy files file).isOk = true

abbrev Extends (file other : Str) : Prop := LeadsTo (parentsOf files) file other

def policyOf (sources : List Str) : SuppressionPolicy where
  rules := sources.flatMap (rulesOf files)
  sources := sources

/-- The law of a loaded policy: each file that can be reached is in it once, with its rules in file
    order, the rules of a file come before those of the files that it extends and that do not
    extend it, and a finding is suppressed by the rule of the nearest extending file. -/
structure InheritedLast (world : Outside) (root : Str) (policy : SuppressionPolicy) : Prop where
  each : ∀ file, file ∈ policy.sources ↔ Reach (parentsOf files) root file
  once : policy.sources.Nodup
  rules : policy.rules = policy.sources.flatMap (rulesOf files)
  before : ∀ file parent, file ∈ policy.sources → rulesOf files file ≠ [] →
    rulesOf files parent ≠ [] → Extends files file parent → ¬Extends files parent file →
    Earlier policy.sources file parent
  silent : ∀ finding today, policy.suppresses files world finding today = none ↔
    ∀ file ∈ policy.sources, ∀ rule ∈ rulesOf files file, rule.hits files world finding today = false
  nearest : ∀ finding today rule, policy.suppresses files world finding today = some rule →
    ∃ file ∈ policy.sources,
      (rulesOf files file).find? (fun rule => rule.hits files world finding today) = some rule ∧
      ∀ other ∈ policy.sources, (∃ rule ∈ rulesOf files other,
        rule.hits files world finding today = true) →
        Extends files other file → Extends files file other

def LoadsInherited (world : Outside) (root : Str) : Prop :=
  ∃ policy loaded, loadPolicy files (maxInheritanceDepth + 1) root [] = .ok (policy, loaded) ∧
    InheritedLast files world root policy

/-- A skip does no harm: of the files with rules loaded so far, each one that the skipped parent is
    or extends, and that stands before a file that leads to the skip, extends this file too. -/
def HarmlessSkip (child parent : Str) (loaded : List Str) : Prop :=
  ∀ file other, rulesOf files file ≠ [] → rulesOf files other ≠ [] → Earlier loaded other file →
    Reach (parentsOf files) file child → Reach (parentsOf files) parent other →
    Extends files other file

/-- Every step of the load is in order: a file that is entered is a policy and within the limit,
    and a skip does no harm. -/
def StepsInOrder (root : Str) : Prop :=
  IsPolicy files root ∧ ∃ loaded, Scans (parentsOf files) (IsPolicy files) (HarmlessSkip files)
    maxInheritanceDepth root (parentsOf files root) [root] loaded

end Graph

section Loading
variable {files : Files} {root : Str} {loaded after : List Str}

theorem readPolicy_ok {file : Str} (policy : IsPolicy files file) :
    readPolicy files file = .ok (rulesOf files file, parentsOf files file) := by
  unfold IsPolicy at policy
  unfold rulesOf parentsOf
  cases read : readPolicy files file with
  | ok pair => rfl
  | error error =>
    rw [read] at policy
    cases policy

theorem extend_policyOf (sources news : List Str) :
    (policyOf files sources).extend (policyOf files news) = policyOf files (sources ++ news) := by
  unfold policyOf SuppressionPolicy.extend
  rw [List.flatMap_append]

abbrev AnySkip (_ _ : Str) (_ : List Str) : Prop := True

abbrev Loads (files : Files) : Nat → Str → List Str → List Str → List Str → Prop :=
  Scans (parentsOf files) (IsPolicy files) AnySkip

def Spec (files : Files) (load : Str → List Str → Except SuppressionPolicyError
    (SuppressionPolicy × List Str)) (visits : Str → List Str → List Str → Prop) : Prop :=
  ∀ file loaded policy after, load file loaded = .ok (policy, after) ↔
    ∃ news, after = loaded ++ news ∧ policy = policyOf files news ∧ visits file loaded after

/-- What one file brings when so many levels are left below it. -/
def Visits (files : Files) : Nat → Str → List Str → List Str → Prop
  | 0, _, _, _ => False
  | levels + 1, file, loaded, after =>
    IsPolicy files file ∧ Loads files levels file (parentsOf files file) (loaded ++ [file]) after

theorem inherit_spec {levels : Nat} (child : Str) (spec : Spec files (loadPolicy files levels)
      (Visits files levels)) (parents : List Str) (sources loaded : List Str)
    (policy : SuppressionPolicy) (after : List Str) :
    inherit (loadPolicy files levels) parents (policyOf files sources) loaded = .ok (policy, after) ↔
      ∃ news, after = loaded ++ news ∧ policy = policyOf files (sources ++ news) ∧
        Loads files levels child parents loaded after := by
  induction parents generalizing sources loaded with
  | nil =>
    rw [inherit]
    constructor
    · intro done
      obtain ⟨rfl, rfl⟩ := Prod.mk.inj (Except.ok.inj done)
      exact ⟨[], by simp, by simp, .done _ _ _⟩
    · rintro ⟨news, rfl, rfl, scans⟩
      generalize whole : loaded ++ news = after at scans
      cases scans
      have none_ : news = [] := by simpa using whole
      rw [none_, List.append_nil]
  | cons parent rest ih =>
    rw [inherit]
    split
    · next here =>
      rw [ih]
      constructor
      · rintro ⟨news, split, made, scans⟩
        exact ⟨news, split, made, .skipped here trivial scans⟩
      · rintro ⟨news, split, made, scans⟩
        cases scans with
        | skipped _ _ later => exact ⟨news, split, made, later⟩
        | entered fresh _ _ _ => exact absurd here fresh
    · next fresh =>
      constructor
      · intro done
        cases load : loadPolicy files levels parent loaded with
        | error error =>
          rw [load] at done
          cases done
        | ok pair =>
          obtain ⟨inherited, middle⟩ := pair
          rw [load] at done
          obtain ⟨own, rfl, rfl, visits⟩ := (spec _ _ _ _).mp load
          simp only [extend_policyOf] at done
          obtain ⟨news, split, made, scans⟩ := (ih _ _).mp done
          refine ⟨own ++ news, by rw [split, List.append_assoc], by rw [made, List.append_assoc], ?_⟩
          cases levels with
          | zero => exact visits.elim
          | succ levels => exact .entered fresh visits.1 visits.2 scans
      · rintro ⟨news, split, made, scans⟩
        cases scans with
        | skipped here _ _ => exact absurd here fresh
        | @entered levels _ _ _ _ middle _ _ allowed below later =>
          obtain ⟨own, middle_⟩ := (List.prefix_append loaded [parent]).trans below.begins
          have load := (spec parent loaded (policyOf files own) middle).mpr
            ⟨own, middle_.symm, rfl, allowed, below⟩
          rw [load]
          simp only [extend_policyOf]
          rw [ih]
          obtain ⟨more, after_⟩ := later.begins
          refine ⟨more, after_.symm, ?_, later⟩
          rw [← middle_, List.append_assoc, split] at after_
          rw [made, List.append_assoc, List.append_cancel_left after_]

theorem loadPolicy_spec (levels : Nat) : Spec files (loadPolicy files levels) (Visits files levels) := by
  induction levels with
  | zero =>
    intro file loaded policy after
    constructor
    · intro done
      cases done
    · rintro ⟨_, _, _, never⟩
      exact never.elim
  | succ levels ih =>
    intro file loaded policy after
    rw [loadPolicy]
    by_cases policy_ : IsPolicy files file
    · have start : (⟨rulesOf files file, [file]⟩ : SuppressionPolicy) = policyOf files [file] := by
        unfold policyOf
        rw [List.flatMap_singleton]
      rw [readPolicy_ok policy_]
      simp only [start]
      rw [inherit_spec file ih]
      constructor
      · rintro ⟨news, split, made, scans⟩
        exact ⟨file :: news, by rw [split]; simp, made, policy_, scans⟩
      · rintro ⟨news, split, made, _, scans⟩
        obtain ⟨more, after_⟩ := scans.begins
        refine ⟨more, after_.symm, ?_, scans⟩
        rw [split, List.append_assoc] at after_
        rw [made, ← List.append_cancel_left after_]
    · have failed : ∃ error, readPolicy files file = .error error := by
        unfold IsPolicy at policy_
        cases read : readPolicy files file with
        | ok pair =>
          rw [read] at policy_
          exact absurd rfl policy_
        | error error => exact ⟨error, rfl⟩
      obtain ⟨error, read⟩ := failed
      rw [read]
      constructor
      · intro done
        cases done
      · rintro ⟨_, _, _, here, _⟩
        exact absurd here policy_

theorem loadPolicy_ok (policy : SuppressionPolicy) (loaded : List Str) :
    loadPolicy files (maxInheritanceDepth + 1) root [] = .ok (policy, loaded) ↔
      policy = policyOf files loaded ∧ IsPolicy files root ∧
        Loads files maxInheritanceDepth root (parentsOf files root) [root] loaded := by
  rw [loadPolicy_spec (maxInheritanceDepth + 1) root [] policy loaded]
  constructor
  · rintro ⟨news, split, made, policy_, scans⟩
    rw [List.nil_append] at split scans
    rw [split]
    exact ⟨made, policy_, split ▸ scans⟩
  · rintro ⟨made, policy_, scans⟩
    exact ⟨loaded, rfl, made, policy_, scans⟩

end Loading

section Law
variable {files : Files} {world : Outside} {root : Str} {loaded : List Str}
  {skip : Str → Str → List Str → Prop}

theorem loaded_iff (scans : Scans (parentsOf files) (IsPolicy files) skip maxInheritanceDepth root
      (parentsOf files root) [root] loaded) (file : Str) :
    file ∈ loaded ↔ Reach (parentsOf files) root file := by
  constructor
  · intro mem
    by_cases first : file ∈ [root]
    · rw [List.mem_singleton.mp first]
    · obtain ⟨parent, edge, reach⟩ := scans.reached mem first
      exact Relation.ReflTransGen.head edge reach
  · intro reach
    induction reach with
    | refl => exact scans.seen_mem (List.mem_singleton_self root)
    | @tail child parent _ edge ih =>
      by_cases first : child ∈ [root]
      · rw [List.mem_singleton.mp first] at edge
        exact scans.todo_mem edge
      · exact scans.closed ih first edge

theorem before_of_harmless (scans : Scans (parentsOf files) (IsPolicy files) (HarmlessSkip files)
      maxInheritanceDepth root (parentsOf files root) [root] loaded) {file parent : Str}
    (mem : file ∈ loaded) (ruled : rulesOf files file ≠ []) (parent_ruled : rulesOf files parent ≠ [])
    (extends_ : Extends files file parent) (oneway : ¬Extends files parent file) :
    Earlier loaded file parent := by
  have distinct := scans.nodup (List.nodup_singleton root)
  have there : parent ∈ loaded := by
    rw [loaded_iff scans] at mem ⊢
    exact mem.trans extends_.to_reflTransGen
  have other : file ≠ parent := by
    rintro rfl
    exact oneway extends_
  rcases earlier_or mem there other with order | order
  · exact order
  · exfalso
    obtain ⟨rest, whole⟩ := scans.begins
    by_cases first : file ∈ [root]
    · rw [List.mem_singleton.mp first] at order
      have split : loaded = [] ++ root :: rest := whole.symm
      exact absurd (order.split distinct split) List.not_mem_nil
    · obtain ⟨child, skipped, now, harmless, reach, leads, earlier⟩ :=
        scans.crossing (List.nodup_singleton root) order first extends_.to_reflTransGen
      exact oneway (harmless file parent ruled parent_ruled earlier reach leads)

theorem silent_iff (sources : List Str) (finding : NormalizedFinding) (today : Nat) :
    (policyOf files sources).suppresses files world finding today = none ↔
      ∀ file ∈ sources, ∀ rule ∈ rulesOf files file, rule.hits files world finding today = false := by
  unfold SuppressionPolicy.suppresses policyOf
  simp only [List.find?_eq_none, List.mem_flatMap, Bool.not_eq_true]
  exact ⟨fun all file mem rule inside => all rule ⟨file, mem, inside⟩,
    fun all rule ⟨file, mem, inside⟩ => all file mem rule inside⟩

theorem suppresses_split (sources : List Str) {finding : NormalizedFinding} {today : Nat}
    {rule : SuppressionRule}
    (found : (policyOf files sources).suppresses files world finding today = some rule) :
    ∃ before file behind, sources = before ++ file :: behind ∧
      (rulesOf files file).find? (fun rule => rule.hits files world finding today) = some rule ∧
      ∀ other ∈ before, ∀ rule ∈ rulesOf files other,
        rule.hits files world finding today = false := by
  unfold SuppressionPolicy.suppresses policyOf at found
  simp only at found
  rw [List.find?_flatMap, List.findSome?_eq_some_iff] at found
  obtain ⟨before, file, behind, split, own, none_⟩ := found
  refine ⟨before, file, behind, split, own, fun other mem rule inside => ?_⟩
  have quiet := List.find?_eq_none.mp (none_ other mem) rule inside
  simpa using quiet

theorem inherited_of_harmless (scans : Scans (parentsOf files) (IsPolicy files) (HarmlessSkip files)
      maxInheritanceDepth root (parentsOf files root) [root] loaded) :
    InheritedLast files world root (policyOf files loaded) where
  each := loaded_iff scans
  once := scans.nodup (List.nodup_singleton root)
  rules := rfl
  before _ _ mem ruled parent_ruled := before_of_harmless scans mem ruled parent_ruled
  silent := silent_iff loaded
  nearest := by
    intro finding today rule found
    obtain ⟨before, file, behind, split, own, quiet⟩ := suppresses_split loaded found
    have mem : file ∈ loaded := by
      rw [split]
      simp
    refine ⟨file, mem, own, fun other there ⟨hit, inside, hits⟩ extends_ => ?_⟩
    by_contra oneway
    have ruled : rulesOf files other ≠ [] := List.ne_nil_of_mem inside
    have own_ruled : rulesOf files file ≠ [] := List.ne_nil_of_mem (List.mem_of_find?_eq_some own)
    have order := before_of_harmless scans there ruled own_ruled extends_ oneway
    have early := order.split (scans.nodup (List.nodup_singleton root)) split
    rw [quiet other early hit inside] at hits
    cases hits

theorem harmless_of_inherited (scans : Loads files maxInheritanceDepth root (parentsOf files root)
      [root] loaded) (law : InheritedLast files world root (policyOf files loaded)) :
    Scans (parentsOf files) (IsPolicy files) (HarmlessSkip files) maxInheritanceDepth root
      (parentsOf files root) [root] loaded := by
  apply scans.strengthen (fun _ mem => mem)
  intro child parent now begins edge _ file other ruled other_ruled order reach leads
  by_contra oneway
  have extends_ : Extends files file other :=
    Relation.TransGen.trans_left (Relation.TransGen.tail' reach edge) leads
  have later := order.longer begins
  have mem : file ∈ (policyOf files loaded).sources := later.mem.2
  exact later.asymm law.once (law.before file other mem ruled other_ruled extends_ oneway)

end Law

/-- A policy is loaded with the law of inheritance exactly where each step of its load is in
    order. -/
theorem loadsInherited_iff (files : Files) (world : Outside) (root : Str) :
    LoadsInherited files world root ↔ StepsInOrder files root := by
  constructor
  · rintro ⟨policy, loaded, load, law⟩
    obtain ⟨rfl, policy_, scans⟩ := (loadPolicy_ok policy loaded).mp load
    exact ⟨policy_, loaded, harmless_of_inherited scans law⟩
  · rintro ⟨policy_, loaded, scans⟩
    have plain : Loads files maxInheritanceDepth root (parentsOf files root) [root] loaded :=
      scans.strengthen (fun _ mem => mem) fun _ _ _ _ _ _ => trivial
    exact ⟨policyOf files loaded, loaded, (loadPolicy_ok _ _).mpr ⟨rfl, policy_, plain⟩,
      inherited_of_harmless scans⟩

def lateParent : Files where
  readText path := .ok path
  safeLoad raw := .ok (.dict [("suppressions".toList, .list [.dict []]),
    ("extends".toList, .list (if raw = ['a'] then [.str ['b'], .str ['c']]
      else if raw = ['c'] then [.str ['b']] else []))])
  text _ := []
  fromisoformat _ := none
  fnmatch _ _ := true
  parentPath _ parent := parent

/-- The rules of b come before those of c, which extends it. -/
theorem parent_before_child : ¬∃ world, LoadsInherited lateParent world ['a'] := by
  rintro ⟨world, policy, loaded, load, law⟩
  have ran : (loadPolicy lateParent (maxInheritanceDepth + 1) ['a'] []).map (fun pair =>
      pair.1.sources) = .ok ([['a']] ++ ['b'] :: [['c']]) := by decide +kernel
  rw [load] at ran
  have sources : policy.sources = [['a']] ++ ['b'] :: [['c']] := Except.ok.inj ran
  have child : ['c'] ∈ policy.sources := by
    rw [sources]
    decide
  have ruled : rulesOf lateParent ['b'] ≠ [] ∧ rulesOf lateParent ['c'] ≠ [] := by decide +kernel
  have extends_ : Extends lateParent ['c'] ['b'] := .single (by
    show ['b'] ∈ parentsOf lateParent ['c']
    decide +kernel)
  have oneway : ¬Extends lateParent ['b'] ['c'] := by
    intro leads
    obtain ⟨parent, edge, _⟩ := Relation.TransGen.head'_iff.mp leads
    have none_ : parentsOf lateParent ['b'] = [] := by decide +kernel
    have mem : parent ∈ parentsOf lateParent ['b'] := edge
    rw [none_] at mem
    cases mem
  have order := law.before ['c'] ['b'] child ruled.2 ruled.1 extends_ oneway
  exact absurd (order.split law.once sources) (by decide)

end DevopsCli.Security.Suppression
