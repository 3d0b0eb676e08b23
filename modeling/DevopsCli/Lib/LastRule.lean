import Mathlib.Data.List.Basic
import Mathlib.Data.Nat.Find

/- Rules in an order of which the last that matches decides, over the levels of a path. A rule hits a
   level, or it covers it from a level above. -/
namespace DevopsCli.LastRule

variable {R : Type*}

section Decision
variable {applies positive : R → Bool} {rules : List R}

def decision (applies positive : R → Bool) (rules : List R) : Option Bool :=
  (rules.reverse.find? applies).map positive

theorem decision_append (before after : List R) :
    decision applies positive (before ++ after) =
      (decision applies positive after).or (decision applies positive before) := by
  rw [decision, List.reverse_append, List.find?_append]
  cases found : after.reverse.find? applies <;> simp [decision, found]

theorem decision_none (none_ : ∀ rule ∈ rules, applies rule = false) :
    decision applies positive rules = none := by
  rw [decision, Option.map_eq_none_iff, List.find?_eq_none]
  intro rule mem
  rw [none_ rule (List.mem_reverse.mp mem)]
  exact Bool.false_ne_true

theorem decision_map {S : Type*} (f : S → R) (others : List S) :
    decision applies positive (others.map f) =
      decision (fun other => applies (f other)) (fun other => positive (f other)) others := by
  rw [decision, decision, ← List.map_reverse, List.find?_map, Option.map_map]
  rfl

theorem decision_iff {answer : Bool} : decision applies positive rules = some answer ↔
    ∃ before rule after, rules = before ++ rule :: after ∧ applies rule = true ∧
      (∀ later ∈ after, applies later = false) ∧ positive rule = answer := by
  rw [decision, Option.map_eq_some_iff]
  constructor
  · rintro ⟨rule, found, same⟩
    obtain ⟨here, front, back, split, none⟩ := List.find?_eq_some_iff_append.mp found
    refine ⟨back.reverse, rule, front.reverse, ?_, here, ?_, same⟩
    · rw [← List.reverse_reverse rules, split]
      simp
    · intro later mem
      simpa using none later (List.mem_reverse.mp mem)
  · rintro ⟨before, rule, after, rfl, here, none, same⟩
    refine ⟨rule, ?_, same⟩
    rw [List.find?_eq_some_iff_append]
    refine ⟨here, after.reverse, before.reverse, by simp, ?_⟩
    intro later mem
    simpa using none later (List.mem_reverse.mp mem)

theorem decision_positive {before after : List R} {rule : R} (applies_ : applies rule = true)
    (yes : positive rule = true)
    (later : ∀ other ∈ after, applies other = true → positive other = true) :
    decision applies positive (before ++ rule :: after) = some true := by
  have split : before ++ rule :: after = (before ++ [rule]) ++ after := by simp
  rw [split, decision_append]
  cases last : decision applies positive after with
  | none =>
    rw [decision_append, decision]
    simp [applies_, yes]
  | some answer =>
    obtain ⟨front, other, back, rfl, here, -, same⟩ := decision_iff.mp last
    rw [← same, later other (by simp) here]
    rfl

end Decision

/-- The rules in force at each level. What a level adds to the rules above it hits no level above. -/
structure Scopes (R : Type*) where
  scope : Nat → List R
  hits : R → Nat → Bool
  positive : R → Bool
  grows : ∀ i, ∃ extra, scope (i + 1) = scope i ++ extra ∧
    ∀ rule ∈ extra, ∀ j ≤ i, hits rule j = false

namespace Scopes
variable (scopes : Scopes R)

def covers (rule : R) (i : Nat) : Bool := (List.range (i + 1)).any fun j => scopes.hits rule j

def Decided (n : Nat) : Prop :=
  ∃ i < n, decision (scopes.hits · i) scopes.positive (scopes.scope i) = some true

def Covered (n : Nat) : Prop :=
  ∃ i < n, decision (scopes.covers · i) scopes.positive (scopes.scope i) = some true

/-- A positive rule hits the level, and no negated rule behind it covers the level. -/
def Unmasked (i : Nat) : Prop :=
  ∃ before rule after, scopes.scope i = before ++ rule :: after ∧ scopes.hits rule i = true ∧
    scopes.positive rule = true ∧
    ∀ other ∈ after, scopes.covers other i = true → scopes.positive other = true

variable {scopes}

theorem covers_iff {rule : R} {i : Nat} :
    scopes.covers rule i = true ↔ ∃ j ≤ i, scopes.hits rule j = true := by
  simp only [covers, List.any_eq_true, List.mem_range, Nat.lt_succ_iff]

theorem covers_of_hits {rule : R} {i : Nat} (hit : scopes.hits rule i = true) :
    scopes.covers rule i = true := covers_iff.mpr ⟨i, Nat.le_refl i, hit⟩

theorem covers_below {rule : R} {i j : Nat} (above : i ≤ j) (here : scopes.covers rule i = true) :
    scopes.covers rule j = true := by
  obtain ⟨level, below, hit⟩ := covers_iff.mp here
  exact covers_iff.mpr ⟨level, Nat.le_trans below above, hit⟩

theorem grows_to {i j : Nat} (above : i ≤ j) : ∃ extra, scopes.scope j = scopes.scope i ++ extra ∧
    ∀ rule ∈ extra, ∀ level ≤ i, scopes.hits rule level = false := by
  induction j, above using Nat.le_induction with
  | base => exact ⟨[], (List.append_nil _).symm, fun _ mem => absurd mem List.not_mem_nil⟩
  | succ j above ih =>
    obtain ⟨extra, split, quiet⟩ := ih
    obtain ⟨more, next, nextQuiet⟩ := scopes.grows j
    refine ⟨extra ++ more, by rw [next, split, List.append_assoc], ?_⟩
    intro rule mem level below
    rcases List.mem_append.mp mem with old | new
    · exact quiet rule old level below
    · exact nextQuiet rule new level (Nat.le_trans below above)

theorem Unmasked.covered {i : Nat} (unmasked : scopes.Unmasked i) :
    decision (scopes.covers · i) scopes.positive (scopes.scope i) = some true := by
  obtain ⟨before, rule, after, split, hit, yes, later⟩ := unmasked
  rw [split]
  exact decision_positive (covers_of_hits hit) yes later

theorem Unmasked.decided {i : Nat} (unmasked : scopes.Unmasked i) :
    decision (scopes.hits · i) scopes.positive (scopes.scope i) = some true := by
  obtain ⟨before, rule, after, split, hit, yes, later⟩ := unmasked
  rw [split]
  exact decision_positive hit yes fun other mem here => later other mem (covers_of_hits here)

theorem covered_above {i j : Nat} (above : j ≤ i) {before after : List R} {rule : R}
    (split : scopes.scope i = before ++ rule :: after) (hit : scopes.hits rule j = true)
    (last : ∀ other ∈ after, scopes.covers other i = false) :
    decision (scopes.covers · j) scopes.positive (scopes.scope j) =
      some (scopes.positive rule) := by
  obtain ⟨extra, grown, quiet⟩ := scopes.grows_to above
  have notExtra : rule ∉ extra := by
    intro mem
    rw [quiet rule mem j (Nat.le_refl j)] at hit
    cases hit
  have inScope : rule ∈ scopes.scope j := by
    have mem : rule ∈ scopes.scope j ++ extra := by
      rw [← grown, split]
      simp
    exact (List.mem_append.mp mem).resolve_right notExtra
  have some_ : (decision (scopes.covers · j) scopes.positive (scopes.scope j)).isSome := by
    rw [decision, Option.isSome_map, List.find?_isSome]
    exact ⟨rule, List.mem_reverse.mpr inScope, covers_of_hits hit⟩
  obtain ⟨answer, decided⟩ := Option.isSome_iff_exists.mp some_
  obtain ⟨front, other, back, here, covered, none, rfl⟩ := decision_iff.mp decided
  rw [decided]
  -- The last rule of the level above is this one: it is neither before it nor behind it.
  rw [here, List.append_assoc, List.cons_append, split] at grown
  rcases List.append_eq_append_iff.mp grown with ⟨between, rfl, rest⟩ | ⟨between, rfl, rest⟩
  · cases between with
    | nil => rw [(List.cons.inj rest).1]
    | cons first between =>
      have mem : other ∈ after := by
        rw [(List.cons.inj rest).2]
        simp
      have below := last other mem
      rw [covers_below above covered] at below
      cases below
  · cases between with
    | nil => rw [(List.cons.inj rest).1]
    | cons first between =>
      have mem : rule ∈ back ++ extra := by
        rw [(List.cons.inj rest).2]
        simp
      have covers_ : scopes.covers rule j = true := covers_of_hits hit
      rw [none rule ((List.mem_append.mp mem).resolve_right notExtra)] at covers_
      cases covers_

/-- With rules that act from above, the first level that is decided is decided by a rule that hits
    it and that none behind it covers. -/
theorem covered_iff (n : Nat) : scopes.Covered n ↔ ∃ i < n, scopes.Unmasked i := by
  classical
  constructor
  · intro covered
    obtain ⟨inside, decided⟩ := Nat.find_spec covered
    obtain ⟨before, rule, after, split, here, last, yes⟩ := decision_iff.mp decided
    obtain ⟨j, above, hit⟩ := covers_iff.mp here
    have first := covered_above above split hit last
    rw [yes] at first
    have same : j = Nat.find covered :=
      Nat.le_antisymm above (Nat.find_min' covered ⟨Nat.lt_of_le_of_lt above inside, first⟩)
    refine ⟨Nat.find covered, inside, before, rule, after, split, same ▸ hit, yes, ?_⟩
    intro other mem covers_
    rw [last other mem] at covers_
    cases covers_
  · rintro ⟨i, inside, unmasked⟩
    exact ⟨i, inside, unmasked.covered⟩

/-- Rules that act from above decide no more than rules that act at their level, and they decide the
    same just when some level that is decided is not masked. -/
theorem covered_iff_decided (n : Nat) : (scopes.Covered n ↔ scopes.Decided n) ↔
    (scopes.Decided n → ∃ i < n, scopes.Unmasked i) := by
  rw [covered_iff]
  constructor
  · exact fun same decided => same.mpr decided
  · intro unmasked
    exact ⟨fun ⟨i, inside, here⟩ => ⟨i, inside, here.decided⟩, unmasked⟩

end Scopes
end DevopsCli.LastRule
