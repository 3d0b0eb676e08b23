import DevopsCli.Security.Findings

/- The occurrence numbers of findings and their duplicates, security/normalization.py. A number says
   when the place of a finding first came up among the places of its base fingerprint. -/
namespace DevopsCli.Security
open PyStr LeastFirst

section Duplicates
variable (outside : Outside)

abbrev Place := Option Int × Option Str

namespace NormalizedFinding
variable (finding : NormalizedFinding)

def place : Place := (finding.line, finding.symbol)

/-- Whether a finding gets an occurrence number. -/
def counted : Bool := (present (finding.content outside)).isSome && finding.line.isSome

def withContent : NormalizedFinding := { finding with fileContent := finding.content outside }

def base : Str := { finding.withContent outside with occurrenceIndex := 0 }.fingerprint outside

def numbered (index : Nat) : NormalizedFinding :=
  if finding.counted outside = true then
    { finding.withContent outside with occurrenceIndex := index }
  else finding

end NormalizedFinding

def assignFrom (seen : Str → List Place) : List NormalizedFinding → List NormalizedFinding
  | [] => []
  | finding :: rest =>
    if finding.counted outside = true then
      let places := seen (finding.base outside)
      if finding.place ∈ places then
        { finding.withContent outside with occurrenceIndex := position places finding.place } ::
          assignFrom seen rest
      else
        { finding.withContent outside with occurrenceIndex := places.length } ::
          assignFrom (Function.update seen (finding.base outside) (places ++ [finding.place])) rest
    else finding :: assignFrom seen rest

def assignOccurrenceIndices (findings : List NormalizedFinding) : List NormalizedFinding :=
  assignFrom outside (fun _ => []) findings

def deduplicate (findings : List NormalizedFinding) : List NormalizedFinding :=
  if findings = [] then []
  else
    kept (totalFindingKey outside) (fun finding => finding.fingerprint outside)
      (assignOccurrenceIndices outside findings)

def placesOf (findings : List NormalizedFinding) (base : Str) : List Place :=
  (findings.filter fun finding => finding.counted outside && finding.base outside == base).map
    NormalizedFinding.place

def placeOrder (findings : List NormalizedFinding) (base : Str) : List Place :=
  noted [] (placesOf outside findings base)

def numberIn (findings : List NormalizedFinding) (finding : NormalizedFinding) : Nat :=
  position (placeOrder outside findings (finding.base outside)) finding.place

variable {outside}

theorem placesOf_counted {finding : NormalizedFinding} (counted : finding.counted outside = true)
    (rest : List NormalizedFinding) :
    placesOf outside (finding :: rest) (finding.base outside) =
      finding.place :: placesOf outside rest (finding.base outside) := by
  simp [placesOf, counted]

theorem placesOf_skip {finding : NormalizedFinding} {base : Str}
    (other : finding.counted outside = true → finding.base outside ≠ base)
    (rest : List NormalizedFinding) :
    placesOf outside (finding :: rest) base = placesOf outside rest base := by
  unfold placesOf
  rw [List.filter_cons_of_neg]
  intro both
  simp only [Bool.and_eq_true, beq_iff_eq] at both
  exact other both.1 both.2

theorem mem_placesOf {findings : List NormalizedFinding} {base : Str} {place : Place} :
    place ∈ placesOf outside findings base ↔ ∃ finding ∈ findings,
      finding.counted outside = true ∧ finding.base outside = base ∧ finding.place = place := by
  simp [placesOf, and_assoc]

theorem mem_placeOrder {findings : List NormalizedFinding} {base : Str} {place : Place} :
    place ∈ placeOrder outside findings base ↔ ∃ finding ∈ findings,
      finding.counted outside = true ∧ finding.base outside = base ∧ finding.place = place := by
  rw [placeOrder, mem_noted, mem_placesOf]
  simp

theorem numbered_counted {finding : NormalizedFinding} (counted : finding.counted outside = true)
    (index : Nat) : finding.numbered outside index =
      { finding.withContent outside with occurrenceIndex := index } := by
  rw [NormalizedFinding.numbered, if_pos counted]

theorem numbered_other {finding : NormalizedFinding} (other : finding.counted outside ≠ true)
    (index : Nat) : finding.numbered outside index = finding := by
  rw [NormalizedFinding.numbered, if_neg other]

/-- The first known place of a base gives the number: induction on the list for any places seen. -/
theorem assignFrom_eq (seen : Str → List Place) (findings : List NormalizedFinding) :
    assignFrom outside seen findings = findings.map fun finding => finding.numbered outside
      (position (noted (seen (finding.base outside))
        (placesOf outside findings (finding.base outside))) finding.place) := by
  induction findings generalizing seen with
  | nil => rfl
  | cons first rest ih =>
    rw [assignFrom, List.map_cons]
    by_cases counted : first.counted outside = true
    · rw [if_pos counted]
      simp only
      split
      · next known =>
        rw [ih, numbered_counted counted, placesOf_counted counted, position_known known]
        congr 1
        apply List.map_congr_left
        intro later _
        by_cases same : first.base outside = later.base outside
        · rw [← same, placesOf_counted counted, noted_cons, note_known known]
        · rw [placesOf_skip fun _ => same]
      · next fresh =>
        rw [ih, numbered_counted counted, placesOf_counted counted, position_fresh fresh]
        congr 1
        apply List.map_congr_left
        intro later _
        by_cases same : first.base outside = later.base outside
        · rw [← same, placesOf_counted counted, Function.update_self, noted_cons, note_fresh fresh]
        · rw [placesOf_skip fun _ => same, Function.update_of_ne (Ne.symm same)]
    · rw [if_neg counted, numbered_other counted, ih]
      congr 1
      apply List.map_congr_left
      intro later _
      rw [placesOf_skip fun sure => absurd sure counted]

theorem assign_eq (findings : List NormalizedFinding) :
    assignOccurrenceIndices outside findings =
      findings.map fun finding => finding.numbered outside (numberIn outside findings finding) :=
  assignFrom_eq (fun _ => []) findings

theorem mem_assign {findings : List NormalizedFinding} {numbered : NormalizedFinding} :
    numbered ∈ assignOccurrenceIndices outside findings ↔ ∃ finding ∈ findings,
      numbered = finding.numbered outside (numberIn outside findings finding) := by
  rw [assign_eq, List.mem_map]
  simp only [eq_comm]

theorem deduplicate_eq (findings : List NormalizedFinding) :
    deduplicate outside findings =
      kept (totalFindingKey outside) (fun finding => finding.fingerprint outside)
        (assignOccurrenceIndices outside findings) := by
  cases findings with
  | nil => rfl
  | cons finding rest => rw [deduplicate, if_neg (List.cons_ne_nil _ _)]

section Numbered
variable {finding : NormalizedFinding}

theorem content_numbered (index : Nat) :
    (finding.numbered outside index).content outside = finding.content outside := by
  unfold NormalizedFinding.numbered
  split
  · cases given : finding.fileContent with
    | some content => simp [NormalizedFinding.withContent, NormalizedFinding.content, given]
    | none =>
      simp only [NormalizedFinding.withContent, NormalizedFinding.content, given]
      split <;> simp_all
  · rfl

variable (outside) in
theorem place_numbered (index : Nat) : (finding.numbered outside index).place = finding.place := by
  unfold NormalizedFinding.numbered
  split <;> rfl

theorem counted_numbered (index : Nat) :
    (finding.numbered outside index).counted outside = finding.counted outside := by
  have place : (finding.numbered outside index).place = finding.place :=
    place_numbered outside index
  simp only [NormalizedFinding.place, Prod.mk.injEq] at place
  simp only [NormalizedFinding.counted, content_numbered, place.1]

theorem base_numbered (index : Nat) :
    (finding.numbered outside index).base outside = finding.base outside := by
  unfold NormalizedFinding.base NormalizedFinding.withContent
  rw [content_numbered]
  unfold NormalizedFinding.numbered
  split <;> rfl

theorem index_numbered (counted : finding.counted outside = true) (index : Nat) :
    (finding.numbered outside index).occurrenceIndex = index := by
  rw [numbered_counted counted]

end Numbered

theorem numbered_inj {first second : NormalizedFinding} {i j : Nat}
    (counted : first.counted outside = true)
    (same : first.numbered outside i = second.numbered outside j) :
    second.counted outside = true ∧ second.base outside = first.base outside ∧
      second.place = first.place ∧ i = j := by
  have also : second.counted outside = true := by
    rw [← counted_numbered j, ← same, counted_numbered, counted]
  refine ⟨also, ?_, ?_, ?_⟩
  · rw [← base_numbered j, ← same, base_numbered]
  · rw [← place_numbered outside j, ← same, place_numbered]
  · rw [← index_numbered counted i, same, index_numbered also]

end Duplicates
end DevopsCli.Security
