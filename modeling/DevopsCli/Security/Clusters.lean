import DevopsCli.Security.Findings

/- The clusters of findings that different tools report about one place, security/normalization.py.
   Each finding goes to the first cluster with which it correlates as a whole. -/
namespace DevopsCli.Security
open PyStr LeastFirst

abbrev Region := Option (Option Int × Option Int)

/-- A group of findings; it is never empty. -/
structure Members where
  first : NormalizedFinding
  rest : List NormalizedFinding := []

def Members.findings (members : Members) : List NormalizedFinding := members.first :: members.rest

structure FindingCluster where
  key : Str × Region × Option Str
  members : Members

def FindingCluster.findings (cluster : FindingCluster) : List NormalizedFinding :=
  cluster.members.findings

def regionsOverlap (first second : Region) : Bool :=
  match first, second with
  | none, none => true
  | some (some start, last), some (some start', last') =>
    decide (max start start' ≤ min (last.getD start) (last'.getD start') + 2)
  | some (none, _), some _ => true
  | some _, some (none, _) => true
  | _, _ => false

section Correlate
variable (outside : Outside)

def findingsCorrelate (first second : NormalizedFinding) : Bool :=
  first.tool != second.tool &&
    outside.lower (strip first.locator) == outside.lower (strip second.locator) &&
    regionsOverlap first.region second.region &&
    ((extractCwe outside first).isNone || (extractCwe outside second).isNone ||
      extractCwe outside first == extractCwe outside second)

def regionSpan (finding : NormalizedFinding) : Nat :=
  let (_, startLine, lastLine) := parseLocation outside finding.location
  let start := startLine.or finding.line
  match start, (lastLine.or finding.endLine).or start with
  | some start, some last => (last - start).natAbs
  | some _, none => 0
  | none, _ => 999999

def pickRepresentative (members : Members) : NormalizedFinding :=
  let best := leastBy (fun finding => (toLex (finding.rank outside,
    toLex (regionSpan outside finding, totalFindingKey outside finding)) : ℕ ×ₗ ℕ ×ₗ TotalKey))
    members.first members.rest
  { best with references := sortBy id (noted [] (members.findings.flatMap (·.references))) }

namespace FindingCluster
variable (cluster : FindingCluster)

def tools : List Str := sortBy id (noted [] (cluster.findings.map (·.tool)))

def severity : Str :=
  (leastBy (fun finding => finding.rank outside) cluster.members.first cluster.members.rest).severity

def representative : NormalizedFinding := pickRepresentative outside cluster.members

def confirmations : Nat := cluster.tools.length

end FindingCluster

abbrev ClusterKey := ℕ ×ₗ Int ×ₗ Str ×ₗ Int ×ₗ Int ×ₗ Str ×ₗ Str ×ₗ Str ×ₗ Str

def clusterSortKey (cluster : FindingCluster) : ClusterKey :=
  let representative := cluster.representative outside
  let (path, start, last) := placeKey outside representative
  toLex (severityRank outside (cluster.severity outside),
    toLex (-(cluster.confirmations : Int), toLex (path, toLex (start, toLex (last,
      toLex (representative.symbol.getD [], toLex (representative.ruleId,
        toLex (representative.tool, representative.fingerprint outside))))))))

def rankClusters (clusters : List FindingCluster) : List FindingCluster :=
  sortBy (clusterSortKey outside) clusters

def place (finding : NormalizedFinding) : List Members → List Members
  | [] => [{ first := finding }]
  | members :: later =>
    if members.findings.all (findingsCorrelate outside finding) = true then
      { members with rest := members.rest ++ [finding] } :: later
    else members :: place finding later

def clusterOf (members : Members) : FindingCluster where
  key := correlationKey outside (pickRepresentative outside members)
  members := members

def correlate (findings : List NormalizedFinding) : List FindingCluster :=
  if findings = [] then []
  else
    let sorted := sortBy (totalFindingKey outside) findings
    let clusters := sorted.foldl (fun clusters finding => place outside finding clusters) []
    rankClusters outside (clusters.map (clusterOf outside))

variable {outside}

theorem regionsOverlap_symm (first second : Region) :
    regionsOverlap first second = regionsOverlap second first := by
  rcases first with _ | ⟨_ | start, last⟩ <;> rcases second with _ | ⟨_ | start', last'⟩ <;>
    simp [regionsOverlap, max_comm, min_comm]

theorem findingsCorrelate_symm (first second : NormalizedFinding) :
    findingsCorrelate outside first second = findingsCorrelate outside second first := by
  have locators : (outside.lower (strip first.locator) == outside.lower (strip second.locator)) =
      (outside.lower (strip second.locator) == outside.lower (strip first.locator)) := Bool.beq_comm
  have cwes : (extractCwe outside first == extractCwe outside second) =
      (extractCwe outside second == extractCwe outside first) := Bool.beq_comm
  unfold findingsCorrelate
  rw [regionsOverlap_symm, bne_comm, locators, cwes, Bool.or_comm (extractCwe outside first).isNone]

def Linked (outside : Outside) (findings : List NormalizedFinding) : Prop :=
  findings.Pairwise fun first second => findingsCorrelate outside first second = true ∧
    findingsCorrelate outside second first = true

theorem place_perm (finding : NormalizedFinding) (clusters : List Members) :
    ((place outside finding clusters).flatMap Members.findings).Perm
      (finding :: clusters.flatMap Members.findings) := by
  induction clusters with
  | nil => exact List.Perm.refl _
  | cons members later ih =>
    rw [place]
    split
    · rw [List.flatMap_cons, List.flatMap_cons]
      have moved : ((members.findings ++ [finding]) ++ later.flatMap Members.findings).Perm
          (finding :: (members.findings ++ later.flatMap Members.findings)) := by
        rw [List.append_assoc]
        exact List.perm_middle
      exact moved
    · rw [List.flatMap_cons, List.flatMap_cons]
      exact (ih.append_left _).trans List.perm_middle

theorem place_linked {finding : NormalizedFinding} {clusters : List Members}
    (linked : ∀ members ∈ clusters, Linked outside members.findings) :
    ∀ members ∈ place outside finding clusters, Linked outside members.findings := by
  induction clusters with
  | nil =>
    intro members mem
    rw [List.mem_singleton.mp mem]
    exact List.pairwise_singleton _ _
  | cons first later ih =>
    rw [place]
    have first_linked := linked first List.mem_cons_self
    have later_linked := fun members mem => linked members (List.mem_cons_of_mem first mem)
    split
    · next accepts =>
      intro members mem
      rcases List.mem_cons.mp mem with rfl | mem
      · have accepted : ∀ member ∈ first.findings,
            findingsCorrelate outside member finding = true ∧
              findingsCorrelate outside finding member = true := by
          intro member mem
          have accepts := List.all_eq_true.mp accepts member mem
          exact ⟨findingsCorrelate_symm finding member ▸ accepts, accepts⟩
        exact List.pairwise_append.mpr ⟨first_linked, List.pairwise_singleton _ _,
          fun member mem other single => List.mem_singleton.mp single ▸ accepted member mem⟩
      · exact later_linked members mem
    · intro members mem
      rcases List.mem_cons.mp mem with rfl | mem
      · exact first_linked
      · exact ih later_linked members mem

theorem placed_perm (findings : List NormalizedFinding) (clusters : List Members) :
    ((findings.foldl (fun clusters finding => place outside finding clusters) clusters).flatMap
      Members.findings).Perm (clusters.flatMap Members.findings ++ findings) := by
  induction findings generalizing clusters with
  | nil => simp
  | cons finding rest ih =>
    refine (ih (place outside finding clusters)).trans ?_
    refine ((place_perm finding clusters).append_right rest).trans ?_
    exact List.perm_middle.symm

theorem placed_linked (findings : List NormalizedFinding) {clusters : List Members}
    (linked : ∀ members ∈ clusters, Linked outside members.findings) :
    ∀ members ∈ findings.foldl (fun clusters finding => place outside finding clusters) clusters,
      Linked outside members.findings := by
  induction findings generalizing clusters with
  | nil => exact linked
  | cons finding rest ih => exact ih (place_linked linked)

theorem correlate_perm (findings : List NormalizedFinding) :
    ((correlate outside findings).flatMap FindingCluster.findings).Perm findings := by
  unfold correlate
  split
  · next empty =>
    rw [empty]
    exact List.Perm.refl _
  · refine ((sortBy_perm _ _).flatMap_right _).trans ?_
    rw [List.flatMap_map]
    refine (placed_perm _ []).trans ?_
    exact sortBy_perm _ findings

theorem correlate_linked (findings : List NormalizedFinding) :
    ∀ cluster ∈ correlate outside findings, Linked outside cluster.findings := by
  unfold correlate
  split
  · intro cluster mem
    cases mem
  · intro cluster mem
    obtain ⟨members, placed, rfl⟩ := List.mem_map.mp ((mem_sortBy _).mp mem)
    have none : ∀ members ∈ ([] : List Members), Linked outside members.findings := by simp
    exact placed_linked _ none members placed

theorem severity_highest (cluster : FindingCluster) :
    (∃ member ∈ cluster.findings, cluster.severity outside = member.severity) ∧
      ∀ member ∈ cluster.findings,
        severityRank outside (cluster.severity outside) ≤ member.rank outside := by
  have ⟨mem, least⟩ := leastBy_spec (fun finding => finding.rank outside) cluster.members.first
    cluster.members.rest
  exact ⟨⟨_, mem, rfl⟩, least⟩

end Correlate
end DevopsCli.Security
