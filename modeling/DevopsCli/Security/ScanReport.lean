import DevopsCli.Security.DuplicateOrder
import DevopsCli.Security.Clusters

/- The report of the scans: the findings without their duplicates, and the clusters of these. -/
namespace DevopsCli.Security
open PyStr LeastFirst

/-- The report of a list of findings, whatever their order: what is kept has distinct fingerprints
    and stands for every finding, and its clusters partition it, are linked and as severe as their
    most severe members. -/
structure OrderFree (outside : Outside) (findings : List NormalizedFinding) : Prop where
  kept : ∀ reordered : List NormalizedFinding, reordered.Perm findings →
    deduplicate outside reordered = deduplicate outside findings
  distinct : ((deduplicate outside findings).map fun finding => finding.fingerprint outside).Nodup
  held : ∀ finding ∈ findings, ∃ kept ∈ deduplicate outside findings,
    StandsFor outside kept finding
  clusters : ∀ reordered : List NormalizedFinding, reordered.Perm findings →
    correlate outside (deduplicate outside reordered) =
      correlate outside (deduplicate outside findings)
  partition : ((correlate outside (deduplicate outside findings)).flatMap
    FindingCluster.findings).Perm (deduplicate outside findings)
  linked : ∀ cluster ∈ correlate outside (deduplicate outside findings),
    Linked outside cluster.findings
  severity : ∀ cluster ∈ correlate outside (deduplicate outside findings),
    (∃ member ∈ cluster.findings, cluster.severity outside = member.severity) ∧
      ∀ member ∈ cluster.findings,
        severityRank outside (cluster.severity outside) ≤ member.rank outside

theorem orderFree_iff (outside : Outside) (findings : List NormalizedFinding) :
    OrderFree outside findings ↔ Settled outside findings := by
  rw [← settled_iff]
  constructor
  · intro free
    exact ⟨free.kept, free.held⟩
  · rintro ⟨kept, held⟩
    exact
      { kept := kept
        distinct := deduplicate_nodup findings
        held := held
        clusters := fun reordered perm => by rw [kept reordered perm]
        partition := correlate_perm _
        linked := correlate_linked _
        severity := fun cluster _ => severity_highest cluster }

def plainOutside : Outside where
  readFile _ := none
  enclosingSymbol _ _ := "<module>".toList
  sha256 text := text
  lower text := text.map Char.toLower
  upper text := text.map Char.toUpper
  digit c := if c.isDigit then some (c.toNat - 48) else none
  isWord c := c.isAlphanum || c == '_'

def secretAt (line : Int) : NormalizedFinding where
  tool := "bandit".toList
  ruleId := "B105".toList
  severity := "HIGH".toList
  message := "Possible hardcoded password".toList
  path := "a.py".toList
  line := some line
  fileContent := some "\nkey = 1".toList

/-- The lines 1 and 2 of the file have the same text behind them, so the finding that comes first is
    the first occurrence. -/
theorem secrets_by_order : ¬OrderFree plainOutside [secretAt 1, secretAt 2] := by
  intro free
  have same := free.kept [secretAt 2, secretAt 1] (List.Perm.swap _ _ _)
  have numbers := congrArg (List.map NormalizedFinding.occurrenceIndex) same
  revert numbers
  decide

end DevopsCli.Security
