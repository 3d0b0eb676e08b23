import DevopsCli.Security.Duplicates

/- When the order of the findings decides nothing. A finding floats when another place has its base
   fingerprint: the order then decides which of the two is the first occurrence. -/
namespace DevopsCli.Security
open PyStr LeastFirst

section Order
variable (outside : Outside)

/-- The findings of one base fingerprint are at more than one place. -/
def Floats (findings : List NormalizedFinding) (finding : NormalizedFinding) : Prop :=
  finding.counted outside = true ∧ ∃ other ∈ findings, other.counted outside = true ∧
    other.base outside = finding.base outside ∧ other.place ≠ finding.place

def placeCount (findings : List NormalizedFinding) (finding : NormalizedFinding) : Nat :=
  (placeOrder outside findings (finding.base outside)).length

def fixedFingerprint (finding : NormalizedFinding) (index : Nat) : Str :=
  (finding.numbered outside index).fingerprint outside

def fixedKey (finding : NormalizedFinding) (index : Nat) : TotalKey :=
  totalFindingKey outside (finding.numbered outside index)

/-- A finding that does not float, with the least key of those of its fingerprint that do not. -/
structure Leads (findings : List NormalizedFinding) (finding : NormalizedFinding) : Prop where
  mem : finding ∈ findings
  stays : ¬Floats outside findings finding
  least : ∀ other ∈ findings, ¬Floats outside findings other →
    fixedFingerprint outside other 0 = fixedFingerprint outside finding 0 →
    fixedKey outside finding 0 ≤ fixedKey outside other 0

structure StandsFor (kept finding : NormalizedFinding) : Prop where
  tool : kept.tool = finding.tool
  ruleId : kept.ruleId = finding.ruleId
  path : kept.path = finding.path
  line : kept.line = finding.line
  symbol : kept.symbol = finding.symbol
  rank : kept.rank outside ≤ finding.rank outside

/-- The findings that float are behind one that does not, whatever their number; those that lead for
    one fingerprint are the same; and each finding has one that leads in its stead. -/
structure Settled (findings : List NormalizedFinding) : Prop where
  behind : ∀ finding ∈ findings, Floats outside findings finding →
    ∀ index < placeCount outside findings finding, ∃ other ∈ findings,
      ¬Floats outside findings other ∧
      fixedFingerprint outside other 0 = fixedFingerprint outside finding index ∧
      fixedKey outside other 0 < fixedKey outside finding index
  same : ∀ first second, Leads outside findings first → Leads outside findings second →
    fixedFingerprint outside first 0 = fixedFingerprint outside second 0 →
    first.numbered outside 0 = second.numbered outside 0
  held : ∀ finding ∈ findings, ∃ lead, Leads outside findings lead ∧
    StandsFor outside lead finding

variable {outside} {findings : List NormalizedFinding}

theorem floats_perm {reordered : List NormalizedFinding} (perm : reordered.Perm findings)
    {finding : NormalizedFinding} :
    Floats outside reordered finding ↔ Floats outside findings finding := by
  simp only [Floats, perm.mem_iff]

theorem floats_together {first second : NormalizedFinding} (floats : Floats outside findings first)
    (mem : first ∈ findings) (counted : second.counted outside = true)
    (same : second.base outside = first.base outside) : Floats outside findings second := by
  obtain ⟨first_counted, other, other_mem, other_counted, other_base, apart⟩ := floats
  by_cases place : first.place = second.place
  · exact ⟨counted, other, other_mem, other_counted, other_base.trans same.symm, place ▸ apart⟩
  · exact ⟨counted, first, mem, first_counted, same.symm, place⟩

theorem placeCount_perm {reordered : List NormalizedFinding} (perm : reordered.Perm findings)
    (finding : NormalizedFinding) :
    placeCount outside reordered finding = placeCount outside findings finding := by
  refine length_noted ?_
  intro place
  simp only [mem_placesOf, perm.mem_iff]

theorem numberIn_lt {finding : NormalizedFinding} (mem : finding ∈ findings)
    (counted : finding.counted outside = true) :
    numberIn outside findings finding < placeCount outside findings finding :=
  position_lt (mem_placeOrder.mpr ⟨finding, mem, counted, rfl, rfl⟩)

theorem numbered_stays {finding : NormalizedFinding} (stays : ¬Floats outside findings finding) :
    finding.numbered outside (numberIn outside findings finding) = finding.numbered outside 0 := by
  by_cases counted : finding.counted outside = true
  · congr 1
    have level : ∀ place ∈ placeOrder outside findings (finding.base outside),
        place = finding.place := by
      intro place listed
      obtain ⟨other, mem, other_counted, base, rfl⟩ := mem_placeOrder.mp listed
      by_contra apart
      exact stays ⟨counted, other, mem, other_counted, base, apart⟩
    rw [numberIn]
    cases order : placeOrder outside findings (finding.base outside) with
    | nil => rfl
    | cons place places =>
      rw [order] at level
      rw [level place List.mem_cons_self, position_head]
  · rw [numbered_other counted, numbered_other counted]

theorem placesOf_append (front back : List NormalizedFinding) (base : Str) :
    placesOf outside (front ++ back) base =
      placesOf outside front base ++ placesOf outside back base := by
  simp [placesOf]

theorem numbered_somewhere {finding : NormalizedFinding} (mem : finding ∈ findings)
    (counted : finding.counted outside = true) {index : Nat}
    (below : index < placeCount outside findings finding) :
    ∃ front back, (front ++ back).Perm findings ∧ finding ∈ front ∧
      numberIn outside (front ++ back) finding = index ∧
      ∀ other ∈ front, other.counted outside = true ∧
        other.base outside = finding.base outside := by
  let order := placeOrder outside findings (finding.base outside)
  have order_nodup : order.Nodup := nodup_noted List.nodup_nil _
  have place_listed : finding.place ∈ order := mem_placeOrder.mpr ⟨finding, mem, counted, rfl, rfl⟩
  let first := (order.erase finding.place).take index
  have first_nodup : first.Nodup := (order_nodup.erase _).sublist (List.take_sublist _ _)
  have first_sub : ∀ place ∈ first, place ∈ order ∧ place ≠ finding.place := by
    intro place taken
    have := (order_nodup.mem_erase_iff).mp (List.mem_of_mem_take taken)
    exact ⟨this.2, this.1⟩
  have first_length : first.length = index := by
    have below : index < order.length := below
    rw [List.length_take, List.length_erase_of_mem place_listed]
    omega
  let early : NormalizedFinding → Bool := fun other =>
    other.counted outside && other.base outside == finding.base outside &&
      decide (other.place ∈ first)
  have late : finding ∈ findings.filter fun other => !early other := by
    refine List.mem_filter.mpr ⟨mem, ?_⟩
    have : finding.place ∉ first := fun taken => (first_sub _ taken).2 rfl
    simp [early, this]
  obtain ⟨before, after, cut⟩ := List.append_of_mem late
  refine ⟨findings.filter early ++ [finding], before ++ after, ?_, by simp, ?_, ?_⟩
  · have moved : (finding :: (before ++ after)).Perm (findings.filter fun other => !early other) := by
      rw [cut]
      exact List.perm_middle.symm
    rw [List.append_assoc, List.singleton_append]
    exact (moved.append_left _).trans (List.filter_append_perm early findings)
  · have early_places : ∀ place,
        place ∈ noted [] (placesOf outside (findings.filter early) (finding.base outside)) ↔
          place ∈ first := by
      intro place
      rw [mem_noted, mem_placesOf]
      constructor
      · rintro (none | ⟨other, kept, _, _, rfl⟩)
        · cases none
        · simp only [List.mem_filter, early, Bool.and_eq_true, decide_eq_true_eq] at kept
          exact kept.2.2
      · intro taken
        obtain ⟨other, other_mem, other_counted, base, rfl⟩ :=
          mem_placeOrder.mp (first_sub place taken).1
        refine Or.inr ⟨other, List.mem_filter.mpr ⟨other_mem, ?_⟩, other_counted, base, rfl⟩
        simp [early, other_counted, base, taken]
    have early_length :
        (noted [] (placesOf outside (findings.filter early) (finding.base outside))).length =
          index := by
      rw [← first_length]
      exact ((List.perm_ext_iff_of_nodup (nodup_noted List.nodup_nil _) first_nodup).mpr
        early_places).length_eq
    have fresh : finding.place ∉
        noted [] (placesOf outside (findings.filter early) (finding.base outside)) := by
      rw [early_places]
      exact fun taken => (first_sub _ taken).2 rfl
    rw [numberIn, placeOrder, List.append_assoc, List.singleton_append, placesOf_append,
      placesOf_counted counted, noted_append, position_fresh fresh, early_length]
  · intro other listed
    rcases List.mem_append.mp listed with kept | single
    · simp only [List.mem_filter, early, Bool.and_eq_true, beq_iff_eq] at kept
      exact kept.2.1
    · rw [List.mem_singleton.mp single]
      exact ⟨counted, rfl⟩

theorem numbered_elsewhere {finding : NormalizedFinding} (mem : finding ∈ findings)
    (floats : Floats outside findings finding) (index : Nat) :
    ∃ reordered, reordered.Perm findings ∧ numberIn outside reordered finding ≠ index := by
  obtain ⟨counted, other, other_mem, other_counted, base, apart⟩ := floats
  have two : 1 < placeCount outside findings finding := by
    have first : finding.place ∈ placeOrder outside findings (finding.base outside) :=
      mem_placeOrder.mpr ⟨finding, mem, counted, rfl, rfl⟩
    have second : other.place ∈ placeOrder outside findings (finding.base outside) :=
      mem_placeOrder.mpr ⟨other, other_mem, other_counted, base, rfl⟩
    rw [placeCount]
    by_contra short
    cases order : placeOrder outside findings (finding.base outside) with
    | nil => simp [order] at first
    | cons place places =>
      cases places with
      | nil =>
        rw [order, List.mem_singleton] at first second
        exact apart (second.trans first.symm)
      | cons next places => simp [order] at short
  by_cases zero : index = 0
  · obtain ⟨front, back, perm, -, number, -⟩ := numbered_somewhere mem counted two
    exact ⟨front ++ back, perm, by omega⟩
  · obtain ⟨front, back, perm, -, number, -⟩ :=
      numbered_somewhere mem counted (Nat.zero_lt_of_lt two)
    exact ⟨front ++ back, perm, by omega⟩

theorem mem_deduplicate {finding : NormalizedFinding}
    (mem : finding ∈ deduplicate outside findings) : ∃ given ∈ findings,
      finding = given.numbered outside (numberIn outside findings given) := by
  rw [deduplicate_eq] at mem
  exact mem_assign.mp (kept_mem mem)

theorem deduplicate_covers {given : NormalizedFinding} (mem : given ∈ findings) :
    ∃ finding ∈ deduplicate outside findings, finding.fingerprint outside =
      fixedFingerprint outside given (numberIn outside findings given) := by
  rw [deduplicate_eq]
  exact kept_covers (mem_assign.mpr ⟨given, mem, rfl⟩)

theorem deduplicate_least {finding given : NormalizedFinding}
    (kept : finding ∈ deduplicate outside findings) (mem : given ∈ findings)
    (same : fixedFingerprint outside given (numberIn outside findings given) =
      finding.fingerprint outside) :
    totalFindingKey outside finding ≤
      fixedKey outside given (numberIn outside findings given) := by
  rw [deduplicate_eq] at kept
  exact kept_least kept (mem_assign.mpr ⟨given, mem, rfl⟩) same

theorem deduplicate_unique {first second : NormalizedFinding}
    (one : first ∈ deduplicate outside findings) (two : second ∈ deduplicate outside findings)
    (same : first.fingerprint outside = second.fingerprint outside) : first = second := by
  rw [deduplicate_eq] at one two
  exact kept_unique one two same

theorem deduplicate_nodup (findings : List NormalizedFinding) :
    ((deduplicate outside findings).map fun finding => finding.fingerprint outside).Nodup := by
  rw [deduplicate_eq]
  exact kept_nodup _

theorem deduplicate_front {front back : List NormalizedFinding} {finding given : NormalizedFinding}
    (kept : finding ∈ deduplicate outside (front ++ back)) (mem : given ∈ front)
    (same : fixedFingerprint outside given (numberIn outside (front ++ back) given) =
      finding.fingerprint outside)
    (level : fixedKey outside given (numberIn outside (front ++ back) given) ≤
      totalFindingKey outside finding) :
    ∃ other ∈ front,
      finding = other.numbered outside (numberIn outside (front ++ back) other) := by
  rw [deduplicate_eq, assign_eq, List.map_append] at kept
  have inside := kept_front (fun _ _ => fingerprint_of_key outside) kept
    (List.mem_map_of_mem mem) same level
  obtain ⟨other, other_mem, rfl⟩ := List.mem_map.mp inside
  exact ⟨other, other_mem, rfl⟩

/-- In every order of findings that are settled, exactly those that lead are kept. -/
theorem kept_iff_leads (settled : Settled outside findings) {reordered : List NormalizedFinding}
    (perm : reordered.Perm findings) {finding : NormalizedFinding} :
    finding ∈ deduplicate outside reordered ↔
      ∃ lead, Leads outside findings lead ∧ finding = lead.numbered outside 0 := by
  have stays_zero : ∀ given, ¬Floats outside findings given →
      given.numbered outside (numberIn outside reordered given) = given.numbered outside 0 :=
    fun given stays => numbered_stays fun floats => stays ((floats_perm perm).mp floats)
  have leads_of_kept : ∀ kept ∈ deduplicate outside reordered,
      ∃ lead, Leads outside findings lead ∧ kept = lead.numbered outside 0 := by
    intro kept mem
    obtain ⟨given, given_mem, same⟩ := mem_deduplicate mem
    have given_in := perm.mem_iff.mp given_mem
    by_cases floats : Floats outside findings given
    · obtain ⟨other, other_mem, stays, print, less⟩ := settled.behind given given_in floats _
        (placeCount_perm perm given ▸ numberIn_lt given_mem floats.1)
      have least := deduplicate_least mem (perm.mem_iff.mpr other_mem) (by
        rw [fixedFingerprint, stays_zero other stays, same]
        exact print)
      rw [fixedKey, stays_zero other stays, same] at least
      exact absurd less (not_lt_of_ge least)
    · rw [stays_zero given floats] at same
      refine ⟨given, ⟨given_in, floats, ?_⟩, same⟩
      intro other other_mem stays print
      have least := deduplicate_least mem (perm.mem_iff.mpr other_mem) (by
        rw [fixedFingerprint, stays_zero other stays, same]
        exact print)
      rw [fixedKey, stays_zero other stays, same] at least
      exact least
  constructor
  · exact leads_of_kept finding
  · rintro ⟨lead, leads, rfl⟩
    obtain ⟨kept, mem, print⟩ := deduplicate_covers (perm.mem_iff.mpr leads.mem)
    rw [fixedFingerprint, stays_zero lead leads.stays] at print
    obtain ⟨other, other_leads, rfl⟩ := leads_of_kept kept mem
    rw [← settled.same other lead other_leads leads print]
    exact mem

theorem deduplicate_perm (settled : Settled outside findings)
    {reordered : List NormalizedFinding} (perm : reordered.Perm findings) :
    deduplicate outside reordered = deduplicate outside findings := by
  have same : ∀ finding, finding ∈ deduplicate outside reordered ↔
      finding ∈ deduplicate outside findings := fun finding => by
    rw [kept_iff_leads settled perm, kept_iff_leads settled (List.Perm.refl findings)]
  rw [deduplicate_eq, deduplicate_eq] at same ⊢
  exact kept_eq (fun _ _ => fingerprint_of_key outside) same

section Needed
variable (orderless : ∀ reordered : List NormalizedFinding, reordered.Perm findings →
  deduplicate outside reordered = deduplicate outside findings)
include orderless

theorem kept_stays {finding : NormalizedFinding} (mem : finding ∈ deduplicate outside findings) :
    ∃ given ∈ findings, ¬Floats outside findings given ∧ finding = given.numbered outside 0 := by
  obtain ⟨given, given_mem, same⟩ := mem_deduplicate mem
  by_cases floats : Floats outside findings given
  · obtain ⟨reordered, perm, moved⟩ :=
      numbered_elsewhere given_mem floats (numberIn outside findings given)
    rw [← orderless reordered perm] at mem
    obtain ⟨other, -, again⟩ := mem_deduplicate mem
    obtain ⟨-, base, place, number⟩ := numbered_inj floats.1 (same.symm.trans again)
    have level : numberIn outside reordered given = numberIn outside reordered other := by
      simp only [numberIn, base, place]
    exact absurd (level.trans number.symm) moved
  · exact ⟨given, given_mem, floats, by rw [same, numbered_stays floats]⟩

theorem behind_needed {finding : NormalizedFinding} (mem : finding ∈ findings)
    (floats : Floats outside findings finding) {index : Nat}
    (below : index < placeCount outside findings finding) :
    ∃ other ∈ findings, ¬Floats outside findings other ∧
      fixedFingerprint outside other 0 = fixedFingerprint outside finding index ∧
      fixedKey outside other 0 < fixedKey outside finding index := by
  obtain ⟨front, back, perm, listed, number, together⟩ := numbered_somewhere mem floats.1 below
  obtain ⟨kept, kept_mem, print⟩ :=
    deduplicate_covers (List.mem_append_left back listed)
  rw [number] at print
  obtain ⟨other, other_mem, stays, rfl⟩ := kept_stays orderless (orderless _ perm ▸ kept_mem)
  refine ⟨other, other_mem, stays, print, ?_⟩
  by_contra level
  obtain ⟨early, early_mem, same⟩ := deduplicate_front kept_mem listed
    (by rw [number]; exact print.symm) (by rw [number]; exact not_lt.mp level)
  obtain ⟨early_counted, early_base⟩ := together early early_mem
  obtain ⟨other_counted, other_base, -, -⟩ := numbered_inj early_counted same.symm
  exact stays (floats_together floats mem other_counted (other_base.trans early_base))

theorem leads_kept {lead : NormalizedFinding} (leads : Leads outside findings lead) :
    lead.numbered outside 0 ∈ deduplicate outside findings := by
  obtain ⟨before, after, cut⟩ := List.append_of_mem leads.mem
  have perm : ([lead] ++ (before ++ after)).Perm findings := by
    rw [cut, List.singleton_append]
    exact List.perm_middle.symm
  have zero : lead.numbered outside (numberIn outside ([lead] ++ (before ++ after)) lead) =
      lead.numbered outside 0 :=
    numbered_stays fun floats => leads.stays ((floats_perm perm).mp floats)
  obtain ⟨kept, kept_mem, print⟩ :=
    deduplicate_covers (perm.mem_iff.mpr leads.mem)
  rw [fixedFingerprint, zero] at print
  obtain ⟨other, other_mem, stays, rfl⟩ := kept_stays orderless (orderless _ perm ▸ kept_mem)
  obtain ⟨early, early_mem, same⟩ := deduplicate_front kept_mem List.mem_cons_self
    (by rw [fixedFingerprint, zero]; exact print.symm)
    (by rw [fixedKey, zero]; exact leads.least other other_mem stays print)
  rw [List.mem_singleton.mp early_mem, zero] at same
  rw [← same, ← orderless _ perm]
  exact kept_mem

end Needed

theorem settled_iff : ((∀ reordered : List NormalizedFinding, reordered.Perm findings →
      deduplicate outside reordered = deduplicate outside findings) ∧
    ∀ finding ∈ findings, ∃ kept ∈ deduplicate outside findings,
      StandsFor outside kept finding) ↔ Settled outside findings := by
  have stands : ∀ lead finding, StandsFor outside (lead.numbered outside 0) finding ↔
      StandsFor outside lead finding := by
    intro lead finding
    unfold NormalizedFinding.numbered
    split
    · exact ⟨fun h => ⟨h.1, h.2, h.3, h.4, h.5, h.6⟩, fun h => ⟨h.1, h.2, h.3, h.4, h.5, h.6⟩⟩
    · exact Iff.rfl
  constructor
  · rintro ⟨orderless, held⟩
    have settled_same : ∀ first second, Leads outside findings first →
        Leads outside findings second →
        fixedFingerprint outside first 0 = fixedFingerprint outside second 0 →
        first.numbered outside 0 = second.numbered outside 0 := fun first second one two print =>
      deduplicate_unique (leads_kept orderless one) (leads_kept orderless two) print
    have behind : ∀ finding ∈ findings, Floats outside findings finding →
        ∀ index < placeCount outside findings finding, ∃ other ∈ findings,
          ¬Floats outside findings other ∧
          fixedFingerprint outside other 0 = fixedFingerprint outside finding index ∧
          fixedKey outside other 0 < fixedKey outside finding index :=
      fun finding mem floats index below => behind_needed orderless mem floats below
    refine ⟨behind, settled_same, ?_⟩
    intro finding mem
    obtain ⟨kept, kept_mem, stood⟩ := held finding mem
    obtain ⟨lead, lead_mem, stays, rfl⟩ := kept_stays orderless kept_mem
    refine ⟨lead, ⟨lead_mem, stays, ?_⟩, (stands lead finding).mp stood⟩
    intro other other_mem other_stays print
    have least := deduplicate_least kept_mem other_mem (by
      rw [fixedFingerprint, numbered_stays other_stays]
      exact print)
    rw [fixedKey, numbered_stays other_stays] at least
    exact least
  · intro settled
    refine ⟨fun reordered perm => deduplicate_perm settled perm, ?_⟩
    intro finding mem
    obtain ⟨lead, leads, stood⟩ := settled.held finding mem
    exact ⟨lead.numbered outside 0, (kept_iff_leads settled (List.Perm.refl findings)).mpr
      ⟨lead, leads, rfl⟩, (stands lead finding).mpr stood⟩

end Order
end DevopsCli.Security
