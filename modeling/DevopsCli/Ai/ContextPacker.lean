import DevopsCli.Lib.Bisection
import DevopsCli.Lib.PyStr

/- Cutting the statements of a module to a token budget, ai/context_packer.py. The search for the
   cut starts from an estimate and bisects what is left of the statements on its side. -/
namespace DevopsCli.Ai.ContextPacker
open PyStr Bisection

inductive StmtKind where
  | function (name : Str) (args : List Str) (returns : Bool)
  | «class» (name : Str)
  | assign
  | «import»
  | other
  deriving DecidableEq, Repr

def charEstimate : StmtKind → Nat
  | .function name args returns =>
    10 + name.length + (args.map fun arg => arg.length + 8).sum + (if returns then 10 else 0) + 10
  | .class name => 15 + name.length
  | .assign => 30
  | .import => 25
  | .other => 20

def estimateStmtTokens (kind : StmtKind) : Int := max 3 (charEstimate kind / 4 : Nat)

structure Packer (Stmt ε : Type) where
  unparse : List Stmt → Str
  estimate : Stmt → Int
  countTokens : Str → Except ε Nat
  stripDocstrings : List Stmt → List Stmt
  /-- The name of a statement, or of its type. -/
  symbol : Stmt → Str

def prefixSums (weights : List Int) : List Int := weights.scanl (· + ·) 0

def estimatedIndex (weights : List Int) (maxTokens : Int) : Int :=
  min weights.length (max 0 ((bisectRight (prefixSums weights) maxTokens : Int) - 1))

def truncationNote : Str := "# [Code truncated due to token budget]".toList

structure Pruned (Stmt : Type) where
  body : List Stmt
  pruned : List Str
  text : Str
  truncated : Bool

namespace Packer
variable {Stmt ε : Type} (p : Packer Stmt ε)

def prefixText (body : List Stmt) (k : Int) : Str :=
  if 0 < k then p.unparse (body.take k.toNat) else []

def fitsBudget (body : List Stmt) (maxTokens k : Int) : Except ε Bool :=
  (p.countTokens (p.prefixText body k)).map fun tokens => decide ((tokens : Int) ≤ maxTokens)

def findTruncationIndex (rounds : Nat) (body : List Stmt) (maxTokens : Int) :
    Option (Except ε (Int × Str)) :=
  if body.isEmpty ∨ maxTokens ≤ 0 then some (.ok (0, []))
  else
    let estK := estimatedIndex (body.map p.estimate) maxTokens
    match p.fitsBudget body maxTokens estK with
    | .error e => some (.error e)
    | .ok true =>
      bisect (p.fitsBudget body maxTokens) (fun mid => (mid, p.prefixText body mid)) rounds
        (estK + 1) body.length (estK, p.prefixText body estK)
    | .ok false =>
      bisect (p.fitsBudget body maxTokens) (fun mid => (mid, p.prefixText body mid)) rounds
        0 (estK - 1) (0, [])

def cutTree (rounds : Nat) (body : List Stmt) (maxTokens : Int) (pruned : List Str)
    (docstringsStripped : Bool) : Option (Except ε (Pruned Stmt)) :=
  (p.findTruncationIndex rounds body maxTokens).map fun found => found.map fun (bestK, best) =>
    { body := body.take bestK.toNat
      pruned := pruned ++ (body.drop bestK.toNat).map p.symbol
      text := if best = [] then truncationNote else best
      truncated := decide (bestK < body.length) || docstringsStripped }

def pruneTreeToBudget (rounds : Nat) (body : List Stmt) (maxTokens : Int) (pruned : List Str) :
    Option (Except ε (Pruned Stmt)) :=
  if body.isEmpty then some (.ok ⟨body, pruned, [], false⟩)
  else if maxTokens ≤ 0 then some (.ok ⟨[], pruned ++ body.map p.symbol, truncationNote, true⟩)
  else if (body.map p.estimate).sum ≤ maxTokens then
    match p.countTokens (p.unparse body) with
    | .error e => some (.error e)
    | .ok tokens =>
      if (tokens : Int) ≤ maxTokens then some (.ok ⟨body, pruned, p.unparse body, false⟩)
      else
        let stripped := p.stripDocstrings body
        match p.countTokens (p.unparse stripped) with
        | .error e => some (.error e)
        | .ok tokens =>
          if (tokens : Int) ≤ maxTokens then
            some (.ok ⟨stripped, pruned, p.unparse stripped, true⟩)
          else p.cutTree rounds stripped maxTokens pruned true
  else p.cutTree rounds body maxTokens pruned false

end Packer

section Estimate
variable {weights : List Int} {maxTokens : Int}

theorem estimatedIndex_range (weights : List Int) (maxTokens : Int) :
    0 ≤ estimatedIndex weights maxTokens ∧ estimatedIndex weights maxTokens ≤ weights.length := by
  unfold estimatedIndex
  omega

end Estimate

section Search
variable {Stmt ε : Type} {p : Packer Stmt ε} {body : List Stmt} {maxTokens : Int} {count : Nat → Nat}

def Fits (count : Nat → Nat) (maxTokens : Int) (k : Nat) : Prop :=
  0 < maxTokens ∧ (count k : Int) ≤ maxTokens

instance (count : Nat → Nat) (maxTokens : Int) : DecidablePred (Fits count maxTokens) :=
  fun _ => inferInstanceAs (Decidable (_ ∧ _))

structure Counts (p : Packer Stmt ε) (body : List Stmt) (count : Nat → Nat) : Prop where
  counted : ∀ k : Nat, k ≤ body.length → p.countTokens (p.prefixText body k) = .ok (count k)
  monotone : ∀ i j, i ≤ j → j ≤ body.length → count i ≤ count j

theorem fitsBudget_count (counts : Counts p body count) (positive : 0 < maxTokens) {k : Int}
    (above : 0 ≤ k) (below : k ≤ body.length) :
    ∃ b, p.fitsBudget body maxTokens k = .ok b ∧ (b = true ↔ Fits count maxTokens k.toNat) := by
  obtain ⟨n, rfl⟩ := Int.eq_ofNat_of_zero_le above
  have counted := counts.counted n (by omega)
  refine ⟨decide ((count n : Int) ≤ maxTokens), ?_, ?_⟩
  · rw [Packer.fitsBudget, counted]
    rfl
  · rw [decide_eq_true_iff]
    exact ⟨fun fits => ⟨positive, fits⟩, And.right⟩

theorem fits_down (counts : Counts p body count) {i j : Nat} (order : i ≤ j)
    (inside : j ≤ body.length) (fits : Fits count maxTokens j) : Fits count maxTokens i := by
  have fewer := counts.monotone i j order inside
  obtain ⟨positive, fits⟩ := fits
  exact ⟨positive, by omega⟩

theorem fits_falls (counts : Counts p body count) (positive : 0 < maxTokens) {low high : Int}
    (above : 0 ≤ low) (below : high ≤ body.length) :
    Falls (p.fitsBudget body maxTokens) (fun k => Fits count maxTokens k.toNat) low high where
  tested k lower upper := fitsBudget_count counts positive (by omega) (by omega)
  down i j lower between upper fits := fits_down counts (by omega) (by omega) fits

def longestFit (body : List Stmt) (count : Nat → Nat) (maxTokens : Int) : Int :=
  (Nat.findGreatest (Fits count maxTokens) body.length : Nat)

theorem longestFit_eq {k : Nat} (inside : k ≤ body.length) (fits : k ≠ 0 → Fits count maxTokens k)
    (longest : ∀ j, k < j → j ≤ body.length → ¬Fits count maxTokens j) :
    longestFit body count maxTokens = k := by
  have greatest : Nat.findGreatest (Fits count maxTokens) body.length = k :=
    Nat.findGreatest_eq_iff.mpr ⟨inside, fits, fun {j} => longest j⟩
  rw [longestFit, greatest]

/-- What a search keeps is the longest prefix that fits, when it starts from one that fits, or from
    none, and no place out of its range fits. -/
theorem last_longest {low high : Int} {start : Nat} {found : Int × Str}
    (last : Last (fun k => Fits count maxTokens k.toNat) (fun k => (k, p.prefixText body k))
      low high ((start : Int), p.prefixText body start) found)
    (order : start ≤ low) (next : low ≤ start + 1) (below : high ≤ body.length)
    (inside : start ≤ body.length) (first : start ≠ 0 → Fits count maxTokens start)
    (beyond : ∀ j : Nat, high < j → j ≤ body.length → ¬Fits count maxTokens j) :
    found = (longestFit body count maxTokens,
      p.prefixText body (longestFit body count maxTokens)) := by
  cases last with
  | none misfit =>
    have longest : longestFit body count maxTokens = start := by
      refine longestFit_eq inside first fun j behind within => ?_
      by_cases upper : (j : Int) ≤ high
      · exact misfit j (by omega) upper
      · exact beyond j (by omega) within
    rw [longest]
  | at_ k above upper fits behind =>
    have longest : longestFit body count maxTokens = k.toNat := by
      refine longestFit_eq (by omega) (fun _ => fits) fun j later within => ?_
      by_cases inner : (j : Int) ≤ high
      · exact behind j (by omega) inner
      · exact beyond j (by omega) within
    rw [longest, Int.toNat_of_nonneg (by omega)]

/-- Truncation finds the longest prefix that fits, from every estimate, in as many rounds as halve
    the statements away. -/
theorem findTruncationIndex_longest (counts : Counts p body count) (maxTokens : Int)
    {rounds : Nat} (enough : body.length + 1 < 2 ^ rounds) :
    p.findTruncationIndex (rounds + 1) body maxTokens =
      some (.ok (longestFit body count maxTokens,
        p.prefixText body (longestFit body count maxTokens))) := by
  unfold Packer.findTruncationIndex
  split
  · next none_ =>
    have longest : longestFit body count maxTokens = (0 : Nat) := by
      refine longestFit_eq (Nat.zero_le _) (fun some_ => absurd rfl some_) fun j later within fits => ?_
      rcases none_ with empty | zero
      · rw [List.isEmpty_iff.mp empty] at within
        exact absurd later (Nat.not_lt.mpr within)
      · exact absurd fits.1 (by omega)
    rw [longest]
    rfl
  · next some_ =>
    obtain ⟨statements, budget⟩ := not_or.mp some_
    have positive : 0 < maxTokens := by omega
    obtain ⟨lower, upper⟩ := estimatedIndex_range (body.map p.estimate) maxTokens
    rw [List.length_map] at upper
    generalize estimatedIndex (body.map p.estimate) maxTokens = estK at lower upper
    obtain ⟨start, rfl⟩ := Int.eq_ofNat_of_zero_le lower
    obtain ⟨b, tested, meaning⟩ := fitsBudget_count counts positive lower upper
    have wide : (body.length : Int) + 1 < 2 ^ rounds := by exact_mod_cast enough
    simp only [tested]
    cases b with
    | true =>
      have falls := fits_falls counts positive (by omega : (0 : Int) ≤ start + 1) le_rfl
      obtain ⟨found, done, last⟩ := bisect_last ((start : Int), p.prefixText body start) falls
        (by omega : (body.length : Int) - (start + 1) + 1 < 2 ^ rounds)
      have same := last_longest last (by omega) le_rfl le_rfl (by omega)
        (fun _ => meaning.mp rfl) fun j later within => by omega
      rw [done, same]
    | false =>
      have misfit : ¬Fits count maxTokens start := fun fits => nomatch meaning.mpr fits
      have falls := fits_falls counts positive le_rfl (by omega : (start : Int) - 1 ≤ body.length)
      obtain ⟨found, done, last⟩ := bisect_last (((0 : Nat) : Int), p.prefixText body (0 : Nat)) falls
        (by omega : (start : Int) - 1 - 0 + 1 < 2 ^ rounds)
      have same := last_longest last (by omega) (by omega) (by omega) (Nat.zero_le _)
        (fun zero => absurd rfl zero) fun j later within fits =>
          misfit (fits_down counts (by omega) within fits)
      rw [same] at done
      exact done

end Search

section Letters

def letters : Packer Char Empty where
  unparse body := body
  estimate _ := 3
  countTokens text := .ok text.length
  stripDocstrings body := body
  symbol c := [c]

theorem letters_counts : Counts letters ['a', 'b', 'c', 'd'] (min 4) where
  counted k _ := by
    cases k with
    | zero => rfl
    | succ k =>
      have text : letters.prefixText ['a', 'b', 'c', 'd'] (k + 1 : Nat) =
          ['a', 'b', 'c', 'd'].take (k + 1) := if_pos (by omega)
      rw [text]
      refine congrArg Except.ok ?_
      rw [List.length_take]
      exact Nat.min_comm _ _
  monotone i j order _ := by omega

/-- Two of four tokens, with an estimate of no statement. -/
theorem letters_longest : letters.findTruncationIndex 4 ['a', 'b', 'c', 'd'] 2 =
    some (.ok (2, ['a', 'b'])) :=
  findTruncationIndex_longest letters_counts 2 (by decide : 4 + 1 < 2 ^ 3)

end Letters

section Prune
variable {Stmt ε : Type} {p : Packer Stmt ε} {body : List Stmt} {maxTokens : Int} {rounds : Nat}

theorem found_fits {k : Int} {text : Str}
    (done : p.findTruncationIndex rounds body maxTokens = some (.ok (k, text))) :
    text = [] ∨ ∃ n, p.countTokens text = .ok n ∧ (n : Int) ≤ maxTokens := by
  have counted {k : Int} (tested : p.fitsBudget body maxTokens k = .ok true) :
      ∃ n, p.countTokens (p.prefixText body k) = .ok n ∧ (n : Int) ≤ maxTokens := by
    unfold Packer.fitsBudget at tested
    cases tokens : p.countTokens (p.prefixText body k) with
    | error e =>
      rw [tokens] at tested
      exact nomatch tested
    | ok n =>
      rw [tokens] at tested
      exact ⟨n, rfl, of_decide_eq_true (Except.ok.inj tested)⟩
  unfold Packer.findTruncationIndex at done
  split at done
  · obtain ⟨rfl, rfl⟩ := Prod.mk.inj (Except.ok.inj (Option.some.inj done))
    exact .inl rfl
  · simp only at done
    split at done
    · exact nomatch done
    · next tested =>
      rcases bisect_kept done with same | ⟨mid, _, _, passes, same⟩
      · obtain ⟨rfl, rfl⟩ := Prod.mk.inj same
        exact .inr (counted tested)
      · obtain ⟨rfl, rfl⟩ := Prod.mk.inj same
        exact .inr (counted passes)
    · rcases bisect_kept done with same | ⟨mid, _, _, passes, same⟩
      · obtain ⟨rfl, rfl⟩ := Prod.mk.inj same
        exact .inl rfl
      · obtain ⟨rfl, rfl⟩ := Prod.mk.inj same
        exact .inr (counted passes)

/-- A tree is cut to a text within the budget, or to a note, and each statement that it loses is
    named. -/
structure Trimmed (p : Packer Stmt ε) (maxTokens : Int) (body : List Stmt) (pruned : List Str)
    (out : Pruned Stmt) : Prop where
  text : out.text = [] ∨ out.text = truncationNote ∨
    ∃ n, p.countTokens out.text = .ok n ∧ (n : Int) ≤ maxTokens
  names : ∃ rest, out.pruned = pruned ++ rest.map p.symbol ∧
    (out.body ++ rest = body ∨ out.body ++ rest = p.stripDocstrings body)

variable {pruned : List Str} {out : Pruned Stmt}

theorem cutTree_trimmed {stripped : Bool} (tree : List Stmt)
    (tree_ : tree = body ∨ tree = p.stripDocstrings body)
    (done : p.cutTree rounds tree maxTokens pruned stripped = some (.ok out)) :
    Trimmed p maxTokens body pruned out := by
  obtain ⟨found, search, same⟩ := Option.map_eq_some_iff.mp done
  cases found with
  | error e => exact nomatch same
  | ok pair =>
    obtain ⟨k, text⟩ := pair
    obtain rfl := Except.ok.inj same
    constructor
    · by_cases empty : text = []
      · exact .inr (.inl (if_pos empty))
      · obtain counted := (found_fits search).resolve_left empty
        have kept : (if text = [] then truncationNote else text) = text := if_neg empty
        refine .inr (.inr ?_)
        show ∃ n, p.countTokens (if text = [] then truncationNote else text) = _ ∧ _
        rw [kept]
        exact counted
    · refine ⟨tree.drop k.toNat, rfl, ?_⟩
      rw [List.take_append_drop]
      exact tree_

theorem pruneTreeToBudget_trimmed
    (done : p.pruneTreeToBudget rounds body maxTokens pruned = some (.ok out)) :
    Trimmed p maxTokens body pruned out := by
  have whole (tree : List Stmt) (truncated : Bool) {tokens : Nat}
      (tree_ : tree = body ∨ tree = p.stripDocstrings body)
      (counted : p.countTokens (p.unparse tree) = .ok tokens) (fits : (tokens : Int) ≤ maxTokens) :
      Trimmed p maxTokens body pruned ⟨tree, pruned, p.unparse tree, truncated⟩ :=
    ⟨.inr (.inr ⟨tokens, counted, fits⟩), [], (List.append_nil _).symm, by rwa [List.append_nil]⟩
  unfold Packer.pruneTreeToBudget at done
  split at done
  · obtain rfl := Except.ok.inj (Option.some.inj done)
    exact ⟨.inl rfl, [], (List.append_nil _).symm, .inl (List.append_nil _)⟩
  · split at done
    · obtain rfl := Except.ok.inj (Option.some.inj done)
      exact ⟨.inr (.inl rfl), body, rfl, .inl rfl⟩
    · split at done
      · split at done
        · exact nomatch done
        · next counted =>
          split at done
          · next fits =>
            obtain rfl := Except.ok.inj (Option.some.inj done)
            exact whole body false (.inl rfl) counted fits
          · -- the docstrings are taken out before the text is counted again
            simp only at done
            split at done
            · exact nomatch done
            · next counted =>
              split at done
              · next fits =>
                obtain rfl := Except.ok.inj (Option.some.inj done)
                exact whole (p.stripDocstrings body) true (.inr rfl) counted fits
              · exact cutTree_trimmed (p.stripDocstrings body) (.inr rfl) done
      · exact cutTree_trimmed body (.inl rfl) done

end Prune
end DevopsCli.Ai.ContextPacker
