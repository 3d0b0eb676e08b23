import Mathlib

/- Bisection of a range of whole numbers: what is kept of the last place that passes a test. The
   test can raise. Nothing here is about one program. -/
namespace DevopsCli.Bisection
variable {ε β : Type} (test : Int → Except ε Bool) (take : Int → β)

/-- Each round tests the middle and keeps what it takes there when the test passes. Without
    rounds left there is no result. -/
def bisect : Nat → Int → Int → β → Option (Except ε β)
  | 0, _, _, _ => none
  | rounds + 1, low, high, best =>
    if low ≤ high then
      match test ((low + high) / 2) with
      | .error e => some (.error e)
      | .ok true => bisect rounds ((low + high) / 2 + 1) high (take ((low + high) / 2))
      | .ok false => bisect rounds low ((low + high) / 2 - 1) best
    else some (.ok best)

variable {test take} {low high : Int} {best r : β} {rounds : Nat}

theorem bisect_kept (done : bisect test take rounds low high best = some (.ok r)) :
    r = best ∨ ∃ k, low ≤ k ∧ k ≤ high ∧ test k = .ok true ∧ r = take k := by
  induction rounds generalizing low high best with
  | zero => exact nomatch done
  | succ rounds ih =>
    unfold bisect at done
    split at done
    · next open_ =>
      split at done
      · exact nomatch done
      · next passes =>
        rcases ih done with rfl | ⟨k, above, below, rest⟩
        · exact .inr ⟨_, by omega, by omega, passes, rfl⟩
        · exact .inr ⟨k, by omega, below, rest⟩
      · rcases ih done with same | ⟨k, above, below, rest⟩
        · exact .inl same
        · exact .inr ⟨k, above, by omega, rest⟩
    · exact .inl (Except.ok.inj (Option.some.inj done)).symm

/-- A test of the places of a range that passes up to some place and fails behind it. -/
structure Falls (test : Int → Except ε Bool) (fits : Int → Prop) (low high : Int) : Prop where
  tested : ∀ k, low ≤ k → k ≤ high → ∃ b, test k = .ok b ∧ (b = true ↔ fits k)
  down : ∀ i j, low ≤ i → i ≤ j → j ≤ high → fits j → fits i

/-- The last place of the range that fits, or the start where none does. -/
inductive Last (fits : Int → Prop) (take : Int → β) (low high : Int) (best : β) : β → Prop where
  | none (misfit : ∀ k, low ≤ k → k ≤ high → ¬fits k) : Last fits take low high best best
  | at_ (k : Int) (above : low ≤ k) (below : k ≤ high) (fits_ : fits k)
      (beyond : ∀ j, k < j → j ≤ high → ¬fits j) : Last fits take low high best (take k)

variable {fits : Int → Prop}

theorem Falls.narrow {low' high' : Int} (falls : Falls test fits low high) (above : low ≤ low')
    (below : high' ≤ high) : Falls test fits low' high' where
  tested k lower upper := falls.tested k (by omega) (by omega)
  down i j lower between upper := falls.down i j (by omega) between (by omega)

theorem Last.upper {mid : Int} (above : low ≤ mid) (fits_ : fits mid)
    (last : Last fits take (mid + 1) high (take mid) r) (below : mid ≤ high) :
    Last fits take low high best r := by
  cases last with
  | none misfit => exact .at_ mid above below fits_ fun j beyond => misfit j (by omega)
  | at_ k lower upper fits_ beyond => exact .at_ k (by omega) upper fits_ beyond

theorem Last.lower {mid : Int} (misfit : ∀ j, mid ≤ j → j ≤ high → ¬fits j)
    (last : Last fits take low (mid - 1) best r) (below : mid ≤ high) :
    Last fits take low high best r := by
  cases last with
  | none none_ =>
    refine .none fun k lower upper => ?_
    by_cases before : k < mid
    · exact none_ k lower (by omega)
    · exact misfit k (by omega) upper
  | at_ k lower upper fits_ beyond =>
    refine .at_ k lower (by omega) fits_ fun j behind upper => ?_
    by_cases before : j < mid
    · exact beyond j behind (by omega)
    · exact misfit j (by omega) upper

/-- A range of less than 2 ^ n places is searched in n rounds and a last one. -/
theorem bisect_last (best : β) (falls : Falls test fits low high) (enough : high - low + 1 < 2 ^ rounds) :
    ∃ r, bisect test take (rounds + 1) low high best = some (.ok r) ∧
      Last fits take low high best r := by
  induction rounds generalizing low high best with
  | zero =>
    refine ⟨best, if_neg (by omega), .none fun k above below => ?_⟩
    omega
  | succ rounds ih =>
    rw [pow_succ] at enough
    unfold bisect
    split
    · next open_ =>
      have above : low ≤ (low + high) / 2 := by omega
      have below : (low + high) / 2 ≤ high := by omega
      obtain ⟨b, tested, meaning⟩ := falls.tested _ above below
      rw [tested]
      cases b with
      | true =>
        obtain ⟨r, done, last⟩ := ih (take ((low + high) / 2))
          (falls.narrow (by omega : low ≤ (low + high) / 2 + 1) le_rfl) (by omega)
        exact ⟨r, done, last.upper above (meaning.mp rfl) below⟩
      | false =>
        obtain ⟨r, done, last⟩ := ih best
          (falls.narrow le_rfl (by omega : (low + high) / 2 - 1 ≤ high)) (by omega)
        have misfit : ¬fits ((low + high) / 2) := fun fits_ => nomatch meaning.mpr fits_
        refine ⟨r, done, last.lower (fun j behind upper fits_ => misfit ?_) below⟩
        exact falls.down _ j above behind upper fits_
    · next closed =>
      exact ⟨best, rfl, .none fun k above below => absurd (above.trans below) closed⟩

section Right
variable {α : Type} [LinearOrder α] [Inhabited α]

def bisectRightFrom (a : List α) (x : α) : Nat → Nat → Nat → Nat
  | 0, low, _ => low
  | rounds + 1, low, high =>
    if low < high then
      if x < a[(low + high) / 2]! then bisectRightFrom a x rounds low ((low + high) / 2)
      else bisectRightFrom a x rounds ((low + high) / 2 + 1) high
    else low

def bisectRight (a : List α) (x : α) : Nat := bisectRightFrom a x a.length 0 a.length

end Right
end DevopsCli.Bisection
