import Mathlib.Data.List.Basic

/- Lists mapped by a function that may have no value: nothing where it has none at one element, and
   else its values. Nothing here is about one program. -/
namespace DevopsCli.OptionLists

universe u
variable {α β : Type u} {f : α → Option β} {xs : List α} {ys : List β}

theorem mapM_none : xs.mapM f = none ↔ ∃ x ∈ xs, f x = none := by
  induction xs with
  | nil => simp
  | cons x rest ih =>
    rw [List.mapM_cons]
    cases here : f x with
    | none => simp [here]
    | some y =>
      cases later : rest.mapM f with
      | none => simpa [here, later] using ih.mp later
      | some others =>
        rw [later] at ih
        simpa [here, later] using ih

theorem mem_mapM (all : xs.mapM f = some ys) (y : β) : y ∈ ys ↔ ∃ x ∈ xs, f x = some y := by
  induction xs generalizing ys with
  | nil =>
    obtain rfl := Option.some.inj all
    simp
  | cons x rest ih =>
    rw [List.mapM_cons] at all
    obtain ⟨first, here, more⟩ := Option.bind_eq_some_iff.mp all
    obtain ⟨later, there, made⟩ := Option.bind_eq_some_iff.mp more
    obtain rfl := Option.some.inj made
    rw [List.mem_cons, ih there]
    simp [here, eq_comm]

theorem exists_of_mapM (all : xs.mapM f = some ys) {x : α} (member : x ∈ xs) : ∃ y ∈ ys, f x = some y := by
  cases found : f x with
  | none =>
    have none_ : xs.mapM f = none := mapM_none.mpr ⟨x, member, found⟩
    rw [none_] at all
    cases all
  | some y => exact ⟨y, (mem_mapM all y).mpr ⟨x, member, found⟩, rfl⟩

end DevopsCli.OptionLists
