import Mathlib

/- Search in a text that grows at its end. What a search finds in a part of the text stands
   in the whole, and what it does not find can only begin in the overlap that the end of the
   part has with the start of the target. -/
namespace DevopsCli.Text

variable {α : Type} {text more target other : List α} {i j k : Nat}

theorem end_le (here : target <+: text.drop i) (bound : i ≤ text.length) :
    i + target.length ≤ text.length := by
  have := here.length_le
  simp only [List.length_drop] at this
  omega

theorem prefix_drop_append (inside : i + target.length ≤ text.length) :
    target <+: (text ++ more).drop i ↔ target <+: text.drop i := by
  rw [List.drop_append_of_le_length (by omega)]
  constructor
  · intro here
    exact List.prefix_of_prefix_length_le here (List.prefix_append _ _) (by simp; omega)
  · exact fun here => here.trans (List.prefix_append _ _)

def Overlap (text target : List α) (n : Nat) : Prop :=
  ∀ m, n < m → m ≤ text.length → m < target.length → ¬ text.drop (text.length - m) <+: target

theorem overlap_mono {n m : Nat} (overlap : Overlap text target n) (more : n ≤ m) :
    Overlap text target m :=
  fun length longer => overlap length (by omega)

variable [DecidableEq α]

/-- The first place of target in the text. -/
def find (text target : List α) : Option Nat :=
  if target <+: text then some 0
  else
    match text with
    | [] => none
    | _ :: rest => (find rest target).map (· + 1)

theorem find_eq_none : find text target = none ↔ ∀ j ≤ text.length, ¬ target <+: text.drop j := by
  induction text with
  | nil =>
    unfold find
    by_cases here : target <+: [] <;> simp [here]
  | cons c rest ih =>
    unfold find
    by_cases here : target <+: c :: rest
    · simp only [here, ↓reduceIte, reduceCtorEq, false_iff, not_forall, not_not]
      exact ⟨0, Nat.zero_le _, here⟩
    · simp only [here, ↓reduceIte, Option.map_eq_none_iff, ih]
      constructor
      · intro absent j bound
        cases j with
        | zero => exact here
        | succ j => exact absent j (Nat.le_of_succ_le_succ bound)
      · exact fun absent j bound => absent (j + 1) (Nat.succ_le_succ bound)

theorem find_eq_some : find text target = some i ↔
    i ≤ text.length ∧ target <+: text.drop i ∧ ∀ j < i, ¬ target <+: text.drop j := by
  induction text generalizing i with
  | nil =>
    unfold find
    by_cases here : target <+: []
    · simp only [here, ↓reduceIte, Option.some.injEq, List.length_nil, Nat.le_zero]
      constructor
      · rintro rfl
        exact ⟨rfl, here, by simp⟩
      · exact fun at_ => at_.1.symm
    · simp [here]
  | cons c rest ih =>
    unfold find
    by_cases here : target <+: c :: rest
    · simp only [here, ↓reduceIte, Option.some.injEq]
      constructor
      · rintro rfl
        exact ⟨Nat.zero_le _, here, by simp⟩
      · intro ⟨_, _, first⟩
        by_contra later
        exact first 0 (by omega) here
    · simp only [here, ↓reduceIte, Option.map_eq_some_iff, ih]
      constructor
      · rintro ⟨i, ⟨bound, found, first⟩, rfl⟩
        refine ⟨Nat.succ_le_succ bound, found, fun j before => ?_⟩
        cases j with
        | zero => exact here
        | succ j => exact first j (by omega)
      · intro ⟨bound, found, first⟩
        cases i with
        | zero => exact absurd found here
        | succ i =>
          exact ⟨i, ⟨Nat.le_of_succ_le_succ bound, found, fun j before =>
            first (j + 1) (by omega)⟩, rfl⟩

theorem find_append_some (more : List α) (found : find text target = some i) :
    find (text ++ more) target = some i := by
  obtain ⟨bound, here, first⟩ := find_eq_some.mp found
  have ends := end_le here bound
  refine find_eq_some.mpr ⟨by simp; omega, (prefix_drop_append ends).mpr here, fun j before => ?_⟩
  rw [prefix_drop_append (by omega)]
  exact first j before

theorem find_append_clear (clear : ∀ j < text.length, ¬ target <+: (text ++ more).drop j) :
    find (text ++ more) target = (find more target).map (· + text.length) := by
  have shift (j : Nat) : (text ++ more).drop (j + text.length) = more.drop j := by
    rw [Nat.add_comm, List.drop_append, List.drop_eq_nil_of_le (by omega)]
    simp
  cases found : find more target with
  | none =>
    rw [find_eq_none] at found
    refine find_eq_none.mpr fun j bound => ?_
    by_cases early : j < text.length
    · exact clear j early
    · obtain ⟨k, rfl⟩ := Nat.exists_eq_add_of_le (Nat.le_of_not_lt early)
      rw [Nat.add_comm, shift]
      exact found k (by simp at bound; omega)
  | some i =>
    obtain ⟨bound, here, first⟩ := find_eq_some.mp found
    simp only [Option.map_some]
    refine find_eq_some.mpr ⟨by simp; omega, by rw [shift]; exact here, fun j before => ?_⟩
    by_cases early : j < text.length
    · exact clear j early
    · obtain ⟨k, rfl⟩ := Nat.exists_eq_add_of_le (Nat.le_of_not_lt early)
      rw [Nat.add_comm, shift]
      exact first k (by omega)

theorem find_drop (absent : find text target = none) (n : Nat) :
    find (text.drop n) target = none := by
  rw [find_eq_none] at absent ⊢
  intro j bound
  rw [List.length_drop] at bound
  rw [List.drop_drop]
  by_cases inside : n + j ≤ text.length
  · exact absent (n + j) inside
  · rw [List.drop_eq_nil_of_le (by omega), ← List.drop_length]
    exact absent text.length le_rfl

theorem find_late (early : find text target = some i) (absent : find text other = none)
    (apart : ¬ target <:+: other) (late : find (text ++ more) other = some k) : i < k := by
  obtain ⟨bound, here, _⟩ := find_eq_some.mp early
  obtain ⟨_, there, _⟩ := find_eq_some.mp late
  have ends := end_le here bound
  have beyond : text.length < k + other.length := by
    by_contra inside
    rw [prefix_drop_append (by omega)] at there
    exact find_eq_none.mp absent k (by omega) there
  -- Otherwise the early target lies between the start and the end of the late one.
  by_contra before
  have within : other.drop (i - k) <+: (text ++ more).drop i := by
    have tail := there.drop (i - k)
    rwa [List.drop_drop, show k + (i - k) = i by omega] at tail
  have held : target <+: other.drop (i - k) :=
    List.prefix_of_prefix_length_le ((prefix_drop_append ends).mpr here) within
      (by rw [List.length_drop]; omega)
  exact apart (held.isInfix.trans (List.drop_suffix _ _).isInfix)

/-- A target that is not in the text begins, if at all, in the overlap. -/
theorem clear_before_overlap {n : Nat} (absent : find text target = none)
    (overlap : Overlap text target n) (before : j + n < text.length) :
    ¬ target <+: (text ++ more).drop j := by
  intro here
  by_cases inside : j + target.length ≤ text.length
  · exact find_eq_none.mp absent j (by omega) ((prefix_drop_append inside).mp here)
  · rw [List.drop_append_of_le_length (by omega)] at here
    have part : text.drop j <+: target :=
      List.prefix_of_prefix_length_le (List.prefix_append _ _) here (by rw [List.length_drop]; omega)
    refine overlap (text.length - j) (by omega) (by omega) (by omega) ?_
    rwa [show text.length - (text.length - j) = j by omega]

end DevopsCli.Text
