import Mathlib

/- How many times of a log fall in one window. Times are any linearly ordered group;
   a window is any set of times that are less than its length apart. -/
namespace DevopsCli.Window

variable {T : Type*} [LinearOrder T]

theorem filter_dropWhile {E : Type*} (key : E → T) {old new : T} (later : old ≤ new)
    (es : List E) :
    (es.dropWhile fun e => decide (key e ≤ old)).filter (fun e => decide (new < key e)) =
      es.filter fun e => decide (new < key e) := by
  induction es with
  | nil => rfl
  | cons e es ih =>
    by_cases gone : key e ≤ old
    · have : ¬ new < key e := not_lt.mpr (gone.trans later)
      simp [gone, this, ih]
    · simp [gone]

variable [AddCommGroup T]

/-- The times picked by span are less than w apart. -/
def Narrow (w : T) (span : T → Bool) : Prop :=
  ∀ x y, span x = true → span y = true → y - x < w

def Bounded (w : T) (limit : Nat) (ts : List T) : Prop :=
  ∀ span : T → Bool, Narrow w span → ts.countP span ≤ limit

theorem bounded_nil (w : T) (limit : Nat) : Bounded w limit [] := by
  intro span _
  simp

theorem bounded_of_perm {w : T} {limit : Nat} {ts us : List T} (perm : ts.Perm us)
    (bounded : Bounded w limit ts) : Bounded w limit us := by
  intro span narrow
  rw [← perm.countP_eq span]
  exact bounded span narrow

theorem bounded_of_cons {w : T} {limit : Nat} {t : T} {ts : List T}
    (bounded : Bounded w limit (t :: ts)) : Bounded w limit ts := by
  intro span narrow
  have part : ts.countP span ≤ (t :: ts).countP span :=
    (List.sublist_cons_self t ts).countP_le
  exact part.trans (bounded span narrow)

variable [IsOrderedAddMonoid T]

theorem narrow_from (a w : T) : Narrow w fun t => decide (a ≤ t ∧ t < a + w) := by
  intro x y hx hy
  simp only [decide_eq_true_eq] at hx hy
  have apart : y - x ≤ y - a := sub_le_sub_left hx.1 y
  exact lt_of_le_of_lt apart (sub_lt_iff_lt_add'.mpr hy.2)

theorem narrow_after (a w : T) : Narrow w fun t => decide (a < t ∧ t ≤ a + w) := by
  intro x y hx hy
  simp only [decide_eq_true_eq] at hx hy
  have apart : y - x < y - a := sub_lt_sub_left hx.1 y
  exact lt_of_lt_of_le apart (sub_le_iff_le_add'.mpr hy.2)

/-- A time joins the log when fewer than limit of the log are later than the start of the
    window that ends with it. -/
theorem bounded_snoc {w cutoff now : T} {limit : Nat} {ts : List T}
    (bounded : Bounded w limit ts) (start : cutoff ≤ now - w)
    (room : (ts.filter fun t => decide (cutoff < t)).length < limit) :
    Bounded w limit (ts ++ [now]) := by
  intro span narrow
  rw [List.countP_append, List.countP_singleton]
  by_cases inside : span now = true
  · have recent : ts.countP span ≤ ts.countP fun t => decide (cutoff < t) := by
      apply List.countP_mono_left
      intro t _ ht
      have apart : now - w < t := sub_lt_comm.mp (narrow t now ht inside)
      simpa using lt_of_le_of_lt start apart
    rw [List.countP_eq_length_filter (p := fun t => decide (cutoff < t))] at recent
    simp only [inside, ↓reduceIte]
    omega
  · simp only [inside, Bool.false_eq_true, ↓reduceIte, Nat.add_zero]
    exact bounded span narrow

end DevopsCli.Window
