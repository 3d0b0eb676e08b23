import Mathlib.Data.List.DropRight
import Mathlib.Data.List.Nodup

/- A list that keeps its newest entries, as a queue with a greatest length does. Nothing here is
   about one program. -/
namespace DevopsCli.Newest

universe u
variable {α : Type u} {xs ys : List α} {x : α} {n i : Nat}

def push (n : Nat) (xs : List α) (x : α) : List α := (xs ++ [x]).rtake n

theorem rtake_of_short (short : xs.length ≤ n) : xs.rtake n = xs := by
  unfold List.rtake
  rw [Nat.sub_eq_zero_of_le short, List.drop_zero]

theorem length_rtake (n : Nat) (xs : List α) : (xs.rtake n).length = min n xs.length := by
  unfold List.rtake
  rw [List.length_drop]
  omega

theorem rtake_append (n : Nat) (xs ys : List α) :
    (xs.rtake n ++ ys).rtake n = (xs ++ ys).rtake n := by
  unfold List.rtake
  rw [List.length_append, List.length_drop, List.length_append]
  rcases Nat.le_total xs.length n with short | long
  · rw [Nat.sub_eq_zero_of_le short, List.drop_zero, Nat.sub_zero]
  · have split : xs ++ ys = xs.take (xs.length - n) ++ (xs.drop (xs.length - n) ++ ys) := by
      rw [← List.append_assoc, List.take_append_drop]
    have taken : (xs.take (xs.length - n)).length = xs.length - n := by
      rw [List.length_take]
      omega
    conv_rhs => rw [split, List.drop_append, taken, List.drop_of_length_le (by omega)]
    rw [List.nil_append]
    congr 1
    omega

theorem foldl_push (n : Nat) (xs ys : List α) (short : xs.length ≤ n) :
    ys.foldl (push n) xs = (xs ++ ys).rtake n := by
  induction ys generalizing xs with
  | nil => rw [List.foldl_nil, List.append_nil, rtake_of_short short]
  | cons y ys ih =>
    have pushed : (push n xs y).length ≤ n := by
      unfold push
      rw [length_rtake]
      omega
    rw [List.foldl_cons, ih _ pushed, push, rtake_append, List.append_assoc, List.singleton_append]

section Places
variable {k : Nat}

theorem mem_drop_iff (distinct : xs.Nodup) (here : xs[i]? = some x) : x ∈ xs.drop k ↔ k ≤ i := by
  obtain ⟨inside, rfl⟩ := List.getElem?_eq_some_iff.mp here
  constructor
  · intro mem
    obtain ⟨j, bound, same⟩ := List.mem_iff_getElem.mp mem
    rw [List.getElem_drop] at same
    have := (distinct.getElem_inj_iff).mp same
    omega
  · intro later
    rw [List.mem_iff_getElem]
    refine ⟨i - k, by rw [List.length_drop]; omega, ?_⟩
    rw [List.getElem_drop]
    congr 1
    omega

/-- Where k entries are dropped at the front, a place shows the entry that it showed, or the
    first one when that entry is gone, only where nothing moved or the place is the first. -/
theorem place_stands_iff [DecidableEq α] (distinct : xs.Nodup) (here : xs[i]? = some x)
    (inside : k + i < xs.length) :
    (xs.drop k)[i]? = (if x ∈ xs.drop k then some x else (xs.drop k).head?) ↔ i = 0 ∨ k = 0 := by
  obtain ⟨_, rfl⟩ := List.getElem?_eq_some_iff.mp here
  simp only [mem_drop_iff distinct here]
  rw [List.head?_drop, List.getElem?_drop, List.getElem?_eq_getElem inside,
    List.getElem?_eq_getElem (show k < xs.length by omega)]
  split
  · next kept =>
    rw [Option.some.injEq, distinct.getElem_inj_iff]
    omega
  · next gone =>
    rw [Option.some.injEq, distinct.getElem_inj_iff]
    omega

end Places

end DevopsCli.Newest
