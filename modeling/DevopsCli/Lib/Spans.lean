import Mathlib

/- Spans of whole numbers, both ends included, and how much of each other they hold. Nothing here
   is about one program. -/
namespace DevopsCli.Spans

structure Span where
  first : Int
  last : Int
  deriving DecidableEq, Repr

noncomputable def Span.cells (s : Span) : Finset Int := Finset.Icc s.first s.last

noncomputable def Span.size (s : Span) : Nat := s.cells.card

noncomputable def shared (s t : Span) : Nat := (s.cells ∩ t.cells).card

def Crowded (s t : Span) : Prop := min s.size t.size < 2 * shared s t

section Facts
variable {s t : Span}

theorem size_eq (s : Span) : (s.size : Int) = max 0 (s.last - s.first + 1) := by
  unfold Span.size Span.cells
  rw [Int.card_Icc]
  omega

theorem shared_eq (s t : Span) :
    (shared s t : Int) = max 0 (min s.last t.last - max s.first t.first + 1) := by
  have both : s.cells ∩ t.cells = Finset.Icc (max s.first t.first) (min s.last t.last) := by
    ext n
    simp only [Span.cells, Finset.mem_inter, Finset.mem_Icc]
    omega
  unfold shared
  rw [both, Int.card_Icc]
  omega

theorem shared_comm (s t : Span) : shared s t = shared t s := by
  unfold shared
  rw [Finset.inter_comm]

theorem shared_le_left (s t : Span) : shared s t ≤ s.size :=
  Finset.card_le_card Finset.inter_subset_left

/-- Where a span is not half covered by another, the two are crowded only when the other is
    shorter and half covered itself. -/
theorem crowded_iff_of_le (roomy : 2 * shared s t ≤ t.size) :
    Crowded s t ↔ s.size < t.size ∧ s.size < 2 * shared s t := by
  unfold Crowded
  omega

end Facts
end DevopsCli.Spans
