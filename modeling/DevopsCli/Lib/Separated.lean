import Mathlib

/- Parts written one after another with a separator between them. A part is trimmed when no blank
   element stands at its ends. Trimmed parts that no separator cuts into trimmed pieces are the
   longest list of trimmed parts of their text. Nothing here is about one program. -/
namespace DevopsCli.Separated

variable {α : Type} (blank : α → Bool) (sep : α)

def Trimmed (xs : List α) : Prop := (∀ x ∈ xs.head?, ¬blank x) ∧ ∀ x ∈ xs.getLast?, ¬blank x

def Cut (xs : List α) : Prop :=
  ∃ before after, xs = before ++ sep :: after ∧ Trimmed blank before ∧ Trimmed blank after

variable {blank sep} {xs ys before after : List α} {parts others : List (List α)}

@[simp] theorem trimmed_nil : Trimmed blank [] := ⟨by simp, by simp⟩

theorem Trimmed.append (left : Trimmed blank xs) (right : Trimmed blank ys) :
    Trimmed blank (xs ++ ys) := by
  cases xs with
  | nil => exact right
  | cons x xs =>
    refine ⟨left.1, ?_⟩
    cases ys with
    | nil => simpa using left.2
    | cons y ys =>
      rw [List.getLast?_append_of_ne_nil _ (List.cons_ne_nil y ys)]
      exact right.2

theorem Trimmed.piece (whole : Trimmed blank (before ++ sep :: after))
    (first : ∀ x ∈ after.head?, ¬blank x) : Trimmed blank after := by
  refine ⟨first, fun x here => whole.2 x ?_⟩
  cases after with
  | nil => cases here
  | cons y rest => simpa [List.getLast?_cons_cons] using here

theorem Trimmed.joined (plain : ¬blank sep) (left : Trimmed blank before)
    (right : Trimmed blank after) : Trimmed blank (before ++ sep :: after) := by
  constructor
  · cases before with
    | nil => simpa using plain
    | cons x rest => simpa using left.1
  · cases after with
    | nil => simpa using plain
    | cons x rest => simpa [List.getLast?_cons_cons] using right.2

theorem trimmed_intercalate (plain : ¬blank sep) (trimmed : ∀ part ∈ parts, Trimmed blank part) :
    Trimmed blank ([sep].intercalate parts) := by
  induction parts with
  | nil => simp
  | cons part rest ih =>
    have later := ih fun part mem => trimmed part (List.mem_cons_of_mem _ mem)
    cases rest with
    | nil => simpa using trimmed part List.mem_cons_self
    | cons second rest =>
      rw [List.intercalate_cons_cons, List.append_assoc, List.singleton_append]
      exact (trimmed part List.mem_cons_self).joined plain later

/-- Two ways to cut a text in two: at one place, or one of the two first pieces holds the other
    and a separator. -/
theorem cut_cases {one two : List α} (same : one ++ sep :: xs = two ++ sep :: ys) :
    (one = two ∧ xs = ys) ∨
    (∃ between, one = two ++ sep :: between ∧ ys = between ++ sep :: xs) ∨
    ∃ between, two = one ++ sep :: between ∧ xs = between ++ sep :: ys := by
  rcases List.append_eq_append_iff.mp same with ⟨gap, rfl, rest⟩ | ⟨gap, rfl, rest⟩
  · cases gap with
    | nil => exact .inl ⟨by simp, by simpa using rest⟩
    | cons x between =>
      obtain ⟨rfl, split⟩ := List.cons_eq_cons.mp rest
      exact .inr (.inr ⟨between, rfl, split⟩)
  · cases gap with
    | nil => exact .inl ⟨by simp, by simpa using rest.symm⟩
    | cons x between =>
      obtain ⟨rfl, split⟩ := List.cons_eq_cons.mp rest
      exact .inr (.inl ⟨between, rfl, split⟩)

/-- The induction is on the uncut parts. The first of the other parts is the first uncut part, or
    it holds that part and goes on in the rest. -/
theorem uncut_finest (plain : ¬blank sep)
    (uncut : ∀ part ∈ parts, Trimmed blank part ∧ ¬Cut blank sep part)
    (trimmed : ∀ part ∈ others, Trimmed blank part) (some_ : parts ≠ []) (others_ : others ≠ [])
    (same : [sep].intercalate parts = [sep].intercalate others) :
    others = parts ∨ others.length < parts.length := by
  induction parts generalizing others with
  | nil => exact absurd rfl some_
  | cons part rest ih =>
    obtain ⟨first, others, rfl⟩ := List.exists_cons_of_ne_nil others_
    have own := uncut part List.mem_cons_self
    have later := fun part mem => uncut part (List.mem_cons_of_mem _ mem)
    have first_trimmed := trimmed first List.mem_cons_self
    have others_trimmed := fun part mem => trimmed part (List.mem_cons_of_mem first mem)
    cases others with
    | nil =>
      cases rest with
      | nil => exact .inl (by simpa using same.symm)
      | cons second rest => exact .inr (by simp)
    | cons next others =>
      have tail := trimmed_intercalate plain others_trimmed
      cases rest with
      | nil =>
        refine absurd ⟨first, [sep].intercalate (next :: others), ?_, first_trimmed, tail⟩ own.2
        simpa [List.intercalate_cons_cons] using same
      | cons second rest =>
        have lead := (trimmed_intercalate plain fun part mem => (later part mem).1).1
        rw [List.intercalate_cons_cons, List.intercalate_cons_cons, List.append_assoc,
          List.append_assoc, List.singleton_append, List.singleton_append] at same
        rcases cut_cases same with ⟨rfl, tails⟩ | ⟨between, rfl, split⟩ | ⟨between, rfl, split⟩
        · rcases ih later others_trimmed (by simp) (by simp) tails with equal | fewer
          · exact .inl (by rw [equal])
          · exact .inr (Nat.succ_lt_succ fewer)
        · -- the other first part ends inside this one, which is then cut
          refine absurd ⟨first, between, rfl, first_trimmed, own.1.piece fun x here => ?_⟩ own.2
          rw [split] at tail
          cases between with
          | nil => cases here
          | cons y between => exact tail.1 x (by simpa using here)
        · have inner : Trimmed blank between := first_trimmed.piece fun x here => by
            rw [split] at lead
            cases between with
            | nil => cases here
            | cons y between => exact lead x (by simpa using here)
          have joined : [sep].intercalate (second :: rest)
              = [sep].intercalate (between :: next :: others) := by
            rw [split, List.intercalate_cons_cons, List.append_assoc, List.singleton_append]
          rcases ih later (List.forall_mem_cons.mpr ⟨inner, others_trimmed⟩) (by simp) (by simp)
            joined with equal | fewer
          · refine .inr ?_
            rw [← equal]
            simp
          · refine .inr ?_
            simp only [List.length_cons] at fewer ⊢
            omega

theorem uncut_unique (plain : ¬blank sep)
    (uncut : ∀ part ∈ parts, Trimmed blank part ∧ ¬Cut blank sep part)
    (trimmed : ∀ part ∈ others, Trimmed blank part) (length : others.length = parts.length)
    (same : [sep].intercalate parts = [sep].intercalate others) : others = parts := by
  cases parts with
  | nil => exact List.length_eq_zero_iff.mp length
  | cons part rest =>
    have others_ : others ≠ [] := by
      rintro rfl
      simp at length
    rcases uncut_finest plain uncut trimmed (by simp) others_ same with equal | fewer
    · exact equal
    · omega

end DevopsCli.Separated
