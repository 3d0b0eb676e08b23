import Mathlib

/- A store that is changed key by key, with a list of the values to put back. Where every
   changed key has an entry and every entry holds the first value of its key, putting the
   entries back in any order gives the first store. -/
namespace DevopsCli.Saga

variable {K : Type} {V : K → Type} [DecidableEq K]

abbrev Entry (V : K → Type) := (k : K) × V k

def put (store : ∀ k, V k) (e : Entry V) : ∀ k, V k := Function.update store e.1 e.2

def putAll (store : ∀ k, V k) (es : List (Entry V)) : ∀ k, V k := es.foldl put store

structure Covered (base store : ∀ k, V k) (undo : List (Entry V)) : Prop where
  holds : ∀ e ∈ undo, e.2 = base e.1
  changed : ∀ k, store k = base k ∨ ∃ e ∈ undo, e.1 = k

section Covered
variable {base store : ∀ k, V k} {undo es : List (Entry V)}

omit [DecidableEq K] in
theorem covered_start (base : ∀ k, V k) : Covered base base [] := ⟨nofun, fun _ => .inl rfl⟩

omit [DecidableEq K] in
theorem covered_append (covered : Covered base store undo) (first : ∀ e ∈ es, e.2 = base e.1) :
    Covered base store (undo ++ es) where
  holds := List.forall_mem_append.mpr ⟨covered.holds, first⟩
  changed k := (covered.changed k).imp_right fun ⟨e, member, same⟩ =>
    ⟨e, List.mem_append_left _ member, same⟩

theorem covered_put (covered : Covered base store undo) {e : Entry V}
    (known : e.2 = base e.1 ∨ ∃ u ∈ undo, u.1 = e.1) : Covered base (put store e) undo where
  holds := covered.holds
  changed k := by
    by_cases same : k = e.1
    · subst same
      rcases known with first | entry
      · left
        simp [put, first]
      · exact .inr entry
    · simpa [put, same] using covered.changed k

theorem covered_putAll (covered : Covered base store undo)
    (known : ∀ e ∈ es, e.2 = base e.1 ∨ ∃ u ∈ undo, u.1 = e.1) :
    Covered base (putAll store es) undo := by
  induction es generalizing store with
  | nil => exact covered
  | cons e es ih =>
    exact ih (covered_put covered (known e List.mem_cons_self))
      fun e member => known e (List.mem_cons_of_mem _ member)

theorem putAll_keeps {k : K} (other : ∀ e ∈ es, e.1 ≠ k) : putAll store es k = store k := by
  induction es generalizing store with
  | nil => rfl
  | cons e es ih =>
    have first : put store e k = store k := Function.update_of_ne (other e List.mem_cons_self).symm _ _
    exact (ih fun e member => other e (List.mem_cons_of_mem _ member)).trans first

theorem putAll_base {k : K} (holds : ∀ e ∈ es, e.2 = base e.1)
    (known : store k = base k ∨ ∃ e ∈ es, e.1 = k) : putAll store es k = base k := by
  induction es generalizing store with
  | nil => simpa [putAll] using known
  | cons e es ih =>
    refine ih (fun e member => holds e (List.mem_cons_of_mem _ member)) ?_
    by_cases same : k = e.1
    · subst same
      exact .inl (by simpa [put] using holds e List.mem_cons_self)
    · rcases known with still | ⟨u, member, key⟩
      · exact .inl (by simpa [put, same] using still)
      · refine .inr ⟨u, ?_, key⟩
        rcases List.mem_cons.mp member with rfl | later
        · exact absurd key.symm same
        · exact later

theorem putAll_restores (covered : Covered base store undo) (same : ∀ e, e ∈ es ↔ e ∈ undo) :
    putAll store es = base := by
  funext k
  refine putAll_base (fun e member => covered.holds e ((same e).mp member)) ?_
  simpa only [same] using covered.changed k

end Covered
end DevopsCli.Saga
