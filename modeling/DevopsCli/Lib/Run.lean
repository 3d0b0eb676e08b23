import Mathlib

/- Runs of a system whose steps are picked by actions. The step function refuses an
   action that the state does not allow. Nothing here is about one program. -/
namespace DevopsCli.Run

universe u v
variable {S : Type u} {A : Type v}

/-- The state after the actions, or nothing when one of them is refused. -/
def exec (step : S → A → Option S) (s : S) : List A → Option S
  | [] => some s
  | a :: as => (step s a).bind fun t => exec step t as

/-- Every step of the run from s meets the condition, read in the state before it. -/
def Meets (step : S → A → Option S) (ok : S → A → Prop) (s : S) : List A → Prop
  | [] => True
  | a :: as => ok s a ∧ ∀ t, step s a = some t → Meets step ok t as

def decideMeets (step : S → A → Option S) (ok : S → A → Prop) [∀ s a, Decidable (ok s a)] :
    (s : S) → (as : List A) → Decidable (Meets step ok s as)
  | _, [] => .isTrue trivial
  | s, a :: as =>
    match taken : step s a with
    | none => decidable_of_iff (ok s a) (by simp [Meets, taken])
    | some t =>
      have := decideMeets step ok t as
      decidable_of_iff (ok s a ∧ Meets step ok t as) (by simp [Meets, taken])

instance (step : S → A → Option S) (ok : S → A → Prop) [∀ s a, Decidable (ok s a)] (s : S)
    (as : List A) : Decidable (Meets step ok s as) := decideMeets step ok s as

section Rules
variable {step : S → A → Option S} {ok good : S → A → Prop} {inv : S → Prop}

@[simp] theorem exec_nil (s : S) : exec step s [] = some s := rfl

theorem exec_cons {s u : S} {a : A} {as : List A} :
    exec step s (a :: as) = some u ↔ ∃ t, step s a = some t ∧ exec step t as = some u := by
  simp [exec, Option.bind_eq_some_iff]

theorem exec_append {s u : S} {as bs : List A} :
    exec step s (as ++ bs) = some u ↔
      ∃ t, exec step s as = some t ∧ exec step t bs = some u := by
  induction as generalizing s with
  | nil => simp
  | cons a as ih =>
    simp only [List.cons_append, exec_cons, ih]
    constructor
    · rintro ⟨m, first, t, rest, last⟩
      exact ⟨t, ⟨m, first, rest⟩, last⟩
    · rintro ⟨t, ⟨m, first, rest⟩, last⟩
      exact ⟨m, first, t, rest, last⟩

theorem meets_append {s t : S} {as bs : List A} (run : exec step s as = some t) :
    Meets step ok s (as ++ bs) ↔ Meets step ok s as ∧ Meets step ok t bs := by
  induction as generalizing s with
  | nil => simp only [exec_nil, Option.some.injEq] at run; simp [Meets, run]
  | cons a as ih =>
    obtain ⟨m, first, rest⟩ := exec_cons.mp run
    simp only [List.cons_append, Meets, first, Option.some.injEq, forall_eq', ih rest, and_assoc]

/-- What holds at the start, and what each step that meets the condition keeps, holds in
    every state that a run of such steps reaches. -/
theorem exec_invariant (inv : S → Prop)
    (keeps : ∀ s a t, inv s → ok s a → step s a = some t → inv t)
    {s t : S} {as : List A} (start : inv s) (meets : Meets step ok s as)
    (run : exec step s as = some t) : inv t := by
  induction as generalizing s with
  | nil => simp only [exec_nil, Option.some.injEq] at run; exact run ▸ start
  | cons a as ih =>
    obtain ⟨m, first, rest⟩ := exec_cons.mp run
    exact ih (keeps s a m start meets.1 first) (meets.2 m first) rest

/-- Where each step extends a property of states exactly by its condition, the property of the
    last state tells whether every step met it. -/
theorem exec_iff_meets (inv all : S → Prop) (keeps : ∀ s a t, inv s → step s a = some t → inv t)
    (extends_ : ∀ s a t, inv s → step s a = some t → (all t ↔ all s ∧ ok s a))
    {s t : S} {as : List A} (start : inv s) (run : exec step s as = some t) :
    all t ↔ all s ∧ Meets step ok s as := by
  induction as generalizing s with
  | nil => simp only [exec_nil, Option.some.injEq] at run; simp [Meets, run]
  | cons a as ih =>
    obtain ⟨m, first, rest⟩ := exec_cons.mp run
    have later : (∀ t, step s a = some t → Meets step ok t as) ↔ Meets step ok m as := by
      simp only [first, Option.some.injEq, forall_eq']
    rw [ih (keeps s a m start first) rest, extends_ s a m start first, and_assoc, Meets, later]

/-- Where a step keeps a property exactly by meeting its condition, the steps of a run all meet
    it exactly when every state that the run passes has the property. -/
theorem meets_iff_reached (right : S → Prop)
    (exactly : ∀ s a t, right s → step s a = some t → (right t ↔ ok s a))
    {s t : S} {as : List A} (start : right s) (run : exec step s as = some t) :
    Meets step ok s as ↔ ∀ done_ rest, as = done_ ++ rest →
      ∀ m, exec step s done_ = some m → right m := by
  induction as generalizing s with
  | nil =>
    refine iff_of_true trivial fun done_ rest whole m reached => ?_
    obtain ⟨rfl, _⟩ := List.append_eq_nil_iff.mp whole.symm
    exact Option.some.inj reached ▸ start
  | cons a as ih =>
    obtain ⟨m, first, later⟩ := exec_cons.mp run
    constructor
    · rintro ⟨met, meets⟩ done_ rest whole u reached
      cases done_ with
      | nil => exact Option.some.inj reached ▸ start
      | cons b done_ =>
        obtain ⟨rfl, split⟩ := List.cons_eq_cons.mp whole
        obtain ⟨n, again, reached⟩ := exec_cons.mp reached
        obtain rfl := Option.some.inj (first.symm.trans again)
        exact (ih ((exactly s a m start first).mpr met) later).mp (meets m first) done_ rest split u
          reached
    · intro all
      have next : right m := all [a] as rfl m (exec_cons.mpr ⟨m, first, rfl⟩)
      refine ⟨(exactly s a m start first).mp next, fun n again => ?_⟩
      obtain rfl := Option.some.inj (first.symm.trans again)
      exact (ih next later).mpr fun done_ rest whole u reached =>
        all (a :: done_) rest (by rw [whole, List.cons_append]) u (exec_cons.mpr ⟨m, first, reached⟩)

theorem meets_true (s : S) (as : List A) : Meets step (fun _ _ => True) s as := by
  induction as generalizing s with
  | nil => trivial
  | cons a as ih => exact ⟨trivial, fun t _ => ih t⟩

theorem exec_invariant_always (keeps : ∀ s a t, inv s → step s a = some t → inv t)
    {s t : S} {as : List A} (start : inv s) (run : exec step s as = some t) : inv t :=
  exec_invariant inv (fun s a t hs (_ : True) => keeps s a t hs) start
    (meets_true s as) run

section View
variable {V : Type*} {stepView : V → A → Option V} {okView : V → A → Prop} (view : S → V)
  (same : ∀ s a, ok s a → (step s a).map view = stepView (view s) a)
include same

/-- Where each step that meets the condition is, through a view of the states, the step of another
    system, a run of such steps is the run of the other system. -/
theorem exec_view {s : S} {as : List A} (meets : Meets step ok s as) :
    (exec step s as).map view = exec stepView (view s) as := by
  induction as generalizing s with
  | nil => rfl
  | cons a as ih =>
    have first := same s a meets.1
    cases taken : step s a with
    | none => rw [taken] at first; simp [exec, taken, ← first]
    | some m =>
      rw [taken] at first
      simpa [exec, taken, ← first] using ih (meets.2 m taken)

theorem meets_view (weaker : ∀ s a, ok s a → okView (view s) a) {s : S} {as : List A}
    (meets : Meets step ok s as) : Meets stepView okView (view s) as := by
  induction as generalizing s with
  | nil => trivial
  | cons a as ih =>
    refine ⟨weaker s a meets.1, fun n taken => ?_⟩
    obtain ⟨m, first, rfl⟩ := Option.map_eq_some_iff.mp ((same s a meets.1).trans taken)
    exact ih (meets.2 m first)

theorem meets_of_view (stronger : ∀ s a, okView (view s) a → ok s a) {s : S} {as : List A}
    (meets : Meets stepView okView (view s) as) : Meets step ok s as := by
  induction as generalizing s with
  | nil => trivial
  | cons a as ih =>
    have now := stronger s a meets.1
    exact ⟨now, fun m first => ih (meets.2 (view m) (by rw [← same s a now, first]; rfl))⟩

end View

end Rules
end DevopsCli.Run
