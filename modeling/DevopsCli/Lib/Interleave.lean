import DevopsCli.Lib.Run

/- Components that share one store. Where each component reads and changes only its own view of the
   store, what it does among the others is what it does alone. Nothing here is about one program. -/
namespace DevopsCli.Interleave
open Run

universe u
variable {C A L S : Type u} [DecidableEq C]

abbrev Step (C A L S : Type u) := C → A → L → S → Option (L × S)

def act (step : Step C A L S) (state : (C → L) × S) (a : C × A) : Option ((C → L) × S) :=
  (step a.1 a.2 (state.1 a.1) state.2).map fun next => (Function.update state.1 a.1 next.1, next.2)

def alone (step : Step C A L S) (c : C) (state : L × S) (a : A) : Option (L × S) :=
  step c a state.1 state.2

def own (c : C) (as : List (C × A)) : List A := (as.filter fun a => a.1 = c).map Prod.snd

/-- Each component in a good state keeps to its own view of the store, with the actions that are
    near. -/
structure Apart {V : C → Type u} (step : Step C A L S) (view : (c : C) → S → V c)
    (good : C → L → Prop) (near : A → Prop) : Prop where
  keeps : ∀ c a l s l' t, good c l → step c a l s = some (l', t) → good c l'
  reads : ∀ c a l s s' l' t, good c l → near a → view c s = view c s' → step c a l s = some (l', t) →
    ∃ t', step c a l s' = some (l', t') ∧ view c t = view c t'
  frame : ∀ c d a l s l' t, good d l → d ≠ c → step d a l s = some (l', t) → view c t = view c s

section Rules
variable {V : C → Type u} {step : Step C A L S} {view : (c : C) → S → V c} {good : C → L → Prop}
  {near : A → Prop}

theorem act_good (apart : Apart step view good near) {state next : (C → L) × S} {a : C × A}
    (all_good : ∀ c, good c (state.1 c)) (taken : act step state a = some next) :
    ∀ c, good c (next.1 c) := by
  obtain ⟨⟨l, m⟩, first, rfl⟩ := Option.map_eq_some_iff.mp taken
  intro c
  by_cases mine : c = a.1
  · rw [mine]
    dsimp only
    rw [Function.update_self]
    exact apart.keeps a.1 a.2 _ state.2 l m (all_good a.1) first
  · dsimp only
    rw [Function.update_of_ne mine]
    exact all_good c

/-- The others have no part in what a component does. -/
theorem among_alone (apart : Apart step view good near) (c : C) {as : List (C × A)}
    (all_near : ∀ a ∈ own c as, near a) {ls ls' : C → L} {s t s' : S} (all_good : ∀ c, good c (ls c))
    (run : exec (act step) (ls, s) as = some (ls', t)) (same : view c s = view c s') :
    ∃ t', exec (alone step c) (ls c, s') (own c as) = some (ls' c, t') ∧ view c t = view c t' := by
  induction as generalizing ls s s' with
  | nil =>
    cases run
    exact ⟨s', rfl, same⟩
  | cons a as ih =>
    obtain ⟨middle, first, rest⟩ := exec_cons.mp run
    have next_good := act_good apart all_good first
    obtain ⟨⟨l, m⟩, taken, rfl⟩ := Option.map_eq_some_iff.mp first
    obtain ⟨d, b⟩ := a
    by_cases mine : d = c
    · subst mine
      have own_cons : own d ((d, b) :: as) = b :: own d as := by simp [own]
      rw [own_cons] at all_near ⊢
      obtain ⟨m', taken', same'⟩ :=
        apart.reads d b (ls d) s s' l m (all_good d) (all_near b List.mem_cons_self) same taken
      obtain ⟨t', later, agree⟩ :=
        ih (fun b member => all_near b (List.mem_cons_of_mem _ member)) next_good rest same'
      dsimp only at later
      rw [Function.update_self] at later
      exact ⟨t', exec_cons.mpr ⟨(l, m'), taken', later⟩, agree⟩
    · have own_cons : own c ((d, b) :: as) = own c as := by simp [own, mine]
      rw [own_cons] at all_near ⊢
      have kept := apart.frame c d b (ls d) s l m (all_good d) mine taken
      obtain ⟨t', later, agree⟩ := ih all_near next_good rest (kept.trans same)
      dsimp only at later
      rw [Function.update_of_ne (Ne.symm mine)] at later
      exact ⟨t', later, agree⟩

end Rules

theorem exec_same {S A : Type u} {step : S → A → Option S} {a : A} {s t t' : S} {n m : Nat}
    (run : exec step s (List.replicate n a) = some t) (run' : exec step s (List.replicate m a) = some t')
    (done_ : step t a = none) (done_' : step t' a = none) : t = t' := by
  induction n generalizing s m with
  | zero =>
    obtain rfl : s = t := Option.some.inj run
    cases m with
    | zero => exact Option.some.inj run'
    | succ m =>
      obtain ⟨next, first, -⟩ := exec_cons.mp run'
      rw [done_] at first
      cases first
  | succ n ih =>
    obtain ⟨next, first, rest⟩ := exec_cons.mp run
    cases m with
    | zero =>
      obtain rfl : s = t' := Option.some.inj run'
      rw [done_'] at first
      cases first
    | succ m =>
      obtain ⟨next', first', rest'⟩ := exec_cons.mp run'
      obtain rfl := Option.some.inj (first.symm.trans first')
      exact ih rest rest'

end DevopsCli.Interleave
