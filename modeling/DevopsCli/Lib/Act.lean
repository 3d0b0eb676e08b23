import Mathlib

/- Programs that read and change a world and may raise. The world a program leaves stands
   whether it returns or raises, as in a language with exceptions. A specification speaks of
   both ends: its last part takes the value returned or the error raised. -/
namespace DevopsCli

abbrev Act (W E α : Type) := ExceptT E (StateM W) α

namespace Act
variable {W E α β : Type}

def run (act : Act W E α) (w : W) : Except E α × W := StateT.run (ExceptT.run act) w

def world : Act W E W := get

def change (f : W → W) : Act W E Unit := modify f

def raise (e : E) : Act W E α := throw e

def handle (act : Act W E α) (handler : E → Act W E α) : Act W E α := tryCatch act handler

@[simp] theorem run_pure (a : α) (w : W) : run (pure a : Act W E α) w = (.ok a, w) := rfl

@[simp] theorem run_world (w : W) : run (world : Act W E W) w = (.ok w, w) := rfl

@[simp] theorem run_change (f : W → W) (w : W) :
    run (change f : Act W E Unit) w = (.ok (), f w) := rfl

@[simp] theorem run_raise (e : E) (w : W) : run (raise e : Act W E α) w = (.error e, w) := rfl

theorem run_bind (act : Act W E α) (f : α → Act W E β) (w : W) :
    run (act >>= f) w =
      match run act w with
      | (.ok a, w') => run (f a) w'
      | (.error e, w') => (.error e, w') := by
  unfold run ExceptT.run StateT.run
  simp only [bind, ExceptT.bind, ExceptT.mk, StateT.bind, ExceptT.bindCont]
  cases act w with
  | mk result w' => cases result <;> rfl

theorem run_bind_ok {act : Act W E α} {f : α → Act W E β} {w w' : W} {b : β} :
    run (act >>= f) w = (.ok b, w') ↔
      ∃ a v, run act w = (.ok a, v) ∧ run (f a) v = (.ok b, w') := by
  rw [run_bind]
  generalize run act w = ended
  obtain ⟨result, v⟩ := ended
  cases result with
  | ok a => simp
  | error e => simp

theorem run_handle (act : Act W E α) (handler : E → Act W E α) (w : W) :
    run (handle act handler) w =
      match run act w with
      | (.ok a, w') => (.ok a, w')
      | (.error e, w') => run (handler e) w' := by
  unfold run handle ExceptT.run StateT.run
  simp only [tryCatch, tryCatchThe, MonadExceptOf.tryCatch, ExceptT.tryCatch, ExceptT.mk, bind,
    StateT.bind]
  cases act w with
  | mk result w' => cases result <;> rfl

/-- From a world with pre, the program ends with post. -/
def Spec (pre : W → Prop) (act : Act W E α) (post : Except E α → W → Prop) : Prop :=
  ∀ w, pre w → post (run act w).1 (run act w).2

/-- The program keeps a property of the world, however it ends. -/
def Keeps (inv : W → Prop) (act : Act W E α) : Prop := Spec inv act fun _ => inv

section Rules
variable {pre pre' inv : W → Prop} {mid post post' : Except E α → W → Prop}
  {last : Except E β → W → Prop} {act : Act W E α} {f : α → Act W E β}

theorem spec_conseq (act_spec : Spec pre' act post') (weaker : ∀ w, pre w → pre' w)
    (stronger : ∀ result w, post' result w → post result w) : Spec pre act post :=
  fun w start => stronger _ _ (act_spec w (weaker w start))

theorem spec_pure (a : α) (start : ∀ w, pre w → post (.ok a) w) :
    Spec pre (pure a : Act W E α) post := start

theorem spec_raise (e : E) (start : ∀ w, pre w → post (.error e) w) :
    Spec pre (raise e : Act W E α) post := start

theorem spec_change (g : W → W) {post : Except E Unit → W → Prop}
    (start : ∀ w, pre w → post (.ok ()) (g w)) :
    Spec pre (change g : Act W E Unit) post := start

theorem spec_world {post : Except E W → W → Prop} (start : ∀ w, pre w → post (.ok w) w) :
    Spec pre (world : Act W E W) post := start

theorem spec_bind (first : Spec pre act mid)
    (next : ∀ a, Spec (mid (.ok a)) (f a) last)
    (stops : ∀ e w, mid (.error e) w → last (.error e) w) : Spec pre (act >>= f) last := by
  intro w start
  have after := first w start
  rw [run_bind]
  generalize run act w = ended at after
  obtain ⟨result, w'⟩ := ended
  cases result with
  | ok a => exact next a w' after
  | error e => exact stops e w' after

theorem spec_handle {handler : E → Act W E α} (first : Spec pre act mid)
    (returns : ∀ a w, mid (.ok a) w → post (.ok a) w)
    (next : ∀ e, Spec (mid (.error e)) (handler e) post) :
    Spec pre (handle act handler) post := by
  intro w start
  have after := first w start
  rw [run_handle]
  generalize run act w = ended at after
  obtain ⟨result, w'⟩ := ended
  cases result with
  | ok a => exact returns a w' after
  | error e => exact next e w' after

theorem spec_look {f : W → Act W E β} (next : ∀ v, pre v → Spec (fun w => w = v) (f v) last) :
    Spec pre (world >>= f) last := by
  intro w start
  rw [run_bind, run_world]
  exact next w start w rfl

theorem spec_exists {γ : Type} {pre : γ → W → Prop} (each : ∀ c, Spec (pre c) act post) :
    Spec (fun w => ∃ c, pre c w) act post :=
  fun w ⟨c, start⟩ => each c w start

theorem spec_fact {fact : Prop} (known : fact → Spec pre act post) :
    Spec (fun w => fact ∧ pre w) act post :=
  fun w ⟨holds, start⟩ => known holds w start

theorem keeps_pure (a : α) : Keeps inv (pure a : Act W E α) := fun _ start => start

theorem keeps_raise (e : E) : Keeps inv (raise e : Act W E α) := fun _ start => start

theorem keeps_world : Keeps inv (world : Act W E W) := fun _ start => start

theorem keeps_change {g : W → W} (keeps : ∀ w, inv w → inv (g w)) :
    Keeps inv (change g : Act W E Unit) := keeps

theorem keeps_bind (first : Keeps inv act) (next : ∀ a, Keeps inv (f a)) :
    Keeps inv (act >>= f) :=
  spec_bind first next fun _ _ kept => kept

theorem keeps_forM {γ : Type} {xs : List γ} {body : γ → Act W E PUnit}
    (round : ∀ x, Keeps inv (body x)) : Keeps inv (xs.forM body) := by
  induction xs with
  | nil => exact keeps_pure PUnit.unit
  | cons x rest ih => exact keeps_bind (round x) fun _ => ih

theorem keeps_ite {c : Prop} [Decidable c] {act' : Act W E α} (yes : Keeps inv act)
    (no : Keeps inv act') : Keeps inv (if c then act else act') := by
  split
  · exact yes
  · exact no

end Rules

/-- From a world with pre, the program returns with after, or raises with left. -/
def Guards (pre after left : W → Prop) (act : Act W E α) : Prop :=
  Spec pre act fun
    | .ok _ => after
    | .error _ => left

section Guards
variable {pre mid after left : W → Prop} {act : Act W E α} {f : α → Act W E β}

theorem guards_pure (a : α) (start : ∀ w, pre w → after w) :
    Guards pre after left (pure a : Act W E α) := start

theorem guards_raise (e : E) (start : ∀ w, pre w → left w) :
    Guards pre after left (raise e : Act W E α) := start

theorem guards_change (g : W → W) (start : ∀ w, pre w → after (g w)) :
    Guards pre after left (change g : Act W E Unit) := start

theorem guards_world {f : W → Act W E β} (next : ∀ v, pre v → Guards pre after left (f v)) :
    Guards pre after left (world >>= f) :=
  spec_look fun v start w same => next v start w (same ▸ start)

theorem guards_bind (first : Guards pre mid left act)
    (next : ∀ a, Guards mid after left (f a)) : Guards pre after left (act >>= f) :=
  spec_bind first next fun _ _ ended => ended

theorem guards_ite {c : Prop} [Decidable c] {act' : Act W E α}
    (yes : c → Guards pre after left act) (no : ¬c → Guards pre after left act') :
    Guards pre after left (if c then act else act') := by
  split
  · exact yes ‹_›
  · exact no ‹_›

theorem guards_forM {γ : Type} {xs : List γ} {body : γ → Act W E PUnit}
    (round : ∀ x ∈ xs, Guards pre pre left (body x)) : Guards pre pre left (xs.forM body) := by
  induction xs with
  | nil => exact guards_pure PUnit.unit fun _ start => start
  | cons x rest ih =>
    exact guards_bind (round x List.mem_cons_self)
      fun _ => ih fun x member => round x (List.mem_cons_of_mem _ member)

theorem guards_keeps (keeps : Keeps pre act) : Guards pre pre pre act := by
  intro w start
  have kept := keeps w start
  generalize run act w = ended at kept
  obtain ⟨result, w'⟩ := ended
  cases result <;> exact kept

theorem guards_conseq {pre' after' left' : W → Prop} (act_guards : Guards pre' after' left' act)
    (weaker : ∀ w, pre w → pre' w) (stronger : ∀ w, after' w → after w)
    (ended : ∀ w, left' w → left w) : Guards pre after left act :=
  spec_conseq act_guards weaker fun result w => by
    cases result
    · exact ended w
    · exact stronger w

end Guards

/-- From a world with pre, the program returns with post, if it returns. -/
def Returns (pre : W → Prop) (act : Act W E α) (post : α → W → Prop) : Prop :=
  Spec pre act fun
    | .ok a => post a
    | .error _ => fun _ => True

section Returns
variable {pre : W → Prop} {mid : α → W → Prop} {after : β → W → Prop} {act : Act W E α}
  {f : α → Act W E β}

theorem returns_of_run (returns : Returns pre act mid) {w w' : W} {a : α} (start : pre w)
    (ended : run act w = (.ok a, w')) : mid a w' := by
  have post := returns w start
  rw [ended] at post
  exact post

theorem returns_pure (a : α) (start : ∀ w, pre w → mid a w) :
    Returns pre (pure a : Act W E α) mid := start

theorem returns_raise (e : E) : Returns pre (raise e : Act W E α) mid := fun _ _ => trivial

theorem returns_change (g : W → W) {post : Unit → W → Prop} (start : ∀ w, pre w → post () (g w)) :
    Returns pre (change g : Act W E Unit) post := start

theorem returns_world {f : W → Act W E β} (next : ∀ v, pre v → Returns (fun w => w = v) (f v) after) :
    Returns pre (world >>= f) after := spec_look next

theorem returns_bind (first : Returns pre act mid) (next : ∀ a, Returns (mid a) (f a) after) :
    Returns pre (act >>= f) after := spec_bind first next fun _ _ _ => trivial

theorem returns_conseq {pre' : W → Prop} {mid' : α → W → Prop} (returns : Returns pre' act mid')
    (weaker : ∀ w, pre w → pre' w) (stronger : ∀ a w, mid' a w → mid a w) : Returns pre act mid :=
  spec_conseq returns weaker fun result w => by
    cases result
    · exact id
    · exact stronger _ w

theorem returns_ite {c : Prop} [Decidable c] {act' : Act W E α} (yes : c → Returns pre act mid)
    (no : ¬c → Returns pre act' mid) : Returns pre (if c then act else act') mid := by
  split
  · exact yes ‹_›
  · exact no ‹_›

end Returns
end Act
end DevopsCli
