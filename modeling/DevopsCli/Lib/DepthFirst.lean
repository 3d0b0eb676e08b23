import Mathlib

/- Depth-first visits of a graph with one shared list of the nodes seen so far. Each step may have a
   condition on what was seen before it. Nothing here is about one program. -/
namespace DevopsCli.DepthFirst

section Visits
variable {V : Type} (next : V → List V) (enter : V → Prop) (skip : V → V → List V → Prop)

/-- The neighbours that are left of one node, at a depth with so many levels below it, and the nodes
    seen before and after: a seen neighbour is skipped, another one is entered with all its own. -/
inductive Scans : Nat → V → List V → List V → List V → Prop where
  | done (n : Nat) (y : V) (seen : List V) : Scans n y [] seen seen
  | skipped {n : Nat} {y x : V} {rest seen after : List V} (here : x ∈ seen) (allowed : skip y x seen)
      (later : Scans n y rest seen after) : Scans n y (x :: rest) seen after
  | entered {n : Nat} {y x : V} {rest seen middle after : List V} (fresh : x ∉ seen)
      (allowed : enter x) (below : Scans n x (next x) (seen ++ [x]) middle)
      (later : Scans (n + 1) y rest middle after) : Scans (n + 1) y (x :: rest) seen after

def Edge (x y : V) : Prop := y ∈ next x

abbrev Reach : V → V → Prop := Relation.ReflTransGen (Edge next)
abbrev LeadsTo : V → V → Prop := Relation.TransGen (Edge next)

variable {next enter skip} {n : Nat} {y : V} {todo seen after : List V}

theorem Scans.begins (scans : Scans next enter skip n y todo seen after) : seen <+: after := by
  induction scans with
  | done => exact List.prefix_refl _
  | skipped _ _ _ ih => exact ih
  | entered _ _ _ _ inner outer => exact (List.prefix_append _ _).trans (inner.trans outer)

theorem Scans.seen_mem (scans : Scans next enter skip n y todo seen after) {x : V} (here : x ∈ seen) :
    x ∈ after := scans.begins.subset here

theorem nodup_concat {x : V} (distinct : seen.Nodup) (fresh : x ∉ seen) : (seen ++ [x]).Nodup := by
  rw [List.nodup_append]
  refine ⟨distinct, List.nodup_singleton x, ?_⟩
  rintro a here b new rfl
  rw [List.mem_singleton] at new
  exact fresh (new ▸ here)

theorem Scans.nodup (scans : Scans next enter skip n y todo seen after) (distinct : seen.Nodup) :
    after.Nodup := by
  induction scans with
  | done => exact distinct
  | skipped _ _ _ ih => exact ih distinct
  | @entered n y x rest seen middle after fresh _ _ _ inner outer =>
    apply outer
    apply inner
    exact nodup_concat distinct fresh

theorem Scans.todo_mem (scans : Scans next enter skip n y todo seen after) {x : V} (mem : x ∈ todo) :
    x ∈ after := by
  induction scans with
  | done => cases mem
  | skipped here _ later ih =>
    rcases List.mem_cons.mp mem with rfl | mem
    · exact later.seen_mem here
    · exact ih mem
  | entered _ _ below later _ outer =>
    rcases List.mem_cons.mp mem with rfl | mem
    · exact later.seen_mem (below.seen_mem (List.mem_append_right _ List.mem_cons_self))
    · exact outer mem

theorem Scans.reached (scans : Scans next enter skip n y todo seen after) {z : V} (mem : z ∈ after)
    (new : z ∉ seen) : ∃ x ∈ todo, Reach next x z := by
  induction scans with
  | done => exact absurd mem new
  | skipped _ _ _ ih =>
    obtain ⟨x, there, reach⟩ := ih mem new
    exact ⟨x, List.mem_cons_of_mem _ there, reach⟩
  | @entered n y x rest seen middle after _ _ _ _ inner outer =>
    by_cases early : z ∈ middle
    · refine ⟨x, List.mem_cons_self, ?_⟩
      by_cases own : z ∈ seen ++ [x]
      · rcases List.mem_append.mp own with here | here
        · exact absurd here new
        · rw [List.mem_singleton.mp here]
      · obtain ⟨w, there, reach⟩ := inner early own
        exact Relation.ReflTransGen.head there reach
    · obtain ⟨w, there, reach⟩ := outer mem early
      exact ⟨w, List.mem_cons_of_mem _ there, reach⟩

theorem Scans.closed (scans : Scans next enter skip n y todo seen after) {z x : V} (mem : z ∈ after)
    (new : z ∉ seen) (edge : x ∈ next z) : x ∈ after := by
  induction scans with
  | done => exact absurd mem new
  | skipped _ _ _ ih => exact ih mem new
  | @entered n y w rest seen middle after _ _ below later inner outer =>
    by_cases early : z ∈ middle
    · apply later.seen_mem
      by_cases own : z ∈ seen ++ [w]
      · rcases List.mem_append.mp own with here | here
        · exact absurd here new
        · rw [List.mem_singleton.mp here] at edge
          exact below.todo_mem edge
      · exact inner early own
    · exact outer mem early

/-- The nodes that a node brings are one piece of the list, which begins with it and whose
    neighbours are in it or before it. -/
theorem Scans.piece (scans : Scans next enter skip n y todo seen after) (distinct : seen.Nodup)
    {f : V} (mem : f ∈ after) (new : f ∉ seen) :
    ∃ before own behind, after = before ++ (f :: own) ++ behind ∧
      ∀ z ∈ f :: own, ∀ x ∈ next z, x ∈ before ++ (f :: own) := by
  induction scans with
  | done => exact absurd mem new
  | skipped _ _ _ ih => exact ih distinct mem new
  | @entered n y x rest seen middle after fresh _ below later inner outer =>
    have start := nodup_concat distinct fresh
    obtain ⟨behind, whole⟩ := later.begins
    by_cases early : f ∈ middle
    · by_cases own : f ∈ seen ++ [x]
      · rcases List.mem_append.mp own with here | here
        · exact absurd here new
        obtain rfl := List.mem_singleton.mp here
        obtain ⟨news, middle_⟩ := below.begins
        have split : middle = seen ++ f :: news := by
          rw [← middle_, List.append_assoc, List.singleton_append]
        have apart := below.nodup start
        rw [← middle_, List.nodup_append] at apart
        refine ⟨seen, news, behind, by rw [← whole, split], fun z there w edge => ?_⟩
        rw [← split]
        rcases List.mem_cons.mp there with rfl | there
        · exact below.todo_mem edge
        · have unseen : z ∉ seen ++ [f] := fun old => apart.2.2 z old z there rfl
          exact below.closed (by rw [split]; simp [there]) unseen edge
      · obtain ⟨before, piece, last, split, closed⟩ := inner start early own
        exact ⟨before, piece, last ++ behind, by rw [← whole, split]; simp, closed⟩
    · exact outer (below.nodup start) mem early

theorem place_of_begins {before behind : List V} {z : V} (begins : seen <+: after)
    (distinct : after.Nodup) (split : after = before ++ z :: behind) (here : z ∈ seen) :
    ∃ back, seen = before ++ z :: back := by
  obtain ⟨more, whole⟩ := begins
  obtain ⟨front, back, rfl⟩ := List.append_of_mem here
  rw [List.append_assoc, List.cons_append] at whole
  rw [← whole, List.nodup_append, List.nodup_cons] at distinct
  have alone : z ∉ front := fun mem => distinct.2.2 z mem z List.mem_cons_self rfl
  rw [split] at whole
  obtain ⟨rfl, _, _⟩ := (List.append_cons_inj_of_notMem alone distinct.2.1.1).mp whole
  exact ⟨back, rfl⟩

def Earlier (nodes : List V) (g f : V) : Prop :=
  ∃ before behind, nodes = before ++ f :: behind ∧ g ∈ before

theorem Earlier.longer {f g : V} (early : Earlier seen g f) (begins : seen <+: after) :
    Earlier after g f := by
  obtain ⟨before, behind, rfl, mem⟩ := early
  obtain ⟨more, rfl⟩ := begins
  exact ⟨before, behind ++ more, by simp, mem⟩

theorem Earlier.mem {f g : V} (early : Earlier seen g f) : g ∈ seen ∧ f ∈ seen := by
  obtain ⟨before, behind, rfl, mem⟩ := early
  exact ⟨List.mem_append_left _ mem, List.mem_append_right _ List.mem_cons_self⟩

theorem Earlier.split {before behind : List V} {f g : V} (early : Earlier after g f)
    (distinct : after.Nodup) (split : after = before ++ f :: behind) : g ∈ before := by
  obtain ⟨front, back, split_, mem⟩ := early
  have alone : f ∉ front ∧ f ∉ back := by
    rw [split_, List.nodup_append, List.nodup_cons] at distinct
    exact ⟨fun mem => distinct.2.2 f mem f List.mem_cons_self rfl, distinct.2.1.1⟩
  rw [split_] at split
  obtain ⟨rfl, _, _⟩ := (List.append_cons_inj_of_notMem alone.1 alone.2).mp split
  exact mem

theorem Earlier.asymm {f g : V} (early : Earlier after g f) (distinct : after.Nodup) :
    ¬Earlier after f g := by
  obtain ⟨before, behind, rfl, mem⟩ := early
  obtain ⟨front, back, rfl⟩ := List.append_of_mem mem
  intro other
  have split : front ++ g :: back ++ f :: behind = front ++ g :: (back ++ f :: behind) := by simp
  have inside := other.split distinct split
  rw [List.nodup_append, List.nodup_append] at distinct
  exact distinct.2.2 f (List.mem_append_left _ inside) f List.mem_cons_self rfl

theorem earlier_or {f g : V} (here : f ∈ seen) (there : g ∈ seen) (other : f ≠ g) :
    Earlier seen f g ∨ Earlier seen g f := by
  obtain ⟨before, behind, rfl⟩ := List.append_of_mem here
  rcases List.mem_append.mp there with early | later
  · exact .inr ⟨before, behind, rfl, early⟩
  · rcases List.mem_cons.mp later with same | later
    · exact absurd same.symm other
    · obtain ⟨front, back, rfl⟩ := List.append_of_mem later
      exact .inl ⟨before ++ f :: front, back, by simp, by simp⟩

theorem Scans.skips (scans : Scans next enter skip n y todo seen after) {x : V} (mem : x ∈ todo)
    (here : x ∈ seen) : ∃ now, seen <+: now ∧ skip y x now := by
  induction scans with
  | done => cases mem
  | @skipped n y w rest seen after old allowed later ih =>
    rcases List.mem_cons.mp mem with rfl | mem
    · exact ⟨seen, List.prefix_refl _, allowed⟩
    · exact ih mem here
  | @entered n y w rest seen middle after fresh _ below later _ outer =>
    rcases List.mem_cons.mp mem with rfl | mem
    · exact absurd here fresh
    · have begins := (List.prefix_append seen [w]).trans below.begins
      obtain ⟨now, more, allowed⟩ := outer mem (begins.subset here)
      exact ⟨now, begins.trans more, allowed⟩

theorem Scans.skips_later (scans : Scans next enter skip n y todo seen after) (distinct : seen.Nodup)
    {before behind : List V} {z x : V} (split : after = before ++ z :: behind) (new : z ∉ seen)
    (edge : x ∈ next z) (early : x ∈ before ++ [z]) :
    ∃ now, before ++ [z] <+: now ∧ skip z x now := by
  induction scans generalizing before behind with
  | done => exact absurd (by rw [split]; simp) new
  | skipped _ _ _ ih => exact ih distinct split new early
  | @entered n y w rest seen middle after fresh _ below later inner outer =>
    have start := nodup_concat distinct fresh
    by_cases early_ : z ∈ middle
    · obtain ⟨back, middle_⟩ := place_of_begins later.begins
        (later.nodup (below.nodup start)) split early_
      by_cases own : z ∈ seen ++ [w]
      · rcases List.mem_append.mp own with here | here
        · exact absurd here new
        obtain rfl := List.mem_singleton.mp here
        obtain ⟨last, seen_⟩ := place_of_begins below.begins (below.nodup start) middle_ own
        obtain ⟨rfl, _, _⟩ := (List.append_cons_inj_of_notMem new List.not_mem_nil).mp seen_
        exact below.skips edge early
      · exact inner start middle_ own early
    · exact outer (below.nodup start) split early_ early

theorem leaves_piece {before own : List V} {f g : V}
    (closed : ∀ z ∈ own, ∀ x ∈ next z, x ∈ before ++ own) (start : f ∈ own) (outside : g ∉ own)
    (walk : Reach next f g) : ∃ z x, z ∈ own ∧ Reach next f z ∧ x ∈ next z ∧ x ∈ before ∧
      Reach next x g := by
  induction walk using Relation.ReflTransGen.head_induction_on with
  | refl => exact absurd start outside
  | @head f x edge walk ih =>
    by_cases inside : x ∈ own
    · obtain ⟨z, w, mem, reach, rest⟩ := ih inside
      exact ⟨z, w, mem, Relation.ReflTransGen.head edge reach, rest⟩
    · rcases List.mem_append.mp (closed f start x edge) with early | own_
      · exact ⟨f, x, start, Relation.ReflTransGen.refl, edge, early, walk⟩
      · exact absurd own_ inside

/-- A node that is seen after another one that it reaches: on the way a node was skipped when both
    had been seen. -/
theorem Scans.crossing (scans : Scans next enter skip n y todo seen after) (distinct : seen.Nodup)
    {f g : V} (order : Earlier after g f) (new : f ∉ seen) (walk : Reach next f g) :
    ∃ z x now, skip z x now ∧ Reach next f z ∧ Reach next x g ∧ Earlier now g f := by
  have whole := scans.nodup distinct
  obtain ⟨before, own, behind, split, closed⟩ := scans.piece distinct order.mem.2 new
  rw [List.append_assoc, List.cons_append] at split
  have early : g ∈ before := order.split whole split
  have outside : g ∉ f :: own := by
    rw [split, List.nodup_append] at whole
    intro later
    exact whole.2.2 g early g (List.mem_append_left behind later) rfl
  obtain ⟨z, x, there, reach, edge, old, rest⟩ :=
    leaves_piece closed List.mem_cons_self outside walk
  obtain ⟨front, back, piece⟩ := List.append_of_mem there
  have first : ∃ rest, front ++ [z] = f :: rest := by
    cases front with
    | nil =>
      rw [List.nil_append, List.cons.injEq] at piece
      exact ⟨[], by rw [piece.1]; rfl⟩
    | cons head front =>
      rw [List.cons_append, List.cons.injEq] at piece
      exact ⟨front ++ [z], by rw [piece.1]; rfl⟩
  obtain ⟨others, first⟩ := first
  have place : after = (before ++ front) ++ z :: (back ++ behind) := by
    have pieces : f :: (own ++ behind) = front ++ z :: back ++ behind := by
      rw [← piece, List.cons_append]
    rw [split, pieces]
    simp
  have unseen : z ∉ seen := by
    intro old
    obtain ⟨last, seen_⟩ := place_of_begins scans.begins whole place old
    apply new
    have pieces : seen = before ++ (front ++ [z]) ++ last := by
      rw [seen_]
      simp
    rw [pieces, first]
    simp
  obtain ⟨now, begins, skipped⟩ := scans.skips_later distinct place unseen edge
    (List.mem_append_left _ (List.mem_append_left _ old))
  refine ⟨z, x, now, skipped, reach, rest, Earlier.longer ?_ begins⟩
  exact ⟨before, others, by rw [List.append_assoc, first], early⟩

theorem Scans.strengthen {skip' : V → V → List V → Prop}
    (scans : Scans next enter skip n y todo seen after)
    (own : ∀ x ∈ todo, x ∈ next y)
    (sound : ∀ y x now, now <+: after → x ∈ next y → x ∈ now → skip' y x now) :
    Scans next enter skip' n y todo seen after := by
  induction scans with
  | done => exact .done _ _ _
  | skipped here _ later ih =>
    obtain ⟨edge, others⟩ := List.forall_mem_cons.mp own
    exact .skipped here (sound _ _ _ later.begins edge here) (ih others sound)
  | @entered n y x rest seen middle after fresh allowed below later inner outer =>
    obtain ⟨edge, others⟩ := List.forall_mem_cons.mp own
    refine .entered fresh allowed (inner (fun _ mem => mem) ?_) (outer others sound)
    exact fun y x now begins => sound y x now (begins.trans later.begins)

end Visits
end DevopsCli.DepthFirst
