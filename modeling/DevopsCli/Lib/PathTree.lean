import Mathlib

/- A tree of mappings as the kind of node that each path holds: nothing, a mapping or a value.
   What writing a leaf and erasing a subtree do to every path. Nothing here is about one
   program. -/
namespace DevopsCli.PathTree

variable {K V : Type}

abbrev Kinds (K V : Type) := List K → Option (Option V)

def Apart (p q : List K) : Prop := ¬p <+: q ∧ ¬q <+: p

instance [DecidableEq K] (p q : List K) : Decidable (Apart p q) :=
  inferInstanceAs (Decidable (_ ∧ _))

/-- A value, or a mapping that holds nothing, below the root. -/
structure IsLeaf (f : Kinds K V) (q : List K) (leaf : Option V) : Prop where
  below : q ≠ []
  here : f q = some leaf
  bare : leaf = none → ∀ k, f (q ++ [k]) = none

def Closed (f : Kinds K V) : Prop := ∀ q k, f (q ++ [k]) ≠ none → f q = some none

section Paths
variable {p q r : List K}

theorem Apart.symm (apart : Apart p q) : Apart q p := ⟨apart.2, apart.1⟩

theorem Apart.ne (apart : Apart p q) : p ≠ q := fun same => apart.1 (same ▸ List.prefix_rfl)

theorem Apart.of_longer (apart : Apart p q) (longer : p <+: r) : Apart r q :=
  ⟨fun down => apart.1 (longer.trans down), fun up =>
    (List.prefix_or_prefix_of_prefix longer up).elim apart.1 apart.2⟩

@[simp] theorem apart_cons {k l : K} : Apart (k :: p) (l :: q) ↔ k ≠ l ∨ Apart p q := by
  by_cases same : k = l
  · simp [Apart, same, List.cons_prefix_cons]
  · simp [Apart, same, Ne.symm same, List.cons_prefix_cons]

@[simp] theorem not_apart_nil_left : ¬Apart [] p := fun apart => apart.1 List.nil_prefix

@[simp] theorem not_apart_nil_right : ¬Apart p [] := fun apart => apart.2 List.nil_prefix

theorem apart_append {start : List K} : Apart (start ++ p) (start ++ q) ↔ Apart p q := by
  rw [Apart, List.prefix_append_right_inj, List.prefix_append_right_inj, Apart]

theorem proper_prefix (down : q <+: p) (other : q ≠ p) : ∃ k, q ++ [k] <+: p := by
  obtain ⟨rest, rfl⟩ := down
  cases rest with
  | nil => exact absurd (List.append_nil q).symm other
  | cons k rest => exact ⟨k, rest, by simp⟩

end Paths

section Trees
variable {f : Kinds K V} {p q : List K} {leaf other : Option V}

theorem IsLeaf.unique (one : IsLeaf f q leaf) (two : IsLeaf f q other) : leaf = other :=
  Option.some.inj (one.here.symm.trans two.here)

theorem Closed.mapping_above (closed : Closed f) (some_ : f p ≠ none) (up : q <+: p) (other : q ≠ p) :
    f q = some none := by
  obtain ⟨rest, rfl⟩ := up
  induction rest using List.reverseRecOn with
  | nil => exact absurd (List.append_nil q).symm other
  | append_singleton rest k ih =>
    have above : f (q ++ rest) = some none := closed _ k (by rwa [List.append_assoc])
    by_cases top : q = q ++ rest
    · rw [top]
      exact above
    · exact ih (by simp [above]) top

theorem IsLeaf.ends (is_leaf : IsLeaf f q leaf) (closed : Closed f) (down : q <+: p)
    (other : q ≠ p) : f p = none := by
  by_contra some_
  obtain ⟨k, next⟩ := proper_prefix down other
  have mapping := closed.mapping_above some_ down other
  have bare : leaf = none := Option.some.inj (is_leaf.here.symm.trans mapping)
  have child := is_leaf.bare bare k
  by_cases end_ : q ++ [k] = p
  · exact some_ (end_ ▸ child)
  · simp [closed.mapping_above some_ next end_] at child

theorem IsLeaf.apart (one : IsLeaf f p leaf) (two : IsLeaf f q other) (closed : Closed f)
    (ne : p ≠ q) : Apart p q := by
  constructor
  · intro down
    have ended := one.ends closed down ne
    rw [two.here] at ended
    cases ended
  · intro up
    have ended := two.ends closed up ne.symm
    rw [one.here] at ended
    cases ended

end Trees

section Edits
variable [DecidableEq K] {f : Kinds K V} {p q : List K} {leaf : Option V}

def write (f : Kinds K V) (p : List K) (leaf : Option V) : Kinds K V := fun q =>
  if q = p then some leaf
  else if p <+: q then none
  else if q <+: p then some none
  else f q

def erase (f : Kinds K V) (p : List K) : Kinds K V := fun q => if p <+: q then none else f q

theorem write_apart (apart : Apart p q) : write f p leaf q = f q := by
  rw [write, if_neg apart.ne.symm, if_neg apart.1, if_neg apart.2]

def writes (f : Kinds K V) (leaves : List (List K × Option V)) : Kinds K V :=
  leaves.foldl (fun f entry => write f entry.1 entry.2) f

def erases (f : Kinds K V) (paths : List (List K)) : Kinds K V := paths.foldl erase f

theorem writes_cons (entry : List K × Option V) (leaves : List (List K × Option V)) :
    writes f (entry :: leaves) = writes (write f entry.1 entry.2) leaves := rfl

theorem erases_cons (p : List K) (paths : List (List K)) :
    erases f (p :: paths) = erases (erase f p) paths := rfl

theorem erases_apply (paths : List (List K)) (q : List K) :
    erases f paths q = if ∃ p ∈ paths, p <+: q then none else f q := by
  induction paths generalizing f with
  | nil => simp [erases]
  | cons p paths ih =>
    rw [erases_cons, ih, erase]
    by_cases later : ∃ p ∈ paths, p <+: q
    · rw [if_pos later, if_pos (later.imp fun p held => ⟨List.mem_cons_of_mem _ held.1, held.2⟩)]
    · rw [if_neg later]
      by_cases first : p <+: q
      · rw [if_pos first, if_pos ⟨p, List.mem_cons_self, first⟩]
      · rw [if_neg first, if_neg]
        rintro ⟨r, held, down⟩
        rcases List.mem_cons.mp held with rfl | held
        · exact first down
        · exact later ⟨r, held, down⟩

variable {leaves : List (List K × Option V)}

theorem writes_apart (apart : ∀ entry ∈ leaves, Apart entry.1 q) : writes f leaves q = f q := by
  induction leaves generalizing f with
  | nil => rfl
  | cons entry leaves ih =>
    obtain ⟨first, later⟩ := List.forall_mem_cons.mp apart
    rw [writes_cons, ih later, write_apart first]

theorem writes_self (apart : leaves.Pairwise fun a b => Apart a.1 b.1) (mem : (p, leaf) ∈ leaves) :
    writes f leaves p = some leaf := by
  induction leaves generalizing f with
  | nil => cases mem
  | cons entry leaves ih =>
    obtain ⟨first, later⟩ := List.pairwise_cons.mp apart
    rw [writes_cons]
    rcases List.mem_cons.mp mem with rfl | mem
    · rw [writes_apart fun other held => (first other held).symm, write, if_pos rfl]
    · exact ih later mem

theorem writes_below (apart : leaves.Pairwise fun a b => Apart a.1 b.1) (mem : (p, leaf) ∈ leaves)
    (down : p <+: q) (other : p ≠ q) : writes f leaves q = none := by
  induction leaves generalizing f with
  | nil => cases mem
  | cons entry leaves ih =>
    obtain ⟨first, later⟩ := List.pairwise_cons.mp apart
    rw [writes_cons]
    rcases List.mem_cons.mp mem with rfl | mem
    · rw [writes_apart fun other held => ((first other held).of_longer down).symm, write,
        if_neg other.symm, if_pos down]
    · exact ih later mem

theorem writes_above (apart : leaves.Pairwise fun a b => Apart a.1 b.1) (mem : (p, leaf) ∈ leaves)
    (up : q <+: p) (other : q ≠ p) : writes f leaves q = some none := by
  induction leaves generalizing f p leaf with
  | nil => cases mem
  | cons entry leaves ih =>
    obtain ⟨first, later⟩ := List.pairwise_cons.mp apart
    rw [writes_cons]
    rcases List.mem_cons.mp mem with rfl | mem
    · by_cases again : ∃ next ∈ leaves, q <+: next.1
      · obtain ⟨next, held, up_⟩ := again
        refine ih later held up_ fun same => ?_
        exact (first next held).2 (same ▸ up)
      · rw [writes_apart, write, if_neg other, if_neg, if_pos up]
        · exact fun down => other (up.eq_of_length (Nat.le_antisymm up.length_le down.length_le))
        · intro next held
          refine ⟨fun down => ?_, fun up_ => again ⟨next, held, up_⟩⟩
          exact (first next held).2 (down.trans up)
    · exact ih later mem up other

end Edits

section Diff

/-- At or below each node there is a leaf: a tree has no endless path. -/
def Grounded (f : Kinds K V) : Prop :=
  ∀ q, q ≠ [] → f q ≠ none → ∃ p leaf, q <+: p ∧ IsLeaf f p leaf

variable (Same : Option V → Option V → Prop)

def Reads (f g : Kinds K V) : Prop :=
  (∀ p leaf, IsLeaf f p leaf → ∃ other, IsLeaf g p other ∧ Same leaf other) ∧
    ∀ p leaf, IsLeaf g p leaf → ∃ other, IsLeaf f p other

def Agree (f g : Kinds K V) : Prop :=
  ∀ q, (f q = none ∧ g q = none) ∨
    ∃ leaf other, f q = some leaf ∧ g q = some other ∧ (leaf = none ↔ other = none) ∧
      Same leaf other

/-- The paths of the leaves to erase and the leaves to write, for a tree to become another. -/
structure DiffOf (b g : Kinds K V) (removed : List (List K)) (changed : List (List K × Option V)) :
    Prop where
  apart : changed.Pairwise fun a b => Apart a.1 b.1
  removed : ∀ p, p ∈ removed ↔ (∃ leaf, IsLeaf b p leaf) ∧ (¬∃ leaf, IsLeaf g p leaf) ∧
    ¬∃ r leaf, IsLeaf g r leaf ∧ p <+: r ∧ p ≠ r
  changed : ∀ p leaf, (p, leaf) ∈ changed ↔ IsLeaf g p leaf ∧
    ¬∃ was, IsLeaf b p was ∧ Same was leaf

/-- Each mapping that holds something before has a leaf after at its path, above it or below. -/
def Met (b g : Kinds K V) : Prop :=
  ∀ q k, q ≠ [] → b (q ++ [k]) ≠ none → ∃ p leaf, IsLeaf g p leaf ∧ (p <+: q ∨ q <+: p)

structure Comparison : Prop where
  bare : ∀ {leaf other}, Same leaf other → (leaf = none ↔ other = none)
  symm : ∀ {leaf other}, Same leaf other → Same other leaf
  trans : ∀ {a b c}, Same a b → Same b c → Same a c
  mapping : Same none none

variable {Same} {f b g : Kinds K V}

theorem Agree.reads (rules : Comparison Same) (agree : Agree Same f g) : Reads Same f g := by
  have at_leaf : ∀ {f g : Kinds K V}, Agree Same f g → ∀ p leaf, IsLeaf f p leaf →
      ∃ other, IsLeaf g p other ∧ Same leaf other := by
    intro f g agree p leaf is_leaf
    rcases agree p with ⟨none_, -⟩ | ⟨own, other, here, there, bare, same⟩
    · rw [is_leaf.here] at none_
      cases none_
    · obtain rfl := Option.some.inj (is_leaf.here.symm.trans here)
      refine ⟨other, ⟨is_leaf.below, there, fun none_ k => ?_⟩, same⟩
      have empty := is_leaf.bare (bare.mpr none_) k
      rcases agree (p ++ [k]) with ⟨-, out⟩ | ⟨_, _, some_, -⟩
      · exact out
      · rw [empty] at some_
        cases some_
  have back : Agree Same g f := by
    intro q
    rcases agree q with none_ | ⟨leaf, other, here, there, bare, same⟩
    · exact .inl none_.symm
    · exact .inr ⟨other, leaf, there, here, bare.symm, rules.symm same⟩
  exact ⟨at_leaf agree, fun p leaf is_leaf => (at_leaf back p leaf is_leaf).imp fun _ held => held.1⟩

theorem Reads.agree (rules : Comparison Same) (reads : Reads Same f g) (closed_f : Closed f) (closed_g : Closed g)
    (ground_f : Grounded f) (ground_g : Grounded g) (root_f : f [] = some none)
    (root_g : g [] = some none) : Agree Same f g := by
  intro q
  by_cases root : q = []
  · exact .inr ⟨none, none, root ▸ root_f, root ▸ root_g, Iff.rfl, rules.mapping⟩
  · by_cases some_ : f q = none
    · refine .inl ⟨some_, ?_⟩
      by_contra other
      obtain ⟨p, leaf, down, is_leaf⟩ := ground_g q root other
      obtain ⟨own, was⟩ := reads.2 p leaf is_leaf
      by_cases same : q = p
      · rw [same, was.here] at some_
        cases some_
      · rw [closed_f.mapping_above (by simp [was.here]) down same] at some_
        cases some_
    · obtain ⟨p, leaf, down, is_leaf⟩ := ground_f q root some_
      obtain ⟨other, there, same⟩ := reads.1 p leaf is_leaf
      by_cases end_ : q = p
      · subst end_
        exact .inr ⟨leaf, other, is_leaf.here, there.here, rules.bare same, same⟩
      · exact .inr ⟨none, none, closed_f.mapping_above (by simp [is_leaf.here]) down end_,
          closed_g.mapping_above (by simp [there.here]) down end_, Iff.rfl, rules.mapping⟩

section Target
variable [DecidableEq K] {removed : List (List K)} {changed : List (List K × Option V)} {q : List K}

theorem edits_apart (changes_ : ∀ entry ∈ changed, Apart entry.1 q)
    (removals : ∀ r ∈ removed, ¬r <+: q) : writes (erases f removed) changed q = f q := by
  rw [writes_apart changes_, erases_apply, if_neg]
  rintro ⟨r, held, up⟩
  exact removals r held up

theorem DiffOf.not_erased (diff : DiffOf Same b g removed changed) (closed : Closed b)
    (kept : (∃ k, b (q ++ [k]) ≠ none) ∨
      ∃ was leaf, IsLeaf b q was ∧ IsLeaf g q leaf) : ∀ r ∈ removed, ¬r <+: q := by
  intro r held up
  obtain ⟨⟨was, is_leaf⟩, gone, -⟩ := (diff.removed r).mp held
  rcases kept with ⟨k, child⟩ | ⟨here, leaf, own, new⟩
  · refine child (is_leaf.ends closed (up.trans (List.prefix_append q [k])) ?_)
    rintro rfl
    exact absurd up.length_le (by simp)
  · by_cases same : r = q
    · exact gone ⟨leaf, same ▸ new⟩
    · exact (is_leaf.apart own closed same).1 up

/-- The edits make the new tree, where each old mapping that holds something is met. -/
theorem DiffOf.agree (diff : DiffOf Same b g removed changed) (rules : Comparison Same)
    (agree : Agree Same f b) (closed_b : Closed b) (closed_g : Closed g) (ground : Grounded g)
    (root_f : f [] = some none) (root_g : g [] = some none)
    (self : ∀ p leaf, IsLeaf g p leaf → Same leaf leaf) (met : Met b g) :
    Agree Same (writes (erases f removed) changed) g := by
  intro q
  by_cases root : q = []
  · subst root
    refine .inr ⟨none, none, ?_, root_g, Iff.rfl, rules.mapping⟩
    by_cases some_ : ∃ entry, entry ∈ changed
    · obtain ⟨⟨p, leaf⟩, held⟩ := some_
      have new := ((diff.changed p leaf).mp held).1
      exact writes_above diff.apart held List.nil_prefix new.below.symm
    · rw [edits_apart, root_f]
      · exact fun entry held => absurd ⟨entry, held⟩ some_
      · intro r held up
        obtain ⟨⟨was, is_leaf⟩, -⟩ := (diff.removed r).mp held
        exact is_leaf.below (List.prefix_nil.mp up)
  cases there : g q with
  | none =>
    refine .inl ⟨?_, rfl⟩
    have no_entry_below : ∀ p leaf, IsLeaf g p leaf → ¬q <+: p := by
      intro p leaf new down
      by_cases same : q = p
      · rw [same, new.here] at there
        cases there
      · rw [closed_g.mapping_above (by simp [new.here]) down same] at there
        cases there
    by_cases above : ∃ entry ∈ changed, entry.1 <+: q
    · obtain ⟨⟨p, leaf⟩, held, up⟩ := above
      refine writes_below diff.apart held up ?_
      rintro rfl
      exact no_entry_below p leaf ((diff.changed p leaf).mp held).1 List.prefix_rfl
    · have apart : ∀ entry ∈ changed, Apart entry.1 q := fun entry held =>
        ⟨fun up => above ⟨entry, held, up⟩,
          no_entry_below entry.1 entry.2 ((diff.changed entry.1 entry.2).mp held).1⟩
      rw [writes_apart apart, erases_apply]
      split
      · rfl
      · rename_i kept
        rcases agree q with ⟨none_, -⟩ | ⟨own, was, -, before, -⟩
        · exact none_
        · exfalso
          by_cases hole : ∃ k, b (q ++ [k]) ≠ none
          · obtain ⟨k, child⟩ := hole
            obtain ⟨p, leaf, new, up | down⟩ := met q k root child
            · -- a leaf of the new tree above an old mapping is written
              refine above ⟨(p, leaf), (diff.changed p leaf).mpr ⟨new, ?_⟩, up⟩
              rintro ⟨old, is_leaf, -⟩
              refine child (is_leaf.ends closed_b (up.trans (List.prefix_append q [k])) ?_)
              rintro rfl
              exact absurd up.length_le (by simp)
            · exact no_entry_below p leaf new down
          · have is_leaf : IsLeaf b q was :=
              ⟨root, before, fun _ k => not_not.mp (not_exists.mp hole k)⟩
            refine kept ⟨q, (diff.removed q).mpr ⟨⟨was, is_leaf⟩, ?_, ?_⟩, List.prefix_rfl⟩
            · rintro ⟨leaf, new⟩
              exact no_entry_below q leaf new List.prefix_rfl
            · rintro ⟨r, leaf, new, down, -⟩
              exact no_entry_below r leaf new down
  | some node =>
    by_cases end_ : IsLeaf g q node
    · by_cases held : (q, node) ∈ changed
      · exact .inr ⟨node, node, writes_self diff.apart held, rfl, Iff.rfl, self q node end_⟩
      · obtain ⟨was, old, same⟩ : ∃ was, IsLeaf b q was ∧ Same was node := by
          by_contra differs
          exact held ((diff.changed q node).mpr ⟨end_, differs⟩)
        have apart : ∀ entry ∈ changed, Apart entry.1 q := by
          intro entry written
          have new := ((diff.changed entry.1 entry.2).mp written).1
          refine new.apart end_ closed_g fun same => held ?_
          have leaf_ : entry.2 = node := (same ▸ new).unique end_
          rw [← same, ← leaf_]
          exact written
        rw [edits_apart apart (diff.not_erased closed_b (.inr ⟨was, node, old, end_⟩))]
        rcases agree q with ⟨-, out⟩ | ⟨own, was', here, before, bare, equal⟩
        · rw [old.here] at out
          cases out
        · obtain rfl := Option.some.inj (old.here.symm.trans before)
          exact .inr ⟨own, node, here, rfl, bare.trans (rules.bare same), rules.trans equal same⟩
    · obtain ⟨k, child⟩ : ∃ k, g (q ++ [k]) ≠ none := by
        by_contra bare
        exact end_ ⟨root, there, fun _ k => not_not.mp (not_exists.mp bare k)⟩
      obtain rfl : node = none := Option.some.inj (there.symm.trans (closed_g q k child))
      refine .inr ⟨none, none, ?_, rfl, Iff.rfl, rules.mapping⟩
      obtain ⟨p, leaf, down, new⟩ := ground (q ++ [k]) (by simp) child
      have below : q <+: p := (List.prefix_append q [k]).trans down
      have proper : q ≠ p := by
        rintro rfl
        exact absurd down.length_le (by simp)
      by_cases under : ∃ entry ∈ changed, q <+: entry.1
      · obtain ⟨⟨r, other⟩, held, up⟩ := under
        refine writes_above diff.apart held up ?_
        rintro rfl
        have at_q := ((diff.changed q other).mp held).1
        have ended := at_q.ends closed_g below proper
        rw [new.here] at ended
        cases ended
      · have apart : ∀ entry ∈ changed, Apart entry.1 q := by
          intro entry held
          have other := ((diff.changed entry.1 entry.2).mp held).1
          refine ⟨fun up => ?_, fun up => under ⟨entry, held, up⟩⟩
          have long := up.trans below
          refine (other.apart new closed_g ?_).1 long
          intro same
          exact proper (below.eq_of_length (Nat.le_antisymm below.length_le
            (same ▸ up.length_le)))
        obtain ⟨was, old, -⟩ : ∃ was, IsLeaf b p was ∧ Same was leaf := by
          by_contra differs
          exact under ⟨(p, leaf), (diff.changed p leaf).mpr ⟨new, differs⟩, below⟩
        have held : b p ≠ none := by simp [old.here]
        have child_b : b (q ++ [k]) ≠ none := by
          by_cases last : q ++ [k] = p
          · rwa [last]
          · simp [closed_b.mapping_above held down last]
        rw [edits_apart apart (diff.not_erased closed_b (.inl ⟨k, child_b⟩))]
        have mapping := closed_b q k child_b
        rcases agree q with ⟨-, out⟩ | ⟨own, was', here, before, bare, -⟩
        · rw [mapping] at out
          cases out
        · rw [here, bare.mpr (Option.some.inj (before.symm.trans mapping))]

theorem DiffOf.not_reads (diff : DiffOf Same b g removed changed) (agree : Agree Same f b)
    (closed : Closed b) (ground : Grounded (writes (erases f removed) changed))
    (unmet : ¬Met b g) : ¬Reads Same (writes (erases f removed) changed) g := by
  intro reads
  refine unmet fun q k root child => ?_
  by_contra none_
  push Not at none_
  have apart : ∀ entry ∈ changed, Apart entry.1 q := fun entry held =>
    none_ entry.1 entry.2 ((diff.changed entry.1 entry.2).mp held).1
  have kept := edits_apart apart (f := f) (diff.not_erased closed (.inl ⟨k, child⟩))
  have some_ : f q ≠ none := by
    rcases agree q with ⟨-, out⟩ | ⟨own, was, here, -⟩
    · rw [closed q k child] at out
      cases out
    · simp [here]
  obtain ⟨p, leaf, down, left⟩ := ground q root (by rwa [kept])
  obtain ⟨other, new, -⟩ := reads.1 p leaf left
  exact (none_ p other new).2 down

end Target
end Diff
end DevopsCli.PathTree
