import Mathlib

/- Lists where the first of each class is kept. noted is the order in which values appear first;
   keepFirst keeps the first element of each mark; after a stable sort by a key that holds the mark
   the kept elements are the least of their marks, the first of them in the list. -/
namespace DevopsCli.LeastFirst

section Noted
variable {β : Type} [DecidableEq β]

def note (seen : List β) (x : β) : List β := if x ∈ seen then seen else seen ++ [x]

def noted (seen xs : List β) : List β := xs.foldl note seen

def position (seen : List β) (x : β) : Nat := seen.idxOf x

theorem noted_cons (seen : List β) (x : β) (xs : List β) :
    noted seen (x :: xs) = noted (note seen x) xs := rfl

theorem note_known {seen : List β} {x : β} (known : x ∈ seen) : note seen x = seen := if_pos known

theorem note_fresh {seen : List β} {x : β} (fresh : x ∉ seen) : note seen x = seen ++ [x] :=
  if_neg fresh

theorem mem_note {seen : List β} {x y : β} : y ∈ note seen x ↔ y ∈ seen ∨ y = x := by
  unfold note
  split
  · next known =>
    constructor
    · exact Or.inl
    · rintro (old | rfl)
      · exact old
      · exact known
  · simp

theorem nodup_note {seen : List β} (once : seen.Nodup) (x : β) : (note seen x).Nodup := by
  unfold note
  split
  · exact once
  · next fresh =>
    refine List.nodup_append.mpr ⟨once, by simp, ?_⟩
    rintro y mem z single rfl
    exact fresh (List.mem_singleton.mp single ▸ mem)

theorem prefix_note (seen : List β) (x : β) : seen <+: note seen x := by
  unfold note
  split
  · exact List.prefix_rfl
  · exact List.prefix_append seen [x]

theorem mem_noted {seen xs : List β} {y : β} : y ∈ noted seen xs ↔ y ∈ seen ∨ y ∈ xs := by
  induction xs generalizing seen with
  | nil => simp [noted]
  | cons x xs ih =>
    rw [noted_cons, ih, mem_note, List.mem_cons, or_assoc]

theorem nodup_noted {seen : List β} (once : seen.Nodup) (xs : List β) : (noted seen xs).Nodup := by
  induction xs generalizing seen with
  | nil => exact once
  | cons x xs ih => exact ih (nodup_note once x)

theorem prefix_noted (seen xs : List β) : seen <+: noted seen xs := by
  induction xs generalizing seen with
  | nil => exact List.prefix_rfl
  | cons x xs ih => exact (prefix_note seen x).trans (ih (note seen x))

theorem noted_append (seen xs ys : List β) : noted seen (xs ++ ys) = noted (noted seen xs) ys :=
  List.foldl_append

theorem position_lt {seen : List β} {x : β} (known : x ∈ seen) : position seen x < seen.length :=
  List.idxOf_lt_length_of_mem known

theorem position_head (x : β) (xs : List β) : position (x :: xs) x = 0 := List.idxOf_cons_self

theorem position_noted {seen : List β} {y : β} (known : y ∈ seen) (xs : List β) :
    position (noted seen xs) y = position seen y := by
  obtain ⟨more, same⟩ := prefix_noted seen xs
  rw [position, ← same, List.idxOf_append_of_mem known, position]

theorem position_known {seen : List β} {x : β} (known : x ∈ seen) (xs : List β) :
    position (noted seen (x :: xs)) x = position seen x := by
  rw [noted_cons, note_known known, position_noted known]

theorem position_fresh {seen : List β} {x : β} (fresh : x ∉ seen) (xs : List β) :
    position (noted seen (x :: xs)) x = seen.length := by
  have listed : x ∈ seen ++ [x] := by simp
  rw [noted_cons, note_fresh fresh, position_noted listed, position,
    List.idxOf_append_of_notMem fresh, List.idxOf_cons_self, Nat.add_zero]

theorem length_noted {xs ys : List β} (same : ∀ y, y ∈ xs ↔ y ∈ ys) :
    (noted [] xs).length = (noted [] ys).length := by
  have perm : (noted [] xs).Perm (noted [] ys) :=
    (List.perm_ext_iff_of_nodup (nodup_noted List.nodup_nil xs)
      (nodup_noted List.nodup_nil ys)).mpr fun y => by simp [mem_noted, same]
  exact perm.length_eq

end Noted

section Kept
variable {α φ κ : Type} [DecidableEq φ] [LinearOrder κ]

def keepFirst (mark : α → φ) (seen : List φ) : List α → List α
  | [] => []
  | x :: xs =>
    if mark x ∈ seen then keepFirst mark seen xs
    else x :: keepFirst mark (mark x :: seen) xs

variable {mark : α → φ}

theorem keepFirst_sublist (seen : List φ) (xs : List α) :
    (keepFirst mark seen xs).Sublist xs := by
  induction xs generalizing seen with
  | nil => exact List.Sublist.slnil
  | cons x xs ih =>
    rw [keepFirst]
    split
    · exact (ih seen).cons x
    · exact (ih (mark x :: seen)).cons_cons x

theorem keepFirst_fresh {seen : List φ} {xs : List α} {x : α} (kept : x ∈ keepFirst mark seen xs) :
    mark x ∉ seen := by
  induction xs generalizing seen with
  | nil => cases kept
  | cons y xs ih =>
    rw [keepFirst] at kept
    split at kept
    · exact ih kept
    · next fresh =>
      rcases List.mem_cons.mp kept with rfl | later
      · exact fresh
      · exact fun known => ih later (List.mem_cons_of_mem _ known)

theorem keepFirst_nodup (seen : List φ) (xs : List α) :
    ((keepFirst mark seen xs).map mark).Nodup := by
  induction xs generalizing seen with
  | nil => exact List.nodup_nil
  | cons x xs ih =>
    rw [keepFirst]
    split
    · exact ih seen
    · rw [List.map_cons, List.nodup_cons]
      refine ⟨?_, ih (mark x :: seen)⟩
      intro again
      obtain ⟨y, kept, same⟩ := List.mem_map.mp again
      exact keepFirst_fresh kept (by simp [same])

/-- A kept element has no element of its mark before it. -/
theorem keepFirst_split {seen : List φ} {xs : List α} {x : α}
    (kept : x ∈ keepFirst mark seen xs) :
    ∃ before after, xs = before ++ x :: after ∧ ∀ y ∈ before, mark y ≠ mark x := by
  induction xs generalizing seen with
  | nil => cases kept
  | cons z xs ih =>
    rw [keepFirst] at kept
    split at kept
    · next known =>
      obtain ⟨before, after, rfl, fresh⟩ := ih kept
      refine ⟨z :: before, after, rfl, ?_⟩
      intro y mem
      rcases List.mem_cons.mp mem with rfl | mem
      · exact fun same => keepFirst_fresh kept (same ▸ known)
      · exact fresh y mem
    · rcases List.mem_cons.mp kept with rfl | kept
      · exact ⟨[], xs, rfl, by simp⟩
      · obtain ⟨before, after, rfl, fresh⟩ := ih kept
        refine ⟨z :: before, after, rfl, ?_⟩
        intro y mem
        rcases List.mem_cons.mp mem with rfl | mem
        · exact fun same => keepFirst_fresh kept (by simp [same])
        · exact fresh y mem

theorem keepFirst_covers {seen : List φ} {xs : List α} {x : α} (mem : x ∈ xs)
    (fresh : mark x ∉ seen) : ∃ y ∈ keepFirst mark seen xs, mark y = mark x := by
  induction xs generalizing seen with
  | nil => cases mem
  | cons z xs ih =>
    rw [keepFirst]
    rcases List.mem_cons.mp mem with rfl | mem
    · rw [if_neg fresh]
      exact ⟨x, List.mem_cons_self, rfl⟩
    · split
      · exact ih mem fresh
      · by_cases same : mark x = mark z
        · exact ⟨z, List.mem_cons_self, same.symm⟩
        · have fresh : mark x ∉ mark z :: seen := by simp [same, fresh]
          obtain ⟨y, kept, marked⟩ := ih mem fresh
          exact ⟨y, List.mem_cons_of_mem _ kept, marked⟩

theorem keepFirst_first {order : α → α → Prop} {seen : List φ} {xs : List α} {x y : α}
    (ordered : xs.Pairwise order) (kept : x ∈ keepFirst mark seen xs) (mem : y ∈ xs)
    (same : mark y = mark x) : y = x ∨ order x y := by
  obtain ⟨before, after, rfl, fresh⟩ := keepFirst_split kept
  rcases List.mem_append.mp mem with front | back
  · exact absurd same (fresh y front)
  · rcases List.mem_cons.mp back with rfl | later
    · exact Or.inl rfl
    · exact Or.inr ((List.pairwise_cons.mp (List.pairwise_append.mp ordered).2.1).1 y later)

variable (key : α → κ)

def sortBy (xs : List α) : List α := xs.insertionSort fun x y => key x ≤ key y

theorem sortBy_perm (xs : List α) : (sortBy key xs).Perm xs := List.perm_insertionSort _ xs

theorem mem_sortBy {xs : List α} {x : α} : x ∈ sortBy key xs ↔ x ∈ xs := (sortBy_perm key xs).mem_iff

instance keyTotal : Std.Total fun x y : α => key x ≤ key y := ⟨fun x y => le_total (key x) (key y)⟩
instance keyTrans : IsTrans α fun x y : α => key x ≤ key y := ⟨fun _ _ _ => le_trans⟩

theorem sortBy_sorted (xs : List α) : (sortBy key xs).Pairwise fun x y => key x ≤ key y :=
  List.pairwise_insertionSort _ xs

theorem sortBy_stable (xs : List α) (k : κ) :
    (sortBy key xs).filter (fun x => decide (key x = k)) = xs.filter fun x => decide (key x = k) := by
  have level : (xs.filter fun x => decide (key x = k)).Pairwise fun x y => key x ≤ key y := by
    refine List.Pairwise.imp_of_mem ?_ (List.pairwise_of_forall fun _ _ => True.intro)
    intro x y first second _
    simp only [List.mem_filter, decide_eq_true_eq] at first second
    rw [first.2, second.2]
  have inside : (xs.filter fun x => decide (key x = k)).Sublist (sortBy key xs) :=
    List.sublist_insertionSort level List.filter_sublist
  have inside := inside.filter fun x => decide (key x = k)
  rw [List.filter_filter] at inside
  simp only [Bool.and_self] at inside
  exact (inside.eq_of_length (((sortBy_perm key xs).filter _).length_eq.symm)).symm

/-- What is kept of a list: sorted by the key, the first of each mark. -/
def kept (mark : α → φ) (xs : List α) : List α := keepFirst mark [] (sortBy key xs)

variable {key}

theorem kept_mem {xs : List α} {x : α} (mem : x ∈ kept key mark xs) : x ∈ xs :=
  (mem_sortBy key).mp ((keepFirst_sublist [] _).mem mem)

theorem kept_nodup (xs : List α) : ((kept key mark xs).map mark).Nodup := keepFirst_nodup [] _

theorem kept_unique {xs : List α} {x y : α} (first : x ∈ kept key mark xs)
    (second : y ∈ kept key mark xs) (same : mark x = mark y) : x = y :=
  List.inj_on_of_nodup_map (kept_nodup xs) first second same

theorem kept_covers {xs : List α} {x : α} (mem : x ∈ xs) :
    ∃ y ∈ kept key mark xs, mark y = mark x :=
  keepFirst_covers ((mem_sortBy key).mpr mem) (by simp)

theorem kept_least {xs : List α} {x y : α} (first : x ∈ kept key mark xs) (mem : y ∈ xs)
    (same : mark y = mark x) : key x ≤ key y := by
  rcases keepFirst_first (sortBy_sorted key xs) first ((mem_sortBy key).mpr mem) same with rfl | level
  · exact le_refl _
  · exact level

section Keyed
variable (holds : ∀ x y : α, key x = key y → mark x = mark y)
include holds

/-- Of the elements of one key the first in the list is kept. -/
theorem kept_front {front back : List α} {x y : α} (first : y ∈ kept key mark (front ++ back))
    (mem : x ∈ front) (same : mark x = mark y) (level : key x ≤ key y) : y ∈ front := by
  have equal : key x = key y :=
    le_antisymm level (kept_least first (List.mem_append_left back mem) same)
  obtain ⟨before, after, cut, fresh⟩ := keepFirst_split first
  have none_before : before.filter (fun z => decide (key z = key y)) = [] := by
    simp only [List.filter_eq_nil_iff, decide_eq_true_eq]
    exact fun z mem equal => fresh z mem (holds z y equal)
  have stable := sortBy_stable key (front ++ back) (key y)
  rw [cut, List.filter_append, none_before, List.nil_append, List.filter_cons_of_pos (by simp),
    List.filter_append] at stable
  cases found : front.filter fun z => decide (key z = key y) with
  | nil =>
    have : x ∈ front.filter fun z => decide (key z = key y) := by simp [mem, equal]
    rw [found] at this
    cases this
  | cons z rest =>
    rw [found, List.cons_append, List.cons.injEq] at stable
    rw [stable.1]
    exact (List.mem_filter.mp (found ▸ List.mem_cons_self)).1

theorem kept_sorted (xs : List α) : (kept key mark xs).Pairwise fun x y => key x < key y := by
  have sorted : (kept key mark xs).Pairwise fun x y => key x ≤ key y :=
    (sortBy_sorted key xs).sublist (keepFirst_sublist [] _)
  have once : (kept key mark xs).Pairwise fun x y => mark x ≠ mark y :=
    List.pairwise_map.mp (kept_nodup xs)
  refine sorted.imp₂ ?_ once
  intro x y level differ
  exact lt_of_le_of_ne level fun equal => differ (holds x y equal)

theorem kept_eq {xs ys : List α} (same : ∀ x, x ∈ kept key mark xs ↔ x ∈ kept key mark ys) :
    kept key mark xs = kept key mark ys := by
  have first := kept_sorted holds xs
  have second := kept_sorted holds ys
  have perm : (kept key mark xs).Perm (kept key mark ys) :=
    (List.perm_ext_iff_of_nodup (first.imp fun less equal => absurd (equal ▸ less) (lt_irrefl _))
      (second.imp fun less equal => absurd (equal ▸ less) (lt_irrefl _))).mpr same
  exact perm.eq_of_pairwise (fun x y _ _ less more => absurd (less.trans more) (lt_irrefl _))
    first second

end Keyed
end Kept

section Least
variable {α κ : Type} [LinearOrder κ] (key : α → κ)

def leastBy (x : α) (xs : List α) : α := xs.foldl (fun best y => if key y < key best then y else best) x

theorem leastBy_spec (x : α) (xs : List α) :
    leastBy key x xs ∈ x :: xs ∧ ∀ y ∈ x :: xs, key (leastBy key x xs) ≤ key y := by
  induction xs generalizing x with
  | nil => simp [leastBy]
  | cons z xs ih =>
    have ⟨mem, least⟩ := ih (if key z < key x then z else x)
    rw [leastBy, List.foldl_cons, ← leastBy]
    have better : key (if key z < key x then z else x) ≤ key x ∧
        key (if key z < key x then z else x) ≤ key z := by
      split
      · next less => exact ⟨less.le, le_refl _⟩
      · next more => exact ⟨le_refl _, not_lt.mp more⟩
    have first := least _ List.mem_cons_self
    constructor
    · rcases List.mem_cons.mp mem with same | later
      · rw [same]
        split <;> simp
      · exact List.mem_cons_of_mem _ (List.mem_cons_of_mem _ later)
    · intro y listed
      rcases List.mem_cons.mp listed with rfl | listed
      · exact first.trans better.1
      · rcases List.mem_cons.mp listed with rfl | listed
        · exact first.trans better.2
        · exact least y (List.mem_cons_of_mem _ listed)

end Least
end DevopsCli.LeastFirst
