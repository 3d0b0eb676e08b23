import DevopsCli.Lib.Keyed

/- Dictionaries with the order of their keys: tables of pairs with one row for each key. Nothing
   here is about one program. -/
namespace DevopsCli

abbrev Dict (K V : Type) := Keyed (Prod.fst : K × V → K)

namespace Dict
variable {K V : Type} [DecidableEq K] {d : Dict K V} {k n : K} {v : V}

def empty : Dict K V := {}

def get (d : Dict K V) (k : K) : Option V := (d.lookup k).map Prod.snd

def set (d : Dict K V) (k : K) (v : V) : Dict K V := d.put (k, v)

def only (d : Dict K V) (p : K → Bool) : Dict K V := d.keep fun row => p row.1

def pop (d : Dict K V) (k : K) : Dict K V := d.only (· ≠ k)

theorem get_eq_some : d.get k = some v ↔ (k, v) ∈ d := by
  unfold get
  rw [Option.map_eq_some_iff]
  constructor
  · rintro ⟨row, found, rfl⟩
    obtain ⟨mem, rfl⟩ := Keyed.lookup_eq_some.mp found
    exact mem
  · intro mem
    exact ⟨(k, v), Keyed.lookup_eq_some.mpr ⟨mem, rfl⟩, rfl⟩

theorem get_eq_none : d.get k = none ↔ ∀ v, (k, v) ∉ d := by
  rw [Option.eq_none_iff_forall_ne_some]
  exact forall_congr' fun v => not_congr get_eq_some

theorem ne_of_get_eq_none (none_ : d.get k = none) {row : K × V} (member : row ∈ d) : row.1 ≠ k := by
  rintro rfl
  exact get_eq_none.mp none_ row.2 member

theorem mem_set {row : K × V} :
    row ∈ d.set k v ↔ row = (k, v) ∨ (row ∈ d ∧ row.1 ≠ k) := by
  constructor
  · exact Keyed.mem_put
  · intro given
    show row ∈ (if k ∈ d.rows.map Prod.fst then _ else _ : List (K × V))
    split
    · next there =>
      rw [List.mem_map]
      rcases given with rfl | ⟨mem, other⟩
      · obtain ⟨old, mem, same⟩ := List.mem_map.mp there
        exact ⟨old, mem, if_pos same⟩
      · exact ⟨row, mem, if_neg other⟩
    · rw [List.mem_append, List.mem_singleton]
      rcases given with new | ⟨mem, _⟩
      · exact .inr new
      · exact .inl mem

@[simp] theorem get_set_self : (d.set k v).get k = some v :=
  get_eq_some.mpr (mem_set.mpr (.inl rfl))

theorem get_set_ne (other : n ≠ k) : (d.set k v).get n = d.get n := by
  apply Option.ext
  intro w
  rw [get_eq_some, get_eq_some, mem_set]
  simp [other]

omit [DecidableEq K] in
@[simp] theorem mem_only {p : K → Bool} {row : K × V} : row ∈ d.only p ↔ row ∈ d ∧ p row.1 :=
  Keyed.mem_keep

theorem get_only {p : K → Bool} : (d.only p).get n = if p n then d.get n else none := by
  apply Option.ext
  intro w
  rw [get_eq_some, mem_only]
  split
  · next yes => simp [yes, get_eq_some]
  · next no => simp [no]

@[simp] theorem get_pop_self : (d.pop k).get k = none := by
  unfold pop
  rw [get_only]
  simp

theorem get_pop_ne (other : n ≠ k) : (d.pop k).get n = d.get n := by
  unfold pop
  rw [get_only]
  simp [other]

section Folded
variable (fold : K → K)

/-- A dict built from the pairs of another one under folded keys: a later pair replaces an earlier
    one. -/
def folded (d : Dict K V) : Dict K V := d.rows.foldl (fun t row => t.set (fold row.1) row.2) {}

theorem get_foldl_set (rows : List (K × V)) (t : Dict K V) :
    (rows.foldl (fun t row => t.set (fold row.1) row.2) t).get n =
      ((rows.filter fun row => fold row.1 = n).getLast?.map Prod.snd).or (t.get n) := by
  induction rows generalizing t with
  | nil => rfl
  | cons row rows ih =>
    rw [List.foldl_cons, ih]
    by_cases here : fold row.1 = n
    · rw [List.filter_cons_of_pos (by simpa using here), List.getLast?_cons, ← here, get_set_self]
      cases (rows.filter fun other => fold other.1 = fold row.1).getLast? <;> rfl
    · rw [List.filter_cons_of_neg (by simpa using here), get_set_ne (Ne.symm here)]

variable {fold}

/-- Where the rows of one folded key all have one value, it is the value of that key. -/
theorem get_folded (there : ∃ row ∈ d.rows, fold row.1 = n)
    (same : ∀ row ∈ d.rows, fold row.1 = n → row.2 = v) : (d.folded fold).get n = some v := by
  obtain ⟨row, mem, here⟩ := there
  unfold folded
  rw [get_foldl_set]
  have some_ : (d.rows.filter fun row => fold row.1 = n) ≠ [] := by
    intro none_
    have kept : row ∈ d.rows.filter fun row => fold row.1 = n :=
      List.mem_filter.mpr ⟨mem, by simpa using here⟩
    rw [none_] at kept
    cases kept
  have last := List.getLast_mem some_
  rw [List.mem_filter] at last
  rw [List.getLast?_eq_some_getLast some_, Option.map_some, Option.some_or,
    same _ last.1 (by simpa using last.2)]

theorem get_folded_none (absent : ∀ row ∈ d.rows, fold row.1 ≠ n) : (d.folded fold).get n = none := by
  unfold folded
  rw [get_foldl_set, List.filter_eq_nil_iff.mpr]
  · rfl
  · intro row mem
    simpa using absent row mem

end Folded
end Dict
end DevopsCli
