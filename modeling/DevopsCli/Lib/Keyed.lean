import Mathlib

/- A table of rows with at most one row for each key. Nothing here is about one program. -/
namespace DevopsCli

structure Keyed {α κ : Type} (key : α → κ) where
  rows : List α := []
  distinct : (rows.map key).Nodup := by simp

namespace Keyed
variable {α κ : Type} {key : α → κ} {table : Keyed key} {row x : α} {news : List α}

instance : Membership α (Keyed key) := ⟨fun table row => row ∈ table.rows⟩

instance [DecidableEq α] (row : α) (table : Keyed key) : Decidable (row ∈ table) :=
  inferInstanceAs (Decidable (row ∈ table.rows))

def keep (table : Keyed key) (p : α → Bool) : Keyed key where
  rows := table.rows.filter p
  distinct := (List.filter_sublist.map key).nodup table.distinct

@[simp] theorem mem_keep {p : α → Bool} : x ∈ table.keep p ↔ x ∈ table ∧ p x := List.mem_filter

variable [DecidableEq κ]

/-- The row takes the place of the one with its key. -/
def upsert (table : Keyed key) (row : α) : Keyed key where
  rows := (table.keep fun old => key old ≠ key row).rows ++ [row]
  distinct := by
    rw [List.map_append]
    refine List.nodup_append.mpr ⟨(table.keep _).distinct, List.nodup_singleton _, ?_⟩
    intro a old b new same
    obtain ⟨other, mem, rfl⟩ := List.mem_map.mp old
    rw [List.map_singleton, List.mem_singleton] at new
    exact of_decide_eq_true (mem_keep.mp mem).2 (same.trans new)

def lookup (table : Keyed key) (k : κ) : Option α := table.rows.find? fun row => key row = k

theorem lookup_eq_some {k : κ} : table.lookup k = some x ↔ x ∈ table ∧ key x = k := by
  constructor
  · intro found
    exact ⟨List.mem_of_find?_eq_some found, by simpa using List.find?_some found⟩
  · rintro ⟨mem, rfl⟩
    obtain ⟨y, found⟩ : ∃ y, table.lookup (key x) = some y :=
      Option.isSome_iff_exists.mp (List.find?_isSome.mpr ⟨x, mem, by simp⟩)
    have same : key y = key x := by simpa using List.find?_some found
    rw [found, List.inj_on_of_nodup_map table.distinct (List.mem_of_find?_eq_some found) mem same]

def put (table : Keyed key) (row : α) : Keyed key where
  rows :=
    if key row ∈ table.rows.map key then
      table.rows.map fun old => if key old = key row then row else old
    else table.rows ++ [row]
  distinct := by
    split
    · have same : (table.rows.map fun old => if key old = key row then row else old).map key
          = table.rows.map key := by
        rw [List.map_map]
        refine List.map_congr_left fun old _ => ?_
        rw [Function.comp_apply]
        split
        · next equal => exact equal.symm
        · rfl
      rw [same]
      exact table.distinct
    · next absent =>
      rw [List.map_append, List.map_singleton]
      refine List.nodup_append.mpr ⟨table.distinct, List.nodup_singleton _, ?_⟩
      rintro k old _ new rfl
      rw [List.mem_singleton] at new
      exact absent (new ▸ old)

theorem mem_put (mem : x ∈ table.put row) : x = row ∨ (x ∈ table ∧ key x ≠ key row) := by
  change x ∈ (if key row ∈ table.rows.map key then _ else _ : List α) at mem
  split at mem
  · obtain ⟨old, here, same⟩ := List.mem_map.mp mem
    split at same
    · exact .inl same.symm
    · next other => exact .inr (same ▸ ⟨here, other⟩)
  · next absent =>
    rcases List.mem_append.mp mem with old | new
    · exact .inr ⟨old, fun same => absent (same ▸ List.mem_map_of_mem old)⟩
    · exact .inl (List.mem_singleton.mp new)

theorem rows_put {before after : List α} (rows : table.rows = before ++ x :: after)
    (same : key row = key x) : (table.put row).rows = before ++ row :: after := by
  have distinct := table.distinct
  rw [rows, List.map_append, List.map_cons, List.nodup_append, List.nodup_cons] at distinct
  obtain ⟨_, ⟨absent, _⟩, apart⟩ := distinct
  have kept (others : List α) (other : ∀ old ∈ others, key old ≠ key row) :
      others.map (fun old => if key old = key row then row else old) = others := by
    have each : ∀ old ∈ others, (if key old = key row then row else old) = id old :=
      fun old mem => if_neg (other old mem)
    rw [List.map_congr_left each, List.map_id]
  have there : key row ∈ table.rows.map key := by
    rw [rows, same]
    simp
  show (if key row ∈ table.rows.map key then
      table.rows.map fun old => if key old = key row then row else old
    else table.rows ++ [row]) = _
  rw [if_pos there, rows, List.map_append, List.map_cons, if_pos same.symm, kept before, kept after]
  · intro old mem equal
    have member := List.mem_map_of_mem (f := key) mem
    rw [equal, same] at member
    exact absent member
  · intro old mem equal
    exact apart (key old) (List.mem_map_of_mem mem) (key x) List.mem_cons_self (equal.trans same)

theorem rows_keep_rest {rest : List α} (rows : table.rows = x :: rest) :
    (table.keep fun other => key other ≠ key x).rows = rest := by
  have distinct := table.distinct
  rw [rows, List.map_cons, List.nodup_cons] at distinct
  show table.rows.filter _ = rest
  rw [rows, List.filter_cons_of_neg (by simp), List.filter_eq_self]
  intro other mem
  rw [decide_eq_true_eq]
  exact fun same => distinct.1 (same ▸ List.mem_map_of_mem mem)

def upsertAll (table : Keyed key) (rows : List α) : Keyed key := rows.foldl upsert table

@[simp] theorem mem_upsert : x ∈ table.upsert row ↔ x = row ∨ (x ∈ table ∧ key x ≠ key row) := by
  show x ∈ (table.keep _).rows ++ [row] ↔ _
  have kept : x ∈ (table.keep fun old => key old ≠ key row).rows ↔ x ∈ table ∧ key x ≠ key row :=
    mem_keep.trans (and_congr_right fun _ => decide_eq_true_iff)
  rw [List.mem_append, List.mem_singleton, kept]
  exact or_comm

/-- Rows of distinct keys are all in the table afterwards, and so are the old rows of other keys. -/
theorem mem_upsertAll (distinct : (news.map key).Nodup) :
    x ∈ table.upsertAll news ↔ x ∈ news ∨ (x ∈ table ∧ key x ∉ news.map key) := by
  induction news generalizing table with
  | nil => simp [upsertAll]
  | cons row news ih =>
    rw [List.map_cons, List.nodup_cons] at distinct
    show x ∈ (table.upsert row).upsertAll news ↔ _
    rw [ih distinct.2, mem_upsert, List.mem_cons, List.map_cons, List.mem_cons]
    constructor
    · rintro (new | ⟨rfl | ⟨old, other⟩, absent⟩)
      · exact .inl (.inr new)
      · exact .inl (.inl rfl)
      · exact .inr ⟨old, not_or.mpr ⟨other, absent⟩⟩
    · rintro ((rfl | new) | ⟨old, others⟩)
      · exact .inr ⟨.inl rfl, distinct.1⟩
      · exact .inl new
      · obtain ⟨other, absent⟩ := not_or.mp others
        exact .inr ⟨.inr ⟨old, other⟩, absent⟩

end Keyed
end DevopsCli
