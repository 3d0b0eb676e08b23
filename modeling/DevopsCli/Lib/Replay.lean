import Mathlib

/- A map that is kept by replaying changes of its entries, one key at a time. The map remembers the
   order of its writes, the latest one first. Nothing here is about one program. -/
namespace DevopsCli.Replay

universe u v
variable {K : Type u} {V : Type v}

abbrev Table (K : Type u) (V : Type v) := AList fun _ : K => V

inductive Change (K : Type u) (V : Type v) where
  | put (key : K) (value : V)
  | del (key : K)

def Change.key : Change K V → K
  | .put key _ => key
  | .del key => key

def Change.value : Change K V → Option V
  | .put _ value => some value
  | .del _ => none

section Write
variable [DecidableEq K] {table other : Table K V} {change : Change K V} {k : K}

def write (table : Table K V) : Change K V → Table K V
  | .put key value => table.insert key value
  | .del key => table.erase key

def replay (table : Table K V) (changes : List (Change K V)) : Table K V := changes.foldl write table

@[simp] theorem replay_nil : replay table [] = table := rfl

@[simp] theorem replay_cons {changes : List (Change K V)} :
    replay table (change :: changes) = replay (write table change) changes := rfl

theorem replay_append {first later : List (Change K V)} :
    replay table (first ++ later) = replay (replay table first) later := List.foldl_append

theorem lookup_write_self : (write table change).lookup change.key = change.value := by
  cases change with
  | put key value => exact AList.lookup_insert table
  | del key => exact AList.lookup_erase key table

theorem lookup_write_ne (apart : k ≠ change.key) :
    (write table change).lookup k = table.lookup k := by
  cases change with
  | put key value => exact AList.lookup_insert_ne apart
  | del key => exact AList.lookup_erase_ne apart

theorem lookup_replay_untouched {changes : List (Change K V)}
    (untouched : k ∉ changes.map Change.key) :
    (replay table changes).lookup k = table.lookup k := by
  induction changes generalizing table with
  | nil => rfl
  | cons change rest ih =>
    rw [List.map_cons, List.mem_cons, not_or] at untouched
    rw [replay_cons, ih untouched.2, lookup_write_ne untouched.1]

/-- Maps that agree on the keys that no change touches agree after the changes. -/
theorem lookup_replay_agree {changes : List (Change K V)}
    (agree : k ∉ changes.map Change.key → table.lookup k = other.lookup k) :
    (replay table changes).lookup k = (replay other changes).lookup k := by
  induction changes generalizing table other with
  | nil => exact agree List.not_mem_nil
  | cons change rest ih =>
    refine ih fun untouched => ?_
    by_cases own : k = change.key
    · rw [own, lookup_write_self, lookup_write_self]
    · rw [lookup_write_ne own, lookup_write_ne own]
      refine agree fun touched => ?_
      rcases List.mem_cons.mp touched with here | later
      · exact own here
      · exact untouched later

/-- What a key holds in the end was there before or is put by a change. -/
theorem lookup_replay_source {changes : List (Change K V)} {value : V}
    (held : (replay table changes).lookup k = some value) :
    table.lookup k = some value ∨ .put k value ∈ changes := by
  induction changes generalizing table with
  | nil => exact .inl held
  | cons change rest ih =>
    rcases ih held with before | later
    · by_cases own : k = change.key
      · rw [own, lookup_write_self] at before
        cases change with
        | put key written =>
          obtain rfl := Option.some.inj before
          exact .inr (own ▸ List.mem_cons_self)
        | del key => cases before
      · rw [lookup_write_ne own] at before
        exact .inl before
    · exact .inr (List.mem_cons_of_mem _ later)

def puts (key : V → K) (values : List V) : List (Change K V) :=
  values.map fun value => .put (key value) value

theorem lookup_replay_puts {key : V → K} {values : List V} (listed : k ∈ values.map key) :
    ((replay table (puts key values)).lookup k).isSome := by
  induction values generalizing table with
  | nil => exact absurd listed List.not_mem_nil
  | cons value rest ih =>
    by_cases later : k ∈ rest.map key
    · exact ih later
    · rcases List.mem_cons.mp listed with rfl | other
      · have untouched : key value ∉ (puts key rest).map Change.key := by
          simpa [puts, Function.comp_def, Change.key] using later
        have own : (write table (.put (key value) value)).lookup (key value) = some value :=
          AList.lookup_insert table
        rw [puts, List.map_cons, replay_cons]
        rw [show rest.map _ = puts key rest from rfl, lookup_replay_untouched untouched, own]
        rfl
      · exact absurd other later

theorem lookup_replay_listing {key : V → K} (keyed : ∀ k value, table.lookup k = some value →
    key value = k) {order : List V} (lists : order.Perm (table.entries.map Sigma.snd)) :
    (replay ∅ (puts key order)).lookup k = table.lookup k := by
  have source {value : V} (held : (replay ∅ (puts key order)).lookup k = some value) :
      table.lookup k = some value := by
    rcases lookup_replay_source held with before | listed
    · cases before
    · obtain ⟨other, mem, same⟩ := List.mem_map.mp listed
      cases same
      obtain ⟨entry, inside, rfl⟩ := List.mem_map.mp (lists.mem_iff.mp mem)
      have own : table.lookup entry.1 = some entry.2 := AList.mem_lookup_iff.mpr inside
      rw [keyed _ _ own]
      exact own
  cases held : table.lookup k with
  | none =>
    refine Option.eq_none_iff_forall_ne_some.mpr fun value other => ?_
    rw [source other] at held
    cases held
  | some value =>
    have mem : value ∈ order :=
      lists.mem_iff.mpr (List.mem_map.mpr ⟨⟨k, value⟩, AList.mem_lookup_iff.mp held, rfl⟩)
    have listed : k ∈ order.map key := List.mem_map.mpr ⟨value, mem, keyed k value held⟩
    have some_ : ((replay ∅ (puts key order)).lookup k).isSome := lookup_replay_puts listed
    obtain ⟨other, found⟩ := Option.isSome_iff_exists.mp some_
    rw [found, ← source found, held]

theorem size_congr (same : ∀ k, table.lookup k = other.lookup k) :
    table.entries.length = other.entries.length := by
  refine (List.lookup_ext table.nodupKeys other.nodupKeys fun k value => ?_).length_eq
  have entry := same k
  rw [AList.lookup, AList.lookup] at entry
  rw [entry]

theorem size_write_le : (write table change).entries.length ≤ table.entries.length + 1 := by
  cases change with
  | put key value =>
    have kept : (List.kerase key table.entries).length ≤ table.entries.length :=
      (List.kerase_sublist key table.entries).length_le
    simpa [write, AList.insert, List.kinsert] using kept
  | del key =>
    have kept : (table.erase key).entries.length ≤ table.entries.length :=
      (List.kerase_sublist key table.entries).length_le
    exact Nat.le_succ_of_le kept

theorem size_replay_le {changes : List (Change K V)} :
    (replay table changes).entries.length ≤ table.entries.length + changes.length := by
  induction changes generalizing table with
  | nil => exact Nat.le_refl _
  | cons change rest ih =>
    have first : (write table change).entries.length ≤ table.entries.length + 1 := size_write_le
    have later : (replay (write table change) rest).entries.length ≤
      (write table change).entries.length + rest.length := ih
    rw [replay_cons, List.length_cons]
    omega

end Write

section Evict

def evict (cap : Nat) (table : Table K V) : Table K V :=
  ⟨table.entries.take cap, List.NodupKeys.sublist (List.take_sublist cap table.entries)
    table.nodupKeys⟩

theorem evict_of_le {cap : Nat} {table : Table K V} (fits : table.entries.length ≤ cap) :
    evict cap table = table := AList.ext (List.take_of_length_le fits)

end Evict
end DevopsCli.Replay
