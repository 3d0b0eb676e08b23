import DevopsCli.Config.RoundTrip

/- What the changes of two settings make of a document: the leaves that the settings have after,
   where no mapping of the settings before loses all that it holds. -/
namespace DevopsCli.Config.RoundTrip
open PyStr PathTree

variable {V : Type}

section Keys

theorem keys_put (m : Mapping V) (key : Key) (node : Node V) :
    (put m key node).map Prod.fst =
      if (m.lookup key).isSome then m.map Prod.fst else m.map Prod.fst ++ [key] := by
  unfold put
  split
  · rw [List.map_map]
    refine List.map_congr_left fun entry _ => ?_
    rw [Function.comp_apply]
    split
    · rename_i same
      exact same.symm
    · rfl
  · rw [List.map_append, List.map_singleton]

theorem distinct_put {m : Mapping V} (distinct : Distinct m) (key : Key) {node : Node V}
    (own : node.Distinct) : Distinct (put m key node) := by
  obtain ⟨keys, nodes⟩ := distinct_iff.mp distinct
  refine distinct_iff.mpr ⟨?_, fun entry mem => ?_⟩
  · rw [keys_put]
    split
    · exact keys
    · rename_i absent
      refine List.nodup_append.mpr ⟨keys, List.nodup_singleton key, ?_⟩
      intro k held l new same
      obtain ⟨entry, mem, rfl⟩ := List.mem_map.mp held
      have none_ := List.lookup_eq_none_iff.mp (Option.not_isSome_iff_eq_none.mp absent) entry mem
      rw [List.mem_singleton.mp new] at same
      simp [same] at none_
  · unfold put at mem
    split at mem
    · obtain ⟨old, held, rfl⟩ := List.mem_map.mp mem
      split
      · exact own
      · exact nodes old held
    · rcases List.mem_append.mp mem with held | new
      · exact nodes entry held
      · rw [List.mem_singleton.mp new]
        exact own

theorem distinct_del {m : Mapping V} (distinct : Distinct m) (key : Key) : Distinct (del m key) := by
  obtain ⟨keys, nodes⟩ := distinct_iff.mp distinct
  exact distinct_iff.mpr ⟨(List.filter_sublist.map Prod.fst).nodup keys,
    fun entry mem => nodes entry (List.mem_filter.mp mem).1⟩

theorem distinct_inner {m inner : Mapping V} (distinct : Distinct m) {key : Key}
    (held : m.lookup key = some (.mapping inner)) : Distinct inner :=
  (distinct_iff.mp distinct).2 _ (lookup_mem held)

theorem distinct_leaf (leaf : Leaf V) : leaf.node.Distinct := by
  cases leaf <;> simp [Leaf.node, Node.Distinct, EntriesDistinct]

theorem distinct_build (path : KeyPath) (leaf : Leaf V) : (build path leaf.node).Distinct := by
  induction path with
  | nil => exact distinct_leaf leaf
  | cons part path ih => simpa [build, Node.Distinct, EntriesDistinct] using ih

theorem distinct_set {m : Mapping V} (distinct : Distinct m) (path : KeyPath) (leaf : Leaf V) :
    Distinct (set m path leaf.node) := by
  induction path generalizing m with
  | nil => exact distinct
  | cons key rest ih =>
    cases rest with
    | nil => exact distinct_put distinct key (distinct_leaf leaf)
    | cons next rest =>
      rw [set]
      split
      · rename_i inner held
        exact distinct_put distinct key (ih (distinct_inner distinct held))
      · exact distinct_put distinct key (distinct_build _ leaf)

theorem distinct_remove {m : Mapping V} (distinct : Distinct m) (path : KeyPath) :
    Distinct (remove m path) := by
  induction path generalizing m with
  | nil => exact distinct
  | cons key rest ih =>
    cases rest with
    | nil => exact distinct_del distinct key
    | cons next rest =>
      rw [remove]
      split
      · rename_i inner held
        exact distinct_put distinct key (ih (distinct_inner distinct held))
      · exact distinct

theorem distinct_edit {document : Mapping V} (distinct : Distinct document)
    (changed : List (Change V)) : Distinct (edit document changed) := by
  induction changed generalizing document with
  | nil => exact distinct
  | cons change changed ih =>
    refine ih ?_
    unfold applyChange
    split
    · exact distinct_remove distinct change.1
    · exact distinct_set distinct change.1 _

end Keys

section Runs

theorem kind_removals (document : Mapping V) (paths : List KeyPath) (some_ : ∀ p ∈ paths, p ≠ []) :
    kind (edit document (paths.map (·, none))) = erases (kind document) paths := by
  induction paths generalizing document with
  | nil => rfl
  | cons p paths ih =>
    obtain ⟨first, later⟩ := List.forall_mem_cons.mp some_
    rw [List.map_cons, edit, List.foldl_cons, ← edit, ih _ later, erases_cons]
    exact congrArg (erases · paths) (kind_remove document p first)

theorem kind_sets (document : Mapping V) (found : List (KeyPath × Leaf V))
    (some_ : ∀ entry ∈ found, entry.1 ≠ []) :
    kind (edit document (found.map fun entry => (entry.1, some entry.2))) =
      writes (kind document) found := by
  induction found generalizing document with
  | nil => rfl
  | cons entry found ih =>
    obtain ⟨first, later⟩ := List.forall_mem_cons.mp some_
    rw [List.map_cons, edit, List.foldl_cons, ← edit, ih _ later, writes_cons]
    exact congrArg (writes · found) (kind_set document entry.1 first entry.2)

end Runs

section Apartness

mutual
theorem nodeLeaves_apart : (node : Node V) → node.Distinct → ∀ path,
    (nodeLeaves path node).Pairwise fun a b => Apart a.1 b.1
  | .value v, _, path => by simp [nodeLeaves]
  | .mapping [], _, path => by simp [nodeLeaves]
  | .mapping (entry :: entries), distinct, path => by
    rw [nodeLeaves]
    exact leavesUnder_apart (entry :: entries) distinct path

theorem leavesUnder_apart : (m : Mapping V) → Distinct m → ∀ path,
    (leavesUnder path m).Pairwise fun a b => Apart a.1 b.1
  | [], _, path => by simp [leavesUnder]
  | (key, node) :: rest, distinct, path => by
    obtain ⟨keys, nodes⟩ := distinct_iff.mp distinct
    rw [List.map_cons, List.nodup_cons] at keys
    obtain ⟨own, nodes⟩ := List.forall_mem_cons.mp nodes
    have rest_distinct := distinct_iff.mpr ⟨keys.2, nodes⟩
    rw [leavesUnder, List.pairwise_append]
    refine ⟨nodeLeaves_apart node own _, leavesUnder_apart rest rest_distinct path, ?_⟩
    rintro ⟨p, leaf⟩ first ⟨r, other⟩ later
    obtain ⟨q, rfl, -⟩ := (mem_nodeLeaves node own _ p leaf).mp first
    obtain ⟨q', rfl, is_leaf⟩ := (mem_leavesUnder rest rest_distinct _ r other).mp later
    cases q' with
    | nil => exact absurd rfl is_leaf.below
    | cons k q' =>
      obtain ⟨held_node, held, -⟩ := isLeaf_cons.mp is_leaf
      rw [List.append_assoc, List.singleton_append, apart_append, apart_cons]
      refine .inl ?_
      rintro rfl
      exact keys.1 (List.mem_map.mpr ⟨(key, held_node), lookup_mem held, rfl⟩)
end

theorem mem_parents {found : List (KeyPath × Leaf V)} {p : KeyPath} :
    p ∈ parents found ↔ ∃ entry ∈ found, p ≠ [] ∧ p <+: entry.1 ∧ p ≠ entry.1 := by
  simp only [parents, List.mem_flatMap, List.mem_map, List.mem_range'_1]
  refine exists_congr fun entry => and_congr_right fun _ => ?_
  constructor
  · rintro ⟨n, ⟨first, last⟩, rfl⟩
    have long : (entry.1.take n).length = n := List.length_take_of_le (by omega)
    refine ⟨?_, List.take_prefix n entry.1, ?_⟩
    · intro empty
      rw [empty] at long
      simp at long
      omega
    · intro same
      rw [same] at long
      omega
  · rintro ⟨some_, up, other⟩
    have short : p.length < entry.1.length := by
      refine Nat.lt_of_le_of_ne up.length_le fun same => other (up.eq_of_length same)
    have positive := List.length_pos_iff.mpr some_
    exact ⟨p.length, ⟨positive, by omega⟩, (List.prefix_iff_eq_take.mp up).symm⟩

theorem mem_paths {m : Mapping V} (distinct : Distinct m) {p : KeyPath} :
    p ∈ (leaves m).map Prod.fst ↔ ∃ leaf, IsLeaf (kind m) p leaf := by
  rw [List.mem_map]
  constructor
  · rintro ⟨⟨q, leaf⟩, held, rfl⟩
    exact ⟨leaf, (mem_leaves distinct).mp held⟩
  · rintro ⟨leaf, is_leaf⟩
    exact ⟨(p, leaf), (mem_leaves distinct).mpr is_leaf, rfl⟩

end Apartness

section Diff
variable [BEq V]

def SameLeaf (leaf other : Leaf V) : Prop := sameLeaf leaf other = true

theorem comparison [PartialEquivBEq V] : Comparison (SameLeaf (V := V)) where
  bare {leaf other} same := by
    cases leaf <;> cases other <;> simp_all [SameLeaf, sameLeaf]
  symm {leaf other} same := by
    cases leaf <;> cases other <;> simp_all [SameLeaf, sameLeaf]
    exact PartialEquivBEq.symm same
  trans {a b c} first later := by
    cases a <;> cases b <;> cases c <;> simp_all [SameLeaf, sameLeaf]
    exact PartialEquivBEq.trans first later
  mapping := rfl

theorem changes_diff {before after : Mapping V} (distinct : Distinct before)
    (distinct' : Distinct after) :
    DiffOf SameLeaf (kind before) (kind after) (removedPaths before after)
      (changedLeaves before after) where
  apart := (leavesUnder_apart after distinct' []).filter _
  removed p := by
    simp only [removedPaths, List.mem_filter, Bool.and_eq_true, Bool.not_eq_true',
      Bool.eq_false_iff, ne_eq, List.contains_iff_mem, mem_paths distinct, mem_paths distinct',
      mem_parents]
    refine and_congr_right fun old => and_congr_right fun _ => not_congr ?_
    obtain ⟨leaf, is_leaf⟩ := old
    constructor
    · rintro ⟨⟨r, other⟩, held, -, up⟩
      exact ⟨r, other, (mem_leaves distinct').mp held, up⟩
    · rintro ⟨r, other, new, up⟩
      exact ⟨(r, other), (mem_leaves distinct').mpr new, is_leaf.below, up⟩
  changed p leaf := by
    rw [changedLeaves, List.mem_filter, mem_leaves distinct', Bool.not_eq_true', Bool.eq_false_iff,
      ne_eq, Option.any_eq_true]
    simp only [lookup_leaves distinct, SameLeaf]

theorem kind_edit {before after : Mapping V} (distinct : Distinct before)
    (distinct' : Distinct after) (document : Mapping V) :
    kind (edit document (changes before after)) =
      writes (erases (kind document) (removedPaths before after)) (changedLeaves before after) := by
  have diff := changes_diff distinct distinct'
  rw [changes, edit, List.foldl_append, ← edit, ← edit, kind_sets, kind_removals]
  · intro p held
    obtain ⟨⟨leaf, is_leaf⟩, -⟩ := (diff.removed p).mp held
    exact is_leaf.below
  · intro entry held
    exact ((diff.changed entry.1 entry.2).mp held).1.below

theorem equalLeaves_iff {m n : Mapping V} (distinct : Distinct m) (distinct' : Distinct n) :
    equalLeaves (leaves m) (leaves n) = true ↔ Reads SameLeaf (kind m) (kind n) := by
  simp only [equalLeaves, Bool.and_eq_true, List.all_eq_true, Option.any_eq_true,
    Option.isSome_iff_exists, lookup_leaves distinct, lookup_leaves distinct', Prod.forall,
    mem_leaves distinct, mem_leaves distinct', Reads, SameLeaf]

theorem changes_eq_nil [PartialEquivBEq V] {m n : Mapping V} (distinct : Distinct m)
    (distinct' : Distinct n) :
    changes m n = [] ↔ equalLeaves (leaves m) (leaves n) = true := by
  have diff := changes_diff distinct distinct'
  have empty : changes m n = [] ↔ removedPaths m n = [] ∧ changedLeaves m n = [] := by
    simp [changes]
  rw [empty, equalLeaves_iff distinct distinct']
  constructor
  · rintro ⟨removed, changed⟩
    have kept : ∀ p leaf, IsLeaf (kind n) p leaf →
        ∃ was, IsLeaf (kind m) p was ∧ SameLeaf was leaf := by
      intro p leaf new
      by_contra differs
      have held := (diff.changed p leaf).mpr ⟨new, differs⟩
      simp [changed] at held
    refine ⟨fun p leaf old => ?_, fun p leaf new => (kept p leaf new).imp fun _ held => held.1⟩
    have here : ∃ other, IsLeaf (kind n) p other := by
      by_contra gone
      refine List.not_mem_nil (a := p) (removed ▸ (diff.removed p).mpr ⟨⟨leaf, old⟩, gone, ?_⟩)
      rintro ⟨r, other, new, up, ne⟩
      obtain ⟨was, held, -⟩ := kept r other new
      exact (old.apart held (closed_kind m) ne).1 up
    obtain ⟨other, new⟩ := here
    obtain ⟨was, held, same⟩ := kept p other new
    exact ⟨other, new, held.unique old ▸ same⟩
  · rintro ⟨forward, back⟩
    constructor
    · refine List.eq_nil_iff_forall_not_mem.mpr fun p held => ?_
      obtain ⟨⟨leaf, old⟩, gone, -⟩ := (diff.removed p).mp held
      exact gone ((forward p leaf old).imp fun _ new => new.1)
    · refine List.eq_nil_iff_forall_not_mem.mpr fun entry held => ?_
      obtain ⟨new, differs⟩ := (diff.changed entry.1 entry.2).mp held
      obtain ⟨was, old⟩ := back entry.1 entry.2 new
      obtain ⟨other, again, same⟩ := forward entry.1 was old
      exact differs ⟨was, old, again.unique new ▸ same⟩

end Diff

section Frame

def entriesAt (m : Mapping V) : KeyPath → Mapping V
  | [] => m
  | key :: rest =>
    match m.lookup key with
    | some (.mapping inner) => entriesAt inner rest
    | _ => []

def nodeEntries : Node V → KeyPath → Mapping V
  | .value _, _ => []
  | .mapping inner, path => entriesAt inner path

theorem entriesAt_cons (m : Mapping V) (key : Key) (rest : KeyPath) :
    entriesAt m (key :: rest) = ((m.lookup key).map (nodeEntries · rest)).getD [] := by
  rw [entriesAt]
  cases m.lookup key with
  | none => rfl
  | some node => cases node <;> rfl

def outside (path at_ : KeyPath) (m : Mapping V) : Mapping V :=
  m.filter fun entry => decide (Apart path (at_ ++ [entry.1]))

theorem outside_nil (key : Key) (rest : KeyPath) (m : Mapping V) :
    outside (key :: rest) [] m = m.filter fun entry => entry.1 != key := by
  refine List.filter_congr fun entry _ => ?_
  by_cases same : key = entry.1
  · simp [same]
  · simp [same, Ne.symm same]

theorem outside_below (key : Key) (at_ : KeyPath) (m : Mapping V) :
    outside [key] (key :: at_) m = [] := by
  simp [outside]

theorem outside_cons (key : Key) (rest at_ : KeyPath) (m : Mapping V) :
    outside (key :: rest) (key :: at_) m = outside rest at_ m := by
  simp [outside]

theorem filter_put (m : Mapping V) (key : Key) (node : Node V) :
    (put m key node).filter (fun entry => entry.1 != key) =
      m.filter fun entry => entry.1 != key := by
  unfold put
  split
  · induction m with
    | nil => rfl
    | cons entry rest ih =>
      rename_i held
      rw [List.map_cons]
      by_cases here : entry.1 = key
      · by_cases more : (rest.lookup key).isSome = true
        · simpa [here] using ih more
        · have absent : ∀ other ∈ rest, other.1 ≠ key := by
            intro other mem equal
            simp only [Option.isSome_iff_ne_none, ne_eq, not_not, List.lookup_eq_none_iff] at more
            simpa [equal] using more other mem
          rw [List.map_congr_left fun other mem => if_neg (absent other mem), List.map_id']
          simp [here]
      · rw [List.lookup_cons, show (key == entry.1) = false by simpa using Ne.symm here] at held
        simp only [if_neg here, List.filter_cons, ih held]
  · simp

theorem put_outside (m : Mapping V) (key : Key) (rest : KeyPath) (node : Node V) (at_ : KeyPath)
    (inside : ∀ below, outside rest below (nodeEntries node below) =
      outside rest below (((m.lookup key).map (nodeEntries · below)).getD [])) :
    outside (key :: rest) at_ (entriesAt (put m key node) at_) =
      outside (key :: rest) at_ (entriesAt m at_) := by
  cases at_ with
  | nil => rw [outside_nil, outside_nil, entriesAt, entriesAt, filter_put]
  | cons k at_ =>
    rw [entriesAt_cons, entriesAt_cons, lookup_put]
    by_cases same : k = key
    · subst same
      rw [outside_cons, outside_cons, if_pos rfl]
      exact inside at_
    · rw [if_neg same]

theorem build_outside (path at_ : KeyPath) (some_ : path ≠ []) (node : Node V) :
    outside path at_ (nodeEntries (build path node) at_) = [] := by
  induction path generalizing at_ with
  | nil => exact absurd rfl some_
  | cons part path ih =>
    rw [build, List.foldr_cons, ← build, nodeEntries]
    cases at_ with
    | nil => simp [outside_nil, entriesAt]
    | cons k at_ =>
      rw [entriesAt_cons, List.lookup_cons]
      cases same : k == part with
      | false => rfl
      | true =>
        obtain rfl := eq_of_beq same
        rw [outside_cons]
        by_cases last : path = []
        · simp [last, outside]
        · exact ih at_ last

theorem set_outside (m : Mapping V) (path : KeyPath) (node : Node V) (at_ : KeyPath) :
    outside path at_ (entriesAt (set m path node) at_) = outside path at_ (entriesAt m at_) := by
  induction path generalizing m at_ with
  | nil => rfl
  | cons key rest ih =>
    cases rest with
    | nil =>
      rw [set]
      exact put_outside m key [] node at_ fun below => by simp [outside]
    | cons next rest =>
      rw [set]
      split
      · rename_i inner held
        refine put_outside m key (next :: rest) _ at_ fun below => ?_
        rw [held]
        exact ih inner below
      · rename_i no_mapping
        refine put_outside m key (next :: rest) _ at_ fun below => ?_
        rw [build_outside _ _ (by simp)]
        cases held : m.lookup key with
        | none => rfl
        | some old =>
          cases old with
          | value v => rfl
          | mapping inner => exact absurd held (no_mapping inner)

theorem remove_outside (m : Mapping V) (path at_ : KeyPath) :
    outside path at_ (entriesAt (remove m path) at_) = outside path at_ (entriesAt m at_) := by
  induction path generalizing m at_ with
  | nil => rfl
  | cons key rest ih =>
    cases rest with
    | nil =>
      cases at_ with
      | nil => simp [outside_nil, remove, entriesAt, del]
      | cons k at_ =>
        by_cases same : k = key
        · rw [same, outside_below, outside_below]
        · rw [remove, entriesAt_cons, entriesAt_cons, lookup_del, if_neg same]
    | cons next rest =>
      rw [remove]
      split
      · rename_i inner held
        refine put_outside m key (next :: rest) _ at_ fun below => ?_
        rw [held]
        exact ih inner below
      · rfl

def untouched (changed : List (Change V)) (at_ : KeyPath) (m : Mapping V) : Mapping V :=
  m.filter fun entry => decide (∀ change ∈ changed, Apart change.1 (at_ ++ [entry.1]))

theorem edit_untouched (document : Mapping V) (changed : List (Change V)) (at_ : KeyPath) :
    untouched changed at_ (entriesAt (edit document changed) at_) =
      untouched changed at_ (entriesAt document at_) := by
  induction changed generalizing document with
  | nil => rfl
  | cons change changed ih =>
    have split_ (m : Mapping V) : untouched (change :: changed) at_ m =
        untouched changed at_ (outside change.1 at_ m) := by
      rw [untouched, outside, untouched, List.filter_filter]
      refine List.filter_congr fun entry _ => ?_
      rw [← Bool.decide_and]
      exact decide_eq_decide.mpr (List.forall_mem_cons.trans and_comm)
    have commute (m : Mapping V) : untouched changed at_ (outside change.1 at_ m) =
        outside change.1 at_ (untouched changed at_ m) := by
      rw [untouched, outside, outside, untouched, List.filter_filter, List.filter_filter]
      exact List.filter_congr fun entry _ => Bool.and_comm _ _
    have step : outside change.1 at_ (entriesAt (applyChange document change) at_) =
        outside change.1 at_ (entriesAt document at_) := by
      unfold applyChange
      split
      · exact remove_outside document change.1 at_
      · exact set_outside document change.1 _ at_
    rw [edit, List.foldl_cons, ← edit, split_, commute, ih, ← commute, step, ← split_]

end Frame

section Target
variable {before after document : Mapping V}

/-- Each mapping that holds something before is there after, or a mapping or a value is above it. -/
def Kept (before after : Mapping V) : Prop :=
  ∀ old ∈ leaves before, old.1.dropLast ≠ [] →
    ∃ new ∈ leaves after, new.1 <+: old.1.dropLast ∨ old.1.dropLast <+: new.1

instance (before after : Mapping V) : Decidable (Kept before after) :=
  inferInstanceAs (Decidable (∀ old ∈ leaves before, _ → ∃ new ∈ leaves after, _))

theorem met_iff (distinct : Distinct before) (distinct' : Distinct after) :
    Met (kind before) (kind after) ↔ Kept before after := by
  constructor
  · rintro met ⟨p, leaf⟩ old root
    have is_leaf := (mem_leaves distinct).mp old
    have whole : p.dropLast ++ [p.getLast is_leaf.below] = p := List.dropLast_concat_getLast _
    have child : kind before (p.dropLast ++ [p.getLast is_leaf.below]) ≠ none := by
      simp [whole, is_leaf.here]
    obtain ⟨r, other, new, near⟩ := met p.dropLast _ root child
    exact ⟨(r, other), (mem_leaves distinct').mpr new, near⟩
  · intro kept q k root child
    obtain ⟨p, leaf, down, is_leaf⟩ := grounded_kind before (q ++ [k]) (by simp) child
    have under : q <+: p.dropLast := by
      obtain ⟨rest, rfl⟩ := down
      cases rest using List.reverseRecOn with
      | nil => simp
      | append_singleton rest l =>
        rw [← List.append_assoc, List.dropLast_concat, List.append_assoc]
        exact List.prefix_append q _
    have some_ : p.dropLast ≠ [] := by
      intro none_
      rw [none_] at under
      exact root (List.prefix_nil.mp under)
    obtain ⟨⟨r, other⟩, new, near⟩ := kept (p, leaf) ((mem_leaves distinct).mpr is_leaf) some_
    refine ⟨r, other, (mem_leaves distinct').mp new, ?_⟩
    rcases near with up | down
    · exact List.prefix_or_prefix_of_prefix up under
    · exact .inr (under.trans down)

variable [BEq V] [PartialEquivBEq V]

theorem edit_reads_iff (distinct : Distinct before) (distinct' : Distinct after)
    (document_ : Distinct document) (self : ∀ entry ∈ leaves after, SameLeaf entry.2 entry.2)
    (holds : equalLeaves (leaves document) (leaves before) = true) :
    Reads SameLeaf (kind (edit document (changes before after))) (kind after) ↔
      Kept before after := by
  have diff := changes_diff distinct distinct'
  have agree : Agree SameLeaf (kind document) (kind before) :=
    ((equalLeaves_iff document_ distinct).mp holds).agree comparison (closed_kind _)
      (closed_kind _) (grounded_kind _) (grounded_kind _) (kind_nil _) (kind_nil _)
  rw [← met_iff distinct distinct']
  constructor
  · intro reads
    by_contra unmet
    have ground := grounded_kind (edit document (changes before after))
    rw [kind_edit distinct distinct'] at reads ground
    exact diff.not_reads agree (closed_kind before) ground unmet reads
  · intro met
    rw [kind_edit distinct distinct']
    refine (diff.agree comparison agree (closed_kind before) (closed_kind after)
      (grounded_kind after) (kind_nil _) (kind_nil _) ?_ met).reads comparison
    exact fun p leaf new => self (p, leaf) ((mem_leaves distinct').mpr new)

end Target

section Scalars

/-- A number or a text of a settings file. As for ==, NaN equals nothing. -/
inductive Scalar where
  | int (i : Int)
  | str (text : Str)
  | nan

def Scalar.same : Scalar → Scalar → Bool
  | .int i, .int j => decide (i = j)
  | .str a, .str b => decide (a = b)
  | _, _ => false

instance : BEq Scalar := ⟨Scalar.same⟩

instance : PartialEquivBEq Scalar where
  symm {a b} (same : Scalar.same a b = true) := by
    change Scalar.same b a = true
    cases a <;> cases b <;> simp_all [Scalar.same]
  trans {a b c} (first : Scalar.same a b = true) (later : Scalar.same b c = true) := by
    change Scalar.same a c = true
    cases a <;> cases b <;> cases c <;> simp_all [Scalar.same]

def oldSettings : Mapping Scalar :=
  [(['a'], .value (.int 1)), (['b'], .mapping [(['c'], .value (.int 2)), (['d'], .value (.int 3))])]

def newSettings : Mapping Scalar :=
  [(['b'], .mapping [(['d'], .value (.int 3))]), (['a'], .mapping [(['e'], .value (.str ['x']))])]

end Scalars
end DevopsCli.Config.RoundTrip
