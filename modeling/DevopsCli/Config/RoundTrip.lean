import DevopsCli.Lib.PyStr
import DevopsCli.Lib.PathTree

/- The differences of two nested mappings and the edits of a document, config/round_trip.py. The
   comments and the styles of YAML that an edit moves have no part in what a key holds. The document
   is a tree: no alias and no merge key gives a mapping of it a second place. -/
namespace DevopsCli.Config.RoundTrip
open PyStr PathTree

abbrev Key := Str
abbrev KeyPath := List Key

inductive Node (V : Type) where
  | value (v : V)
  | mapping (entries : List (Key × Node V))

abbrev Mapping (V : Type) := List (Key × Node V)

/-- A value that is no mapping with keys: none is the empty mapping. -/
abbrev Leaf (V : Type) := Option V

variable {V : Type}

def Leaf.node : Leaf V → Node V
  | some v => .value v
  | none => .mapping []

mutual
def Node.Distinct : Node V → Prop
  | .value _ => True
  | .mapping entries => (entries.map Prod.fst).Nodup ∧ EntriesDistinct entries

def EntriesDistinct : Mapping V → Prop
  | [] => True
  | (_, node) :: rest => node.Distinct ∧ EntriesDistinct rest
end

def Distinct (m : Mapping V) : Prop := (Node.mapping m).Distinct

mutual
def nodeLeaves (path : KeyPath) : Node V → List (KeyPath × Leaf V)
  | .value v => [(path, some v)]
  | .mapping [] => [(path, none)]
  | .mapping (entry :: entries) => leavesUnder path (entry :: entries)

def leavesUnder (prefix_ : KeyPath) : Mapping V → List (KeyPath × Leaf V)
  | [] => []
  | (key, node) :: rest => nodeLeaves (prefix_ ++ [key]) node ++ leavesUnder prefix_ rest
end

/-- Each value of a nested mapping that is not itself a mapping with keys, by its key path. -/
def leaves (m : Mapping V) : List (KeyPath × Leaf V) := leavesUnder [] m

section Changes
variable [BEq V]

def sameLeaf : Leaf V → Leaf V → Bool
  | none, none => true
  | some a, some b => a == b
  | _, _ => false

def equalLeaves (one other : List (KeyPath × Leaf V)) : Bool :=
  (one.all fun entry => (other.lookup entry.1).any (sameLeaf entry.2)) &&
    other.all fun entry => (one.lookup entry.1).isSome

/-- What a change sets at its path: none is ABSENT. -/
abbrev Change (V : Type) := KeyPath × Option (Leaf V)

def parents (found : List (KeyPath × Leaf V)) : List KeyPath :=
  found.flatMap fun entry => (List.range' 1 (entry.1.length - 1)).map entry.1.take

def removedPaths (before after : Mapping V) : List KeyPath :=
  ((leaves before).map Prod.fst).filter fun path =>
    !((leaves after).map Prod.fst).contains path && !(parents (leaves after)).contains path

def changedLeaves (before after : Mapping V) : List (KeyPath × Leaf V) :=
  (leaves after).filter fun entry => !((leaves before).lookup entry.1).any (sameLeaf · entry.2)

def changes (before after : Mapping V) : List (Change V) :=
  (removedPaths before after).map (·, none) ++
    (changedLeaves before after).map fun entry => (entry.1, some entry.2)

end Changes

section Edits

/-- A key keeps its place when its value is set, and a new key goes to the end. -/
def put (m : Mapping V) (key : Key) (node : Node V) : Mapping V :=
  if (m.lookup key).isSome then m.map fun entry => if entry.1 = key then (key, node) else entry
  else m ++ [(key, node)]

def del (m : Mapping V) (key : Key) : Mapping V := m.filter fun entry => entry.1 != key

def build (path : KeyPath) (node : Node V) : Node V :=
  path.foldr (fun part inner => .mapping [(part, inner)]) node

def set (m : Mapping V) : KeyPath → Node V → Mapping V
  | [], _ => m
  | [key], node => put m key node
  | key :: next :: rest, node =>
    match m.lookup key with
    | some (.mapping inner) => put m key (.mapping (set inner (next :: rest) node))
    | _ => put m key (build (next :: rest) node)

def remove (m : Mapping V) : KeyPath → Mapping V
  | [] => m
  | [key] => del m key
  | key :: next :: rest =>
    match m.lookup key with
    | some (.mapping inner) => put m key (.mapping (remove inner (next :: rest)))
    | _ => m

def applyChange (document : Mapping V) (change : Change V) : Mapping V :=
  match change.2 with
  | none => remove document change.1
  | some leaf => set document change.1 leaf.node

def edit (document : Mapping V) (changed : List (Change V)) : Mapping V :=
  changed.foldl applyChange document

end Edits

section Kinds

def kind (m : Mapping V) : KeyPath → Option (Option V)
  | [] => some none
  | key :: rest =>
    match m.lookup key with
    | some (.mapping inner) => kind inner rest
    | some (.value v) => if rest = [] then some (some v) else none
    | none => none

def nodeKind : Node V → KeyPath → Option (Option V)
  | .value v, path => if path = [] then some (some v) else none
  | .mapping entries, path => kind entries path

theorem kind_cons (m : Mapping V) (key : Key) (rest : KeyPath) :
    kind m (key :: rest) = (m.lookup key).bind (nodeKind · rest) := by
  rw [kind]
  cases m.lookup key with
  | none => rfl
  | some node => cases node <;> rfl

@[simp] theorem kind_nil (m : Mapping V) : kind m [] = some none := by rw [kind]

theorem nodeKind_leaf (leaf : Leaf V) (path : KeyPath) :
    nodeKind leaf.node path = if path = [] then some leaf else none := by
  cases leaf with
  | some v => rfl
  | none => cases path <;> simp [Leaf.node, nodeKind, kind_cons]

theorem lookup_put (m : Mapping V) (key : Key) (node : Node V) (k : Key) :
    (put m key node).lookup k = if k = key then some node else m.lookup k := by
  unfold put
  split
  · rename_i held
    induction m with
    | nil => simp at held
    | cons entry rest ih =>
      rw [List.map_cons, List.lookup_cons, List.lookup_cons]
      by_cases here : entry.1 = key
      · rw [if_pos here]
        by_cases same : k = key
        · simp [same]
        · have apart : (k == entry.1) = false := by simpa [here] using same
          have apart' : (k == key) = false := by simpa using same
          simp only [apart, apart', if_neg same]
          by_cases more : (rest.lookup key).isSome = true
          · rw [ih more, if_neg same]
          · have absent : ∀ other ∈ rest, other.1 ≠ key := by
              intro other mem equal
              simp only [Option.isSome_iff_ne_none, ne_eq, not_not, List.lookup_eq_none_iff] at more
              simpa [equal] using more other mem
            rw [List.map_congr_left fun other mem => if_neg (absent other mem), List.map_id']
      · rw [if_neg here]
        have tail : (rest.lookup key).isSome = true := by
          rwa [List.lookup_cons, show (key == entry.1) = false by simpa using Ne.symm here] at held
        cases same : k == entry.1 with
        | true =>
          have : k ≠ key := fun equal => here (by rw [← equal, eq_of_beq same])
          simp [this]
        | false => exact ih tail
  · rename_i absent
    rw [List.lookup_append]
    by_cases same : k = key
    · subst same
      simp [Option.not_isSome_iff_eq_none.mp absent]
    · have apart : (k == key) = false := by simpa using same
      simp [same, List.lookup_cons, apart]

theorem lookup_del (m : Mapping V) (key k : Key) :
    (del m key).lookup k = if k = key then none else m.lookup k := by
  unfold del
  induction m with
  | nil => simp
  | cons entry rest ih =>
    by_cases here : entry.1 = key
    · rw [List.filter_cons_of_neg (by simpa using here), ih, List.lookup_cons]
      split
      · rfl
      · rename_i other
        rw [show (k == entry.1) = false by simpa [here] using other]
    · rw [List.filter_cons_of_pos (by simpa using here), List.lookup_cons, List.lookup_cons]
      cases same : k == entry.1 with
      | true =>
        have : k ≠ key := fun equal => here (by rw [← equal, eq_of_beq same])
        simp [this]
      | false => exact ih

theorem kind_put (m : Mapping V) (key : Key) (node : Node V) (k : Key) (rest : KeyPath) :
    kind (put m key node) (k :: rest) = if k = key then nodeKind node rest else kind m (k :: rest) := by
  rw [kind_cons, lookup_put]
  split
  · rfl
  · rw [kind_cons]

theorem kind_del (m : Mapping V) (key k : Key) (rest : KeyPath) :
    kind (del m key) (k :: rest) = if k = key then none else kind m (k :: rest) := by
  rw [kind_cons, lookup_del]
  split
  · rfl
  · rw [kind_cons]

theorem kind_empty (k : Key) (rest : KeyPath) : kind ([] : Mapping V) (k :: rest) = none := by
  rw [kind_cons]
  rfl

theorem nodeKind_build (path : KeyPath) (leaf : Leaf V) (q : KeyPath) :
    nodeKind (build path leaf.node) q =
      if q = path then some leaf
      else if path <+: q then none
      else if q <+: path then some none
      else none := by
  induction path generalizing q with
  | nil =>
    rw [build, List.foldr_nil, nodeKind_leaf]
    cases q <;> simp
  | cons part path ih =>
    rw [build, List.foldr_cons, ← build, nodeKind]
    cases q with
    | nil => simp
    | cons k q =>
      rw [kind_cons, List.lookup_cons]
      cases same : k == part with
      | true =>
        rw [eq_of_beq same, Option.bind_some, ih]
        simp only [List.cons.injEq, true_and, List.prefix_cons_inj]
      | false =>
        have apart : k ≠ part := by simpa using same
        simp [apart, apart.symm, List.cons_prefix_cons]

theorem kind_set (m : Mapping V) (path : KeyPath) (some_ : path ≠ []) (leaf : Leaf V) :
    kind (set m path leaf.node) = write (kind m) path leaf := by
  induction path generalizing m with
  | nil => exact absurd rfl some_
  | cons key rest ih =>
    funext q
    cases q with
    | nil => simp [write]
    | cons k q =>
      have aside (node : Node V) (other : k ≠ key) :
          kind (put m key node) (k :: q) = write (kind m) (key :: rest) leaf (k :: q) := by
        rw [kind_put, if_neg other, write_apart]
        simp [Apart, List.cons_prefix_cons, other, other.symm]
      cases rest with
      | nil =>
        rw [set]
        by_cases same : k = key
        · subst same
          rw [kind_put, if_pos rfl, nodeKind_leaf, write]
          cases q <;> simp
        · exact aside _ same
      | cons next rest =>
        by_cases same : k = key
        · subst same
          rw [set]
          cases held : m.lookup k with
          | none =>
            rw [kind_put, if_pos rfl, nodeKind_build, write, kind_cons m, held]
            simp only [List.cons.injEq, true_and, List.prefix_cons_inj, Option.bind_none]
          | some node =>
            cases node with
            | value v =>
              rw [kind_put, if_pos rfl, nodeKind_build, write, kind_cons m, held]
              simp only [List.cons.injEq, true_and, List.prefix_cons_inj, Option.bind_some, nodeKind]
              split <;> [rfl; split <;> [rfl; split <;> [rfl; skip]]]
              rename_i no_path
              rw [if_neg]
              rintro rfl
              exact no_path List.nil_prefix
            | mapping inner =>
              rw [kind_put, if_pos rfl, nodeKind, ih inner (by simp), write, write, kind_cons m, held]
              simp only [List.cons.injEq, true_and, List.prefix_cons_inj, Option.bind_some, nodeKind]
        · rw [set]
          split <;> exact aside _ same

theorem kind_remove (m : Mapping V) (path : KeyPath) (some_ : path ≠ []) :
    kind (remove m path) = erase (kind m) path := by
  induction path generalizing m with
  | nil => exact absurd rfl some_
  | cons key rest ih =>
    funext q
    cases q with
    | nil => simp [erase]
    | cons k q =>
      have aside (other : k ≠ key) : erase (kind m) (key :: rest) (k :: q) = kind m (k :: q) := by
        rw [erase, if_neg]
        simp [List.cons_prefix_cons, other.symm]
      cases rest with
      | nil =>
        rw [remove, kind_del]
        by_cases same : k = key
        · simp [same, erase]
        · rw [if_neg same, aside same]
      | cons next rest =>
        by_cases same : k = key
        · subst same
          rw [remove, erase]
          simp only [List.prefix_cons_inj]
          cases held : m.lookup k with
          | none => simp [kind_cons, held]
          | some node =>
            cases node with
            | value v =>
              rw [kind_cons, held, Option.bind_some, nodeKind]
              split
              · rename_i root
                simp [root]
              · simp
            | mapping inner =>
              rw [kind_put, if_pos rfl, nodeKind, ih inner (by simp), erase, kind_cons m, held]
              rfl
        · rw [remove]
          split
          · rw [kind_put, if_neg same, aside same]
          · rw [aside same]

theorem closed_kind (m : Mapping V) : Closed (kind m) := by
  intro q k some_
  induction q generalizing m with
  | nil => rw [kind_nil]
  | cons key rest ih =>
    rw [List.cons_append, kind_cons] at some_
    rw [kind_cons]
    cases held : m.lookup key with
    | none => simp [held] at some_
    | some node =>
      rw [held, Option.bind_some] at some_
      rw [Option.bind_some]
      cases node with
      | value v => simp [nodeKind] at some_
      | mapping inner => exact ih inner some_

end Kinds

section Leaves

def LeafOf (node : Node V) (q : KeyPath) (leaf : Leaf V) : Prop :=
  nodeKind node q = some leaf ∧ (leaf = none → ∀ k, nodeKind node (q ++ [k]) = none)

theorem isLeaf_cons {m : Mapping V} {key : Key} {q : KeyPath} {leaf : Leaf V} :
    IsLeaf (kind m) (key :: q) leaf ↔ ∃ node, m.lookup key = some node ∧ LeafOf node q leaf := by
  constructor
  · intro is_leaf
    have here := is_leaf.here
    have bare := is_leaf.bare
    simp only [List.cons_append, kind_cons] at here bare
    obtain ⟨node, held, at_⟩ := Option.bind_eq_some_iff.mp here
    exact ⟨node, held, at_, fun none_ k => by simpa [held] using bare none_ k⟩
  · rintro ⟨node, held, at_, bare⟩
    refine ⟨by simp, by rw [kind_cons, held, Option.bind_some, at_], fun none_ k => ?_⟩
    rw [List.cons_append, kind_cons, held, Option.bind_some, bare none_]

theorem leafOf_leaf (leaf : Leaf V) : LeafOf leaf.node [] leaf := by
  refine ⟨by rw [nodeKind_leaf, if_pos rfl], fun _ k => ?_⟩
  rw [nodeKind_leaf, if_neg (by simp)]

theorem leafOf_mapping {inner : Mapping V} {q : KeyPath} {leaf : Leaf V} (some_ : q ≠ []) :
    LeafOf (.mapping inner) q leaf ↔ IsLeaf (kind inner) q leaf :=
  ⟨fun held => ⟨some_, held.1, held.2⟩, fun is_leaf => ⟨is_leaf.here, is_leaf.bare⟩⟩

theorem exists_leaf : (m : Mapping V) → m ≠ [] → ∃ p leaf, IsLeaf (kind m) p leaf
  | (key, .value v) :: rest, _ =>
    ⟨[key], some v, isLeaf_cons.mpr ⟨.value v, by simp, leafOf_leaf (some v)⟩⟩
  | (key, .mapping []) :: rest, _ =>
    ⟨[key], none, isLeaf_cons.mpr ⟨.mapping [], by simp, leafOf_leaf none⟩⟩
  | (key, .mapping (entry :: entries)) :: rest, _ =>
    have ⟨p, leaf, below⟩ := exists_leaf (entry :: entries) (List.cons_ne_nil entry entries)
    ⟨key :: p, leaf, isLeaf_cons.mpr ⟨_, by simp, (leafOf_mapping below.below).mpr below⟩⟩

theorem grounded_kind (m : Mapping V) : Grounded (kind m) := by
  intro q root some_
  induction q generalizing m with
  | nil => exact absurd rfl root
  | cons key rest ih =>
    rw [kind_cons] at some_
    cases held : m.lookup key with
    | none => simp [held] at some_
    | some node =>
      rw [held, Option.bind_some] at some_
      cases node with
      | value v =>
        cases rest with
        | cons k rest => simp [nodeKind] at some_
        | nil => exact ⟨[key], some v, List.prefix_rfl,
            isLeaf_cons.mpr ⟨.value v, held, leafOf_leaf (some v)⟩⟩
      | mapping inner =>
        by_cases empty : inner = []
        · subst empty
          cases rest with
          | cons k rest => exact absurd (kind_empty k rest) some_
          | nil => exact ⟨[key], none, List.prefix_rfl,
              isLeaf_cons.mpr ⟨.mapping [], held, leafOf_leaf none⟩⟩
        · have below : ∃ p leaf, rest <+: p ∧ IsLeaf (kind inner) p leaf := by
            by_cases top : rest = []
            · obtain ⟨p, leaf, is_leaf⟩ := exists_leaf inner empty
              exact ⟨p, leaf, top ▸ List.nil_prefix, is_leaf⟩
            · exact ih inner top some_
          obtain ⟨p, leaf, down, is_leaf⟩ := below
          exact ⟨key :: p, leaf, List.prefix_cons_inj key |>.mpr down,
            isLeaf_cons.mpr ⟨_, held, (leafOf_mapping is_leaf.below).mpr is_leaf⟩⟩

theorem entriesDistinct_iff {m : Mapping V} :
    EntriesDistinct m ↔ ∀ entry ∈ m, entry.2.Distinct := by
  induction m with
  | nil => simp [EntriesDistinct]
  | cons entry rest ih => rw [EntriesDistinct, ih, List.forall_mem_cons]

theorem distinct_iff {m : Mapping V} :
    Distinct m ↔ (m.map Prod.fst).Nodup ∧ ∀ entry ∈ m, entry.2.Distinct := by
  rw [Distinct, Node.Distinct, entriesDistinct_iff]

theorem lookup_mem {m : Mapping V} {key : Key} {node : Node V} (held : m.lookup key = some node) :
    (key, node) ∈ m := by
  obtain ⟨l₁, l₂, rfl, -⟩ := List.lookup_eq_some_iff.mp held
  simp

mutual
theorem mem_nodeLeaves : (node : Node V) → node.Distinct → ∀ path p leaf,
    (p, leaf) ∈ nodeLeaves path node ↔ ∃ q, p = path ++ q ∧ LeafOf node q leaf
  | .value v, _, path, p, leaf => by
    simp only [nodeLeaves, List.mem_singleton, Prod.mk.injEq]
    constructor
    · rintro ⟨rfl, rfl⟩
      exact ⟨[], by simp, leafOf_leaf (some v)⟩
    · rintro ⟨q, rfl, here, -⟩
      cases q with
      | nil => simpa [nodeKind, eq_comm] using here
      | cons k q => simp [nodeKind] at here
  | .mapping [], _, path, p, leaf => by
    simp only [nodeLeaves, List.mem_singleton, Prod.mk.injEq]
    constructor
    · rintro ⟨rfl, rfl⟩
      exact ⟨[], by simp, leafOf_leaf none⟩
    · rintro ⟨q, rfl, here, -⟩
      cases q with
      | nil => simpa [nodeKind, eq_comm] using here
      | cons k q => simp [nodeKind, kind_empty] at here
  | .mapping (entry :: entries), distinct, path, p, leaf => by
    rw [nodeLeaves, mem_leavesUnder (entry :: entries) distinct path p leaf]
    refine exists_congr fun q => and_congr_right fun _ => ?_
    by_cases top : q = []
    · subst top
      refine iff_of_false (fun is_leaf => is_leaf.below rfl) ?_
      rintro ⟨here, bare⟩
      obtain ⟨key, node⟩ := entry
      have none_ : leaf = none := by simpa [nodeKind, eq_comm] using here
      have child := bare none_ key
      rw [List.nil_append, nodeKind, kind_cons, List.lookup_cons_self, Option.bind_some] at child
      cases node <;> simp [nodeKind] at child
    · exact (leafOf_mapping top).symm

theorem mem_leavesUnder : (m : Mapping V) → Distinct m → ∀ path p leaf,
    (p, leaf) ∈ leavesUnder path m ↔ ∃ q, p = path ++ q ∧ IsLeaf (kind m) q leaf
  | [], _, path, p, leaf => by
    simp only [leavesUnder, List.not_mem_nil, false_iff]
    rintro ⟨q, -, is_leaf⟩
    cases q with
    | nil => exact is_leaf.below rfl
    | cons k q => simpa [kind_empty] using is_leaf.here
  | (key, node) :: rest, distinct, path, p, leaf => by
    obtain ⟨keys, nodes⟩ := distinct_iff.mp distinct
    rw [List.map_cons, List.nodup_cons] at keys
    obtain ⟨own, nodes⟩ := List.forall_mem_cons.mp nodes
    have later := mem_leavesUnder rest (distinct_iff.mpr ⟨keys.2, nodes⟩) path p leaf
    rw [leavesUnder, List.mem_append, mem_nodeLeaves node own (path ++ [key]) p leaf, later]
    constructor
    · rintro (⟨q, rfl, leaf_of⟩ | ⟨q, rfl, is_leaf⟩)
      · exact ⟨key :: q, by simp, isLeaf_cons.mpr ⟨node, List.lookup_cons_self, leaf_of⟩⟩
      · refine ⟨q, rfl, ?_⟩
        cases q with
        | nil => exact absurd rfl is_leaf.below
        | cons k q =>
          obtain ⟨other, held, leaf_of⟩ := isLeaf_cons.mp is_leaf
          refine isLeaf_cons.mpr ⟨other, ?_, leaf_of⟩
          rw [List.lookup_cons, show (k == key) = false from ?_]
          · exact held
          · rw [beq_eq_false_iff_ne]
            rintro rfl
            exact keys.1 (List.mem_map.mpr ⟨(k, other), lookup_mem held, rfl⟩)
    · rintro ⟨q, rfl, is_leaf⟩
      cases q with
      | nil => exact absurd rfl is_leaf.below
      | cons k q =>
        obtain ⟨other, held, leaf_of⟩ := isLeaf_cons.mp is_leaf
        rw [List.lookup_cons] at held
        split at held
        · rename_i same
          obtain rfl := Option.some.inj held
          exact .inl ⟨q, by simp [eq_of_beq same], leaf_of⟩
        · exact .inr ⟨k :: q, rfl, isLeaf_cons.mpr ⟨other, held, leaf_of⟩⟩
end

theorem mem_leaves {m : Mapping V} (distinct : Distinct m) {p : KeyPath} {leaf : Leaf V} :
    (p, leaf) ∈ leaves m ↔ IsLeaf (kind m) p leaf := by
  rw [leaves, mem_leavesUnder m distinct]
  simp

theorem lookup_leaves {m : Mapping V} (distinct : Distinct m) {p : KeyPath} {leaf : Leaf V} :
    (leaves m).lookup p = some leaf ↔ IsLeaf (kind m) p leaf := by
  constructor
  · intro held
    obtain ⟨l₁, l₂, whole, -⟩ := List.lookup_eq_some_iff.mp held
    exact (mem_leaves distinct).mp (by rw [whole]; simp)
  · intro is_leaf
    have mem := (mem_leaves distinct).mpr is_leaf
    cases held : (leaves m).lookup p with
    | none => simpa using List.lookup_eq_none_iff.mp held _ mem
    | some other =>
      obtain ⟨l₁, l₂, whole, -⟩ := List.lookup_eq_some_iff.mp held
      have own := (mem_leaves distinct).mp (by rw [whole]; simp : (p, other) ∈ leaves m)
      rw [own.unique is_leaf]

end Leaves
end DevopsCli.Config.RoundTrip
