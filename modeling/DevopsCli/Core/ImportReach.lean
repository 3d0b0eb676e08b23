import DevopsCli.Core.TestSelection

/- What Python imports when a module runs, and that the edges of the suite lead to all of it but what
   a star import finds in `__all__`. -/
namespace DevopsCli.Core.Selection
open PyStr PyPath ImportGraph

section Statements

inductive Within (statement : ImportStmt) : Stmt → Prop
  | here : Within statement (.importing statement)
  | scope {isFunction name uses body node} : node ∈ body → Within statement node →
      Within statement (.scope isFunction name uses body)
  | body {test uses body orelse node} : isTypeCheckingGuard test = false → node ∈ body →
      Within statement node → Within statement (.branch test uses body orelse)
  | orelse {test uses body orelse node} : node ∈ orelse → Within statement node →
      Within statement (.branch test uses body orelse)
  | block {uses children node} : node ∈ children → Within statement node →
      Within statement (.block uses children)

variable {statement : ImportStmt}

mutual

theorem within_of_mem (node : Stmt) (member : statement ∈ runtimeImports true node) :
    Within statement node := by
  cases node with
  | importing own =>
    obtain rfl := List.mem_singleton.mp member
    exact .here
  | scope isFunction name uses body =>
    have inner : statement ∈ runtimeImportsOf true body := by
      simpa [runtimeImports] using member
    obtain ⟨node, here, within⟩ := within_of_mem_all body inner
    exact .scope here within
  | branch test uses body orelse =>
    unfold runtimeImports at member
    split at member
    · obtain ⟨node, here, within⟩ := within_of_mem_all orelse member
      exact .orelse here within
    · next runs =>
      rcases List.mem_append.mp member with first | second
      · obtain ⟨node, here, within⟩ := within_of_mem_all body first
        exact .body (Bool.eq_false_of_not_eq_true runs) here within
      · obtain ⟨node, here, within⟩ := within_of_mem_all orelse second
        exact .orelse here within
  | block uses children =>
    obtain ⟨node, here, within⟩ := within_of_mem_all children member
    exact .block here within

theorem within_of_mem_all (nodes : List Stmt) (member : statement ∈ runtimeImportsOf true nodes) :
    ∃ node ∈ nodes, Within statement node := by
  cases nodes with
  | nil => exact absurd member List.not_mem_nil
  | cons first rest =>
    rcases List.mem_append.mp member with here | later
    · exact ⟨first, List.mem_cons_self, within_of_mem first here⟩
    · obtain ⟨node, inside, within⟩ := within_of_mem_all rest later
      exact ⟨node, List.mem_cons_of_mem _ inside, within⟩

end

theorem mem_all_of_mem {nodes : List Stmt} {node : Stmt} (here : node ∈ nodes)
    (member : statement ∈ runtimeImports true node) : statement ∈ runtimeImportsOf true nodes := by
  induction nodes with
  | nil => exact absurd here List.not_mem_nil
  | cons first rest ih =>
    unfold runtimeImportsOf
    rcases List.mem_cons.mp here with rfl | later
    · exact List.mem_append_left _ member
    · exact List.mem_append_right _ (ih later)

theorem mem_of_within {node : Stmt} (within : Within statement node) :
    statement ∈ runtimeImports true node := by
  induction within with
  | here => exact List.mem_singleton_self _
  | scope here _ ih =>
    unfold runtimeImports
    rw [if_neg (by simp)]
    exact mem_all_of_mem here ih
  | body runs here _ ih =>
    unfold runtimeImports
    rw [if_neg (by simp [runs])]
    exact List.mem_append_left _ (mem_all_of_mem here ih)
  | orelse here _ ih =>
    unfold runtimeImports
    split
    · exact mem_all_of_mem here ih
    · exact List.mem_append_right _ (mem_all_of_mem here ih)
  | block here _ ih =>
    unfold runtimeImports
    exact mem_all_of_mem here ih

theorem mem_runtimeImportsOf {nodes : List Stmt} :
    statement ∈ runtimeImportsOf true nodes ↔ ∃ node ∈ nodes, Within statement node := by
  constructor
  · exact within_of_mem_all nodes
  · rintro ⟨node, here, within⟩
    exact mem_all_of_mem here (mem_of_within within)

end Statements

section Python

def pythonBase (module : Option Str) (level : Nat) (package : Dotted) : Option Dotted :=
  if level = 0 then some (moduleParts module)
  else if package.length < level then none
  else some (package.take (package.length - (level - 1)) ++ moduleParts module)

/-- The statement makes Python import the module: one on the way to a name that it imports, or a
    submodule that a from-import names. -/
def Imports (base : Option Str → Nat → Option Dotted) (module : Dotted) : ImportStmt → Prop
  | .names names => ∃ «alias» ∈ names, module <+: partsOf «alias».name
  | .from_ source level names => ∃ package, base source level = some package ∧ package ≠ [] ∧
      ∃ «alias» ∈ names, module <+: package ∨ module = package ++ partsOf «alias».name

variable (repo : Repo)

def Has (module : Dotted) (path : Path) (statement : ImportStmt) : Prop :=
  ∃ tree, (path, tree) ∈ repo.trees ∧ moduleName path = module ∧
    ∃ node ∈ tree.body, Within statement node

def packageOf (path : Path) : Dotted := path.dropLast.flatMap partsOf

/-- Running the first module imports the second one, for a package above it or for one of its
    statements. -/
def Runs (other module : Dotted) : Prop :=
  module ∈ repo.modules ∧ ((module <+: other ∧ module ≠ other) ∨
    ∃ path statement, Has repo other path statement ∧
      Imports (fun source level => pythonBase source level (packageOf path)) module statement)

/-- A star import of the first module imports the second one, which `__all__` of a package names. -/
def Stars (other module : Dotted) : Prop :=
  module ∈ repo.modules ∧ ∃ path source level names package tree own «export»,
    Has repo other path (.from_ source level names) ∧ (∃ «alias» ∈ names, «alias».name = ['*']) ∧
      pythonBase source level (packageOf path) = some package ∧
      (own, tree) ∈ repo.trees ∧ moduleName own = package ∧ «export» ∈ tree.exports ∧
      module <+: package ++ partsOf «export»

def Names (other module : Dotted) : Prop :=
  module ∈ repo.modules ∧ ((module <+: other ∧ module ≠ other) ∨
    ∃ path statement, Has repo other path statement ∧
      Imports (fun source level => resolveImportFromBase source level path.dropLast) module statement)

end Python

section Known
variable {known : List Dotted} {dotted module : Dotted}

theorem longestKnownFrom_some {parts : List Str} (found : longestKnownFrom known parts = some module) :
    module ∈ known ∧ module <+: parts.reverse := by
  induction parts with
  | nil => exact nomatch found
  | cons part above ih =>
    unfold longestKnownFrom at found
    split at found
    · next here =>
      obtain rfl := Option.some.inj found
      exact ⟨here, List.prefix_refl _⟩
    · obtain ⟨here, front⟩ := ih found
      rw [List.reverse_cons]
      exact ⟨here, front.trans (List.prefix_append _ _)⟩

theorem longestKnownFrom_longest {parts : List Str} (here : module ∈ known) (some_ : module ≠ [])
    (front : module <+: parts.reverse) :
    ∃ longest, longestKnownFrom known parts = some longest ∧ module <+: longest := by
  induction parts with
  | nil => exact absurd (List.prefix_nil.mp front) some_
  | cons part above ih =>
    unfold longestKnownFrom
    split
    · exact ⟨_, rfl, front⟩
    · next unknown =>
      rw [List.reverse_cons] at front unknown
      rcases List.prefix_concat_iff.mp front with whole | shorter
      · rw [whole] at here
        exact absurd here unknown
      · exact ih shorter

theorem longestKnownModule_some (found : longestKnownModule known dotted = some module) :
    module ∈ known ∧ module <+: dotted := by
  have parts := longestKnownFrom_some found
  rw [List.reverse_reverse] at parts
  exact parts

theorem longestKnownModule_longest (here : module ∈ known) (some_ : module ≠ [])
    (front : module <+: dotted) :
    ∃ longest, longestKnownModule known dotted = some longest ∧ module <+: longest := by
  apply longestKnownFrom_longest here some_
  rw [List.reverse_reverse]
  exact front

theorem imports_of_target {pkgParts : List Str} {statement : ImportStmt}
    (target : module ∈ resolveStatementTargets known pkgParts statement) :
    module ∈ known ∧
      Imports (fun source level => resolveImportFromBase source level pkgParts) module statement := by
  cases statement with
  | names names =>
    obtain ⟨one, member, found⟩ := List.mem_filterMap.mp target
    obtain ⟨here, front⟩ := longestKnownModule_some found
    exact ⟨here, one, member, front⟩
  | from_ source level names =>
    simp only [resolveStatementTargets] at target
    split at target
    · exact absurd target List.not_mem_nil
    · exact absurd target List.not_mem_nil
    · next base some_ resolved =>
      obtain ⟨one, member, found⟩ := List.mem_filterMap.mp target
      unfold resolveFromAlias at found
      split at found
      · next here =>
        obtain rfl := Option.some.inj found
        exact ⟨here, base, resolved, some_, one, member, .inr rfl⟩
      · obtain ⟨here, front⟩ := longestKnownModule_some found
        exact ⟨here, base, resolved, some_, one, member, .inl front⟩

theorem target_of_imports {pkgParts : List Str} {statement : ImportStmt} (here : module ∈ known)
    (some_ : module ≠ [])
    (imports : Imports (fun source level => resolveImportFromBase source level pkgParts) module
      statement) :
    ∃ target ∈ resolveStatementTargets known pkgParts statement, module <+: target := by
  cases statement with
  | names names =>
    obtain ⟨one, member, front⟩ := imports
    obtain ⟨longest, found, front⟩ := longestKnownModule_longest here some_ front
    exact ⟨longest, List.mem_filterMap.mpr ⟨one, member, found⟩, front⟩
  | from_ source level names =>
    obtain ⟨base, resolved, solid, one, member, either⟩ := imports
    replace resolved : resolveImportFromBase source level pkgParts = some base := resolved
    simp only [resolveStatementTargets, resolved]
    obtain ⟨part, parts, rfl⟩ := List.exists_cons_of_ne_nil solid
    have target : ∃ target, resolveFromAlias known (part :: parts) one.name = some target ∧
        module <+: target := by
      unfold resolveFromAlias
      split
      · next sub =>
        refine ⟨_, rfl, ?_⟩
        rcases either with front | same
        · exact front.trans (List.prefix_append _ _)
        · rw [same]
      · next missing =>
        rcases either with front | same
        · exact longestKnownModule_longest here some_ front
        · rw [same] at here
          exact absurd here missing
    obtain ⟨target, found, front⟩ := target
    exact ⟨target, List.mem_filterMap.mpr ⟨one, member, found⟩, front⟩

end Known

section Edges
variable {repo : Repo} {module other : Dotted}

theorem partsOf_ne_nil (name : Str) : partsOf name ≠ [] := List.splitOn_ne_nil _ _

theorem mem_trees {path : Path} {tree : Tree} :
    (path, tree) ∈ repo.trees ↔ (path, some tree) ∈ repo.files := by
  unfold Repo.trees
  rw [List.mem_filterMap]
  constructor
  · rintro ⟨⟨own, parsed⟩, member, same⟩
    obtain ⟨tree', rfl, pair⟩ := Option.map_eq_some_iff.mp same
    obtain ⟨rfl, rfl⟩ := Prod.mk.inj pair
    exact member
  · intro member
    exact ⟨_, member, rfl⟩

theorem moduleName_ne_nil {path : Path} {top : Str} {folders : List Str} {name : Str}
    (whole : path = top :: (folders ++ [name])) : ∃ rest, moduleName path = partsOf top ++ rest := by
  have front : path.dropLast = top :: folders := by
    rw [whole, ← List.cons_append, List.dropLast_concat]
  unfold moduleName
  rw [front]
  simp only
  split
  · have parts : (top :: folders ++ [stemOf (path.getLastD [])]).dropLast = top :: folders :=
      List.dropLast_concat
    rw [parts, List.flatMap_cons]
    exact ⟨_, rfl⟩
  · rw [List.cons_append, List.flatMap_cons]
    exact ⟨_, rfl⟩

theorem modules_ne_nil (member : module ∈ repo.modules) : module ≠ [] := by
  obtain ⟨⟨path, tree⟩, inside, rfl⟩ := List.mem_map.mp member
  obtain ⟨folders, name, whole⟩ := repo.under _ (mem_trees.mp inside)
  obtain ⟨rest, parts⟩ := moduleName_ne_nil whole
  rw [parts]
  intro none_
  exact partsOf_ne_nil _ (List.append_eq_nil_iff.mp none_).1

theorem mem_packagesOf (some_ : module ≠ []) :
    module ∈ packagesOf other ↔ module <+: other ∧ module ≠ other := by
  simp [packagesOf, some_]

theorem mem_buildImportGraph : module ∈ buildImportGraph repo.trees true other ↔
    module ≠ other ∧ ∃ path statement, Has repo other path statement ∧
      module ∈ resolveStatementTargets repo.modules path.dropLast statement := by
  unfold buildImportGraph
  rw [List.mem_flatMap]
  constructor
  · rintro ⟨⟨path, tree⟩, inside, member⟩
    simp only at member
    split at member
    · next name =>
      obtain ⟨targets, differs⟩ := List.mem_filter.mp member
      obtain ⟨statement, there, target⟩ := List.mem_flatMap.mp targets
      exact ⟨of_decide_eq_true differs, path, statement,
        ⟨tree, inside, name, mem_runtimeImportsOf.mp there⟩, target⟩
    · exact absurd member List.not_mem_nil
  · rintro ⟨differs, path, statement, ⟨tree, inside, name, within⟩, target⟩
    refine ⟨(path, tree), inside, ?_⟩
    simp only [name, if_true]
    exact List.mem_filter.mpr ⟨List.mem_flatMap.mpr
      ⟨statement, mem_runtimeImportsOf.mpr within, target⟩, decide_eq_true differs⟩

theorem mem_edges : module ∈ edges repo other ↔
    module ∈ buildImportGraph repo.trees true other ∨
      module ∈ repo.modules ∧ module <+: other ∧ module ≠ other := by
  unfold edges
  rw [List.mem_append, List.mem_filter]
  apply or_congr_right
  constructor
  · rintro ⟨above, known⟩
    have known := of_decide_eq_true known
    exact ⟨known, (mem_packagesOf (modules_ne_nil known)).mp above⟩
  · rintro ⟨known, above⟩
    exact ⟨(mem_packagesOf (modules_ne_nil known)).mpr above, decide_eq_true known⟩

theorem names_of_edge (edge : module ∈ edges repo other) : Names repo other module := by
  rcases mem_edges.mp edge with graph | ⟨known, above⟩
  · obtain ⟨_, path, statement, has, target⟩ := mem_buildImportGraph.mp graph
    obtain ⟨known, imports⟩ := imports_of_target target
    exact ⟨known, .inr ⟨path, statement, has, imports⟩⟩
  · exact ⟨known, .inl above⟩

theorem reaches_of_names (names : Names repo other module) :
    Worklist.Reaches (edges repo) other module := by
  obtain ⟨known, above | ⟨path, statement, has, imports⟩⟩ := names
  · exact .single (mem_edges.mpr (.inr ⟨known, above⟩))
  · obtain ⟨target, found, front⟩ := target_of_imports known (modules_ne_nil known) imports
    have last : Worklist.Reaches (edges repo) target module := by
      by_cases same : module = target
      · rw [same]
        exact .refl
      · exact .single (mem_edges.mpr (.inr ⟨known, front, same⟩))
    by_cases own : target = other
    · rw [← own]
      exact last
    · exact .head (mem_edges.mpr (.inl (mem_buildImportGraph.mpr ⟨own, path, statement, has, found⟩)))
        last

theorem reaches_iff : Worklist.Reaches (edges repo) other module ↔
    Relation.ReflTransGen (Names repo) other module := by
  constructor
  · intro leads
    induction leads with
    | refl => exact .refl
    | tail _ edge ih => exact ih.tail (names_of_edge edge)
  · intro chain
    induction chain with
    | refl => exact .refl
    | tail _ names ih => exact ih.trans (reaches_of_names names)

theorem partsOf_plain {name : Str} (plain : '.' ∉ name) : partsOf name = [name] :=
  List.splitOn_eq_singleton plain

theorem base_of_python {path : Path} (plain : ∀ folder ∈ path.dropLast, '.' ∉ folder)
    {source : Option Str} {level : Nat} {package : Dotted}
    (base : pythonBase source level (packageOf path) = some package) :
    resolveImportFromBase source level path.dropLast = some package := by
  have same (folders : List Str) (each : ∀ folder ∈ folders, '.' ∉ folder) :
      folders.flatMap partsOf = folders := by
    induction folders with
    | nil => rfl
    | cons folder rest ih =>
      obtain ⟨first, later⟩ := List.forall_mem_cons.mp each
      rw [List.flatMap_cons, partsOf_plain first, ih later]
      rfl
  have whole : packageOf path = path.dropLast := same _ plain
  rw [whole] at base
  unfold pythonBase at base
  unfold resolveImportFromBase
  split at base
  · next zero => rw [if_pos zero, base]
  · next relative =>
    split at base
    · exact nomatch base
    · next enough =>
      have taken : ∀ folder ∈ path.dropLast.take (path.dropLast.length - (level - 1)), '.' ∉ folder :=
        fun folder member => plain folder (List.mem_of_mem_take member)
      rw [if_neg relative, if_neg (by omega), same _ taken, base]

theorem names_of_runs (runs : Runs repo other module) : Names repo other module := by
  obtain ⟨known, above | ⟨path, statement, has, imports⟩⟩ := runs
  · exact ⟨known, .inl above⟩
  · refine ⟨known, .inr ⟨path, statement, has, ?_⟩⟩
    obtain ⟨tree, inside, _, _⟩ := has
    cases statement with
    | names names => exact imports
    | from_ source level names =>
      obtain ⟨package, base, rest⟩ := imports
      exact ⟨package, base_of_python (repo.undotted _ (mem_trees.mp inside)) base, rest⟩

end Edges
end DevopsCli.Core.Selection
