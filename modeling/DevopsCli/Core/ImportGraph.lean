import DevopsCli.Lib.PyPath

/- The import graph of parsed Python modules, core/import_graph.py. A path is its parts below the
   root of the repository, which the names of the modules start from, and a dotted name its parts
   between the dots. -/
namespace DevopsCli.Core.ImportGraph
open PyStr PyPath

abbrev Path := List Str
abbrev Dotted := List Str

def partsOf (name : Str) : Dotted := name.splitOn '.'

def initFilename : Str := "__init__.py".toList

section Ast

structure Alias where
  name : Str
  asname : Option Str := none
  deriving DecidableEq

inductive ImportStmt where
  | names (names : List Alias)
  | from_ (module : Option Str) (level : Nat) (names : List Alias)
  deriving DecidableEq

inductive Test where
  | name (id : Str)
  | attribute (attr : Str)
  | other
  deriving DecidableEq

structure Uses where
  stores : List Str := []
  attributes : List Str := []

/-- The statements. One that holds others is a function or a class, an if statement, or any other
    block, whose handlers and cases stand for their statements. -/
inductive Stmt where
  | importing (statement : ImportStmt)
  | scope (isFunction : Bool) (name : Str) (uses : Uses) (body : List Stmt)
  | branch (test : Test) (uses : Uses) (body orelse : List Stmt)
  | block (uses : Uses) (children : List Stmt)

/-- A parsed module, with the names in its `__all__` that it does not bind itself. -/
structure Tree where
  body : List Stmt
  exports : List Str := []

end Ast

def stemOf (name : Str) : Str := name.take (name.length - (suffixOf name).length)

def moduleName (path : Path) : Dotted :=
  let parts := path.dropLast ++ [stemOf (path.getLastD [])]
  let parts := if 1 < parts.length ∧ parts.getLast? = some "__init__".toList then parts.dropLast
    else parts
  parts.flatMap partsOf

def typeChecking : Str := "TYPE_CHECKING".toList

def isTypeCheckingGuard : Test → Bool
  | .name id => id == typeChecking
  | .attribute attr => attr == typeChecking
  | .other => false

section Runtime
variable (functionBodies : Bool)

mutual

def runtimeImports : Stmt → List ImportStmt
  | .importing statement => [statement]
  | .scope isFunction _ _ body =>
    if isFunction && !functionBodies then [] else runtimeImportsOf body
  | .branch test _ body orelse =>
    if isTypeCheckingGuard test then runtimeImportsOf orelse
    else runtimeImportsOf body ++ runtimeImportsOf orelse
  | .block _ children => runtimeImportsOf children

def runtimeImportsOf : List Stmt → List ImportStmt
  | [] => []
  | node :: pending => runtimeImports node ++ runtimeImportsOf pending

end

end Runtime

def isKnown (knownModules : List Dotted) (module : Dotted) : Bool := decide (module ∈ knownModules)

section Resolve
variable (knownModules : List Dotted)

def longestKnownFrom : List Str → Option Dotted
  | [] => none
  | part :: above =>
    if (part :: above).reverse ∈ knownModules then some (part :: above).reverse
    else longestKnownFrom above

def longestKnownModule (dotted : Dotted) : Option Dotted := longestKnownFrom knownModules dotted.reverse

def moduleParts : Option Str → Dotted
  | none => []
  | some name => if name = [] then [] else partsOf name

def resolveImportFromBase (module : Option Str) (level : Nat) (pkgParts : List Str) : Option Dotted :=
  if level = 0 then some (moduleParts module)
  else if pkgParts.length < level - 1 then none
  else some ((pkgParts.take (pkgParts.length - (level - 1))).flatMap partsOf ++ moduleParts module)

def resolveFromAlias (base : Dotted) (aliasName : Str) : Option Dotted :=
  if base ++ partsOf aliasName ∈ knownModules then some (base ++ partsOf aliasName)
  else longestKnownModule knownModules base

def resolveStatementTargets (pkgParts : List Str) : ImportStmt → List Dotted
  | .names names => names.filterMap fun «alias» => longestKnownModule knownModules (partsOf «alias».name)
  | .from_ module level names =>
    match resolveImportFromBase module level pkgParts with
    | none => []
    | some [] => []
    | some base => names.filterMap fun «alias» => resolveFromAlias knownModules base «alias».name

end Resolve

def modulesOf (trees : List (Path × Tree)) : List Dotted := trees.map fun row => moduleName row.1

def buildImportGraph (trees : List (Path × Tree)) (functionBodies : Bool) (module : Dotted) :
    List Dotted :=
  trees.flatMap fun (path, tree) =>
    if moduleName path = module then
      ((runtimeImportsOf functionBodies tree.body).flatMap
        (resolveStatementTargets (modulesOf trees) path.dropLast)).filter (· ≠ module)
    else []

end DevopsCli.Core.ImportGraph
