import Mathlib

/- A git repository seen from one watched file: what stands at its path in the checkout,
   what the index has of it, and the commits. The other files are of any type, untracked ones
   that git does not ignore included. A commit stands for its own name. Nothing here is about
   one program. -/
namespace DevopsCli.Git

inductive Node where
  /-- Nothing. The folder of the path may be missing too. -/
  | missing (folder : Bool)
  /-- A file stands where a folder of the path should be. -/
  | barred
  | file (text : List Char)
  | binary (bytes : List UInt8)
  | link (dest : List Char) (target : Node)
  | folder
deriving DecidableEq

inductive Blob where
  | text (text : List Char)
  | binary (bytes : List UInt8)
  | link (dest : List Char)
deriving DecidableEq

namespace Node

def read : Node → Option (List Char)
  | .file text => some text
  | .link _ target => target.read
  | _ => none

def write (text : List Char) : Node → Option Node
  | .missing true | .file _ | .binary _ => some (.file text)
  | .link dest target => (target.write text).map (.link dest)
  | _ => none

def isLink : Node → Bool
  | .link _ _ => true
  | _ => false

def blob : Node → Option Blob
  | .file text => some (.text text)
  | .binary bytes => some (.binary bytes)
  | .link dest _ => some (.link dest)
  | _ => none

/-- A path as git checks it out. What a link leads to is not known. -/
def ofBlob : Blob → Node
  | .text text => .file text
  | .binary bytes => .binary bytes
  | .link dest => .link dest (.missing true)

@[simp] theorem blob_ofBlob (blob : Blob) : (ofBlob blob).blob = some blob := by
  cases blob <;> rfl

theorem write_regular {node after : Node} {text : List Char} (regular : node.isLink = false)
    (written : node.write text = some after) : after = .file text := by
  cases node with
  | missing folder => cases folder <;> simp_all [write]
  | barred => simp [write] at written
  | file was => simp_all [write]
  | binary bytes => simp_all [write]
  | link dest target => simp [isLink] at regular
  | folder => simp [write] at written

theorem read_regular {node : Node} {text : List Char} (regular : node.isLink = false)
    (held : node.read = some text) : node = .file text := by
  cases node with
  | file was => exact congrArg Node.file (Option.some.inj held)
  | link dest target => simp [isLink] at regular
  | missing folder => simp [read] at held
  | barred => simp [read] at held
  | binary bytes => simp [read] at held
  | folder => simp [read] at held

end Node

structure Tree (F : Type) where
  file : Option Blob
  rest : F
deriving DecidableEq

inductive Commit (F : Type) where
  | root (message : List Char) (tree : Tree F)
  | child (parent : Commit F) (message : List Char) (tree : Tree F)
deriving DecidableEq

namespace Commit
variable {F : Type}

def tree : Commit F → Tree F
  | .root _ tree => tree
  | .child _ _ tree => tree

def message : Commit F → List Char
  | .root message _ => message
  | .child _ message _ => message

def firstParents : Commit F → List (Commit F)
  | .root message tree => [.root message tree]
  | .child parent message tree => .child parent message tree :: parent.firstParents

end Commit

structure Checkout (F : Type) where
  node : Node
  /-- A folder of the path is a link. -/
  behind : Bool := false
  /-- The ignore rules cover the path. -/
  ignored : Bool := false
  mtime : Int := 0
  rest : F
  /-- Untracked repositories inside the checkout. -/
  nested : List (List Char) := []

structure Repo (F : Type) where
  head : Commit F
  index : Tree F
  checkout : Checkout F

/-- Whether a change is one of those that the filter ACMR lists: not a deletion, and not a file
    that became a link or a link that became a file. -/
def listed : Option Blob → Option Blob → Bool
  | _, none => false
  | none, some _ => true
  | some (.link was), some (.link now) => was ≠ now
  | some (.link _), some _ => false
  | some _, some (.link _) => false
  | some was, some now => was ≠ now

section Commands
variable {F : Type}

/-- What git sees of the path: nothing past a linked folder, and no ignored file that it does not
    track. -/
def Checkout.seen (checkout : Checkout F) (tracked : Bool) : Option Blob :=
  if checkout.behind = true then none
  else if checkout.ignored = true ∧ tracked = false then none
  else checkout.node.blob

namespace Repo
variable (repo : Repo F)

def addAll : Repo F :=
  { repo with index := ⟨repo.checkout.seen repo.index.file.isSome, repo.checkout.rest⟩ }

def add : Option (Repo F) :=
  if repo.checkout.behind = true then none
  else if repo.checkout.ignored = true ∧ repo.index.file = none then none
  else if repo.checkout.node.blob = none then none
  else some { repo with index := { repo.index with file := repo.checkout.node.blob } }

def resetSoft (commit : Commit F) : Repo F := { repo with head := commit }

def reset : Repo F := { repo with index := repo.head.tree }

def commit (message : List Char) : Repo F :=
  { repo with head := .child repo.head message repo.index }

/-- git reset --hard, then git clean -fd, which keeps what is ignored and the nested repositories. -/
def resetHard (commit : Commit F) : Repo F where
  head := commit
  index := commit.tree
  checkout :=
    { repo.checkout with
      node := match commit.tree.file with
        | some blob => .ofBlob blob
        | none =>
          if repo.index.file = none ∧ repo.checkout.ignored = true then repo.checkout.node
          else .missing true
      behind := false
      rest := commit.tree.rest }

def IsClean : Prop :=
  repo.index = repo.head.tree ∧
    repo.checkout.seen repo.index.file.isSome = repo.index.file ∧
    repo.checkout.rest = repo.index.rest ∧ repo.checkout.nested = []

instance [DecidableEq F] : Decidable repo.IsClean :=
  inferInstanceAs (Decidable (_ ∧ _ ∧ _ ∧ _))

/-- git add -A sees the path: no folder of it is a link, and it is tracked or not ignored. -/
def Sees : Prop :=
  repo.checkout.behind = false ∧ (repo.index.file.isSome = true ∨ repo.checkout.ignored = false)

instance : Decidable repo.Sees := inferInstanceAs (Decidable (_ ∧ _))

end Repo

variable {repo : Repo F} {commit : Commit F}

@[simp] theorem resetSoft_index : (repo.resetSoft commit).index = repo.index := rfl
@[simp] theorem resetSoft_checkout : (repo.resetSoft commit).checkout = repo.checkout := rfl

theorem addAll_file (sees : repo.Sees) : repo.addAll.index.file = repo.checkout.node.blob := by
  obtain ⟨direct, tracked | free⟩ := sees
  · simp [Repo.addAll, Checkout.seen, direct, tracked]
  · simp [Repo.addAll, Checkout.seen, direct, free]

theorem resetHard_isClean (plain : repo.checkout.nested = []) :
    (repo.resetHard commit).IsClean := by
  refine ⟨rfl, ?_, rfl, plain⟩
  cases file : commit.tree.file with
  | some blob => simp [Repo.resetHard, Checkout.seen, file]
  | none =>
    by_cases kept : repo.index.file = none ∧ repo.checkout.ignored = true
    · simp [Repo.resetHard, Checkout.seen, file, kept]
    · simp [Repo.resetHard, Checkout.seen, Node.blob, file, kept]

end Commands
end DevopsCli.Git
