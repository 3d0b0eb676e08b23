import DevopsCli.Git.Worktrees

/- The prune of worktrees, git/worktree_inventory.py, step by step: its list, its looks at each
   worktree, its GitHub reads and its removals, with the agents that work in the worktrees
   meanwhile. -/
namespace DevopsCli.Worktrees
open PyStr

abbrev Linked := Sigma fun _ : Place => Tree

structure WorktreeEntry where
  path : Str
  head : Str
  branch : Option Str
  dirty : Option Nat
  locked : Bool
  lockReason : Option Str
  prunable : Bool
  prunableReason : Option Str
  isMain : Bool
  deriving DecidableEq

structure GitOperationError where
  message : Str
  operation : Str
  deriving DecidableEq

inductive PruneError where
  | git (error : GitOperationError)
  | github
  deriving DecidableEq

structure Config where
  repo : Option Str
  force : Bool := false
  confirm : Bool := true
  currentDir : Path
  resolve : Path → Path

section Looking
variable (repo : Repo)

def Repo.linkedAt (path : Path) : Option Linked :=
  repo.worktrees.entries.find? fun linked => linked.1.1 = path

def Repo.treeAt (path : Path) : Option Tree :=
  if path = repo.main.1 then some repo.mainTree else (repo.linkedAt path).map Sigma.snd

def twoPathLetters : List Char := ['C', 'R']

def namesTwoPaths (token : Str) : Bool :=
  2 ≤ token.length && (token.take 2).any (· ∈ twoPathLetters)

/-- The entries of git status --porcelain -z, where a rename or a copy takes a second token. -/
def countTokens (skip : Bool) : List Str → Nat
  | [] => 0
  | token :: rest =>
    if skip then countTokens false rest
    else if token = [] then countTokens false rest
    else 1 + countTokens (namesTwoPaths token) rest

def countDirtyPaths (path : Path) : Option Nat :=
  match repo.treeAt path with
  | none => some 0
  | some tree =>
    if tree.present = false then some 0
    else tree.status.map fun stdout =>
      if stdout = [] then 0 else countTokens false (stdout.splitOn nul)

def removeprefix (start text : Str) : Str :=
  if start <+: text then text.drop start.length else text

def branchDisplay (info : WorktreeInfo) : Option Str :=
  match info.branch with
  | some branch =>
    if branch ≠ [] then some <| removeprefix refsHeadsPrefix branch
    else if info.detached then some "HEAD detached".toList else none
  | none => if info.detached then some "HEAD detached".toList else none

def enrichWorktreeEntry (info : WorktreeInfo) : WorktreeEntry where
  path := pathText info.path
  head := info.head
  branch := branchDisplay info
  dirty := countDirtyPaths repo info.path
  locked := info.locked
  lockReason := info.lockReason
  prunable := info.prunable
  prunableReason := info.prunableReason
  isMain := info.isMain

def sizeOf (path : Str) : Option Nat :=
  (repo.treeAt (pathOf path)).bind fun tree => if tree.present then some tree.bytes else none

end Looking

structure Decision where
  entry : WorktreeEntry
  removable : Bool
  reason : Str
  deriving DecidableEq

def decidedByLocalState (config : Config) (entry : WorktreeEntry) : Option Decision :=
  if entry.isMain then some ⟨entry, false, "main worktree".toList⟩
  else if config.resolve (pathOf entry.path) <+: config.currentDir then
    some ⟨entry, false, "current directory".toList⟩
  else if config.force then some ⟨entry, true, "forced".toList⟩
  else if entry.locked then
    some ⟨entry, false,
      match entry.lockReason with
      | some reason =>
        if reason = [] then "locked".toList else "locked (".toList ++ reason ++ [')']
      | none => "locked".toList⟩
  else if entry.prunable then some ⟨entry, true, "directory is missing".toList⟩
  else
    match entry.dirty with
    | none => some ⟨entry, false, "dirty state unknown (git status failed)".toList⟩
    | some 0 => none
    | some dirty =>
      some ⟨entry, false, "dirty (".toList ++ digits dirty ++ " uncommitted path".toList ++
        (if dirty = 1 then [] else ['s']) ++ [')']⟩

def decidedByPull (entry : WorktreeEntry) : Option Nat → Decision
  | none => ⟨entry, false, "no merged pull request has this commit as its head".toList⟩
  | some number => ⟨entry, true, "head of merged pull request #".toList ++ digits number⟩

def decide_ (config : Config) (mergedPull : Str → Except PruneError (Option Nat))
    (entry : WorktreeEntry) : Except PruneError Decision :=
  match decidedByLocalState config entry with
  | some decision => .ok decision
  | none => (mergedPull entry.head).map (decidedByPull entry)

def requireRepo : Option Str → Except PruneError Str
  | some repo => .ok repo
  | none => .error (.git
      ⟨("The checkout has no GitHub origin, so the merged pull requests of its worktrees " ++
        "cannot be read; add an origin remote, or use --force").toList, "worktrees prune".toList⟩)

def mergedPull (config : Config) (answer : Option (List CommitPull)) (tip : Str) :
    Except PruneError (Option Nat) := do
  let _ ← requireRepo config.repo
  match answer with
  | none => .error .github
  | some pulls =>
    return (pulls.find? fun pull => pull.mergedAt.isSome ∧ pull.headSha = tip).map
      CommitPull.number

inductive ItemStatus where
  | refused
  | wouldRemove
  | removed
  | failed
  deriving DecidableEq

structure WorktreePruneItem where
  path : Str
  status : ItemStatus
  reason : Option Str := none
  sizeBytes : Option Nat := none
  deriving DecidableEq

structure WorktreePruneReport where
  removedCount : Nat
  refusedCount : Nat
  failedCount : Nat
  totalBytes : Nat
  items : List WorktreePruneItem
  deriving DecidableEq

structure Refusal where
  returncode : Nat
  stderr : Str

def maxErrorDetailLength : Nat := 256

def gitMessage (proc : Refusal) : Str :=
  let said := (join [' '] ((proc.stderr.splitOnP isSpace).filter (· ≠ []))).take maxErrorDetailLength
  if said = [] then "git exited with status ".toList ++ digits proc.returncode else said

def notAWorktreeToken : Str := "is not a working tree".toList

/-- The worktree that git worktree remove takes away. Git refuses the main worktree, a lock, and,
    without --force, a directory with changed or untracked files or of an unknown state. -/
def Repo.removable (repo : Repo) (force : Bool) (path : Path) : Option Linked :=
  if path = repo.main.1 then none
  else (repo.linkedAt path).filter fun linked => linked.2.lock = none ∧
    (force ∨ linked.2.present = false ∨ linked.2.status = some [])

def Repo.taken (repo : Repo) (config : Config) (decision : Decision) : Option Linked :=
  if decision.removable ∧ config.confirm then
    repo.removable config.force (pathOf decision.entry.path)
  else none

def pruneItem (config : Config) (repo : Repo) (decision : Decision) (proc : Refusal) :
    WorktreePruneItem :=
  let path := decision.entry.path
  if decision.removable = false then
    { path := path, status := .refused, reason := some decision.reason }
  else if config.confirm = false then
    { path := path, status := .wouldRemove, reason := some decision.reason
      sizeBytes := sizeOf repo path }
  else if (repo.taken config decision).isSome ∨ notAWorktreeToken <:+: gitMessage proc then
    { path := path, status := .removed, sizeBytes := sizeOf repo path }
  else { path := path, status := .failed, reason := some (gitMessage proc) }

def total (items : List WorktreePruneItem) (statuses : List ItemStatus) : Nat :=
  ((items.filter (·.status ∈ statuses)).map fun item => item.sizeBytes.getD 0).sum

def pruneReport (items : List WorktreePruneItem) : WorktreePruneReport where
  removedCount := items.countP (·.status = .removed)
  refusedCount := items.countP (·.status = .refused)
  failedCount := items.countP (·.status = .failed)
  totalBytes := total items [.removed, .wouldRemove]
  items := items

inductive Phase where
  | start
  | looking (infos : List WorktreeInfo) (entries : List WorktreeEntry)
  | deciding (entries : List WorktreeEntry) (decisions : List Decision)
  | removing (decisions : List Decision) (items : List WorktreePruneItem)
  | returned (report : WorktreePruneReport)
  | raised (error : PruneError)

structure Removal where
  place : Place
  tip : Option Sha
  left : Repo

structure State where
  repo : Repo
  phase : Phase := .start
  -- The repository as the run listed it.
  listed : Repo
  removals : List Removal := []

inductive Action where
  -- The run lists the worktrees. The list is empty when git fails.
  | list (answers : Bool)
  | look
  -- The run decides the next worktree, with GitHub's answer if it asks.
  | decide (answer : Option (List CommitPull))
  | remove (proc : Refusal)
  -- A commit, an amend or a reset in a worktree.
  | commit (place : Place) (tip : Sha)
  | checkout (place : Place) (head : Head)
  | edit (place : Place) (present : Bool) (status : Option Str) (bytes : Nat)
  | lock (place : Place) (reason : Option Line)
  -- The main worktree changes, or a branch is made or moved from it.
  | main (tree : Tree)
  | branch (name : Line) (tip : Sha)
  -- Pulls are opened, pushed to, closed and merged.
  | github (pulls : List CommitPull)

section Agents
variable (repo : Repo) (place : Place)

def Repo.setBranch (name : Line) (tip : Sha) : Repo :=
  { repo with branches := (name, tip) :: repo.branches.filter (·.1 ≠ name) }

def Repo.setTree (tree : Tree) : Repo := { repo with worktrees := repo.worktrees.insert place tree }

def Repo.commit (tip : Sha) : Option Repo := do
  let tree ← repo.worktrees.lookup place
  if tree.present = false then none
  else
    match tree.head with
    | .attached branch => return repo.setBranch branch tip
    | .detached _ => return repo.setTree place { tree with head := .detached tip }

def Repo.checkout (head : Head) : Option Repo := do
  let tree ← repo.worktrees.lookup place
  if tree.present = false then none else return repo.setTree place { tree with head := head }

def Repo.edit (present : Bool) (status : Option Str) (bytes : Nat) : Option Repo :=
  (repo.worktrees.lookup place).map fun tree =>
    repo.setTree place { tree with present := present, status := status, bytes := bytes }

def Repo.relock (reason : Option Line) : Option Repo :=
  (repo.worktrees.lookup place).map fun tree => repo.setTree place { tree with lock := reason }

def Repo.setPulls (pulls : List CommitPull) : Option Repo :=
  if ∀ pull ∈ repo.pulls, pull.mergedAt.isSome → pull ∈ pulls then some { repo with pulls := pulls }
  else none

def Repo.without : Repo := { repo with worktrees := repo.worktrees.erase place }

end Agents

section Steps
variable (config : Config) (s : State)

def State.list (answers : Bool) : Option State :=
  match s.phase with
  | .start => some { s with
      listed := s.repo
      phase := .looking (if answers then parseWorktreePorcelainZ s.repo.porcelain else []) [] }
  | _ => none

def State.look : Option State :=
  match s.phase with
  | .looking (info :: infos) entries =>
    some { s with phase := .looking infos (entries ++ [enrichWorktreeEntry s.repo info]) }
  | .looking [] entries => some { s with phase := .deciding entries [] }
  | _ => none

def State.decide (answer : Option (List CommitPull)) : Option State :=
  match s.phase with
  | .deciding (entry :: entries) decisions =>
    if answer.getD [] ⊆ s.repo.pulls then
      match decide_ config (mergedPull config answer) entry with
      | .ok decision => some { s with phase := .deciding entries (decisions ++ [decision]) }
      | .error error => some { s with phase := .raised error }
    else none
  | .deciding [] decisions => some { s with phase := .removing decisions [] }
  | _ => none

def State.take (linked : Linked) : State :=
  let left := s.repo.without linked.1
  { s with
    repo := left
    removals := s.removals ++ [⟨linked.1, s.repo.tip linked.2.head, left⟩] }

def State.remove (proc : Refusal) : Option State :=
  match s.phase with
  | .removing (decision :: decisions) items =>
    let next := ((s.repo.taken config decision).map s.take).getD s
    some { next with
      phase := .removing decisions (items ++ [pruneItem config s.repo decision proc]) }
  | .removing [] items => some { s with phase := .returned (pruneReport items) }
  | _ => none

def State.taken : Option Linked :=
  match s.phase with
  | .removing (decision :: _) _ => s.repo.taken config decision
  | _ => none

def State.agent (repo : Option Repo) : Option State := repo.map fun repo => { s with repo := repo }

def step : Action → Option State
  | .list answers => s.list answers
  | .look => s.look
  | .decide answer => s.decide config answer
  | .remove proc => s.remove config proc
  | .commit place tip => s.agent (s.repo.commit place tip)
  | .checkout place head => s.agent (s.repo.checkout place head)
  | .edit place present status bytes => s.agent (s.repo.edit place present status bytes)
  | .lock place reason => s.agent (s.repo.relock place reason)
  | .main tree => s.agent (some { s.repo with mainTree := tree })
  | .branch name tip => s.agent (some (s.repo.setBranch name tip))
  | .github pulls => s.agent (s.repo.setPulls pulls)

end Steps

/-- A commit is the head of a merged pull, or a ref reaches it over the parents of commits. -/
def Reachable (parents : Sha → List Sha) (repo : Repo) (tip : Sha) : Prop :=
  ∃ ref ∈ repo.branches.map Prod.snd ++ repo.refs,
    Relation.ReflTransGen (fun child parent => parent ∈ parents child) ref tip

def MergedHead (repo : Repo) (tip : Sha) : Prop :=
  ∃ pull ∈ repo.pulls, pull.mergedAt.isSome ∧ pull.headSha = tip.1

/-- Each commit that was the tip of a worktree when the run removed it is the head of a merged pull
    request, or a ref still reaches it. -/
def LosesNothing (parents : Sha → List Sha) (s : State) : Prop :=
  ∀ removal ∈ s.removals, ∀ tip, removal.tip = some tip →
    MergedHead removal.left tip ∨ Reachable parents removal.left tip

end DevopsCli.Worktrees
