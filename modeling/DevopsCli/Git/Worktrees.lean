import DevopsCli.Lib.PyStr

/- The worktrees of a repository, git/worktree_inventory.py: what git worktree list prints of them,
   and the records that the inventory reads from it. A commit stands for its hash. -/
namespace DevopsCli.Worktrees
open PyStr

def nul : Char := '\x00'

abbrev Line := { text : Str // nul ∉ text }

abbrev Sha := Line

abbrev Path := List Str

def PlainPart (part : Str) : Prop := part ≠ [] ∧ part ≠ ['.'] ∧ '/' ∉ part ∧ nul ∉ part

instance (part : Str) : Decidable (PlainPart part) := inferInstanceAs (Decidable (_ ∧ _))

abbrev Place := { path : Path // ∀ part ∈ path, PlainPart part }

def pathOf (text : Str) : Path := (text.splitOn '/').filter fun part => part ≠ [] ∧ part ≠ ['.']

def pathText (path : Path) : Str := if path = [] then ['/'] else path.flatMap ('/' :: ·)

inductive Head where
  | attached (branch : Line)
  | detached (tip : Sha)
  deriving DecidableEq

/-- One worktree: whether its directory is there, and what git status prints in it, if it works. -/
structure Tree where
  head : Head
  lock : Option Line := none
  present : Bool := true
  status : Option Str := some []
  bytes : Nat := 0
  deriving DecidableEq

def Head.isDetached : Head → Bool
  | .attached _ => false
  | .detached _ => true

structure CommitPull where
  number : Nat
  mergedAt : Option Str
  headSha : Str
  deriving DecidableEq

structure Repo where
  branches : List (Line × Sha)
  -- Tags and remote branches.
  refs : List Sha
  pulls : List CommitPull
  main : Place
  mainTree : Tree
  bare : Bool := false
  worktrees : AList fun _ : Place => Tree

def Repo.tip (repo : Repo) : Head → Option Sha
  | .attached branch => repo.branches.lookup branch
  | .detached tip => some tip

def worktreePrefix : Str := "worktree ".toList
def headPrefix : Str := "HEAD ".toList
def branchPrefix : Str := "branch ".toList
def lockedToken : Str := "locked".toList
def prunableToken : Str := "prunable".toList
def detachedToken : Str := "detached".toList
def bareToken : Str := "bare".toList
def refsHeadsPrefix : Str := "refs/heads/".toList

def branchText : Head → Option Str
  | .attached branch => some (refsHeadsPrefix ++ branch.1)
  | .detached _ => none

section Printing
variable (repo : Repo)

def Repo.headText (head : Head) : Str :=
  match repo.tip head with
  | some tip => tip.1
  | none => List.replicate 40 '0'

def Repo.headTokens (head : Head) : List Str :=
  [headPrefix ++ repo.headText head,
    match head with
    | .attached branch => branchPrefix ++ refsHeadsPrefix ++ branch.1
    | .detached _ => detachedToken]

def lockTokens (tree : Tree) : List Str :=
  match tree.lock with
  | none => []
  | some reason => [if reason.1 = [] then lockedToken else lockedToken ++ ' ' :: reason.1]

/-- git calls no locked worktree prunable. -/
def Tree.Gone (tree : Tree) : Prop := tree.present = false ∧ tree.lock = none

instance (tree : Tree) : Decidable tree.Gone := inferInstanceAs (Decidable (_ ∧ _))

def goneReason : Str := "gitdir file points to non-existent location".toList

def prunableTokens (tree : Tree) : List Str :=
  if tree.Gone then [prunableToken ++ ' ' :: goneReason] else []

def Repo.mainTokens : List Str :=
  (worktreePrefix ++ pathText repo.main.1) ::
    if repo.bare then [bareToken] else repo.headTokens repo.mainTree.head

def Repo.treeTokens (linked : Sigma fun _ : Place => Tree) : List Str :=
  (worktreePrefix ++ pathText linked.1.1) ::
    (repo.headTokens linked.2.head ++ lockTokens linked.2 ++ prunableTokens linked.2)

def printRecord (record : List Str) : Str := record.flatMap (· ++ [nul]) ++ [nul]

def Repo.porcelain : Str :=
  (repo.mainTokens :: repo.worktrees.entries.map repo.treeTokens).flatMap printRecord

end Printing

structure Fields where
  head : Str := []
  branch : Option Str := none
  detached : Bool := false
  bare : Bool := false
  locked : Bool := false
  lockReason : Option Str := none
  prunable : Bool := false
  prunableReason : Option Str := none
  deriving DecidableEq

structure Record extends Fields where
  path : Option Path := none

structure WorktreeInfo extends Fields where
  path : Path
  isMain : Bool
  deriving DecidableEq

def orNone (text : Str) : Option Str := if text = [] then none else some text

def readToken (record : Record) (token : Str) : Record :=
  if worktreePrefix <+: token then
    { record with path := some (pathOf (token.drop worktreePrefix.length)) }
  else if headPrefix <+: token then
    { record with head := token.drop headPrefix.length }
  else if branchPrefix <+: token then
    { record with branch := some (token.drop branchPrefix.length) }
  else if token = detachedToken then { record with detached := true }
  else if token = bareToken then { record with bare := true }
  else if lockedToken <+: token then
    { record with
      locked := true, lockReason := orNone (strip (token.drop lockedToken.length)) }
  else if prunableToken <+: token then
    { record with
      prunable := true, prunableReason := orNone (strip (token.drop prunableToken.length)) }
  else record

def parseSingleRecord (record : List Str) (isMain : Bool) : Option WorktreeInfo :=
  let read := record.foldl readToken {}
  read.path.map fun path => { read.toFields with path := path, isMain := isMain }

def recordsFrom (current : List Str) : List Str → List (List Str)
  | [] => if current = [] then [] else [current]
  | token :: rest =>
    if token = [] then
      if current = [] then recordsFrom [] rest else current :: recordsFrom [] rest
    else recordsFrom (current ++ [token]) rest

def parseWorktreePorcelainZ (rawOutput : Str) : List WorktreeInfo :=
  match recordsFrom [] (rawOutput.splitOn nul) with
  | [] => []
  | first :: rest =>
    (parseSingleRecord first true).toList ++ rest.filterMap (parseSingleRecord · false)

section Texts
variable {path : Path} {text rest : Str} {c : Char}

theorem splitOn_append_clear (clear : c ∉ text) :
    (text ++ rest).splitOn c = (rest.splitOn c).modifyHead (text ++ ·) := by
  induction text with
  | nil =>
    rw [List.nil_append]
    cases rest.splitOn c with
    | nil => rfl
    | cons first others => rfl
  | cons d text ih =>
    have differs : (d == c) = false := beq_eq_false_iff_ne.mpr (List.ne_of_not_mem_cons clear).symm
    rw [List.cons_append, List.splitOn_cons_eq_if_modifyHead, differs,
      ih (List.not_mem_of_not_mem_cons clear)]
    cases rest.splitOn c with
    | nil => rfl
    | cons first others => rfl

theorem splitOn_slashes (plain : ∀ part ∈ path, PlainPart part) :
    (path.flatMap ('/' :: ·)).splitOn '/' = [] :: path := by
  induction path with
  | nil => rfl
  | cons part rest ih =>
    have clear : '/' ∉ part := (plain part List.mem_cons_self).2.2.1
    have others := ih fun one mem => plain one (List.mem_cons_of_mem _ mem)
    rw [List.flatMap_cons, List.cons_append, List.splitOn_cons_eq_if_modifyHead, beq_self_eq_true,
      if_pos rfl, splitOn_append_clear clear, others, List.modifyHead_cons, List.append_nil]

theorem pathOf_pathText (plain : ∀ part ∈ path, PlainPart part) : pathOf (pathText path) = path := by
  have kept : path.filter (fun part => part ≠ [] ∧ part ≠ ['.']) = path :=
    List.filter_eq_self.mpr fun part mem =>
      decide_eq_true ⟨(plain part mem).1, (plain part mem).2.1⟩
  by_cases root : path = []
  · rw [root]
    rfl
  · rw [pathText, if_neg root, pathOf, splitOn_slashes plain, List.filter_cons_of_neg (by simp), kept]

theorem pathText_clear (plain : ∀ part ∈ path, PlainPart part) : nul ∉ pathText path := by
  rw [pathText]
  split_ifs with root
  · decide
  · intro mem
    obtain ⟨part, inside, mem⟩ := List.mem_flatMap.mp mem
    rcases List.mem_cons.mp mem with slash | mem
    · exact absurd slash (by decide)
    · exact (plain part inside).2.2.2 mem

end Texts

section RoundTrip
variable {repo : Repo} {records : List (List Str)} {record rest : List Str} {text : Str}

theorem splitOn_token (clear : nul ∉ text) (more : Str) :
    (text ++ nul :: more).splitOn nul = text :: more.splitOn nul := by
  rw [splitOn_append_clear clear, List.splitOn_cons_eq_if_modifyHead, beq_self_eq_true, if_pos rfl,
    List.modifyHead_cons, List.append_nil]

/-- The printed records, split at each NUL: the tokens, with an empty one after each record. -/
theorem splitOn_printed (clear : ∀ record ∈ records, ∀ token ∈ record, nul ∉ token) :
    (records.flatMap printRecord).splitOn nul = records.flatMap (· ++ [[]]) ++ [[]] := by
  have one (record : List Str) (clear : ∀ token ∈ record, nul ∉ token) (more : Str) :
      (printRecord record ++ more).splitOn nul = record ++ [] :: more.splitOn nul := by
    induction record with
    | nil => exact splitOn_token (List.not_mem_nil) more
    | cons token record ih =>
      have next := ih fun other mem => clear other (List.mem_cons_of_mem _ mem)
      rw [printRecord, List.flatMap_cons, List.append_assoc, List.append_assoc, List.append_assoc,
        List.singleton_append, splitOn_token (clear token List.mem_cons_self), ← List.append_assoc]
      exact congrArg (token :: ·) next
  induction records with
  | nil => rfl
  | cons record records ih =>
    have next := ih fun other mem => clear other (List.mem_cons_of_mem _ mem)
    rw [List.flatMap_cons, one record (clear record List.mem_cons_self), next, List.flatMap_cons,
      List.append_assoc, List.append_assoc, List.singleton_append]

theorem recordsFrom_record (full : ∀ token ∈ record, token ≠ []) (some_ : record ≠ []) :
    recordsFrom [] (record ++ [] :: rest) = record :: recordsFrom [] rest := by
  have more (current : List Str) (started : current ++ record ≠ []) :
      recordsFrom current (record ++ [] :: rest) = (current ++ record) :: recordsFrom [] rest := by
    clear some_
    induction record generalizing current with
    | nil =>
      rw [List.append_nil] at started
      rw [List.nil_append, recordsFrom, if_pos rfl, if_neg started, List.append_nil]
    | cons token record ih =>
      rw [List.cons_append, recordsFrom, if_neg (full token List.mem_cons_self),
        ih (fun other mem => full other (List.mem_cons_of_mem _ mem)) _ (by simp)]
      simp
  exact more [] some_

theorem recordsFrom_printed (full : ∀ record ∈ records, record ≠ [] ∧ ∀ token ∈ record, token ≠ []) :
    recordsFrom [] (records.flatMap (· ++ [[]]) ++ [[]]) = records := by
  induction records with
  | nil => rfl
  | cons record records ih =>
    obtain ⟨some_, tokens⟩ := full record List.mem_cons_self
    rw [List.flatMap_cons, List.append_assoc, List.append_assoc, List.singleton_append,
      recordsFrom_record tokens some_, ih fun other mem => full other (List.mem_cons_of_mem _ mem)]

def Repo.mainInfo (repo : Repo) : WorktreeInfo :=
  { path := repo.main.1
    isMain := true
    head := if repo.bare then [] else repo.headText repo.mainTree.head
    branch := if repo.bare then none else branchText repo.mainTree.head
    detached := !repo.bare && repo.mainTree.head.isDetached
    bare := repo.bare }

def Repo.treeInfo (repo : Repo) (linked : Sigma fun _ : Place => Tree) : WorktreeInfo :=
  { path := linked.1.1
    isMain := false
    head := repo.headText linked.2.head
    branch := branchText linked.2.head
    detached := linked.2.head.isDetached
    locked := linked.2.lock.isSome
    lockReason := linked.2.lock.bind fun reason => orNone (strip reason.1)
    prunable := linked.2.Gone
    prunableReason := if linked.2.Gone then some goneReason else none }

theorem not_startsWith {start text : Str} (differs : start.isPrefixOf text = false) :
    ¬ start <+: text := by
  rw [← List.isPrefixOf_iff_prefix, differs]
  exact Bool.false_ne_true

theorem ne_of_head {a b : Str} (differs : (a.head? == b.head?) = false) : a ≠ b := by
  rintro rfl
  rw [beq_self_eq_true] at differs
  exact Bool.noConfusion differs

section Tokens
variable (record : Record) (text : Str)

theorem readToken_path :
    readToken record (worktreePrefix ++ text) = { record with path := some (pathOf text) } := by
  rw [readToken, if_pos (List.prefix_append _ _), List.drop_left]

theorem readToken_head :
    readToken record (headPrefix ++ text) = { record with head := text } := by
  rw [readToken, if_neg (not_startsWith rfl), if_pos (List.prefix_append _ _), List.drop_left]

theorem readToken_branch :
    readToken record (branchPrefix ++ text) = { record with branch := some text } := by
  rw [readToken, if_neg (not_startsWith rfl), if_neg (not_startsWith rfl),
    if_pos (List.prefix_append _ _), List.drop_left]

theorem readToken_detached : readToken record detachedToken = { record with detached := true } := by
  rw [readToken, if_neg (not_startsWith rfl), if_neg (not_startsWith rfl),
    if_neg (not_startsWith rfl), if_pos rfl]

theorem readToken_bare : readToken record bareToken = { record with bare := true } := by
  rw [readToken, if_neg (not_startsWith rfl), if_neg (not_startsWith rfl),
    if_neg (not_startsWith rfl), if_neg (ne_of_head rfl), if_pos rfl]

theorem readToken_locked : readToken record (lockedToken ++ text) =
    { record with locked := true, lockReason := orNone (strip text) } := by
  rw [readToken, if_neg (not_startsWith rfl), if_neg (not_startsWith rfl),
    if_neg (not_startsWith rfl), if_neg (ne_of_head rfl), if_neg (ne_of_head rfl),
    if_pos (List.prefix_append _ _), List.drop_left]

theorem readToken_prunable : readToken record (prunableToken ++ text) =
    { record with prunable := true, prunableReason := orNone (strip text) } := by
  rw [readToken, if_neg (not_startsWith rfl), if_neg (not_startsWith rfl),
    if_neg (not_startsWith rfl), if_neg (ne_of_head rfl), if_neg (ne_of_head rfl),
    if_neg (not_startsWith rfl), if_pos (List.prefix_append _ _), List.drop_left]

end Tokens

theorem strip_space (text : Str) : strip (' ' :: text) = strip text := rfl

theorem read_headTokens (record : Record) (head : Head) :
    (repo.headTokens head).foldl readToken record =
      { record with
        head := repo.headText head
        branch := (branchText head).or record.branch
        detached := head.isDetached || record.detached } := by
  cases head with
  | attached branch =>
    rw [Repo.headTokens, List.foldl_cons, readToken_head, List.foldl_cons, List.append_assoc,
      readToken_branch]
    rfl
  | detached tip =>
    rw [Repo.headTokens, List.foldl_cons, readToken_head, List.foldl_cons, readToken_detached]
    rfl

theorem read_lockTokens (record : Record) (tree : Tree) (unlocked : record.locked = false)
    (unsaid : record.lockReason = none) :
    (lockTokens tree).foldl readToken record =
      { record with
        locked := tree.lock.isSome
        lockReason := tree.lock.bind fun reason => orNone (strip reason.1) } := by
  cases lock : tree.lock with
  | none =>
    rw [lockTokens, lock, Option.isSome_none, Option.bind_none, ← unlocked, ← unsaid]
    rfl
  | some reason =>
    rw [lockTokens, lock]
    show [if reason.1 = [] then lockedToken else lockedToken ++ ' ' :: reason.1].foldl readToken record = _
    by_cases silent : reason.1 = []
    · have bare := readToken_locked record []
      rw [List.append_nil] at bare
      rw [if_pos silent, List.foldl_cons, bare, Option.isSome_some, Option.bind_some, silent]
      rfl
    · rw [if_neg silent, List.foldl_cons, readToken_locked, strip_space]
      rfl

theorem read_prunableTokens (record : Record) (tree : Tree) (kept : record.prunable = false)
    (unsaid : record.prunableReason = none) :
    (prunableTokens tree).foldl readToken record =
      { record with
        prunable := tree.Gone
        prunableReason := if tree.Gone then some goneReason else none } := by
  by_cases gone : tree.Gone
  · rw [prunableTokens, if_pos gone, List.foldl_cons, readToken_prunable, strip_space, if_pos gone,
      decide_eq_true gone]
    rfl
  · rw [prunableTokens, if_neg gone, if_neg gone, decide_eq_false gone, ← kept, ← unsaid]
    rfl

theorem parse_treeTokens (linked : Sigma fun _ : Place => Tree) :
    parseSingleRecord (repo.treeTokens linked) false = some (repo.treeInfo linked) := by
  rw [parseSingleRecord, Repo.treeTokens, List.foldl_cons, readToken_path,
    pathOf_pathText linked.1.2, List.foldl_append, List.foldl_append, read_headTokens,
    read_lockTokens _ _ rfl rfl, read_prunableTokens _ _ rfl rfl]
  simp [Repo.treeInfo]

theorem parse_mainTokens : parseSingleRecord repo.mainTokens true = some repo.mainInfo := by
  rw [parseSingleRecord, Repo.mainTokens, List.foldl_cons, readToken_path,
    pathOf_pathText repo.main.2]
  by_cases bare : repo.bare = true
  · rw [if_pos bare, List.foldl_cons, readToken_bare]
    simp [Repo.mainInfo, bare]
  · rw [if_neg bare, read_headTokens]
    simp [Repo.mainInfo, bare]

def Token (token : Str) : Prop := token ≠ [] ∧ nul ∉ token

theorem token_append {start : Str} (known : start ≠ [] ∧ nul ∉ start) (clear : nul ∉ text) :
    Token (start ++ text) :=
  ⟨List.append_ne_nil_of_left_ne_nil known.1 text,
    fun mem => (List.mem_append.mp mem).elim known.2 clear⟩

theorem token_headTokens (head : Head) : ∀ token ∈ repo.headTokens head, Token token := by
  have hash : nul ∉ repo.headText head := by
    rw [Repo.headText]
    cases repo.tip head with
    | none => exact fun mem => absurd (List.eq_of_mem_replicate mem) (by decide)
    | some tip => exact tip.2
  cases head with
  | attached branch =>
    intro token mem
    rcases List.mem_cons.mp mem with rfl | mem
    · exact token_append (by decide) hash
    · rw [List.mem_singleton.mp mem]
      exact token_append (by decide) branch.2
  | detached tip =>
    have last : Token detachedToken := ⟨by decide, by decide⟩
    intro token mem
    rcases List.mem_cons.mp mem with rfl | mem
    · exact token_append (by decide) hash
    · rw [List.mem_singleton.mp mem]
      exact last

theorem token_lockTokens (tree : Tree) : ∀ token ∈ lockTokens tree, Token token := by
  intro token mem
  cases lock : tree.lock with
  | none =>
    rw [lockTokens, lock] at mem
    cases mem
  | some reason =>
    rw [lockTokens, lock] at mem
    rw [List.mem_singleton.mp mem]
    split_ifs
    · exact ⟨by decide, by decide⟩
    · exact token_append (by decide) (List.not_mem_cons_of_ne_of_not_mem (by decide) reason.2)

theorem token_prunableTokens (tree : Tree) : ∀ token ∈ prunableTokens tree, Token token := by
  intro token mem
  rw [prunableTokens] at mem
  split_ifs at mem
  · rw [List.mem_singleton.mp mem]
    exact token_append (by decide) (by decide)
  · cases mem

theorem token_path (place : Place) : Token (worktreePrefix ++ pathText place.1) :=
  token_append (by decide) (pathText_clear place.2)

theorem token_treeTokens (linked : Sigma fun _ : Place => Tree) :
    ∀ token ∈ repo.treeTokens linked, Token token := by
  intro token mem
  simp only [Repo.treeTokens, List.mem_cons, List.mem_append] at mem
  rcases mem with rfl | (mem | mem) | mem
  · exact token_path linked.1
  · exact token_headTokens linked.2.head token mem
  · exact token_lockTokens linked.2 token mem
  · exact token_prunableTokens linked.2 token mem

theorem token_mainTokens : ∀ token ∈ repo.mainTokens, Token token := by
  intro token mem
  rcases List.mem_cons.mp mem with rfl | mem
  · exact token_path repo.main
  · split_ifs at mem
    · rw [List.mem_singleton.mp mem]
      exact ⟨by decide, by decide⟩
    · exact token_headTokens repo.mainTree.head token mem

theorem parse_porcelain (repo : Repo) : parseWorktreePorcelainZ repo.porcelain =
    repo.mainInfo :: repo.worktrees.entries.map repo.treeInfo := by
  have tokens : ∀ record ∈ repo.mainTokens :: repo.worktrees.entries.map repo.treeTokens,
      record ≠ [] ∧ ∀ token ∈ record, Token token := by
    intro record mem
    rcases List.mem_cons.mp mem with rfl | mem
    · exact ⟨List.cons_ne_nil _ _, token_mainTokens⟩
    · obtain ⟨linked, _, rfl⟩ := List.mem_map.mp mem
      exact ⟨List.cons_ne_nil _ _, token_treeTokens linked⟩
  have records : recordsFrom [] (repo.porcelain.splitOn nul) =
      repo.mainTokens :: repo.worktrees.entries.map repo.treeTokens := by
    rw [Repo.porcelain, splitOn_printed fun record mem token inside =>
      ((tokens record mem).2 token inside).2]
    exact recordsFrom_printed fun record mem =>
      ⟨(tokens record mem).1, fun token inside => ((tokens record mem).2 token inside).1⟩
  have linked : (repo.worktrees.entries.map repo.treeTokens).filterMap (parseSingleRecord · false) =
      repo.worktrees.entries.map repo.treeInfo := by
    rw [List.filterMap_map, ← List.filterMap_eq_map]
    exact List.filterMap_congr fun linked _ => parse_treeTokens linked
  rw [parseWorktreePorcelainZ, records]
  show (parseSingleRecord repo.mainTokens true).toList ++ _ = _
  rw [parse_mainTokens, linked]
  rfl

end RoundTrip
end DevopsCli.Worktrees
