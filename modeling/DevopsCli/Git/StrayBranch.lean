import DevopsCli.Git.BranchAuthors
import DevopsCli.Git.Prune
import DevopsCli.Lib.LineEnds
import DevopsCli.Lib.OptionLists
import DevopsCli.Lib.PyDict

/- The stray branch that a new worktree would meet, git/worktree_add.py: the refs of the clone as
   git reads them by name, the branches that origin listed, and the deletion. What issue a branch
   names comes from outside. -/
namespace DevopsCli.StrayBranch
open PyStr BranchAuthors
open Worktrees ( removeprefix)

def isPlainName (name : Str) : Bool :=
  name ≠ [] && name.all fun c => 32 < c.toNat && c.toNat ≠ 127

abbrev Refs := { refs : Dict Str Hash // refs.rows.all fun row => isPlainName row.1 }

def Refs.get (refs : Refs) (name : Str) : Option Hash := Dict.get refs.1 name

def Refs.pop (refs : Refs) (name : Str) : Refs :=
  ⟨Dict.pop refs.1 name, List.all_eq_true.mpr fun row mem =>
    List.all_eq_true.mp refs.2 row (List.mem_of_mem_filter mem)⟩

/-- The commits, each with what git rev-list gives of it. -/
structure Graph where
  parents : Hash → List Hash
  history : Hash → List Hash
  mem_history : ∀ tip c, c ∈ history tip ↔ Relation.ReflTransGen (fun a b => b ∈ parents a) tip c
  once : ∀ tip, (history tip).Nodup

structure Clone where
  heads : Refs
  tags : Refs
  tracking : Refs

def headsPrefix : Str := "refs/heads/".toList
def tagsPrefix : Str := "refs/tags/".toList
def trackingPrefix : Str := "refs/remotes/origin/".toList
def mainRef : Str := "origin/main".toList

inductive Failure where
  | refused (message : Str)
  | git (command : Str)
  deriving DecidableEq

section Names
variable (clone : Clone)

def fullRef (name : Str) : Option Hash :=
  if headsPrefix <+: name then clone.heads.get (name.drop headsPrefix.length)
  else if tagsPrefix <+: name then clone.tags.get (name.drop tagsPrefix.length)
  else if trackingPrefix <+: name then clone.tracking.get (name.drop trackingPrefix.length)
  else none

def resolve (name : Str) : Option Hash :=
  (fullRef clone name).or <| (fullRef clone ("refs/".toList ++ name)).or <|
    (fullRef clone (tagsPrefix ++ name)).or <| (fullRef clone (headsPrefix ++ name)).or <|
    (fullRef clone ("refs/remotes/".toList ++ name)).or
      (fullRef clone ("refs/remotes/".toList ++ name ++ "/HEAD".toList))

end Names

def refsText (start : Str) (refs : Refs) : Str :=
  textOfLines (refs.1.rows.map fun row => row.2.1 ++ '\t' :: (start ++ row.1))

def lsRemote (origin : Refs) : Str := refsText headsPrefix origin

def partitionTab (line : Str) : Str × Str :=
  (line.takeWhile (· ≠ '\t'), (line.dropWhile (· ≠ '\t')).drop 1)

def listedPair (line : Str) : Option (Str × Str) :=
  let pair := partitionTab line
  if pair.2 = [] then none else some pair

def liveRef (live : List (Str × Str)) (line : Str) : Option Str :=
  let (oid, ref) := partitionTab line
  if (oid, headsPrefix ++ removeprefix trackingPrefix ref) ∈ live then some ref else none

def liveTrackingRefs (clone : Clone) (remoteHeads : Str) : List Str :=
  let live := (splitlines remoteHeads).filterMap listedPair
  (splitlines (refsText trackingPrefix clone.tracking)).filterMap (liveRef live)

/-- git for-each-ref of the branch gives its tip, and those of the branches below the name. -/
def strayTip (clone : Clone) (branch : Str) : Str :=
  strip (textOfLines ((clone.heads.1.rows.filter fun row =>
    row.1 = branch || (branch ++ ['/']).isPrefixOf row.1).map fun row => row.2.1))

section Clearing
variable (graph : Graph) (clone : Clone)

def unheldCommits (tip : Hash) (others : List Hash) : List Hash :=
  (graph.history tip).filter fun c => others.all fun other => c ∉ graph.history other

def revListCount (ref : Str) (excluded : List Str) : Option Nat :=
  match resolve clone ref, excluded.mapM (resolve clone) with
  | some tip, some others => some (unheldCommits graph tip others).length
  | _, _ => none

def strayUnpushed (branch : Str) (count : Nat) : Str :=
  "The local branch ".toList ++ branch ++ " has ".toList ++ digits count ++
    " commit(s) that origin does not hold, and no ".toList ++
    "worktree uses it. Push the commits or delete the branch, then try again.".toList

def strayBranchReason (branch remoteHeads : Str) : Except Failure (Option Str) :=
  if strayTip clone branch = [] then .ok none
  else
    match revListCount graph clone (headsPrefix ++ branch)
        (mainRef :: liveTrackingRefs clone remoteHeads) with
    | none => .error (.git "rev-list".toList)
    | some 0 => .ok none
    | some count => .ok (some (strayUnpushed branch count))

def deleteBranch (branch : Str) : Clone := { clone with heads := clone.heads.pop branch }

def clearStrayBranch (branch remoteHeads : Str) : Except Failure Unit × Clone :=
  if strayTip clone branch = [] then (.ok (), clone)
  else
    match strayBranchReason graph clone branch remoteHeads with
    | .error failure => (.error failure, clone)
    | .ok (some why) => (.error (.refused why), clone)
    | .ok none =>
      match clone.heads.get branch with
      | some _ => (.ok (), deleteBranch clone branch)
      | none => (.error (.git "branch".toList), clone)

structure Places where
  worktrees : List (Str × Option Str)
  directory : Str
  directoryExists : Bool

variable (issueOf : Str → Option Nat)

def localHolder (places : Places) (issue : Nat) : Option Str :=
  let holds := places.worktrees.filterMap fun (path, ref) =>
    let branch := ref.map ( removeprefix headsPrefix)
    if branch.bind issueOf = some issue then
      some ("Issue ".toList ++ digits issue ++ " is held by the worktree ".toList ++ path ++
        " on branch ".toList ++ branch.getD [] ++ ['.'])
    else none
  match holds with
  | held :: _ => some held
  | [] =>
    if places.directoryExists then
      some ("Issue ".toList ++ digits issue ++ " is held by the directory ".toList ++
        places.directory ++ ", where its worktree goes.".toList)
    else none

def pushedBranches (remoteHeads : Str) (issue : Nat) : List Str :=
  (splitlines remoteHeads).filterMap fun line =>
    let name := removeprefix headsPrefix (partitionTab line).2
    if issueOf name = some issue then some name else none

def issueHolder (places : Places) (issue : Nat) (remoteHeads : Str) (branch : Option Str) :
    Except Failure (Option Str) :=
  match localHolder issueOf places issue with
  | some held => .ok (some held)
  | none =>
    match pushedBranches issueOf remoteHeads issue with
    | [] =>
      match branch with
      | none => .ok none
      | some branch => strayBranchReason graph clone branch remoteHeads
    | pushed =>
      .ok (some ("Issue ".toList ++ digits issue ++ " is held by a pushed branch: ".toList ++
        join ", ".toList (pushed.map ("origin/".toList ++ ·)) ++ ['.']))

end Clearing

section Law
variable (graph : Graph) (clone : Clone) (origin : Refs) (branch : Str)

def OnOrigin (c : Hash) : Prop :=
  (∃ tip, clone.tracking.get "main".toList = some tip ∧ c ∈ graph.history tip) ∨
    ∃ row ∈ origin.1.rows, c ∈ graph.history row.2

/-- A stray branch is deleted, when origin holds each commit of it, or stays with an error, and it
    holds the issue for which nothing else does exactly when it is refused. -/
structure StrayLaw : Prop where
  cleared : ∀ tip, clone.heads.get branch = some tip →
    (clearStrayBranch graph clone branch (lsRemote origin) = (.ok (), deleteBranch clone branch) ∧
      ∀ c ∈ graph.history tip, OnOrigin graph clone origin c) ∨
    ∃ failure, clearStrayBranch graph clone branch (lsRemote origin) = (.error failure, clone)
  absent : clone.heads.get branch = none →
    (clearStrayBranch graph clone branch (lsRemote origin)).2 = clone
  holder : ∀ issueOf places issue why, localHolder issueOf places issue = none →
    pushedBranches issueOf (lsRemote origin) issue = [] →
    (issueHolder graph clone issueOf places issue (lsRemote origin) (some branch) = .ok (some why) ↔
      (clearStrayBranch graph clone branch (lsRemote origin)).1 = .error (.refused why))

/-- The name origin/main stands for another commit than the remote-tracking ref: a tag or a local
    branch has the name. -/
def Shadow (tip : Hash) : Prop :=
  resolve clone mainRef = some tip ∧ clone.tracking.get "main".toList ≠ some tip

/-- A ref that is taken for live is not at a tip that origin listed. -/
def Unlisted (tip : Hash) : Prop :=
  ∃ name ∈ liveTrackingRefs clone (lsRemote origin), resolve clone name = some tip ∧
    ∀ row ∈ origin.1.rows, row.2 ≠ tip

/-- A name that is asked for stands for nothing, or a commit of the branch is held by none of
    them. -/
def Blocked (tip : Hash) : Prop :=
  (∃ name ∈ mainRef :: liveTrackingRefs clone (lsRemote origin), resolve clone name = none) ∨
    ∃ c ∈ graph.history tip, ∀ name ∈ mainRef :: liveTrackingRefs clone (lsRemote origin),
      ∀ held, resolve clone name = some held → c ∉ graph.history held

/-- What stands in for a ref of origin holds no commit of the branch that origin lacks, or does not
    hold the whole branch. -/
def StandInsHarmless : Prop :=
  ∀ tip, clone.heads.get branch = some tip →
    (∀ standIn, Shadow clone standIn ∨ Unlisted clone origin standIn →
      ∀ c ∈ graph.history tip, c ∈ graph.history standIn → OnOrigin graph clone origin c) ∨
    Blocked graph clone origin tip

end Law

section Counting
variable {graph : Graph} {clone : Clone} {branch : Str} {tip : Hash}

theorem fullRef_heads (name : Str) : fullRef clone (headsPrefix ++ name) = clone.heads.get name := by
  rw [fullRef, if_pos (List.prefix_append _ _), List.drop_left]

theorem resolve_head (here : clone.heads.get branch = some tip) :
    resolve clone (headsPrefix ++ branch) = some tip := by
  rw [resolve, fullRef_heads, here, Option.some_or]

theorem strayTip_some (here : clone.heads.get branch = some tip) : strayTip clone branch ≠ [] := by
  have row : (branch, tip) ∈ clone.heads.1.rows := Dict.get_eq_some.mp here
  intro blank
  obtain ⟨c, rest, text⟩ := List.exists_cons_of_ne_nil tip.2.1
  have there : c ∈ textOfLines ((clone.heads.1.rows.filter fun row =>
      row.1 = branch || (branch ++ ['/']).isPrefixOf row.1).map fun row => row.2.1) := by
    apply List.mem_flatMap.mpr
    refine ⟨tip.1, List.mem_map.mpr ⟨(branch, tip), List.mem_filter.mpr ⟨row, by simp⟩, rfl⟩, ?_⟩
    rw [text]
    exact List.mem_cons_self
  have solid := tip.isWord.2 c (by rw [text]; exact List.mem_cons_self)
  rw [strip_eq_nil_iff.mp blank c there] at solid
  cases solid

theorem count_zero_iff (origin : Refs) (here : clone.heads.get branch = some tip) :
    revListCount graph clone (headsPrefix ++ branch)
        (mainRef :: liveTrackingRefs clone (lsRemote origin)) = some 0 ↔
      ¬Blocked graph clone origin tip := by
  unfold revListCount Blocked
  rw [resolve_head here]
  cases all : (mainRef :: liveTrackingRefs clone (lsRemote origin)).mapM (resolve clone) with
  | none =>
    simp only [reduceCtorEq, false_iff, not_not]
    exact .inl (OptionLists.mapM_none.mp all)
  | some others =>
    have stands : ¬∃ name ∈ mainRef :: liveTrackingRefs clone (lsRemote origin),
        resolve clone name = none := by
      rw [← OptionLists.mapM_none, all]
      exact Option.some_ne_none _
    simp only [stands, false_or, Option.some.injEq, List.length_eq_zero_iff, unheldCommits,
      List.filter_eq_nil_iff]
    constructor
    · rintro none_ ⟨c, mem, free⟩
      apply none_ c mem
      rw [List.all_eq_true]
      intro held inside
      obtain ⟨name, asked, stands_⟩ := (OptionLists.mem_mapM all held).mp inside
      exact decide_eq_true (free name asked held stands_)
    · intro held c mem free
      rw [List.all_eq_true] at free
      refine held ⟨c, mem, fun name asked other stands_ => ?_⟩
      exact of_decide_eq_true (free other ((OptionLists.mem_mapM all other).mpr ⟨name, asked, stands_⟩))

theorem reason_cases (remoteHeads : Str) (here : clone.heads.get branch = some tip) :
    (revListCount graph clone (headsPrefix ++ branch) (mainRef :: liveTrackingRefs clone remoteHeads) =
        some 0 ∧ clearStrayBranch graph clone branch remoteHeads = (.ok (), deleteBranch clone branch)) ∨
    (revListCount graph clone (headsPrefix ++ branch) (mainRef :: liveTrackingRefs clone remoteHeads) ≠
        some 0 ∧ ∃ failure, clearStrayBranch graph clone branch remoteHeads = (.error failure, clone)) := by
  unfold clearStrayBranch strayBranchReason
  rw [if_neg (strayTip_some here), if_neg (strayTip_some here), here]
  cases revListCount graph clone (headsPrefix ++ branch)
      (mainRef :: liveTrackingRefs clone remoteHeads) with
  | none => exact .inr ⟨by simp, _, rfl⟩
  | some count =>
    cases count with
    | zero => exact .inl ⟨rfl, rfl⟩
    | succ more => exact .inr ⟨by simp, _, rfl⟩

theorem clear_absent (remoteHeads : Str) (absent : clone.heads.get branch = none) :
    (clearStrayBranch graph clone branch remoteHeads).2 = clone := by
  unfold clearStrayBranch
  split
  · rfl
  · split
    · rfl
    · rfl
    · rw [absent]

theorem holder_iff (remoteHeads why : Str) :
    strayBranchReason graph clone branch remoteHeads = .ok (some why) ↔
      (clearStrayBranch graph clone branch remoteHeads).1 = .error (.refused why) := by
  have git : ∀ failure, strayBranchReason graph clone branch remoteHeads = .error failure →
      failure = .git "rev-list".toList := by
    intro failure failed
    unfold strayBranchReason at failed
    split at failed
    · cases failed
    · split at failed
      · exact (Except.error.inj failed).symm
      · cases failed
      · cases failed
  unfold clearStrayBranch
  by_cases none_ : strayTip clone branch = []
  · rw [if_pos none_, strayBranchReason, if_pos none_]
    simp
  · rw [if_neg none_]
    cases reason : strayBranchReason graph clone branch remoteHeads with
    | error failure =>
      rw [git failure reason]
      simp
    | ok answer =>
      cases answer with
      | none => cases clone.heads.get branch <;> simp
      | some other => simp

end Counting

section Plain
variable {clone : Clone} {origin refs : Refs}

theorem partitionTab_line (hash : Hash) (ref : Str) :
    partitionTab (hash.1 ++ '\t' :: ref) = (hash.1, ref) := by
  have solid : ∀ c ∈ hash.1, (decide (c ≠ '\t')) = true := by
    intro c mem
    rw [decide_eq_true_eq]
    rintro rfl
    exact absurd (hash.isWord.2 _ mem) (by decide)
  unfold partitionTab
  rw [List.takeWhile_append_of_pos solid, List.dropWhile_append_of_pos solid,
    List.takeWhile_cons_of_neg (by simp), List.dropWhile_cons_of_neg (by simp), List.append_nil]
  rfl

theorem splitlines_refs {start : Str} (start_unbroken : Unbroken start)
    (names : ∀ row ∈ refs.1.rows, Unbroken row.1) :
    splitlines (refsText start refs) =
      refs.1.rows.map fun row => row.2.1 ++ '\t' :: (start ++ row.1) := by
  have unbroken : ∀ line ∈ refs.1.rows.map fun row => row.2.1 ++ '\t' :: (start ++ row.1),
      Unbroken line := by
    intro line mem
    obtain ⟨row, there, rfl⟩ := List.mem_map.mp mem
    intro c inside
    rcases List.mem_append.mp inside with hash | inside
    · exact unbroken_of_solid (row.2.isWord.2 c hash)
    rcases List.mem_cons.mp inside with rfl | inside
    · rfl
    rcases List.mem_append.mp inside with begin_ | name
    · exact start_unbroken c begin_
    · exact names row there c name
  have plain : ∀ line ∈ refs.1.rows.map fun row => row.2.1 ++ '\t' :: (start ++ row.1),
      chomp line = line := by
    intro line mem
    apply chomp_plain
    intro return_
    exact absurd (unbroken line mem _ return_) (by decide)
  unfold refsText
  rw [splitlines_text]
  · rw [List.map_congr_left plain, List.map_id']
  · intro line mem
    rw [ReadsWhole, plain line mem]
    exact unbroken line mem

/-- Where no line end cuts a name, each ref that is taken for live is at a tip of origin. -/
theorem not_unlisted (own : ∀ row ∈ clone.tracking.1.rows, Unbroken row.1)
    (theirs : ∀ row ∈ origin.1.rows, Unbroken row.1) (tip : Hash) : ¬Unlisted clone origin tip := by
  rintro ⟨name, live, stands, unlisted⟩
  unfold liveTrackingRefs lsRemote at live
  rw [splitlines_refs (List.all_iff_forall_prop.mp (by decide)) own,
    splitlines_refs (List.all_iff_forall_prop.mp (by decide)) theirs] at live
  obtain ⟨line, mem, read⟩ := List.mem_filterMap.mp live
  obtain ⟨row, there, rfl⟩ := List.mem_map.mp mem
  have cut : removeprefix trackingPrefix (trackingPrefix ++ row.1) = row.1 := by
    rw [ removeprefix, if_pos (List.prefix_append _ _), List.drop_left]
  unfold liveRef at read
  simp only [partitionTab_line, cut, Option.ite_none_right_eq_some, Option.some.injEq] at read
  obtain ⟨listed, rfl⟩ := read
  obtain ⟨line, mem, pair⟩ := List.mem_filterMap.mp listed
  obtain ⟨other, listed_, rfl⟩ := List.mem_map.mp mem
  simp only [listedPair, partitionTab_line, Option.ite_none_left_eq_some, Option.some.injEq,
    Prod.mk.injEq] at pair
  have same : other.2 = row.2 := Subtype.ext pair.2.1
  have apart : ¬headsPrefix <+: trackingPrefix ++ row.1 ∧ ¬tagsPrefix <+: trackingPrefix ++ row.1 :=
    ⟨Worktrees.not_startsWith rfl, Worktrees.not_startsWith rfl⟩
  have found : resolve clone (trackingPrefix ++ row.1) = some row.2 := by
    have full : fullRef clone (trackingPrefix ++ row.1) = some row.2 := by
      rw [fullRef, if_neg apart.1, if_neg apart.2, if_pos (List.prefix_append _ _), List.drop_left]
      exact Dict.get_eq_some.mpr there
    rw [resolve, full, Option.some_or]
  rw [found] at stands
  obtain rfl := Option.some.inj stands
  exact unlisted other listed_ same

end Plain

/-- The law of the stray branch holds exactly where what stands in for a ref of origin is
    harmless. -/
theorem strayLaw_iff (graph : Graph) (clone : Clone) (origin : Refs) (branch : Str) :
    StrayLaw graph clone origin branch ↔ StandInsHarmless graph clone origin branch := by
  constructor
  · intro law tip here
    rcases law.cleared tip here with ⟨_, held⟩ | ⟨failure, failed⟩
    · exact .inl fun _ _ c mem _ => held c mem
    · refine .inr (not_not.mp fun free => ?_)
      rw [← count_zero_iff origin here] at free
      rcases reason_cases (lsRemote origin) here with ⟨_, deleted⟩ | ⟨other, _⟩
      · rw [deleted] at failed
        cases failed
      · exact other free
  · intro harmless
    refine ⟨fun tip here => ?_, clear_absent _, fun issueOf places issue why free pushed => ?_⟩
    · rcases reason_cases (lsRemote origin) here with ⟨zero, deleted⟩ | ⟨_, failed⟩
      · refine .inl ⟨deleted, fun c mem => ?_⟩
        have free := (count_zero_iff origin here).mp zero
        have kept := (harmless tip here).resolve_right free
        unfold Blocked at free
        push Not at free
        obtain ⟨name, asked, held, stands, reached⟩ := free.2 c mem
        rcases List.mem_cons.mp asked with rfl | live
        · by_cases own : clone.tracking.get "main".toList = some held
          · exact .inl ⟨held, own, reached⟩
          · exact kept held (.inl ⟨stands, own⟩) c mem reached
        · by_cases listed : ∃ row ∈ origin.1.rows, row.2 = held
          · obtain ⟨row, there, rfl⟩ := listed
            exact .inr ⟨row, there, reached⟩
          · push Not at listed
            exact kept held (.inr ⟨name, live, stands, listed⟩) c mem reached
      · exact .inr failed
    · unfold issueHolder
      rw [free, pushed]
      exact holder_iff (lsRemote origin) why

theorem hex_a : isHexDigit 'a' = true := rfl
theorem hex_b : isHexDigit 'b' = true := rfl

def pushed : Hash := BranchAuthors.hash 'a' hex_a
def unpushed : Hash := BranchAuthors.hash 'b' hex_b

theorem pushed_ne : pushed ≠ unpushed := by decide

def twoCommits : Graph where
  parents c := if c = unpushed then [pushed] else []
  history tip := if tip = unpushed then [unpushed, pushed] else [tip]
  mem_history tip c := by
    have root {a b : Hash} (other : a ≠ unpushed) : Relation.ReflTransGen
        (fun a b => b ∈ if a = unpushed then [pushed] else []) a b ↔ b = a := by
      constructor
      · intro walk
        rcases walk.cases_head with same | ⟨next, edge, _⟩
        · exact same.symm
        · rw [if_neg other] at edge
          cases edge
      · rintro rfl
        exact .refl
    by_cases top : tip = unpushed
    · subst top
      rw [if_pos rfl, List.mem_cons, List.mem_singleton]
      constructor
      · rintro (rfl | rfl)
        · exact .refl
        · exact .single (by rw [if_pos rfl]; exact List.mem_singleton_self _)
      · intro walk
        rcases walk.cases_head with same | ⟨next, edge, rest⟩
        · exact .inl same.symm
        · rw [if_pos rfl, List.mem_singleton] at edge
          subst edge
          exact .inr ((root pushed_ne).mp rest)
    · rw [if_neg top, List.mem_singleton, root top]
  once tip := by
    split
    · exact List.nodup_cons.mpr ⟨by simpa using pushed_ne.symm, List.nodup_singleton _⟩
    · exact List.nodup_singleton _

def tagged : Clone where
  heads := ⟨{ rows := [("fix/1-x".toList, unpushed)] }, by decide⟩
  tags := ⟨{ rows := [(mainRef, unpushed)] }, by decide⟩
  tracking := ⟨{ rows := [("main".toList, pushed)] }, by decide⟩

def originMain : Refs := ⟨{ rows := [("main".toList, pushed)] }, by decide⟩

/-- The branch is deleted, and origin has not its commit. -/
theorem tag_deletes_unpushed :
    (clearStrayBranch twoCommits tagged "fix/1-x".toList (lsRemote originMain)).1 = .ok () ∧
    ¬StrayLaw twoCommits tagged originMain "fix/1-x".toList := by
  have deleted : (clearStrayBranch twoCommits tagged "fix/1-x".toList (lsRemote originMain)).1 =
      .ok () := by decide +kernel
  refine ⟨deleted, fun law => ?_⟩
  have here : tagged.heads.get "fix/1-x".toList = some unpushed := by decide +kernel
  rcases law.cleared unpushed here with ⟨_, held⟩ | ⟨failure, failed⟩
  · have top : unpushed ∈ twoCommits.history unpushed := by decide
    rcases held unpushed top with ⟨tip, main, reached⟩ | ⟨row, there, reached⟩
    · have tip_ : tagged.tracking.get "main".toList = some pushed := by decide +kernel
      rw [tip_] at main
      obtain rfl := Option.some.inj main
      exact absurd reached (by decide)
    · obtain rfl := List.mem_singleton.mp there
      exact absurd reached (by decide)
  · rw [failed] at deleted
    cases deleted

end DevopsCli.StrayBranch
