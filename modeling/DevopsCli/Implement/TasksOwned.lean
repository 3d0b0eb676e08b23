import DevopsCli.Implement.WipKeeper

/- Who owns tasks.md in the commits of a step: the job does, as long as each commit is made of a
   regular file that git sees, and the boxes of the own group read back as they were written. -/
namespace DevopsCli.Implement.WipKeeper
open PyStr StepFiles Git

section Statement
variable {F : Type} [DecidableEq F] (reader : Reader) (inputs : StepInputs)

def openTasks : List Nat :=
  (List.range inputs.group.tasks.length).filter fun index =>
    (inputs.group.tasks[index]?).any (!·.ticked)

def openLines : List Int := (openTasks inputs).map (lineOf inputs)

def agentTicked (text : Str) (index : Nat) : Bool :=
  match ownTasks reader inputs text with
  | some (some tasks) => (tasks[index]?).any (·.ticked) && decide (index ∈ openTasks inputs)
  | _ => false

def HoldsTicks (file : Option Blob) (indices : List Nat) : Prop :=
  ∃ lines, file = some (.text lines.flatten) ∧
    OnlyTicks (fileLines inputs.tasksMd) lines (indices.map fun index => (lineOf inputs index).toNat)

/-- Each commit of the work in progress holds the text before the run with ticks of own tasks that
    the agent had ticked and whose commands passed, then or at an earlier one of them. -/
def WipsOwned (wips : List (WipCommit F)) : Prop :=
  ∀ (k : Nat) (wip : WipCommit F), wips[k]? = some wip →
    ∃ kept : List Nat, HoldsTicks inputs wip.commit.tree.file kept ∧
      ∀ index ∈ kept, ∃ j ≤ k, ∃ seen : WipCommit F, wips[j]? = some seen ∧
        agentTicked reader inputs seen.text index = true ∧ seen.passes index = true

/-- The tasks that the commit of a done step ticks: a fix step ticks none. -/
def doneTicks : List Nat := if inputs.fix = true then [] else openTasks inputs

def lastCommit (start : Commit F) (s : State F) : Commit F :=
  ((s.wips.getLast?).map (·.commit)).getD start

/-- What the job promises of its commits in a state. -/
def Owned (start : Commit F) (s : State F) : Prop :=
  WipsOwned reader inputs s.wips ∧
    match s.phase with
    | .done_ commit => HoldsTicks inputs commit.tree.file (doneTicks inputs)
    | .stopped => s.repo.head = lastCommit start s ∧ s.repo.IsClean
    | _ => True

def readsBack (ticks : List Int) : Bool :=
  match (tickText inputs.tasksMd ticks).bind (ownGroup reader inputs) with
  | some (some own) =>
    decide ((own.tasks.filter (!·.ticked)).map (·.line) =
      (openLines inputs).filter (· ∉ ticks))
  | _ => false

/-- Each open task of the own group has its box on a line of its own, and the group reads back
    with any of its boxes ticked. -/
structure Boxed : Prop where
  lines : ∀ index ∈ openTasks inputs, 0 ≤ lineOf inputs index
  boxes : ∀ index ∈ openTasks inputs,
    ((fileLines inputs.tasksMd)[(lineOf inputs index).toNat]?).any hasBox = true
  apart : (openLines inputs).Nodup
  rereads : ∀ ticks ∈ (openLines inputs).sublists, readsBack reader inputs ticks = true

instance : Decidable (Boxed reader inputs) :=
  decidable_of_iff
    ((∀ index ∈ openTasks inputs, 0 ≤ lineOf inputs index) ∧
      (∀ index ∈ openTasks inputs,
        ((fileLines inputs.tasksMd)[(lineOf inputs index).toNat]?).any hasBox = true) ∧
      (openLines inputs).Nodup ∧
      ∀ ticks ∈ (openLines inputs).sublists, readsBack reader inputs ticks = true)
    ⟨fun held => ⟨held.1, held.2.1, held.2.2.1, held.2.2.2⟩,
      fun held => ⟨held.lines, held.boxes, held.apart, held.rereads⟩⟩

def Untouched (before after : Checkout F) : Prop :=
  after.node = before.node ∧ after.behind = before.behind ∧ after.ignored = before.ignored

def toKeep (s : State F) (run : CheckRun F) : List Nat :=
  if s.repo.checkout.mtime = s.keeper.stamp then []
  else
    match s.repo.checkout.node.read.bind (ownTasks reader inputs) with
    | some (some tasks) =>
      green run (examined s run).repo (freshTasks inputs s.keeper.kept tasks)
    | _ => []

/-- A check that keeps a task finds a regular file that git sees, and its commands leave it. -/
def CheckSafe (s : State F) (run : CheckRun F) : Prop :=
  toKeep reader inputs s run = [] ∨
    s.repo.checkout.node.isLink = false ∧ s.repo.Sees ∧
      Untouched (examined s run).repo.checkout (run.commands (examined s run).repo.checkout)

def LeavesBox (node : Node) : Prop :=
  inputs.fix = false ∧ ∀ own ∈ ownAfter reader inputs node,
    ∃ line ∈ openLines inputs, line ∉ tickedLines inputs own

/-- The exit checks run where git sees tasks.md, and their programs leave it. A box that is left
    makes the job add the file, which git refuses where it does not see it. -/
def ExitSafe (s : State F) (run : ExitRun F) : Prop :=
  (s.repo.Sees ∨ LeavesBox reader inputs s.repo.checkout.node) ∧
    ∀ repo ∈ readied reader inputs (headBack s) run,
      Untouched repo.checkout (runPrograms repo run.programs).1.checkout

def Safe (s : State F) : Action F → Prop
  | .request left run =>
    hooked inputs = true → CheckSafe reader inputs { s with repo := left } run
  | .turnEnds left reason _ run =>
    reason = false → ExitSafe reader inputs { s with repo := left } run
  | .extraTurn left reason _ strays foreign run =>
    reason = false → foreign = false →
      ExitSafe reader inputs { s with repo := tidied strays left } run
  -- The reset and the clean of git leave a nested repository.
  | .discard => s.repo.checkout.nested = []
  | _ => True

instance (before after : Checkout F) : Decidable (Untouched before after) :=
  inferInstanceAs (Decidable (_ ∧ _ ∧ _))

instance (s : State F) (run : CheckRun F) : Decidable (CheckSafe reader inputs s run) :=
  inferInstanceAs (Decidable (_ ∨ _ ∧ _ ∧ _))

instance (node : Node) : Decidable (LeavesBox reader inputs node) :=
  inferInstanceAs (Decidable (_ ∧ ∀ own ∈ ownAfter reader inputs node, _))

instance (s : State F) (run : ExitRun F) : Decidable (ExitSafe reader inputs s run) :=
  inferInstanceAs (Decidable (_ ∧ ∀ repo ∈ readied reader inputs (headBack s) run, _))

instance (s : State F) : (action : Action F) → Decidable (Safe reader inputs s action)
  | .request left run =>
    inferInstanceAs (Decidable (_ → CheckSafe reader inputs { s with repo := left } run))
  | .turnEnds left reason _ run =>
    inferInstanceAs (Decidable (reason = false → ExitSafe reader inputs { s with repo := left } run))
  | .extraTurn left reason _ strays foreign run =>
    inferInstanceAs (Decidable (reason = false → foreign = false →
      ExitSafe reader inputs { s with repo := tidied strays left } run))
  | .discard => inferInstanceAs (Decidable (s.repo.checkout.nested = []))
  | .moveTier _ | .finish _ | .raises _ => isTrue trivial

end Statement

section Ticks
variable {F : Type} [DecidableEq F] {reader : Reader} {inputs : StepInputs}

theorem mem_openTasks {index : Nat} : index ∈ openTasks inputs ↔
    ∃ task, inputs.group.tasks[index]? = some task ∧ task.ticked = false := by
  simp only [openTasks, List.mem_filter, List.mem_range, Option.any_eq_true, Bool.not_eq_true']
  constructor
  · exact fun held => held.2
  · rintro ⟨task, at_, open_⟩
    exact ⟨(List.getElem?_eq_some_iff.mp at_).1, task, at_, open_⟩

theorem filter_places {α β : Type} (p : α → Bool) (f : α → β) (none_ : β) (as : List α) :
    (((List.range as.length).filter fun i => (as[i]?).any p).map fun i =>
      ((as[i]?).map f).getD none_) = (as.filter p).map f := by
  induction as with
  | nil => rfl
  | cons a as ih =>
    rw [List.length_cons, List.range_succ_eq_map, List.filter_cons, List.filter_map, List.filter_cons]
    have later : ((fun i => ((a :: as)[i]?).any p) ∘ Nat.succ) = fun i => (as[i]?).any p := by
      funext i
      simp
    rw [later]
    by_cases held : p a = true
    · simp [held, ← ih, List.map_map, Function.comp_def]
    · simp [held, ← ih, List.map_map, Function.comp_def]

theorem openLines_eq : openLines inputs =
    (inputs.group.tasks.filter (!·.ticked)).map (·.line) :=
  filter_places (fun task : GroupTask => !task.ticked) GroupTask.line (-1) inputs.group.tasks

theorem zip_filter_sublist {α β γ : Type} (p : α → Bool) (q : β → Bool) (f : α → γ) (as : List α)
    (bs : List β) :
    (((as.zip bs).filter fun pair => q pair.2 && p pair.1).map (f ·.1)).Sublist
      ((as.filter p).map f) := by
  induction as generalizing bs with
  | nil => exact List.nil_sublist _
  | cons a as ih =>
    cases bs with
    | nil => exact List.nil_sublist _
    | cons b bs =>
      by_cases held : p a = true
      · by_cases seen : q b = true
        · simpa [held, seen] using ih bs
        · simpa [held, seen] using (ih bs).cons (f a)
      · simpa [held] using ih bs

theorem tickedLines_sublist (inputs : StepInputs) (own : Option TaskGroup) :
    (tickedLines inputs own).Sublist (openLines inputs) := by
  rw [tickedLines]
  split
  · exact List.nil_sublist _
  · cases sameTasks inputs own with
    | none => exact List.nil_sublist _
    | some tasks =>
      rw [openLines_eq]
      exact zip_filter_sublist (fun task : GroupTask => !task.ticked) GroupTask.ticked GroupTask.line
        inputs.group.tasks tasks

theorem mem_openLines {line : Int} : line ∈ openLines inputs ↔
    ∃ index ∈ openTasks inputs, lineOf inputs index = line :=
  List.mem_map

theorem tickLines_open (boxed : Boxed reader inputs) (at_ : List Int) (once : at_.Nodup)
    (open_ : ∀ line ∈ at_, line ∈ openLines inputs) :
    ∃ lines, tickLines (fileLines inputs.tasksMd) at_ = some lines ∧
      OnlyTicks (fileLines inputs.tasksMd) lines (at_.map Int.toNat) := by
  have real : ∀ line ∈ at_, 0 ≤ line := by
    intro line held
    obtain ⟨index, open_, rfl⟩ := mem_openLines.mp (open_ line held)
    exact boxed.lines index open_
  have casts : (at_.map Int.toNat).map (↑) = at_ := by
    rw [List.map_map]
    exact (List.map_congr_left fun line held => Int.toNat_of_nonneg (real line held)).trans
      (List.map_id at_)
  obtain ⟨lines, run, ticks⟩ := tickLines_only (fileLines inputs.tasksMd) (at_.map Int.toNat)
    (once.map_on fun i first j second same => by
      have := real i first
      have := real j second
      omega)
    (by
      intro n held
      obtain ⟨line, given, rfl⟩ := List.mem_map.mp held
      obtain ⟨index, open_, rfl⟩ := mem_openLines.mp (open_ line given)
      obtain ⟨line, at_, has⟩ := (Option.any_eq_true _ _).mp (boxed.boxes index open_)
      exact ⟨line, at_, of_decide_eq_true has⟩)
  exact ⟨lines, by rwa [casts] at run, ticks⟩

theorem canonical_holdsTicks (boxed : Boxed reader inputs) {kept : List Nat} {text : Str}
    (once : kept.Nodup) (open_ : ∀ index ∈ kept, index ∈ openTasks inputs)
    (written : canonical inputs kept = some text) :
    HoldsTicks inputs (some (.text text)) kept := by
  obtain ⟨lines, run, ticks⟩ := tickLines_open boxed (kept.map (lineOf inputs))
    (once.map_on fun i first j second same =>
      List.inj_on_of_nodup_map boxed.apart (open_ i first) (open_ j second) same)
    (by
      intro line held
      obtain ⟨index, given, rfl⟩ := List.mem_map.mp held
      exact mem_openLines.mpr ⟨index, open_ index given, rfl⟩)
  simp only [canonical, tickText, run, Option.map_some, Option.some.injEq] at written
  rw [List.map_map] at ticks
  exact ⟨lines, by rw [written], ticks⟩

theorem reads_back (boxed : Boxed reader inputs) {ticks : List Int} {text : Str} {own : TaskGroup}
    (part : ticks.Sublist (openLines inputs))
    (restored : tickText inputs.tasksMd ticks = some text)
    (read : ownGroup reader inputs text = some (some own)) :
    (own.tasks.filter (!·.ticked)).map (·.line) = (openLines inputs).filter (· ∉ ticks) := by
  have back := boxed.rereads ticks (List.mem_sublists.mpr part)
  simpa only [readsBack, restored, Option.bind_some, read, decide_eq_true_eq] using back

/-- The boxes that the agent ticked, then those that the restored text still has open: all the
    boxes of the own group. -/
theorem ticked_twice (boxed : Boxed reader inputs) {ticks : List Int} {text again : Str}
    {own : TaskGroup} (part : ticks.Sublist (openLines inputs))
    (restored : tickText inputs.tasksMd ticks = some text)
    (read : ownGroup reader inputs text = some (some own))
    (filled : tickText text ((own.tasks.filter (!·.ticked)).map (·.line)) = some again) :
    HoldsTicks inputs (some (.text again)) (openTasks inputs) := by
  rw [reads_back boxed part restored read] at filled
  obtain ⟨first, once, rfl⟩ := Option.map_eq_some_iff.mp restored
  obtain ⟨second, later, rfl⟩ := Option.map_eq_some_iff.mp filled
  rw [fileLines_ticked once] at later
  have both := tickLines_append (fileLines inputs.tasksMd) ticks
    ((openLines inputs).filter (· ∉ ticks))
  rw [once, Option.bind_some, later] at both
  have whole : ∀ line, line ∈ ticks ++ (openLines inputs).filter (· ∉ ticks) ↔
      line ∈ openLines inputs := by
    intro line
    by_cases held : line ∈ ticks
    · simp [held, part.subset held]
    · simp [held]
  obtain ⟨lines, run, all⟩ := tickLines_open boxed
    (ticks ++ (openLines inputs).filter (· ∉ ticks))
    (List.nodup_append.mpr ⟨boxed.apart.sublist part, boxed.apart.filter _,
      fun line held other out same => by simp [← same, held] at out⟩)
    fun line held => (whole line).mp held
  obtain rfl : second = lines := Option.some.inj (both.symm.trans run)
  refine ⟨second, rfl, all.congr fun n => ?_⟩
  have same : ((openTasks inputs).map fun index => (lineOf inputs index).toNat) =
      (openLines inputs).map Int.toNat := by
    rw [openLines, List.map_map]
    rfl
  simp only [same, List.mem_map, whole]

theorem freshTasks_ticked {text : Str} {tasks : List GroupTask} (kept : List Nat)
    (read : ownTasks reader inputs text = some (some tasks)) :
    (freshTasks inputs kept tasks).Nodup ∧ ∀ index ∈ freshTasks inputs kept tasks,
      index ∉ kept ∧ index ∈ openTasks inputs ∧ agentTicked reader inputs text index = true := by
  constructor
  · have places : ((inputs.group.tasks.zip tasks).zipIdx.map (·.2)).Nodup := by
      rw [List.zipIdx_map_snd]
      exact List.nodup_range'
    exact places.sublist (List.filter_sublist.map _)
  · intro index held
    obtain ⟨⟨⟨was, now⟩, place⟩, chosen, rfl⟩ := List.mem_map.mp held
    obtain ⟨at_, ticks⟩ := List.mem_filter.mp chosen
    have pair := List.mem_zipIdx_iff_getElem?.mp at_
    obtain ⟨before, after⟩ := List.getElem?_zip_eq_some.mp pair
    simp only [Bool.and_eq_true, Bool.not_eq_true', decide_eq_true_eq] at ticks
    obtain ⟨⟨ticked, open_⟩, unkept⟩ := ticks
    have opened := mem_openTasks.mpr ⟨was, before, open_⟩
    exact ⟨unkept, opened, by simp [agentTicked, read, after, ticked, opened]⟩

end Ticks

section Calls
variable {F : Type} {reader : Reader} {inputs : StepInputs}

section Folding
variable [DecidableEq F]

@[simp] theorem unfold_checkout (s : State F) : s.unfold.repo.checkout = s.repo.checkout := by
  unfold State.unfold
  dsimp only
  split <;> rfl

@[simp] theorem unfold_index (s : State F) : s.unfold.repo.index = s.repo.index := by
  unfold State.unfold
  dsimp only
  split <;> rfl

@[simp] theorem fold_checkout (s : State F) : s.fold.repo.checkout = s.repo.checkout := by
  unfold State.fold
  dsimp only
  split <;> rfl

@[simp] theorem fold_index (s : State F) : s.fold.repo.index = s.repo.index := by
  unfold State.fold
  dsimp only
  split <;> rfl

end Folding

@[simp] theorem stage_checkout_node (strays : Repo F → F × F) (repo : Repo F) :
    (stage strays repo).checkout.node = repo.checkout.node := rfl

theorem stage_file {strays : Repo F → F × F} (repo : Repo F) (sees : repo.Sees) :
    (stage strays repo).index.file = repo.checkout.node.blob := addAll_file sees

structure SameKept (s t : State F) : Prop where
  tip : t.keeper.tip = s.keeper.tip
  wips : t.wips = s.wips

theorem commitWip_error {s t : State F} {run : CheckRun F} {text : Str}
    (raised : commitWip inputs s run text = .error t) : SameKept s t := by
  unfold commitWip at raised
  split at raised
  · obtain rfl := Except.error.inj raised
    exact ⟨rfl, rfl⟩
  · dsimp only at raised
    split at raised
    · obtain rfl := Except.error.inj raised
      exact ⟨rfl, rfl⟩
    · exact absurd raised (by simp)

theorem commitWip_ok {s t : State F} {run : CheckRun F} {text : Str}
    (regular : s.repo.checkout.node.isLink = false) (sees : s.repo.Sees)
    (made : commitWip inputs s run text = .ok t) :
    ∃ wanted commit, canonical inputs s.keeper.kept = some wanted ∧
      commit.tree.file = some (.text wanted) ∧ t.keeper.tip = commit ∧
      t.keeper.kept = s.keeper.kept ∧ t.phase = s.phase ∧
      t.wips = s.wips ++ [⟨text, run.passes, commit⟩] := by
  unfold commitWip at made
  split at made
  · exact absurd made (by simp)
  · rename_i node found
    obtain ⟨wanted, canonical_, written⟩ := Option.bind_eq_some_iff.mp found
    obtain rfl := Node.write_regular regular written
    dsimp only at made
    split at made
    · exact absurd made (by simp)
    · obtain rfl := Except.ok.inj made
      refine ⟨wanted, _, canonical_, ?_, rfl, rfl, rfl, rfl⟩
      exact stage_file { s.repo with checkout := { s.repo.checkout with node := .file wanted } }
        sees

theorem mem_green {run : CheckRun F} {repo : Repo F} {fresh : List Nat} {index : Nat}
    (held : index ∈ green run repo fresh) : index ∈ fresh ∧ run.passes index = true := by
  unfold green at held
  split at held
  · exact absurd held List.not_mem_nil
  · exact List.mem_filter.mp held

theorem green_nodup {run : CheckRun F} {repo : Repo F} {fresh : List Nat} (once : fresh.Nodup) :
    (green run repo fresh).Nodup := by
  unfold green
  split
  · exact List.nodup_nil
  · exact once.filter _

theorem sees_untouched {repo : Repo F} {after : Checkout F} (sees : repo.Sees)
    (same : Untouched repo.checkout after) : Repo.Sees { repo with checkout := after } :=
  ⟨same.2.1.trans sees.1, sees.2.imp_right same.2.2.trans⟩

variable [DecidableEq F]

theorem examined_sees {s : State F} (run : CheckRun F) {text : Str}
    (seen : s.repo.checkout.node = .file text) (sees : s.repo.Sees) :
    (examined s run).repo.Sees := by
  have unfolded : s.unfold.repo.Sees := by
    simpa only [Repo.Sees, unfold_checkout, unfold_index] using sees
  refine ⟨unfolded.1, .inl ?_⟩
  rw [examined, stage_file _ unfolded, unfold_checkout, seen]
  rfl

theorem examined_node (s : State F) (run : CheckRun F) :
    (examined s run).repo.checkout.node = s.repo.checkout.node := by
  rw [examined, stage_checkout_node, unfold_checkout]

structure Keeps (inputs : StepInputs) (run : CheckRun F) (s t : State F) (text : Str)
    (more : List Nat) (wanted : Str) (commit : Commit F) : Prop where
  canonical : canonical inputs (s.keeper.kept ++ more) = some wanted
  file : commit.tree.file = some (.text wanted)
  tip : t.keeper.tip = commit
  kept : t.keeper.kept = s.keeper.kept ++ more
  wips : t.wips = s.wips ++ [⟨text, run.passes, commit⟩]

def KeepsNothing (s t : State F) : Prop :=
  t.phase = s.phase ∧ SameKept s t ∧ t.keeper.kept = s.keeper.kept

theorem keepGreen_ok {s t : State F} {run : CheckRun F} {text : Str} {fresh : List Nat}
    (safe : green run (examined s run).repo fresh = [] ∨
      s.repo.checkout.node = .file text ∧ s.repo.Sees ∧
        Untouched (examined s run).repo.checkout (run.commands (examined s run).repo.checkout))
    (kept : keepGreen inputs s run text fresh = .ok t) :
    KeepsNothing s t ∨ t.phase = s.phase ∧ ∃ wanted commit,
      Keeps inputs run s t text (green run (examined s run).repo fresh) wanted commit := by
  unfold keepGreen at kept
  dsimp only at kept
  split at kept
  · obtain rfl := Except.ok.inj kept
    exact .inl ⟨rfl, ⟨rfl, rfl⟩, rfl⟩
  · rename_i some_
    obtain ⟨file, sees, same⟩ := safe.resolve_left some_
    have ready := examined_sees run file sees
    have regular : (examined s run).repo.checkout.node.isLink = false := by
      rw [examined_node, file]
      rfl
    obtain ⟨wanted, commit, written, held, tip, kept, phase, wips⟩ := commitWip_ok
      (by
        dsimp only
        split
        · exact regular
        · exact (congrArg Node.isLink same.1).trans regular)
      (by
        dsimp only
        split
        · exact ready
        · exact sees_untouched ready same)
      kept
    exact .inr ⟨phase, wanted, commit, written, held, tip, kept, wips⟩

/-- A check keeps nothing, or it makes one commit with fresh tasks of its text whose commands
    pass. -/
theorem check_ok {s t : State F} {run : CheckRun F} (safe : CheckSafe reader inputs s run)
    (checked : check reader inputs s run = .ok t) :
    KeepsNothing s t ∨ t.phase = s.phase ∧ ∃ text more wanted commit,
      Keeps inputs run s t text more wanted commit ∧ more.Nodup ∧
        ∀ index ∈ more, index ∉ s.keeper.kept ∧ index ∈ openTasks inputs ∧
          agentTicked reader inputs text index = true ∧ run.passes index = true := by
  unfold check at checked
  dsimp only at checked
  split at checked
  · obtain rfl := Except.ok.inj checked
    exact .inl ⟨rfl, ⟨rfl, rfl⟩, rfl⟩
  rename_i stale
  cases seen : s.repo.checkout.node.read with
  | none =>
    simp only [seen] at checked
    obtain rfl := Except.ok.inj checked
    exact .inl ⟨rfl, ⟨rfl, rfl⟩, rfl⟩
  | some text =>
    simp only [seen] at checked
    cases read : ownTasks reader inputs text with
    | none => simp [read] at checked
    | some own =>
      cases own with
      | none =>
        simp only [read] at checked
        obtain rfl := Except.ok.inj checked
        exact .inl ⟨rfl, ⟨rfl, rfl⟩, rfl⟩
      | some tasks =>
        simp only [read] at checked
        split at checked
        · obtain rfl := Except.ok.inj checked
          exact .inl ⟨rfl, ⟨rfl, rfl⟩, rfl⟩
        · have toKeep_ : toKeep reader inputs s run =
              green run (examined s run).repo (freshTasks inputs s.keeper.kept tasks) := by
            simp only [toKeep, if_neg stale, seen, Option.bind_some, read]
          rw [CheckSafe, toKeep_] at safe
          obtain ⟨once, fresh⟩ := freshTasks_ticked s.keeper.kept read
          -- The stamp is no part of what the commands run in.
          rcases keepGreen_ok (s := { s with
              keeper := { s.keeper with stamp := s.repo.checkout.mtime } })
            (safe.imp_right fun held => ⟨Node.read_regular held.1 seen, held.2⟩) checked with
            ⟨phase, same, kept⟩ | ⟨phase, wanted, commit, keeps⟩
          · exact .inl ⟨phase, ⟨same.tip, same.wips⟩, kept⟩
          · refine .inr ⟨phase, text, _, wanted, commit,
              ⟨keeps.canonical, keeps.file, keeps.tip, keeps.kept, keeps.wips⟩, green_nodup once, ?_⟩
            intro index more
            obtain ⟨new, passes⟩ := mem_green more
            obtain ⟨unkept, open_, ticked⟩ := fresh index new
            exact ⟨unkept, open_, ticked, passes⟩

theorem check_error {s t : State F} {run : CheckRun F}
    (raised : check reader inputs s run = .error t) : SameKept s t := by
  unfold check at raised
  dsimp only at raised
  split at raised
  · exact absurd raised (by simp)
  split at raised
  · exact absurd raised (by simp)
  split at raised
  · obtain rfl := Except.error.inj raised
    exact ⟨rfl, rfl⟩
  · exact absurd raised (by simp)
  split at raised
  · exact absurd raised (by simp)
  unfold keepGreen at raised
  dsimp only at raised
  split at raised
  · exact absurd raised (by simp)
  · obtain ⟨tip, wips⟩ := commitWip_error raised
    exact ⟨tip, wips⟩

end Calls
end DevopsCli.Implement.WipKeeper
