import DevopsCli.Implement.TasksOwned

/- The runs of a step: what each call of the job keeps, and with it every state that a run
   reaches. -/
namespace DevopsCli.Implement.WipKeeper
open PyStr StepFiles Git

section Exit
variable {F : Type} {reader : Reader} {inputs : StepInputs}

theorem restoreTasks_some {checkout after : Checkout F} {clock : Int}
    (restored : restoreTasks reader inputs checkout clock = some after) :
    ∃ own wanted, ownAfter reader inputs checkout.node = some own ∧
      tickText inputs.tasksMd (tickedLines inputs own) = some wanted ∧
      after.node = .file wanted ∧ after.behind = checkout.behind ∧
      after.ignored = checkout.ignored := by
  obtain ⟨own, read, restored⟩ := Option.bind_eq_some_iff.mp restored
  obtain ⟨wanted, ticks, restored⟩ := Option.bind_eq_some_iff.mp restored
  refine ⟨own, wanted, read, ticks, ?_⟩
  split at restored
  · rename_i held
    obtain rfl := Option.some.inj restored
    exact ⟨Node.read_regular held.1 held.2, rfl, rfl⟩
  split at restored
  · exact absurd restored (by simp)
  · obtain rfl := Option.some.inj restored
    exact ⟨rfl, rfl, rfl⟩

theorem runPrograms_index (repo : Repo F) (programs : List (Program F)) :
    (runPrograms repo programs).1.index.file = repo.index.file := by
  induction programs generalizing repo with
  | nil => rfl
  | cons program later ih =>
    rw [runPrograms]
    split
    · rfl
    · rw [ih]
      rfl

theorem tickGroup_passes {repo after : Repo F} {clock : Int} {text : Str}
    (file : repo.checkout.node = .file text)
    (ticked : tickGroup reader inputs repo clock = (after, .passes)) :
    inputs.fix = true ∧ after = repo ∨
      inputs.fix = false ∧ ∃ own, ownGroup reader inputs text = some (some own) ∧
        ((own.tasks.filter (!·.ticked)).map (·.line) = [] ∧ after = repo ∨
          ∃ again, tickText text ((own.tasks.filter (!·.ticked)).map (·.line)) = some again ∧
            after.index.file = some (.text again)) := by
  unfold tickGroup at ticked
  split at ticked
  · rename_i fix
    exact .inl ⟨fix, (Prod.mk.inj ticked).1.symm⟩
  rename_i step
  refine .inr ⟨Bool.eq_false_iff.mpr step, ?_⟩
  have read : repo.checkout.node.read = some text := by rw [file]; rfl
  have after_ : ownAfter reader inputs repo.checkout.node = ownGroup reader inputs text := by
    rw [ownAfter, read]
  rw [after_, read] at ticked
  cases found : ownGroup reader inputs text with
  | none => simp [found] at ticked
  | some own =>
    cases own with
    | none => simp [found] at ticked
    | some own =>
      refine ⟨own, rfl, ?_⟩
      simp only [found] at ticked
      split at ticked
      · rename_i done_
        exact .inl ⟨done_, (Prod.mk.inj ticked).1.symm⟩
      split at ticked
      · exact absurd (Prod.mk.inj ticked).2 (by simp)
      · rename_i node written
        obtain ⟨again, filled, written⟩ := Option.bind_eq_some_iff.mp written
        rw [file] at written
        obtain rfl := Option.some.inj written
        refine .inr ⟨again, filled, ?_⟩
        split at ticked
        · exact absurd (Prod.mk.inj ticked).2 (by simp)
        · rename_i added add_
          obtain ⟨rfl, -⟩ := Prod.mk.inj ticked
          simp only [Repo.add] at add_
          split_ifs at add_
          exact congrArg (·.index.file) (Option.some.inj add_).symm

theorem tickText_nil (text : Str) : tickText text [] = some text := by
  rw [tickText, tickLines, Option.map_some, fileLines_flatten]

theorem judge_passes {repo after : Repo F} {run : ExitRun F}
    (judged : judge reader inputs repo run = (after, .passes)) :
    tickGroup reader inputs (runPrograms repo run.programs).1 run.clock = (after, .passes) := by
  unfold judge at judged
  split at judged
  · exact absurd (Prod.mk.inj judged).2 (by simp)
  split at judged
  · exact absurd (Prod.mk.inj judged).2 (by simp)
  split at judged
  · exact absurd (Prod.mk.inj judged).2 (by simp)
  split at judged
  · exact absurd (Prod.mk.inj judged).2 (by simp)
  · rename_i ran
    rwa [ran]

variable [DecidableEq F]

theorem exitFailure_same (reader : Reader) (inputs : StepInputs) (s : State F) (run : ExitRun F) :
    SameKept s (exitFailure reader inputs s run).1 ∧
      (exitFailure reader inputs s run).1.keeper.kept = s.keeper.kept := by
  unfold exitFailure
  split
  · exact ⟨⟨rfl, rfl⟩, rfl⟩
  · dsimp only
    split
    · exact ⟨⟨rfl, rfl⟩, rfl⟩
    · exact ⟨⟨rfl, rfl⟩, rfl⟩

theorem headBack_checkout (s : State F) : (headBack s).repo.checkout = s.repo.checkout := by
  rw [headBack, fold_checkout]
  rfl

theorem headBack_index (s : State F) : (headBack s).repo.index = s.repo.index := by
  rw [headBack, fold_index]
  rfl

theorem readied_some {s : State F} {run : ExitRun F} {repo : Repo F}
    (ready : readied reader inputs (headBack s) run = some repo) :
    ∃ own wanted, ownAfter reader inputs s.repo.checkout.node = some own ∧
      tickText inputs.tasksMd (tickedLines inputs own) = some wanted ∧
      repo.checkout.node = .file wanted ∧
      (s.repo.Sees → repo.index.file = some (.text wanted)) := by
  obtain ⟨checkout, restored, rfl⟩ := Option.map_eq_some_iff.mp ready
  obtain ⟨own, wanted, read, ticks, file, behind, ignored⟩ := restoreTasks_some restored
  rw [headBack_checkout] at read behind ignored
  refine ⟨own, wanted, read, ticks, file, fun sees => ?_⟩
  refine (addAll_file ⟨behind.trans sees.1, ?_⟩).trans (congrArg Node.blob file)
  exact sees.2.imp (fun tracked => by simpa only [headBack_index] using tracked) ignored.trans

theorem exit_holdsTicks (boxed : inputs.fix = false → Boxed reader inputs) {s t : State F}
    {run : ExitRun F} (safe : ExitSafe reader inputs s run)
    (passes : exitFailure reader inputs s run = (t, .passes)) :
    HoldsTicks inputs t.repo.index.file (doneTicks inputs) := by
  unfold exitFailure at passes
  split at passes
  · exact absurd (Prod.mk.inj passes).2 (by simp)
  cases ready : readied reader inputs (headBack s) run with
  | none => simp [ready] at passes
  | some repo =>
    simp only [ready] at passes
    obtain ⟨state, verdict⟩ := Prod.mk.inj passes
    have judged : judge reader inputs repo run = (t.repo, .passes) :=
      Prod.ext (congrArg State.repo state) verdict
    have ticked := judge_passes judged
    obtain ⟨own, wanted, read, ticks, file, index⟩ := readied_some ready
    have same := safe.2 repo ready
    have part := tickedLines_sublist inputs own
    rcases tickGroup_passes (same.1.trans file) ticked with
      ⟨fix, after⟩ | ⟨step, found, readOwn, ⟨none_, after⟩ | ⟨again, filled, held⟩⟩
    · -- A fix step adds no tick, so its commit holds the text before the run.
      have sees := safe.1.resolve_right fun leaves => Bool.false_ne_true (leaves.1.symm.trans fix)
      rw [tickedLines, if_pos fix, tickText_nil] at ticks
      obtain rfl := Option.some.inj ticks
      rw [after, runPrograms_index, index sees, doneTicks, if_pos fix]
      exact ⟨fileLines inputs.tasksMd, by rw [fileLines_flatten], onlyTicks_nil _⟩
    · -- The agent ticked the whole group, so git sees the file.
      have held : HoldsTicks inputs (some (.text wanted)) (openTasks inputs) :=
        ticked_twice (boxed step) part ticks readOwn (by rw [none_, tickText_nil])
      have rest := reads_back (boxed step) part ticks readOwn
      have sees := safe.1.resolve_right fun leaves => by
        obtain ⟨line, open_, left⟩ := leaves.2 own read
        have out : line ∈ (openLines inputs).filter (· ∉ tickedLines inputs own) :=
          List.mem_filter.mpr ⟨open_, decide_eq_true left⟩
        rw [← rest, none_] at out
        exact List.not_mem_nil out
      rw [after, runPrograms_index, index sees, doneTicks, if_neg (by simp [step])]
      exact held
    · rw [held, doneTicks, if_neg (by simp [step])]
      exact ticked_twice (boxed step) part ticks readOwn filled

end Exit

section Invariant
variable {F : Type} [DecidableEq F] (reader : Reader) (inputs : StepInputs)

/-- What is kept is kept once, and each task of it stands behind a commit of the keeper. -/
def KeptOwned (s : State F) : Prop :=
  s.keeper.kept.Nodup ∧ ∀ index ∈ s.keeper.kept, index ∈ openTasks inputs ∧
    ∃ seen ∈ s.wips, agentTicked reader inputs seen.text index = true ∧ seen.passes index = true

def PhaseOwned (s : State F) : Prop :=
  match s.phase with
  | .running => KeptOwned reader inputs s
  | .judged verdict _ =>
    KeptOwned reader inputs s ∧
      (verdict = .passes → HoldsTicks inputs s.repo.index.file (doneTicks inputs))
  | .ending => True
  | .done_ commit => HoldsTicks inputs commit.tree.file (doneTicks inputs)
  | .stopped => s.repo.head = s.keeper.tip ∧ s.repo.IsClean

structure Inv (start : Commit F) (s : State F) : Prop where
  wips : WipsOwned reader inputs s.wips
  tip : s.keeper.tip = lastCommit start s
  phase : PhaseOwned reader inputs s

end Invariant

section Steps
variable {F : Type} {reader : Reader} {inputs : StepInputs} {start : Commit F}

theorem KeptOwned.same {s t : State F} (owned : KeptOwned reader inputs s) (same : SameKept s t)
    (kept : t.keeper.kept = s.keeper.kept) : KeptOwned reader inputs t := by
  unfold KeptOwned
  rw [kept, same.wips]
  exact owned

theorem lastCommit_same {s t : State F} (same : SameKept s t) :
    lastCommit start t = lastCommit start s := by
  rw [lastCommit, lastCommit, same.wips]

theorem Inv.same {s t : State F} (inv : Inv reader inputs start s) (same : SameKept s t)
    (phase : PhaseOwned reader inputs t) : Inv reader inputs start t where
  wips := by rw [same.wips]; exact inv.wips
  tip := by rw [same.tip, inv.tip, lastCommit_same same]
  phase := phase

theorem wipsOwned_append {wips : List (WipCommit F)} {wip : WipCommit F} {kept : List Nat}
    (owned : WipsOwned reader inputs wips) (holds : HoldsTicks inputs wip.commit.tree.file kept)
    (behind : ∀ index ∈ kept, ∃ seen ∈ wips ++ [wip],
      agentTicked reader inputs seen.text index = true ∧ seen.passes index = true) :
    WipsOwned reader inputs (wips ++ [wip]) := by
  intro k made at_
  by_cases inside : k < wips.length
  · rw [List.getElem?_append_left inside] at at_
    obtain ⟨kept, holds, behind⟩ := owned k made at_
    refine ⟨kept, holds, fun index held => ?_⟩
    obtain ⟨j, before, seen, at_, ticked⟩ := behind index held
    refine ⟨j, before, seen, ?_, ticked⟩
    rwa [List.getElem?_append_left (by omega)]
  · have bound := (List.getElem?_eq_some_iff.mp at_).1
    simp only [List.length_append, List.length_singleton] at bound
    obtain rfl : k = wips.length := by omega
    rw [List.getElem?_concat_length] at at_
    obtain rfl := Option.some.inj at_
    refine ⟨kept, holds, fun index held => ?_⟩
    obtain ⟨seen, member, ticked⟩ := behind index held
    obtain ⟨j, at_⟩ := List.mem_iff_getElem?.mp member
    have bound := (List.getElem?_eq_some_iff.mp at_).1
    simp only [List.length_append, List.length_singleton] at bound
    exact ⟨j, by omega, seen, at_, ticked⟩

/-- A check that makes a commit: the ticks of the commit are those kept before and the new ones. -/
theorem Inv.keeps (boxed : Boxed reader inputs) {s t : State F} {run : CheckRun F} {text : Str}
    {more : List Nat} {wanted : Str} {commit : Commit F} (inv : Inv reader inputs start s)
    (owned : KeptOwned reader inputs s) (keeps : Keeps inputs run s t text more wanted commit)
    (once : more.Nodup)
    (fresh : ∀ index ∈ more, index ∉ s.keeper.kept ∧ index ∈ openTasks inputs ∧
      agentTicked reader inputs text index = true ∧ run.passes index = true)
    (running : t.phase = .running) : Inv reader inputs start t := by
  have behind : ∀ index ∈ s.keeper.kept ++ more, index ∈ openTasks inputs ∧
      ∃ seen ∈ s.wips ++ [⟨text, run.passes, commit⟩],
        agentTicked reader inputs seen.text index = true ∧ seen.passes index = true := by
    intro index held
    rcases List.mem_append.mp held with old | new
    · obtain ⟨open_, seen, member, ticked⟩ := owned.2 index old
      exact ⟨open_, seen, List.mem_append_left _ member, ticked⟩
    · obtain ⟨-, open_, ticked⟩ := fresh index new
      exact ⟨open_, _, List.mem_append_right _ List.mem_cons_self, ticked⟩
  have all : (s.keeper.kept ++ more).Nodup :=
    List.nodup_append.mpr ⟨owned.1, once, fun index held other new same =>
      (fresh other new).1 (same ▸ held)⟩
  refine ⟨?_, ?_, ?_⟩
  · rw [keeps.wips]
    refine wipsOwned_append inv.wips ?_ fun index held => (behind index held).2
    rw [keeps.file]
    exact canonical_holdsTicks boxed all (fun index held => (behind index held).1) keeps.canonical
  · simp [keeps.tip, lastCommit, keeps.wips]
  · rw [PhaseOwned, running]
    refine ⟨keeps.kept ▸ all, fun index held => ?_⟩
    rw [keeps.wips]
    exact behind index (keeps.kept ▸ held)

theorem running_kept {s : State F} (inv : Inv reader inputs start s) (phase : s.phase = .running) :
    KeptOwned reader inputs s := by
  have := inv.phase
  rwa [PhaseOwned, phase] at this

theorem judged_kept {s : State F} {verdict : Judged} {moves : Bool}
    (inv : Inv reader inputs start s) (phase : s.phase = .judged verdict moves) :
    KeptOwned reader inputs s ∧
      (verdict = .passes → HoldsTicks inputs s.repo.index.file (doneTicks inputs)) := by
  have := inv.phase
  rwa [PhaseOwned, phase] at this

theorem Inv.ending {s t : State F} (inv : Inv reader inputs start s) (same : SameKept s t)
    (phase : t.phase = .ending) : Inv reader inputs start t :=
  inv.same same (by rw [PhaseOwned, phase]; trivial)

theorem Inv.owned {s : State F} (inv : Inv reader inputs start s) :
    Owned reader inputs start s := by
  refine ⟨inv.wips, ?_⟩
  have held := inv.phase
  unfold PhaseOwned at held
  cases phase : s.phase with
  | done_ commit => rwa [phase] at held
  | stopped =>
    rw [phase] at held
    exact ⟨held.1.trans inv.tip, held.2⟩
  | running => trivial
  | judged verdict moves => trivial
  | ending => trivial

variable [DecidableEq F]

theorem Inv.afterTurn (boxed : inputs.fix = false → Boxed reader inputs) {s : State F}
    {reason moves : Bool} {run : ExitRun F} (inv : Inv reader inputs start s)
    (owned : KeptOwned reader inputs s)
    (safe : reason = false → ExitSafe reader inputs s run) :
    Inv reader inputs start (afterTurn reader inputs s reason moves run) := by
  unfold WipKeeper.afterTurn
  split
  · exact inv.same ⟨rfl, rfl⟩ ⟨owned, fun passes => absurd passes (by simp)⟩
  · rename_i judged
    obtain ⟨same, kept⟩ := exitFailure_same reader inputs s run
    refine inv.same ⟨same.tip, same.wips⟩ ?_
    unfold judgedBy
    by_cases raises : (exitFailure reader inputs s run).2 = .raises
    · simp [PhaseOwned, raises]
    · simp only [PhaseOwned, raises, ↓reduceIte]
      refine ⟨owned.same ⟨same.tip, same.wips⟩ kept, fun passes => ?_⟩
      exact exit_holdsTicks boxed (safe (Bool.eq_false_iff.mpr judged))
        (by rw [← passes])

theorem step_request {s t : State F} {left : Repo F} {run : CheckRun F}
    (taken : step reader inputs s (.request left run) = some t) : s.phase = .running ∧
      (hooked inputs = true ∧ check reader inputs { s with repo := left } run = .ok t ∨
        (∃ next, check reader inputs { s with repo := left } run = .error next ∧
          t = { next with phase := .ending }) ∨
        t = { s with repo := left }) := by
  simp only [step] at taken
  split at taken
  · rename_i phase
    refine ⟨phase, ?_⟩
    split at taken
    · rename_i hook
      split at taken
      · rename_i next checked
        obtain rfl := Option.some.inj taken
        exact .inl ⟨hook, checked⟩
      · rename_i next raised
        exact .inr (.inl ⟨next, raised, (Option.some.inj taken).symm⟩)
    · exact .inr (.inr (Option.some.inj taken).symm)
  · exact absurd taken (by simp)

theorem step_turnEnds {s t : State F} {left : Repo F} {reason moves : Bool} {run : ExitRun F}
    (taken : step reader inputs s (.turnEnds left reason moves run) = some t) :
    s.phase = .running ∧ t = afterTurn reader inputs { s with repo := left } reason moves run := by
  simp only [step] at taken
  split at taken
  · rename_i phase
    exact ⟨phase, (Option.some.inj taken).symm⟩
  · exact absurd taken (by simp)

theorem step_extraTurn {s t : State F} {left : Repo F} {reason moves foreign : Bool}
    {strays : Removal F} {run : ExitRun F}
    (taken : step reader inputs s (.extraTurn left reason moves strays foreign run) = some t) :
    ∃ was, s.phase = .judged (.fails true) was ∧
      ((∃ repo, t = { s with
          repo := repo, rounds := s.rounds + 1, phase := .judged (.fails false) moves }) ∨
        reason = false ∧ foreign = false ∧
          t = afterTurn reader inputs
            { s with repo := tidied strays left, rounds := s.rounds + 1 } false moves run) := by
  simp only [step] at taken
  split at taken
  · rename_i verdict was phase
    split at taken
    · rename_i again
      obtain ⟨rfl, -⟩ := of_decide_eq_true again
      refine ⟨was, phase, ?_⟩
      split at taken
      · exact .inl ⟨left, (Option.some.inj taken).symm⟩
      · rename_i goes
        split at taken
        · exact .inl ⟨tidied strays left, (Option.some.inj taken).symm⟩
        · rename_i own
          exact .inr ⟨Bool.eq_false_iff.mpr goes, Bool.eq_false_iff.mpr own,
            (Option.some.inj taken).symm⟩
    · exact absurd taken (by simp)
  · exact absurd taken (by simp)

/-- What one step keeps. -/
theorem step_inv (boxed : inputs.fix = false → Boxed reader inputs) {s t : State F}
    {action : Action F} (inv : Inv reader inputs start s) (safe : Safe reader inputs s action)
    (taken : step reader inputs s action = some t) : Inv reader inputs start t := by
  cases action with
  | request left run =>
    obtain ⟨phase, taken⟩ := step_request taken
    have owned := running_kept inv phase
    obtain ⟨hook, checked⟩ | ⟨next, raised, rfl⟩ | rfl := taken
    · have fix : inputs.fix = false := by
        simp only [hooked, Bool.and_eq_true, Bool.not_eq_true'] at hook
        exact hook.1
      rcases check_ok (safe hook) checked with
        ⟨phase_, same, kept⟩ | ⟨phase_, text, more, wanted, commit, keeps, once, fresh⟩
      · refine inv.same ⟨same.tip, same.wips⟩ ?_
        rw [PhaseOwned, phase_, phase]
        exact owned.same ⟨same.tip, same.wips⟩ kept
      · exact inv.keeps (boxed fix) owned
          ⟨keeps.canonical, keeps.file, keeps.tip, keeps.kept, keeps.wips⟩ once fresh
          (phase_.trans phase)
    · have same := check_error raised
      exact inv.ending ⟨same.tip, same.wips⟩ rfl
    · refine inv.same ⟨rfl, rfl⟩ ?_
      rw [PhaseOwned, phase]
      exact owned
  | turnEnds left reason moves run =>
    obtain ⟨phase, rfl⟩ := step_turnEnds taken
    have owned := running_kept inv phase
    have left_ : Inv reader inputs start { s with repo := left } :=
      inv.same ⟨rfl, rfl⟩ (by rw [PhaseOwned, phase]; exact owned)
    exact left_.afterTurn boxed owned safe
  | extraTurn left reason moves strays foreign run =>
    obtain ⟨was, phase, ⟨repo, rfl⟩ | ⟨goes, own, rfl⟩⟩ := step_extraTurn taken
    · exact inv.same ⟨rfl, rfl⟩ ⟨(judged_kept inv phase).1, fun passes => absurd passes (by simp)⟩
    · have owned := (judged_kept inv phase).1
      have left_ : Inv reader inputs start
          { s with repo := tidied strays left, rounds := s.rounds + 1 } :=
        inv.same ⟨rfl, rfl⟩ (by
          rw [PhaseOwned, phase]
          exact ⟨owned, fun passes => absurd passes (by simp)⟩)
      exact left_.afterTurn boxed owned fun _ => safe goes own
  | moveTier attempt =>
    simp only [step] at taken
    split at taken
    · rename_i repairable phase
      split at taken
      · obtain rfl := Option.some.inj taken
        exact inv.same ⟨rfl, rfl⟩ (judged_kept inv phase).1
      · exact absurd taken (by simp)
    · exact absurd taken (by simp)
  | finish refused =>
    simp only [step] at taken
    split at taken
    · rename_i moves phase
      split at taken
      · obtain rfl := Option.some.inj taken
        exact inv.ending ⟨rfl, rfl⟩ rfl
      · obtain rfl := Option.some.inj taken
        refine inv.same ⟨rfl, rfl⟩ ?_
        have holds := (judged_kept inv phase).2 rfl
        rw [← fold_index] at holds
        exact holds
    · split at taken
      · exact absurd taken (by simp)
      · obtain rfl := Option.some.inj taken
        exact inv.ending ⟨rfl, rfl⟩ rfl
    · exact absurd taken (by simp)
  | raises left =>
    simp only [step] at taken
    split at taken
    · obtain rfl := Option.some.inj taken
      exact inv.ending ⟨rfl, rfl⟩ rfl
    · obtain rfl := Option.some.inj taken
      exact inv.ending ⟨rfl, rfl⟩ rfl
    · exact absurd taken (by simp)
  | discard =>
    simp only [step] at taken
    split at taken
    · obtain rfl := Option.some.inj taken
      exact inv.same ⟨rfl, rfl⟩ ⟨rfl, resetHard_isClean safe⟩
    · exact absurd taken (by simp)

theorem inv_start {request : Request} {attempt : Nat} {repo : Repo F} {s : State F}
    (begun : begin_ reader request attempt repo = some (inputs, s)) :
    Inv reader inputs repo.head s := by
  obtain ⟨tasksMd, -, begun⟩ := Option.bind_eq_some_iff.mp begun
  obtain ⟨groups, -, begun⟩ := Option.bind_eq_some_iff.mp begun
  split at begun
  · exact absurd begun (by simp)
  obtain ⟨group, -, begun⟩ := Option.bind_eq_some_iff.mp begun
  split at begun
  · obtain ⟨rfl, rfl⟩ := Prod.mk.inj (Option.some.inj begun)
    exact ⟨fun k wip none_ => absurd none_ (by simp), rfl, List.nodup_nil,
      fun index none_ => absurd none_ List.not_mem_nil⟩
  · exact absurd begun (by simp)

/-- In every run whose steps are safe the job owns tasks.md in all commits of the step, and a step
    that stops leaves its last commit of the work in progress, or its start. -/
theorem job_owns_tasks {request : Request} {attempt : Nat} {repo : Repo F} {s t : State F}
    {actions : List (Action F)} (begun : begin_ reader request attempt repo = some (inputs, s))
    (boxed : inputs.fix = false → Boxed reader inputs)
    (safe : Run.Meets (step reader inputs) (Safe reader inputs) s actions)
    (run : Run.exec (step reader inputs) s actions = some t) :
    Owned reader inputs repo.head t :=
  (Run.exec_invariant (Inv reader inputs repo.head)
    (fun _ _ _ inv safe taken => step_inv boxed inv safe taken) (inv_start begun) safe run).owned

end Steps

section Sample

def oneTask (mark : Char) : Str := "## 1. A\n- [".toList ++ [mark] ++ "] b\n".toList

def oneTaskTokens (mark : Char) : List Token :=
  [{ type := "heading_open", tag := "h2", map := some (0, 1) },
   { type := "inline", level := 1, map := some (0, 1), content := "1. A".toList },
   { type := "heading_close", tag := "h2" },
   { type := "bullet_list_open", tag := "ul", map := some (1, 2) },
   { type := "list_item_open", tag := "li", level := 1, map := some (1, 2) },
   { type := "paragraph_open", tag := "p", level := 2, map := some (1, 2) },
   { type := "inline", level := 3, map := some (1, 2), content := ['[', mark, ']', ' ', 'b'] },
   { type := "paragraph_close", tag := "p", level := 2 },
   { type := "list_item_close", tag := "li", level := 1 },
   { type := "bullet_list_close", tag := "ul" }]

def oneTaskReader : Reader where
  parse text :=
    if text = oneTask ' ' then oneTaskTokens ' '
    else if text = oneTask 'x' then oneTaskTokens 'x'
    else []
  digit c := if c = '1' then some (some 1) else none

def oneTaskRequest : Request :=
  { item := 7, group := 1, fix := none, keep := true, commitTitle := "feat: A (#7)".toList,
    repairRounds := 1, tiers := 1 }

def oneTaskRepo : Repo Nat where
  head := .root "plan".toList ⟨some (.text (oneTask ' ')), 0⟩
  index := ⟨some (.text (oneTask ' ')), 0⟩
  checkout := { node := .file (oneTask ' '), rest := 0 }

def leaves (node : Node) : Repo Nat :=
  { oneTaskRepo with checkout := { node := node, mtime := 1, rest := 1 } }

def greenCheck : CheckRun Nat where
  strays repo := (repo.checkout.rest, repo.checkout.rest)
  lost := false
  links := false
  passes _ := true
  commands checkout := checkout
  clock := 2

def greenExit : ExitRun Nat where
  resets := true
  strays repo := (repo.checkout.rest, [])
  changed := true
  outside := false
  lost := false
  programs := []
  clock := 3

def ticksAndEnds : List (Action Nat) :=
  [.request (leaves (.file (oneTask 'x'))) greenCheck,
   .turnEnds (leaves (.file (oneTask 'x'))) false false greenExit, .finish false]

def ticksThroughLink : List (Action Nat) :=
  [.request (leaves (.link "../notes.md".toList (.file (oneTask 'x')))) greenCheck]

def isDone : Phase Nat → Bool
  | .done_ _ => true
  | _ => false

theorem job_owns_tasks_done : ∃ inputs s t,
    begin_ oneTaskReader oneTaskRequest 0 oneTaskRepo = some (inputs, s) ∧
      Run.exec (step oneTaskReader inputs) s ticksAndEnds = some t ∧ isDone t.phase = true ∧
      Owned oneTaskReader inputs oneTaskRepo.head t := by
  have reached : (begin_ oneTaskReader oneTaskRequest 0 oneTaskRepo).any (fun begun =>
      decide (Boxed oneTaskReader begun.1) &&
      decide (Run.Meets (step oneTaskReader begun.1) (Safe oneTaskReader begun.1) begun.2
        ticksAndEnds) &&
      (Run.exec (step oneTaskReader begun.1) begun.2 ticksAndEnds).any fun t =>
        isDone t.phase) = true := by
    decide +kernel
  obtain ⟨⟨inputs, s⟩, begun, held⟩ := (Option.any_eq_true _ _).mp reached
  simp only [Bool.and_eq_true, decide_eq_true_eq] at held
  obtain ⟨⟨boxed, safe⟩, ended⟩ := held
  obtain ⟨t, run, ended⟩ := (Option.any_eq_true _ _).mp ended
  exact ⟨inputs, s, t, begun, run, ended, job_owns_tasks begun (fun _ => boxed) safe run⟩

/-- A commit of the keeper that holds a link in place of tasks.md. -/
theorem link_is_committed : ∃ inputs s t,
    begin_ oneTaskReader oneTaskRequest 0 oneTaskRepo = some (inputs, s) ∧
      Boxed oneTaskReader inputs ∧
      Run.exec (step oneTaskReader inputs) s ticksThroughLink = some t ∧
      ¬ Owned oneTaskReader inputs oneTaskRepo.head t := by
  have reached : (begin_ oneTaskReader oneTaskRequest 0 oneTaskRepo).any (fun begun =>
      decide (Boxed oneTaskReader begun.1) &&
      (Run.exec (step oneTaskReader begun.1) begun.2 ticksThroughLink).any fun t =>
        decide ((t.wips[0]?).map (·.commit.tree.file) =
          some (some (.link "../notes.md".toList)))) = true := by
    decide +kernel
  obtain ⟨⟨inputs, s⟩, begun, held⟩ := (Option.any_eq_true _ _).mp reached
  simp only [Bool.and_eq_true, decide_eq_true_eq] at held
  obtain ⟨boxed, held⟩ := held
  obtain ⟨t, run, held⟩ := (Option.any_eq_true _ _).mp held
  refine ⟨inputs, s, t, begun, boxed, run, fun owned => ?_⟩
  obtain ⟨wip, at_, link⟩ := Option.map_eq_some_iff.mp (of_decide_eq_true held)
  obtain ⟨kept, ⟨lines, text, -⟩, -⟩ := owned.1 0 wip at_
  rw [link] at text
  exact absurd (Option.some.inj text) (by simp)

end Sample
end DevopsCli.Implement.WipKeeper
