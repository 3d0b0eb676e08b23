import DevopsCli.Lib.Run
import DevopsCli.Git.Prune

/- What a prune of worktrees loses, over any order of its steps and those of the agents. -/
namespace DevopsCli.Worktrees
open PyStr DevopsCli.Run

variable {repo later listed : Repo} {config : Config} {s t : State} {parents : Sha → List Sha}

/-- The worktree that a removal takes away is on a branch, or a ref reaches its detached commit, or
    the run listed it with its directory and with the tip that it still has. -/
def Covered (parents : Sha → List Sha) (config : Config) (s : State) : Action → Prop
  | .remove _ => ∀ linked, s.taken config = some linked →
      (∃ branch, linked.2.head = .attached branch) ∨
      (∃ tip, linked.2.head = .detached tip ∧ Reachable parents s.repo tip) ∨
      ∃ seen, s.listed.worktrees.lookup linked.1 = some seen ∧ seen.present = true ∧
        s.listed.tip seen.head = s.repo.tip linked.2.head
  | _ => True

section Agents
variable {place : Place} {tree : Tree}

/-- What agents do to the repository: merged pulls stay, and so does every worktree. -/
structure Evolves (repo later : Repo) : Prop where
  merged : ∀ pull ∈ repo.pulls, pull.mergedAt.isSome → pull ∈ later.pulls
  places : ∀ place, place ∈ later.worktrees ↔ place ∈ repo.worktrees

theorem evolves_setTree (there : repo.worktrees.lookup place = some tree) (changed : Tree) :
    Evolves repo (repo.setTree place changed) where
  merged _ mem _ := mem
  places other := by
    have own : place ∈ repo.worktrees := AList.lookup_isSome.mp (by rw [there]; rfl)
    rw [Repo.setTree, AList.mem_insert]
    constructor
    · rintro (rfl | mem)
      · exact own
      · exact mem
    · exact .inr

theorem evolves_setBranch (name : Line) (tip : Sha) : Evolves repo (repo.setBranch name tip) where
  merged _ mem _ := mem
  places _ := Iff.rfl

theorem evolves_commit {tip : Sha} (done_ : repo.commit place tip = some later) :
    Evolves repo later := by
  simp only [Repo.commit, Option.bind_eq_bind, Option.bind_eq_some_iff] at done_
  obtain ⟨tree, there, done_⟩ := done_
  split_ifs at done_
  cases head : tree.head with
  | attached branch =>
    simp only [head, Option.pure_def, Option.some.injEq] at done_
    exact done_ ▸ evolves_setBranch branch tip
  | detached was =>
    simp only [head, Option.pure_def, Option.some.injEq] at done_
    exact done_ ▸ evolves_setTree there _

theorem evolves_checkout {head : Head} (done_ : repo.checkout place head = some later) :
    Evolves repo later := by
  simp only [Repo.checkout, Option.bind_eq_bind, Option.bind_eq_some_iff] at done_
  obtain ⟨tree, there, done_⟩ := done_
  split_ifs at done_
  rw [Option.pure_def, Option.some.injEq] at done_
  exact done_ ▸ evolves_setTree there _

theorem evolves_edit {present : Bool} {status : Option Str} {bytes : Nat}
    (done_ : repo.edit place present status bytes = some later) : Evolves repo later := by
  obtain ⟨tree, there, rfl⟩ := Option.map_eq_some_iff.mp done_
  exact evolves_setTree there _

theorem evolves_relock {reason : Option Line} (done_ : repo.relock place reason = some later) :
    Evolves repo later := by
  obtain ⟨tree, there, rfl⟩ := Option.map_eq_some_iff.mp done_
  exact evolves_setTree there _

theorem evolves_setPulls {pulls : List CommitPull} (done_ : repo.setPulls pulls = some later) :
    Evolves repo later := by
  rw [Repo.setPulls] at done_
  split_ifs at done_ with kept
  obtain rfl := Option.some.inj done_
  exact ⟨kept, fun _ => Iff.rfl⟩

theorem agent_evolves {moved : Option Repo} (evolves : ∀ later, moved = some later → Evolves s.repo later)
    (taken : s.agent moved = some t) : ∃ later, Evolves s.repo later ∧ t = { s with repo := later } := by
  obtain ⟨later, there, rfl⟩ := Option.map_eq_some_iff.mp taken
  exact ⟨later, evolves later there, rfl⟩

end Agents

section Facts
variable {info : WorktreeInfo} {entry : WorktreeEntry} {decision : Decision}

def Listed (listed : Repo) (info : WorktreeInfo) : Prop :=
  info = listed.mainInfo ∨ ∃ linked ∈ listed.worktrees.entries, info = listed.treeInfo linked

def Seen (listed : Repo) (entry : WorktreeEntry) : Prop :=
  ∃ info repo, Listed listed info ∧ entry = enrichWorktreeEntry repo info

structure Decided (listed : Repo) (pulls : List CommitPull) (decision : Decision) : Prop where
  seen : Seen listed decision.entry
  linked : decision.removable = true → decision.entry.isMain = false
  grounds : decision.removable = true → decision.entry.prunable = true ∨
    ∃ pull ∈ pulls, pull.mergedAt.isSome ∧ pull.headSha = decision.entry.head

def PhaseFacts (s : State) : Phase → Prop
  | .looking infos entries =>
    (∀ info ∈ infos, Listed s.listed info) ∧ ∀ entry ∈ entries, Seen s.listed entry
  | .deciding entries decisions =>
    (∀ entry ∈ entries, Seen s.listed entry) ∧
      ∀ decision ∈ decisions, Decided s.listed s.repo.pulls decision
  | .removing decisions _ => ∀ decision ∈ decisions, Decided s.listed s.repo.pulls decision
  | _ => True

theorem listed_of_mem (mem : info ∈ parseWorktreePorcelainZ repo.porcelain) : Listed repo info := by
  rw [parse_porcelain] at mem
  rcases List.mem_cons.mp mem with main | mem
  · exact .inl main
  · obtain ⟨linked, inside, rfl⟩ := List.mem_map.mp mem
    exact .inr ⟨linked, inside, rfl⟩

theorem Decided.mono {pulls more : List CommitPull} (decided : Decided listed pulls decision)
    (kept : ∀ pull ∈ pulls, pull.mergedAt.isSome → pull ∈ more) : Decided listed more decision where
  seen := decided.seen
  linked := decided.linked
  grounds removable := by
    rcases decided.grounds removable with prunable | ⟨pull, mem, merged, head⟩
    · exact .inl prunable
    · exact .inr ⟨pull, kept pull mem merged, merged, head⟩

theorem local_removable (unforced : config.force = false)
    (decided : decidedByLocalState config entry = some decision) :
    decision.entry = entry ∧
      (decision.removable = true → entry.isMain = false ∧ entry.prunable = true) := by
  rw [decidedByLocalState] at decided
  split_ifs at decided with main current forced locked prunable
  · obtain rfl := Option.some.inj decided
    exact ⟨rfl, Bool.noConfusion⟩
  · obtain rfl := Option.some.inj decided
    exact ⟨rfl, Bool.noConfusion⟩
  · rw [unforced] at forced
    cases forced
  · obtain rfl := Option.some.inj decided
    exact ⟨rfl, Bool.noConfusion⟩
  · obtain rfl := Option.some.inj decided
    exact ⟨rfl, fun _ => ⟨Bool.not_eq_true _ ▸ main, prunable⟩⟩
  · revert decided
    cases entry.dirty with
    | none =>
      intro decided
      obtain rfl := Option.some.inj decided
      exact ⟨rfl, Bool.noConfusion⟩
    | some dirty =>
      cases dirty with
      | zero =>
        intro decided
        cases decided
      | succ more =>
        intro decided
        obtain rfl := Option.some.inj decided
        exact ⟨rfl, Bool.noConfusion⟩

theorem local_main (main : entry.isMain = true) :
    decidedByLocalState config entry = some ⟨entry, false, "main worktree".toList⟩ :=
  if_pos main

theorem mergedPull_some {answer : Option (List CommitPull)} {tip : Str} {number : Nat}
    (read : mergedPull config answer tip = .ok (some number)) :
    ∃ pull ∈ answer.getD [], pull.mergedAt.isSome ∧ pull.headSha = tip := by
  cases origin : config.repo with
  | none => simp [mergedPull, requireRepo, origin, bind, Except.bind] at read
  | some name =>
    cases answer with
    | none => simp [mergedPull, requireRepo, origin, bind, Except.bind] at read
    | some pulls =>
      simp only [mergedPull, requireRepo, origin, bind, Except.bind, pure, Except.pure,
        Except.ok.injEq, Option.map_eq_some_iff] at read
      obtain ⟨pull, found, _⟩ := read
      have merged := List.find?_some found
      exact ⟨pull, List.mem_of_find?_eq_some found, of_decide_eq_true merged⟩

theorem decide_decided (unforced : config.force = false) {answer : Option (List CommitPull)}
    {pulls : List CommitPull} (real : answer.getD [] ⊆ pulls) (seen : Seen listed entry)
    (decided : decide_ config (mergedPull config answer) entry = .ok decision) :
    Decided listed pulls decision := by
  rw [decide_] at decided
  cases byLocal : decidedByLocalState config entry with
  | some local_ =>
    rw [byLocal] at decided
    obtain rfl := Except.ok.inj decided
    obtain ⟨same, removable⟩ := local_removable unforced byLocal
    exact
      { seen := same ▸ seen
        linked := fun remove => same ▸ (removable remove).1
        grounds := fun remove => .inl (same ▸ (removable remove).2) }
  | none =>
    have linked : entry.isMain = false := by
      by_contra main
      rw [local_main (Bool.not_eq_false _ ▸ main)] at byLocal
      cases byLocal
    rw [byLocal] at decided
    cases read : mergedPull config answer entry.head with
    | error error => simp [read, Except.map] at decided
    | ok number =>
      rw [read] at decided
      obtain rfl := Except.ok.inj decided
      cases number with
      | none => exact ⟨seen, fun _ => linked, Bool.noConfusion⟩
      | some number =>
        obtain ⟨pull, mem, merged⟩ := mergedPull_some read
        exact ⟨seen, fun _ => linked, fun _ => .inr ⟨pull, real mem, merged⟩⟩

end Facts

section Run
variable {linked : Linked} {decision : Decision} {tip : Sha}

structure Inv (parents : Sha → List Sha) (s : State) : Prop where
  facts : PhaseFacts s s.phase
  nothing : LosesNothing parents s

theorem taken_linked (taken : repo.taken config decision = some linked) :
    decision.removable = true ∧ linked.1.1 = pathOf decision.entry.path := by
  rw [Repo.taken] at taken
  split_ifs at taken with orders
  rw [Repo.removable] at taken
  split_ifs at taken
  obtain ⟨found, _⟩ := Option.filter_eq_some_iff.mp taken
  have at_ := List.find?_some found
  exact ⟨orders.1, of_decide_eq_true at_⟩

theorem seen_linked {entry : WorktreeEntry} (seen : Seen listed entry) (other : entry.isMain = false) :
    ∃ place tree, listed.worktrees.lookup place = some tree ∧ pathOf entry.path = place.1 ∧
      entry.head = listed.headText tree.head ∧ (entry.prunable = true → tree.present = false) := by
  obtain ⟨info, repo, main | ⟨linked, mem, rfl⟩, rfl⟩ := seen
  · rw [enrichWorktreeEntry, main] at other
    cases other
  · refine ⟨linked.1, linked.2, AList.mem_lookup_iff.mpr mem, pathOf_pathText linked.1.2, rfl, ?_⟩
    exact fun prunable => (of_decide_eq_true prunable).1

theorem without_keeps (place : Place) (kept : MergedHead repo tip ∨ Reachable parents repo tip) :
    MergedHead (repo.without place) tip ∨ Reachable parents (repo.without place) tip := kept

theorem covered_kept (decided : Decided s.listed s.repo.pulls decision)
    (taken : s.repo.taken config decision = some linked)
    (covered : (∃ branch, linked.2.head = .attached branch) ∨
      (∃ tip, linked.2.head = .detached tip ∧ Reachable parents s.repo tip) ∨
      ∃ seen, s.listed.worktrees.lookup linked.1 = some seen ∧ seen.present = true ∧
        s.listed.tip seen.head = s.repo.tip linked.2.head)
    (held : s.repo.tip linked.2.head = some tip) :
    MergedHead s.repo tip ∨ Reachable parents s.repo tip := by
  rcases covered with ⟨branch, head⟩ | ⟨own, head, reached⟩ | ⟨seen, there, present, same⟩
  · -- The branch stays, and it is at the tip.
    rw [head] at held
    obtain ⟨before, after, split, _⟩ := List.lookup_eq_some_iff.mp held
    refine .inr ⟨tip, List.mem_append_left _ (List.mem_map.mpr ⟨(branch, tip), ?_, rfl⟩), .refl⟩
    rw [split]
    exact List.mem_append_right _ List.mem_cons_self
  · rw [head] at held
    exact Option.some.inj held ▸ .inr reached
  · -- The pull that the decision read has the tip as its head.
    obtain ⟨removable, at_⟩ := taken_linked taken
    obtain ⟨place, tree, listed, path, head, gone⟩ :=
      seen_linked decided.seen (decided.linked removable)
    obtain rfl : place = linked.1 := Subtype.ext (path.symm.trans at_.symm)
    obtain rfl := Option.some.inj (there.symm.trans listed)
    rcases decided.grounds removable with prunable | ⟨pull, mem, merged, own⟩
    · rw [gone prunable] at present
      cases present
    · refine .inl ⟨pull, mem, merged, ?_⟩
      rw [own, head, Repo.headText, same, held]

theorem agent_inv {later : Repo} (inv : Inv parents s) (evolves : Evolves s.repo later) :
    Inv parents { s with repo := later } where
  facts := by
    have facts := inv.facts
    cases phase : s.phase with
    | start => trivial
    | looking infos entries =>
      rw [phase] at facts
      exact facts
    | deciding entries decisions =>
      rw [phase] at facts
      exact ⟨facts.1, fun decision mem => (facts.2 decision mem).mono evolves.merged⟩
    | removing decisions items =>
      rw [phase] at facts
      exact fun decision mem => (facts decision mem).mono evolves.merged
    | returned report => trivial
    | raised error => trivial
  nothing := inv.nothing

theorem list_inv {answers : Bool} (inv : Inv parents s) (taken : s.list answers = some t) :
    Inv parents t := by
  cases phase : s.phase with
  | start =>
    rw [State.list, phase] at taken
    obtain rfl := Option.some.inj taken
    refine ⟨⟨fun info mem => ?_, by simp⟩, inv.nothing⟩
    split_ifs at mem
    · exact listed_of_mem mem
    · cases mem
  | looking | deciding | removing | returned | raised => simp [State.list, phase] at taken

theorem look_inv (inv : Inv parents s) (taken : s.look = some t) : Inv parents t := by
  have facts := inv.facts
  cases phase : s.phase with
  | looking infos entries =>
    rw [phase] at facts
    cases infos with
    | nil =>
      rw [State.look, phase] at taken
      obtain rfl := Option.some.inj taken
      exact ⟨⟨facts.2, by simp⟩, inv.nothing⟩
    | cons info infos =>
      rw [State.look, phase] at taken
      obtain rfl := Option.some.inj taken
      refine ⟨⟨fun other mem => facts.1 other (List.mem_cons_of_mem _ mem), fun entry mem => ?_⟩,
        inv.nothing⟩
      rcases List.mem_append.mp mem with before | own
      · exact facts.2 entry before
      · rw [List.mem_singleton.mp own]
        exact ⟨info, s.repo, facts.1 info List.mem_cons_self, rfl⟩
  | start | deciding | removing | returned | raised => simp [State.look, phase] at taken

theorem decide_inv (unforced : config.force = false) {answer : Option (List CommitPull)}
    (inv : Inv parents s) (taken : s.decide config answer = some t) : Inv parents t := by
  have facts := inv.facts
  cases phase : s.phase with
  | deciding entries decisions =>
    rw [phase] at facts
    cases entries with
    | nil =>
      rw [State.decide, phase] at taken
      obtain rfl := Option.some.inj taken
      exact ⟨facts.2, inv.nothing⟩
    | cons entry entries =>
      simp only [State.decide, phase] at taken
      split_ifs at taken with real
      cases decided : decide_ config (mergedPull config answer) entry with
      | error error =>
        rw [decided] at taken
        obtain rfl := Option.some.inj taken
        exact ⟨trivial, inv.nothing⟩
      | ok decision =>
        rw [decided] at taken
        obtain rfl := Option.some.inj taken
        refine ⟨⟨fun other mem => facts.1 other (List.mem_cons_of_mem _ mem), fun other mem => ?_⟩,
          inv.nothing⟩
        rcases List.mem_append.mp mem with before | own
        · exact facts.2 other before
        · rw [List.mem_singleton.mp own]
          exact decide_decided unforced real (facts.1 entry List.mem_cons_self) decided
  | start | looking | removing | returned | raised => simp [State.decide, phase] at taken

theorem remove_inv {proc : Refusal} (inv : Inv parents s) (covered : Covered parents config s (.remove proc))
    (taken : s.remove config proc = some t) : Inv parents t := by
  have facts := inv.facts
  cases phase : s.phase with
  | removing decisions items =>
    rw [phase] at facts
    cases decisions with
    | nil =>
      rw [State.remove, phase] at taken
      obtain rfl := Option.some.inj taken
      exact ⟨trivial, inv.nothing⟩
    | cons decision decisions =>
      rw [State.remove, phase] at taken
      obtain rfl := Option.some.inj taken
      have others : ∀ other ∈ decisions, Decided s.listed s.repo.pulls other :=
        fun other mem => facts other (List.mem_cons_of_mem _ mem)
      cases gone : s.repo.taken config decision with
      | none =>
        rw [Option.map_none, Option.getD_none]
        exact ⟨others, inv.nothing⟩
      | some linked =>
        rw [Option.map_some, Option.getD_some]
        have removes : s.taken config = some linked := by rw [State.taken, phase]; exact gone
        refine ⟨others, fun removal mem tip held => ?_⟩
        rcases List.mem_append.mp mem with before | own
        · exact inv.nothing removal before tip held
        · obtain rfl := List.mem_singleton.mp own
          exact without_keeps linked.1 (covered_kept (facts decision List.mem_cons_self) gone
            (covered linked removes) held)
  | start | looking | deciding | returned | raised => simp [State.remove, phase] at taken

theorem step_cases {action : Action} (taken : step config s action = some t) :
    (∃ later, Evolves s.repo later ∧ t = { s with repo := later }) ∨
      (∃ answers, s.list answers = some t) ∨ s.look = some t ∨
      (∃ answer, s.decide config answer = some t) ∨
      ∃ proc, action = .remove proc ∧ s.remove config proc = some t := by
  cases action with
  | list answers => exact .inr (.inl ⟨answers, taken⟩)
  | look => exact .inr (.inr (.inl taken))
  | decide answer => exact .inr (.inr (.inr (.inl ⟨answer, taken⟩)))
  | remove proc => exact .inr (.inr (.inr (.inr ⟨proc, rfl, taken⟩)))
  | commit place tip => exact .inl (agent_evolves (fun _ => evolves_commit) taken)
  | checkout place head => exact .inl (agent_evolves (fun _ => evolves_checkout) taken)
  | edit place present status bytes => exact .inl (agent_evolves (fun _ => evolves_edit) taken)
  | lock place reason => exact .inl (agent_evolves (fun _ => evolves_relock) taken)
  | main tree =>
    exact .inl ⟨{ s.repo with mainTree := tree }, ⟨fun _ mem _ => mem, fun _ => Iff.rfl⟩,
      (Option.some.inj taken).symm⟩
  | branch name tip => exact .inl ⟨_, evolves_setBranch name tip, (Option.some.inj taken).symm⟩
  | github pulls => exact .inl (agent_evolves (fun _ => evolves_setPulls) taken)

theorem step_inv (unforced : config.force = false) {action : Action} (inv : Inv parents s)
    (covered : Covered parents config s action) (taken : step config s action = some t) :
    Inv parents t := by
  rcases step_cases taken with ⟨later, evolves, rfl⟩ | ⟨answers, list⟩ | look | ⟨answer, decided⟩ |
    ⟨proc, rfl, removed⟩
  · exact agent_inv inv evolves
  · exact list_inv inv list
  · exact look_inv inv look
  · exact decide_inv unforced inv decided
  · exact remove_inv inv covered removed

end Run

section InPlace
variable {start : Repo}

def Phase.Removes : Phase → Prop
  | .removing _ _ | .returned _ => True
  | _ => False

structure InPlace (start : Repo) (s : State) : Prop where
  places : ∀ place, place ∈ s.repo.worktrees ↔ place ∈ start.worktrees
  none_ : s.removals = []

theorem early_step (taken : (∃ answers, s.list answers = some t) ∨ s.look = some t ∨
    ∃ answer, s.decide config answer = some t) (early : ¬t.phase.Removes) :
    ¬s.phase.Removes ∧ t.repo = s.repo ∧ t.removals = s.removals := by
  rcases taken with ⟨answers, list⟩ | look | ⟨answer, decided⟩
  · cases phase : s.phase with
    | start =>
      rw [State.list, phase] at list
      obtain rfl := Option.some.inj list
      exact ⟨not_false, rfl, rfl⟩
    | looking | deciding | removing | returned | raised => simp [State.list, phase] at list
  · cases phase : s.phase with
    | looking infos entries =>
      cases infos with
      | nil =>
        rw [State.look, phase] at look
        obtain rfl := Option.some.inj look
        exact ⟨not_false, rfl, rfl⟩
      | cons info infos =>
        rw [State.look, phase] at look
        obtain rfl := Option.some.inj look
        exact ⟨not_false, rfl, rfl⟩
    | start | deciding | removing | returned | raised => simp [State.look, phase] at look
  · cases phase : s.phase with
    | deciding entries decisions =>
      cases entries with
      | nil =>
        rw [State.decide, phase] at decided
        obtain rfl := Option.some.inj decided
        exact absurd trivial early
      | cons entry entries =>
        simp only [State.decide, phase] at decided
        split_ifs at decided
        cases made : decide_ config (mergedPull config answer) entry with
        | error error =>
          rw [made] at decided
          obtain rfl := Option.some.inj decided
          exact ⟨not_false, rfl, rfl⟩
        | ok decision =>
          rw [made] at decided
          obtain rfl := Option.some.inj decided
          exact ⟨not_false, rfl, rfl⟩
    | start | looking | removing | returned | raised => simp [State.decide, phase] at decided

theorem remove_removes {proc : Refusal} (removed : s.remove config proc = some t) :
    t.phase.Removes := by
  cases phase : s.phase with
  | removing decisions items =>
    cases decisions with
    | nil =>
      rw [State.remove, phase] at removed
      obtain rfl := Option.some.inj removed
      trivial
    | cons decision decisions =>
      rw [State.remove, phase] at removed
      obtain rfl := Option.some.inj removed
      trivial
  | start | looking | deciding | returned | raised => simp [State.remove, phase] at removed

theorem step_inPlace {action : Action} (inPlace : ¬s.phase.Removes → InPlace start s)
    (taken : step config s action = some t) : ¬t.phase.Removes → InPlace start t := by
  intro early
  have kept (own : (∃ answers, s.list answers = some t) ∨ s.look = some t ∨
      ∃ answer, s.decide config answer = some t) : InPlace start t := by
    obtain ⟨before, repo, removals⟩ := early_step own early
    exact ⟨repo ▸ (inPlace before).places, removals ▸ (inPlace before).none_⟩
  rcases step_cases taken with ⟨later, evolves, rfl⟩ | list | look | decided | ⟨proc, _, removed⟩
  · have was := inPlace early
    exact ⟨fun place => (evolves.places place).trans (was.places place), was.none_⟩
  · exact kept (.inl list)
  · exact kept (.inr (.inl look))
  · exact kept (.inr (.inr decided))
  · exact absurd (remove_removes removed) early

end InPlace

def begin_ (repo : Repo) : State := { repo := repo, listed := repo }

/-- In every run without force whose removals are covered, no removed worktree held a commit of its
    own. In every run, a read that fails leaves all worktrees in place. -/
theorem prune_loses_nothing {start : Repo} {actions : List Action} (unforced : config.force = false)
    (run : exec (step config) (begin_ start) actions = some s) :
    (Meets (step config) (Covered parents config) (begin_ start) actions → LosesNothing parents s) ∧
      ∀ error, s.phase = .raised error →
        s.removals = [] ∧ ∀ place, place ∈ s.repo.worktrees ↔ place ∈ start.worktrees := by
  constructor
  · intro covered
    have begins : Inv parents (begin_ start) := ⟨trivial, fun _ mem => absurd mem List.not_mem_nil⟩
    exact (exec_invariant (Inv parents) (fun _ _ _ inv covered taken =>
      step_inv unforced inv covered taken) begins covered run).nothing
  · intro error raised
    have keeps (s : State) (a : Action) (t : State) (inPlace : ¬s.phase.Removes → InPlace start s)
        (taken : step config s a = some t) : ¬t.phase.Removes → InPlace start t :=
      step_inPlace inPlace taken
    have inPlace := exec_invariant_always keeps (fun _ => ⟨fun _ => Iff.rfl, rfl⟩) run
      (by rw [raised]; exact not_false)
    exact ⟨inPlace.none_, inPlace.places⟩

section Instances

def trunk : Sha := ⟨"trunk".toList, by decide⟩
def feature : Sha := ⟨"feature".toList, by decide⟩
def more : Sha := ⟨"more".toList, by decide⟩

def exampleParents (commit : Sha) : List Sha :=
  if commit = more then [feature] else if commit = feature then [trunk] else []

def checkout_ : Place := ⟨["r".toList], by decide⟩
def agentPlace : Place := ⟨["w".toList], by decide⟩

def exampleRepo (pulls : List CommitPull) (tree : Tree) : Repo where
  branches := [(⟨"main".toList, by decide⟩, trunk)]
  refs := [trunk]
  pulls := pulls
  main := checkout_
  mainTree := { head := .attached ⟨"main".toList, by decide⟩ }
  worktrees := AList.singleton agentPlace tree

def exampleConfig : Config where
  repo := some "o/r".toList
  currentDir := ["r".toList]
  resolve := id

def merged : CommitPull := ⟨7, some "2026".toList, "feature".toList⟩

def refused : Refusal := ⟨128, []⟩

def decides (answer : Option (List CommitPull)) : List Action :=
  [.list true, .look, .look, .look, .decide (some []), .decide answer, .decide none]

def mergedDetached : State := begin_ (exampleRepo [merged] { head := .detached feature })

theorem more_unreached {repo : Repo}
    (refs : repo.branches.map Prod.snd ++ repo.refs = [trunk, trunk]) :
    ¬Reachable exampleParents repo more := by
  rintro ⟨ref, mem, reached⟩
  obtain rfl : ref = trunk := by simpa [refs] using mem
  rcases reached.cases_head with same | ⟨parent, first, _⟩
  · exact absurd same (by decide)
  · have root : exampleParents trunk = [] := by decide
    rw [root] at first
    cases first

/-- A worktree whose tip is the head of a merged pull is removed, and no agent works in it. -/
theorem prune_loses_nothing_one : ∃ s, exec (step exampleConfig) mergedDetached
    (decides (some [merged]) ++ [.remove refused, .remove refused]) = some s ∧
      LosesNothing exampleParents s := by
  obtain ⟨s, run⟩ : ∃ s, exec (step exampleConfig) mergedDetached
    (decides (some [merged]) ++ [.remove refused, .remove refused]) = some s := ⟨_, rfl⟩
  refine ⟨s, run, (prune_loses_nothing rfl run).1 ?_⟩
  refine (meets_append (t := ?_) ?run).mpr ⟨?early, ?late⟩
  case run => rfl
  case early =>
    exact ⟨trivial, fun _ _ => ⟨trivial, fun _ _ => ⟨trivial, fun _ _ => ⟨trivial, fun _ _ =>
      ⟨trivial, fun _ _ => ⟨trivial, fun _ _ => ⟨trivial, fun _ _ => trivial⟩⟩⟩⟩⟩⟩⟩
  case late =>
    refine ⟨fun linked taken => ?_, fun t first => ?_⟩
    · cases taken
    · cases first
      refine ⟨fun linked taken => ?_, fun _ _ => trivial⟩
      cases taken
      exact .inr (.inr ⟨_, rfl, rfl, rfl⟩)

/-- An agent commits in a detached worktree after its merged tip was read, and the directory of a
    detached worktree is missing: each time the run removes the worktree, and its commit is the head
    of no merged pull and no ref reaches it. -/
theorem own_commit_lost :
    (∃ s, exec (step exampleConfig) mergedDetached
      (decides (some [merged]) ++ [.commit agentPlace more, .remove refused, .remove refused]) = some s ∧
        ¬LosesNothing exampleParents s) ∧
      ∃ s, exec (step exampleConfig)
        (begin_ (exampleRepo [] { head := .detached more, present := false }))
        (decides none ++ [.remove refused, .remove refused]) = some s ∧
          ¬LosesNothing exampleParents s := by
  refine ⟨⟨_, rfl, fun nothing => ?_⟩, _, rfl, fun nothing => ?_⟩
  · rcases nothing _ List.mem_cons_self more rfl with ⟨pull, mem, _, head⟩ | reached
    · rw [List.mem_singleton.mp mem] at head
      exact absurd head (by decide)
    · exact more_unreached rfl reached
  · rcases nothing _ List.mem_cons_self more rfl with ⟨pull, mem, _, _⟩ | reached
    · cases mem
    · exact more_unreached rfl reached

end Instances
end DevopsCli.Worktrees
