import Mathlib.Data.List.Dedup
import Mathlib.Data.List.Perm.Subperm
import Mathlib.Logic.Relation

/- What is reachable along edges, gathered with a stack of the nodes whose edges are still to be
   followed. Nothing here is about one program. -/
namespace DevopsCli.Worklist
variable {κ : Type} [DecidableEq κ] (edges : κ → List κ)

def fresh (reached : List κ) (node : κ) : List κ := ((edges node).filter (· ∉ reached)).dedup

/-- Follows the edges of each pending node, for at most the given number of nodes. -/
def spread : Nat → List κ → List κ → List κ
  | 0, reached, _ => reached
  | _ + 1, reached, [] => reached
  | rounds + 1, reached, node :: pending =>
    spread rounds (reached ++ fresh edges reached node) (fresh edges reached node ++ pending)

/-- Every node reachable from the seeds, where the edges end in the given nodes. -/
def closure (nodes seeds : List κ) : List κ :=
  spread edges (seeds.dedup.length + nodes.dedup.length) seeds.dedup seeds.dedup

def Reaches : κ → κ → Prop := Relation.ReflTransGen fun a b => b ∈ edges a

variable {edges} {reached pending nodes seeds : List κ} {node x : κ}

theorem mem_fresh : x ∈ fresh edges reached node ↔ x ∈ edges node ∧ x ∉ reached := by
  simp [fresh]

/-- What each round keeps: the pending nodes are reached, and so are the targets of the other
    reached nodes. -/
structure Kept (edges : κ → List κ) (reached pending : List κ) : Prop where
  waiting : ∀ node ∈ pending, node ∈ reached
  closed : ∀ node ∈ reached, node ∈ pending ∨ ∀ x ∈ edges node, x ∈ reached

theorem Kept.step (kept : Kept edges reached (node :: pending)) :
    Kept edges (reached ++ fresh edges reached node) (fresh edges reached node ++ pending) where
  waiting := by
    intro x member
    rcases List.mem_append.mp member with new | old
    · exact List.mem_append_right _ new
    · exact List.mem_append_left _ (kept.waiting x (List.mem_cons_of_mem _ old))
  closed := by
    intro x member
    rcases List.mem_append.mp member with old | new
    · rcases kept.closed x old with waits | done
      · rcases List.mem_cons.mp waits with rfl | later
        · right
          intro y edge
          by_cases there : y ∈ reached
          · exact List.mem_append_left _ there
          · exact List.mem_append_right _ (mem_fresh.mpr ⟨edge, there⟩)
        · exact .inl (List.mem_append_right _ later)
      · exact .inr fun y edge => List.mem_append_left _ (done y edge)
    · exact .inl (List.mem_append_left _ new)

def missing (nodes reached : List κ) : List κ := nodes.dedup.filter (· ∉ reached)

theorem missing_step (inside : ∀ x ∈ edges node, x ∈ nodes) :
    (missing nodes (reached ++ fresh edges reached node)).length +
      (fresh edges reached node).length ≤ (missing nodes reached).length := by
  have apart : (missing nodes (reached ++ fresh edges reached node) ++
      fresh edges reached node).Nodup := by
    refine List.nodup_append.mpr ⟨(List.nodup_dedup _).filter _, List.nodup_dedup _, ?_⟩
    rintro x old _ new rfl
    have out := (List.mem_filter.mp old).2
    simp only [List.mem_append, not_or, decide_eq_true_eq] at out
    exact out.2 new
  rw [← List.length_append]
  refine (List.subperm_of_subset apart ?_).length_le
  intro x member
  rcases List.mem_append.mp member with old | new
  · have here := List.mem_filter.mp old
    simp only [List.mem_append, not_or, decide_eq_true_eq] at here
    exact List.mem_filter.mpr ⟨here.1, decide_eq_true here.2.1⟩
  · have here := mem_fresh.mp new
    exact List.mem_filter.mpr ⟨List.mem_dedup.mpr (inside x here.1), decide_eq_true here.2⟩

theorem subset_spread (rounds : Nat) : ∀ x ∈ reached, x ∈ spread edges rounds reached pending := by
  induction rounds generalizing reached pending with
  | zero => exact fun x member => member
  | succ rounds ih =>
    cases pending with
    | nil => exact fun x member => member
    | cons node pending => exact fun x member => ih x (List.mem_append_left _ member)

theorem spread_sound (rounds : Nat) (kept : ∀ node ∈ pending, node ∈ reached) :
    ∀ x ∈ spread edges rounds reached pending, ∃ seed ∈ reached, Reaches edges seed x := by
  induction rounds generalizing reached pending with
  | zero => exact fun x member => ⟨x, member, .refl⟩
  | succ rounds ih =>
    cases pending with
    | nil => exact fun x member => ⟨x, member, .refl⟩
    | cons node pending =>
      intro x member
      have new : ∀ y ∈ fresh edges reached node ++ pending,
          y ∈ reached ++ fresh edges reached node := by
        intro y here
        rcases List.mem_append.mp here with first | later
        · exact List.mem_append_right _ first
        · exact List.mem_append_left _ (kept y (List.mem_cons_of_mem _ later))
      obtain ⟨seed, here, leads⟩ := ih new x member
      rcases List.mem_append.mp here with old | added
      · exact ⟨seed, old, leads⟩
      · exact ⟨node, kept node List.mem_cons_self, .head (mem_fresh.mp added).1 leads⟩

theorem spread_closed (inside : ∀ node, ∀ x ∈ edges node, x ∈ nodes) {rounds : Nat}
    (kept : Kept edges reached pending)
    (enough : pending.length + (missing nodes reached).length ≤ rounds) :
    ∀ node ∈ spread edges rounds reached pending,
      ∀ x ∈ edges node, x ∈ spread edges rounds reached pending := by
  induction rounds generalizing reached pending with
  | zero =>
    have none_ : pending = [] := List.length_eq_zero_iff.mp (by omega)
    intro node member x edge
    rcases kept.closed node member with waits | done
    · rw [none_] at waits
      exact absurd waits List.not_mem_nil
    · exact done x edge
  | succ rounds ih =>
    cases pending with
    | nil =>
      intro node member x edge
      rcases kept.closed node member with waits | done
      · exact absurd waits List.not_mem_nil
      · exact done x edge
    | cons node pending =>
      apply ih kept.step
      have fewer : (missing nodes (reached ++ fresh edges reached node)).length +
          (fresh edges reached node).length ≤ (missing nodes reached).length :=
        missing_step (inside node)
      rw [List.length_cons] at enough
      rw [List.length_append]
      omega

theorem mem_closure (inside : ∀ node, ∀ x ∈ edges node, x ∈ nodes) :
    x ∈ closure edges nodes seeds ↔ ∃ seed ∈ seeds, Reaches edges seed x := by
  constructor
  · intro member
    obtain ⟨seed, here, leads⟩ := spread_sound _ (fun node member => member) x member
    exact ⟨seed, List.mem_dedup.mp here, leads⟩
  · rintro ⟨seed, here, leads⟩
    have start : Kept edges seeds.dedup seeds.dedup := ⟨fun _ member => member, fun _ member => .inl member⟩
    have enough : seeds.dedup.length + (missing nodes seeds.dedup).length ≤
        seeds.dedup.length + nodes.dedup.length :=
      Nat.add_le_add_left (List.length_filter_le _ _) _
    have closed := spread_closed inside start enough
    induction leads with
    | refl => exact subset_spread _ seed (List.mem_dedup.mpr here)
    | tail _ edge ih => exact closed _ ih _ edge

end DevopsCli.Worklist
