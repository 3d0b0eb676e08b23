import DevopsCli.Lib.PyLines
import DevopsCli.Lib.Run
import DevopsCli.Rag.Indexer

/- The points of a project against the files on disk, over any edits, runs and failed calls. -/
namespace DevopsCli.Index
open PyStr Act DevopsCli.Run

variable {Text Id : Type} {ix : Indexer Text Id}

section Batches
variable {α : Type} {n : Nat}

theorem flatten_batches (positive : 0 < n) (xs : List α) : (batches n xs).flatten = xs :=
  flatten_starts positive xs

end Batches

section Calls
variable {workspace : Workspace ix} {coll : Collection} {S T : Collection → CodeChunk Id → Prop}

structure At (workspace : Workspace ix) (S : Collection → CodeChunk Id → Prop) (w : World ix) :
    Prop where
  files : w.workspace = workspace
  points : ∀ coll chunk, chunk ∈ w.points coll ↔ S coll chunk

theorem At.congr {w : World ix} (at_ : At workspace S w)
    (same : ∀ coll chunk, S coll chunk ↔ T coll chunk) : At workspace T w :=
  ⟨at_.files, fun coll chunk => (at_.points coll chunk).trans (same coll chunk)⟩

theorem At.script {w : World ix} (at_ : At workspace S w) (script : List Outcome) :
    At workspace S { w with script := script } := ⟨at_.files, at_.points⟩

/-- The points without those of a collection that p holds of. -/
def Without (coll : Collection) (p : CodeChunk Id → Bool) (S : Collection → CodeChunk Id → Prop)
    (c : Collection) (chunk : CodeChunk Id) : Prop := S c chunk ∧ (c = coll → ¬p chunk)

theorem at_delete {w : World ix} (at_ : At workspace S w) (coll : Collection)
    (p : CodeChunk Id → Bool) : At workspace (Without coll p S) (w.delete coll p) where
  files := at_.files
  points c chunk := by
    show chunk ∈ Function.update w.points coll _ c ↔ S c chunk ∧ _
    rw [← at_.points c chunk]
    by_cases same : c = coll
    · rw [same, Function.update_self, Keyed.mem_keep, Bool.not_eq_true']
      simp
    · rw [Function.update_of_ne same]
      exact (and_iff_left fun own => absurd own same).symm

theorem returns_call {effect : World ix → World ix} {part : Nat → World ix → World ix}
    {error : IndexError} {pre post : World ix → Prop}
    (works : ∀ w script, pre w → post (effect { w with script := script })) :
    Returns pre (call effect part error) fun _ => post := by
  refine returns_world fun w start => ?_
  cases script : w.script with
  | nil =>
    refine returns_change effect fun v same => ?_
    rw [same]
    exact works w w.script start
  | cons outcome rest =>
    cases outcome with
    | succeeds =>
      refine returns_change _ fun v same => ?_
      rw [same]
      exact works w rest start
    | fails done_ =>
      have stops : Returns (fun _ => True) (raise error : IndexAct ix Unit) fun _ => post :=
        returns_raise error
      exact returns_bind (returns_change _ fun _ _ => trivial) fun _ => stops

theorem returns_delete (p : CodeChunk Id → Bool) :
    Returns (At workspace S) (deletePoints coll p : IndexAct ix Unit) fun _ =>
      At workspace (Without coll p S) :=
  returns_call fun _ script at_ => at_delete (at_.script script) coll p

theorem returns_saveCache (cache : Cache) :
    Returns (At workspace S) (saveCache ix cache) fun _ => At workspace S :=
  returns_change _ fun _ at_ => ⟨at_.files, at_.points⟩

def Purged (ix : Indexer Text Id) (paths : List Str) (S : Collection → CodeChunk Id → Prop)
    (c : Collection) (chunk : CodeChunk Id) : Prop :=
  S c chunk ∧ ¬(chunk.projectName = ix.project ∧ chunk.filePath ∈ paths)

theorem returns_deleteByFiles (coll : Collection) (paths : List Str) :
    Returns (At workspace S) (deletePointsByFiles ix coll paths) fun _ =>
      At workspace (Without coll
        (fun chunk => chunk.projectName = ix.project && chunk.filePath ∈ paths) S) := by
  refine returns_ite (fun none_ => returns_pure () fun w at_ => ?_) fun _ => returns_delete _
  exact at_.congr fun c chunk => by simp [Without, none_]

theorem returns_deleteDocs (paths : List Str) :
    Returns (At workspace (Without .code
        (fun chunk => chunk.projectName = ix.project && chunk.filePath ∈ paths) S))
      (deletePointsByFiles ix .docs paths) fun _ => At workspace (Purged ix paths S) := by
  refine returns_conseq (returns_deleteByFiles .docs paths) (fun _ at_ => at_)
    fun _ w at_ => at_.congr fun c chunk => ?_
  cases c with
  | code => simp [Without, Purged]
  | docs => simp [Without, Purged]

theorem purged_append (first later : List Str) (c : Collection) (chunk : CodeChunk Id) :
    Purged ix later (Purged ix first S) c chunk ↔ Purged ix (first ++ later) S c chunk := by
  rw [Purged, Purged, Purged, List.mem_append, and_or_left, not_or, and_assoc]

theorem returns_purgeObsolete (paths : List Str) (cache : Cache) :
    Returns (At workspace S) (purgeObsoletePoints ix paths cache) fun _ =>
      At workspace (Purged ix (obsolete ix cache paths) S) := by
  have loop (chunks : List (List Str)) (S : Collection → CodeChunk Id → Prop) :
      Returns (At workspace S) (chunks.forM fun chunk => do
        deletePointsByFiles ix .code chunk
        deletePointsByFiles ix .docs chunk) fun _ => At workspace (Purged ix chunks.flatten S) := by
    induction chunks generalizing S with
    | nil =>
      refine returns_pure _ fun w at_ => at_.congr fun c chunk => ?_
      simp [Purged]
    | cons chunk chunks ih =>
      have first : Returns (At workspace S) (do
          deletePointsByFiles ix .code chunk
          deletePointsByFiles ix .docs chunk) fun _ => At workspace (Purged ix chunk S) :=
        returns_bind (returns_deleteByFiles .code chunk) fun _ => returns_deleteDocs chunk
      refine returns_conseq (returns_bind first fun _ => ih (Purged ix chunk S))
        (fun _ at_ => at_) fun _ w at_ => at_.congr fun c one => ?_
      exact purged_append chunk chunks.flatten c one
  rw [← flatten_batches (n := 100) (by decide) (obsolete ix cache paths)]
  exact loop _ S

theorem returns_purgeDeleted (cache fileHashes : Cache) :
    Returns (At workspace S) (purgeDeletedVectors ix cache fileHashes) fun left w =>
      left = cache.filter (fun entry =>
        entry.1 ∉ (deletedPaths ix cache fileHashes).map (cacheKey ix.project)) ∧
      At workspace (Purged ix (deletedPaths ix cache fileHashes) S) w := by
  have loop (chunks : List (List Str)) (cache : Cache) (S : Collection → CodeChunk Id → Prop) :
      Returns (At workspace S) (purgeDeletedBatches ix cache chunks) fun left w =>
        left = cache.filter (fun entry => entry.1 ∉ chunks.flatten.map (cacheKey ix.project)) ∧
          At workspace (Purged ix chunks.flatten S) w := by
    induction chunks generalizing cache S with
    | nil =>
      refine returns_pure _ fun w at_ => ⟨by simp, at_.congr fun c chunk => ?_⟩
      simp [Purged]
    | cons chunk chunks ih =>
      have batch : Returns (At workspace S) (purgeDeletedBatch ix chunk cache) fun left w =>
          left = cache.filter (fun entry => entry.1 ∉ chunk.map (cacheKey ix.project)) ∧
            At workspace (Purged ix chunk S) w :=
        returns_bind (returns_deleteByFiles .code chunk) fun _ =>
          returns_bind (returns_deleteDocs chunk) fun _ =>
            returns_bind (returns_saveCache _) fun _ => returns_pure _ fun _ at_ => ⟨rfl, at_⟩
      refine returns_bind batch fun left => spec_fact fun same => ?_
      refine returns_conseq (ih left (Purged ix chunk S)) (fun _ at_ => at_) fun after w ended => ?_
      refine ⟨?_, ended.2.congr fun c one => purged_append chunk chunks.flatten c one⟩
      rw [ended.1, same, List.filter_filter]
      refine List.filter_congr fun entry _ => ?_
      simp only [List.flatten_cons, List.map_append, List.mem_append, not_or, Bool.decide_and]
      exact Bool.and_comm _ _
  have whole := flatten_batches (n := 100) (by decide) (deletedPaths ix cache fileHashes)
  have purged := loop (batches 100 (deletedPaths ix cache fileHashes)) cache S
  rw [whole] at purged
  exact purged

variable {news : List (CodeChunk Id)}

def With (coll : Collection) (news : List (CodeChunk Id)) (S : Collection → CodeChunk Id → Prop)
    (c : Collection) (chunk : CodeChunk Id) : Prop :=
  (c = coll ∧ chunk ∈ news) ∨ (S c chunk ∧ (c = coll → chunk.id ∉ news.map CodeChunk.id))

theorem with_append {first later : List (CodeChunk Id)}
    (distinct : ((first ++ later).map CodeChunk.id).Nodup) (c : Collection) (chunk : CodeChunk Id) :
    With coll later (With coll first S) c chunk ↔ With coll (first ++ later) S c chunk := by
  rw [List.map_append, List.nodup_append] at distinct
  have apart (one : chunk ∈ first) : chunk.id ∉ later.map CodeChunk.id :=
    fun other => distinct.2.2 _ (List.mem_map_of_mem one) _ other rfl
  simp only [With, List.mem_append, List.map_append, not_or]
  constructor
  · rintro (⟨own, mem⟩ | ⟨⟨own, mem⟩ | ⟨old, before⟩, after⟩)
    · exact .inl ⟨own, .inr mem⟩
    · exact .inl ⟨own, .inl mem⟩
    · exact .inr ⟨old, fun own => ⟨before own, after own⟩⟩
  · rintro (⟨own, mem | mem⟩ | ⟨old, others⟩)
    · exact .inr ⟨.inl ⟨own, mem⟩, fun _ => apart mem⟩
    · exact .inl ⟨own, mem⟩
    · exact .inr ⟨.inr ⟨old, fun own => (others own).1⟩, fun own => (others own).2⟩

variable [DecidableEq Id]

theorem at_upsert {w : World ix} (at_ : At workspace S w) (coll : Collection)
    (distinct : (news.map CodeChunk.id).Nodup) :
    At workspace (With coll news S) (w.upsert coll news) where
  files := at_.files
  points c chunk := by
    show chunk ∈ Function.update w.points coll _ c ↔ _ ∨ (S c chunk ∧ _)
    rw [← at_.points c chunk]
    by_cases same : c = coll
    · rw [same, Function.update_self, Keyed.mem_upsertAll distinct]
      simp
    · rw [Function.update_of_ne same]
      simp [same]

theorem returns_upsertPoints (coll : Collection) (distinct : (news.map CodeChunk.id).Nodup) :
    Returns (At workspace S) (upsertPoints ix coll news) fun _ => At workspace (With coll news S) := by
  refine returns_ite (fun none_ => returns_pure () fun w at_ => ?_) fun _ =>
    returns_call fun _ script at_ => at_upsert (at_.script script) coll distinct
  exact at_.congr fun c chunk => by simp [With, none_]

theorem returns_upsertChunks (coll : Collection) (distinct : (news.map CodeChunk.id).Nodup)
    (fileHashes : Cache) (progress : Progress) :
    Returns (At workspace S) (upsertChunks ix coll news fileHashes progress) fun _ =>
      At workspace (With coll news S) := by
  have loop (parts : List (List (CodeChunk Id))) (distinct : (parts.flatten.map CodeChunk.id).Nodup)
      (progress : Progress) (S : Collection → CodeChunk Id → Prop) :
      Returns (At workspace S) (upsertBatches ix coll fileHashes progress parts) fun _ =>
        At workspace (With coll parts.flatten S) := by
    induction parts generalizing progress S with
    | nil =>
      refine returns_pure _ fun w at_ => at_.congr fun c chunk => ?_
      simp [With]
    | cons part parts ih =>
      have split := distinct
      rw [List.flatten_cons, List.map_append, List.nodup_append] at split
      have embeds : Returns (At workspace S) (embedTexts ix part) fun _ => At workspace S :=
        returns_call fun _ script at_ => at_.script script
      refine returns_bind embeds fun _ =>
        returns_bind (returns_upsertPoints coll split.1) fun _ => ?_
      have notes : Returns (At workspace (With coll part S))
          (updateIncrementalCache ix fileHashes part progress) fun _ => At workspace (With coll part S) :=
        returns_bind (returns_saveCache _) fun _ => returns_pure _ fun _ at_ => at_
      refine returns_bind notes fun progress => ?_
      exact returns_conseq (ih split.2.1 progress (With coll part S)) (fun _ at_ => at_)
        fun _ w at_ => at_.congr (with_append distinct)
  have whole := flatten_batches ix.positive news
  have stored := loop (batches ix.batchSize news) (by rw [whole]; exact distinct) progress S
  rw [whole] at stored
  exact stored

def Stored (news : List (CodeChunk Id)) (S : Collection → CodeChunk Id → Prop) (c : Collection)
    (chunk : CodeChunk Id) : Prop :=
  (chunk ∈ news ∧ chunk.collection = c) ∨
    (S c chunk ∧ ∀ new ∈ news, new.collection = c → new.id ≠ chunk.id)

theorem returns_upsertPartitioned (distinct : (news.map CodeChunk.id).Nodup)
    (cache fileHashes : Cache) :
    Returns (At workspace S) (upsertPartitionedChunks ix news cache fileHashes) fun _ =>
      At workspace (Stored news S) := by
  have own (coll : Collection) : ((partitionChunks news coll).map CodeChunk.id).Nodup :=
    (List.filter_sublist.map _).nodup distinct
  refine returns_bind (returns_upsertChunks .code (own .code) fileHashes _) fun progress => ?_
  refine returns_bind (returns_upsertChunks .docs (own .docs) fileHashes progress) fun progress => ?_
  refine returns_pure _ fun w at_ => at_.congr fun c chunk => ?_
  cases c with
  | code => simp [With, Stored, partitionChunks]
  | docs => simp [With, Stored, partitionChunks]

end Calls

section Run
variable {workspace : Workspace ix} {w : World ix} {force : Bool}

/-- The run indexes the project from nothing. -/
def Refills (ix : Indexer Text Id) (w : World ix) (force : Bool) : Prop :=
  force = true ∨ checkProjectPointsIntact ix w = false

instance (force : Bool) : Decidable (Refills ix w force) := inferInstanceAs (Decidable (_ ∨ _))

def Begins (ix : Indexer Text Id) (w : World ix) (forced : Bool) (c : Collection)
    (chunk : CodeChunk Id) : Prop :=
  chunk ∈ w.points c ∧ (forced → chunk.projectName ≠ ix.project)

theorem returns_deleteByProject {S : Collection → CodeChunk Id → Prop} {cache : Cache}
    (coll : Collection) :
    Returns (fun u => u.cache = cache ∧ At workspace S u) (deletePointsByProject ix coll) fun _ u =>
      u.cache = cache ∧
        At workspace (Without coll (fun chunk => chunk.projectName = ix.project) S) u := by
  unfold deletePointsByProject deletePoints
  refine returns_call fun u script start => ⟨?_, ?_⟩
  · exact start.1
  · exact at_delete (start.2.script script) coll _

theorem returns_prepare : Returns (fun v => v = w) (prepareForceProjects ix force) fun forced v =>
    forced = decide (Refills ix w force) ∧ v.cache = w.cache ∧
      At w.workspace (Begins ix w forced) v := by
  refine returns_world fun v same => ?_
  subst same
  refine returns_ite (fun refills => ?_) fun keeps => ?_
  · have all (u : World ix) (same : u = v) : u.cache = v.cache ∧
        At v.workspace (fun c chunk => chunk ∈ v.points c) u := by
      subst same
      exact ⟨rfl, rfl, fun _ _ => Iff.rfl⟩
    have code := returns_conseq (returns_deleteByProject .code) all fun _ _ kept => kept
    refine returns_bind code fun _ => returns_bind (returns_deleteByProject .docs) fun _ => ?_
    refine returns_pure _ fun u kept => ⟨?_, kept.1, kept.2.congr fun c chunk => ?_⟩
    · exact (decide_eq_true (by simpa [Refills] using refills)).symm
    · cases c with
      | code => simp [Without, Begins]
      | docs => simp [Without, Begins]
  · refine returns_pure _ fun u same => ?_
    subst same
    refine ⟨?_, rfl, rfl, fun c chunk => ?_⟩
    · exact (decide_eq_false (by simpa [Refills] using keeps)).symm
    · simp [Begins]

theorem returns_saveCounts {S : Collection → CodeChunk Id → Prop} :
    Returns (At workspace S) (saveProjectCounts ix) fun _ => At workspace S :=
  returns_change _ fun _ at_ => ⟨at_.files, at_.points⟩

theorem news_distinct (workspace : Workspace ix) (cache : Cache) (forced : Bool) :
    ((scanWorkspaceFiles ix cache forced workspace.files).chunks.map CodeChunk.id).Nodup :=
  ((List.filter_sublist.flatMap _).map _).nodup workspace.ids

variable [DecidableEq Id]

theorem returns_store {S : Collection → CodeChunk Id → Prop} {news : List (CodeChunk Id)}
    (distinct : (news.map CodeChunk.id).Nodup) (paths : List Str) (cache fileHashes : Cache)
    (result : IndexResult) :
    Returns (At workspace S) (do
      purgeObsoletePoints ix paths cache
      let cache ← upsertPartitionedChunks ix news cache fileHashes
      saveCache ix cache
      saveProjectCounts ix
      pure result) fun _ => At workspace (Stored news (Purged ix (obsolete ix cache paths) S)) :=
  returns_bind (returns_purgeObsolete paths cache) fun _ =>
    returns_bind (returns_upsertPartitioned distinct cache fileHashes) fun cache =>
      returns_bind (returns_saveCache cache) fun _ =>
        returns_bind returns_saveCounts fun _ => returns_pure result fun _ at_ => at_

theorem returns_refill (refills : Refills ix w force) :
    Returns (fun v => v = w) (indexWorkspace ix force) fun _ => Mirrors ix := by
  have mirrors {v : World ix} {S : Collection → CodeChunk Id → Prop} (at_ : At w.workspace S v)
      (same : ∀ c chunk, S c chunk ∧ chunk.projectName = ix.project ↔
        chunk ∈ w.workspace.chunks ∧ chunk.collection = c) : Mirrors ix v := by
    intro c chunk
    rw [at_.points, same, at_.files]
  refine returns_world fun v same => ?_
  subst same
  refine returns_bind returns_prepare fun forced => spec_fact fun isForced => ?_
  rw [decide_eq_true refills] at isForced
  subst isForced
  refine returns_world fun u start => ?_
  have kept : Returns (fun x => x = u) (pure (startCache ix true u.cache) : IndexAct ix Cache)
      fun _ => At v.workspace (Begins ix v true) := returns_pure _ fun x same => same ▸ start.2
  refine returns_ite (fun _ => returns_bind kept fun cache => ?_) fun no => absurd rfl no
  have all : (scanWorkspaceFiles ix (startCache ix true u.cache) true v.workspace.files).chunks =
      v.workspace.chunks := by
    simp [scanWorkspaceFiles, toReindex, Workspace.chunks]
  refine returns_ite (fun none_ => ?_) fun some_ => ?_
  · refine returns_bind returns_saveCounts fun _ => returns_pure _ fun x at_ => mirrors at_ ?_
    intro c chunk
    rw [← all, none_]
    simp [Begins]
  · refine returns_conseq (returns_store (news_distinct v.workspace _ true) _ _ _ _)
      (fun _ at_ => at_) fun _ x at_ => mirrors at_ fun c chunk => ?_
    have placed (mem : chunk ∈ v.workspace.chunks) : chunk.projectName = ix.project := by
      obtain ⟨file, _, own⟩ := List.mem_flatMap.mp mem
      exact (ix.placed _ _ _ own).1
    rw [all, Stored, Purged, Begins]
    constructor
    · rintro ⟨here | ⟨⟨⟨_, other⟩, _⟩, _⟩, own⟩
      · exact here
      · exact absurd own (other rfl)
    · exact fun here => ⟨.inl here, placed here.1⟩

end Run

section Ready
variable {w : World ix} {force : Bool}

section Selection
variable (ix : Indexer Text Id) (w : World ix)

def scanOf : Scan Id := scanWorkspaceFiles ix w.cache false w.workspace.files

def deletedOf : List Str := deletedPaths ix w.cache (scanOf ix w).fileHashes

def keptCache : Cache :=
  w.cache.filter fun entry => entry.1 ∉ (deletedOf ix w).map (cacheKey ix.project)

/-- The run purges the points of the path: its file is gone, or, when there is something to embed,
    it has changed and is in the cache, or the cache is empty. -/
def Selected (path : Str) : Prop :=
  path ∈ deletedOf ix w ∨
    ((scanOf ix w).chunks ≠ [] ∧ path ∈ obsolete ix (keptCache ix w) (scanOf ix w).reindex)

/-- Before a run that does not start from nothing: each file that has its cached hash has its chunks
    stored, and each other point of the project is purged or has the id of a chunk to embed. -/
structure Ready : Prop where
  stored : ∀ file ∈ w.workspace.files, unchanged ix w.cache file →
    ∀ chunk ∈ ix.chunkFile file.1 file.2, chunk ∈ w.points chunk.collection
  others : ∀ coll, ∀ chunk ∈ w.points coll, chunk.projectName = ix.project →
    Selected ix w chunk.filePath ∨
    (∃ new ∈ (scanOf ix w).chunks, new.collection = coll ∧ new.id = chunk.id) ∨
    (chunk.collection = coll ∧ ∃ file ∈ w.workspace.files, unchanged ix w.cache file ∧
      chunk ∈ ix.chunkFile file.1 file.2)

end Selection

theorem mem_scanOf {chunk : CodeChunk Id} : chunk ∈ (scanOf ix w).chunks ↔
    ∃ file ∈ w.workspace.files, unchanged ix w.cache file = false ∧
      chunk ∈ ix.chunkFile file.1 file.2 := by
  simp [scanOf, scanWorkspaceFiles, toReindex, and_assoc]

theorem one_file {file other : Str × Text} {chunk : CodeChunk Id}
    (mem : file ∈ w.workspace.files) (own : chunk ∈ ix.chunkFile file.1 file.2)
    (mem' : other ∈ w.workspace.files) (own' : chunk ∈ ix.chunkFile other.1 other.2) :
    file = other := by
  have path := (ix.placed _ _ _ own).2.symm.trans (ix.placed _ _ _ own').2
  exact List.inj_on_of_nodup_map w.workspace.names mem mem' path

theorem unchanged_apart {file : Str × Text} {chunk new : CodeChunk Id}
    (mem : file ∈ w.workspace.files) (same : unchanged ix w.cache file)
    (own : chunk ∈ ix.chunkFile file.1 file.2) (embedded : new ∈ (scanOf ix w).chunks) :
    new.id ≠ chunk.id := by
  intro ids
  obtain ⟨other, mem', changed, own'⟩ := mem_scanOf.mp embedded
  have one : new = chunk := List.inj_on_of_nodup_map w.workspace.ids
    (List.mem_flatMap.mpr ⟨other, mem', own'⟩) (List.mem_flatMap.mpr ⟨file, mem, own⟩) ids
  obtain rfl := one_file mem own mem' (one ▸ own')
  rw [same] at changed
  cases changed

theorem key_parts {key : Str} (rel : relPathOf key ≠ []) :
    key = cacheKey (projectOf key) (relPathOf key) := by
  have split := List.takeWhile_append_dropWhile (p := (· ≠ ':')) (l := key)
  cases rest : key.dropWhile (· ≠ ':') with
  | nil =>
    rw [relPathOf, rest] at rel
    exact absurd rfl rel
  | cons c tail =>
    have colon : c = ':' := by
      have stops := List.head?_dropWhile_not (· ≠ ':') key
      rw [rest] at stops
      simpa using stops
    subst colon
    rw [relPathOf, rest, cacheKey, projectOf, List.drop_one, List.tail_cons, ← rest, split]

theorem unchanged_unselected {file : Str × Text} (mem : file ∈ w.workspace.files)
    (same : unchanged ix w.cache file) : ¬Selected ix w file.1 := by
  rintro (gone | ⟨_, obsolete_⟩)
  · obtain ⟨key, kept, path⟩ := List.mem_map.mp gone
    have facts := (List.mem_filter.mp kept).2
    simp only [Bool.and_eq_true, decide_eq_true_eq] at facts
    obtain ⟨⟨project, absent⟩, rel⟩ := facts
    have own : key = cacheKey ix.project file.1 := project ▸ path ▸ key_parts rel
    refine absent (List.mem_map.mpr ⟨(key, ix.hashContent file.2), ?_, rfl⟩)
    exact List.mem_map.mpr ⟨file, mem, by rw [own]⟩
  · obtain ⟨other, read, path⟩ := List.mem_map.mp (List.mem_filter.mp obsolete_).1
    obtain ⟨mem', changed⟩ := List.mem_filter.mp read
    have one : other = file := List.inj_on_of_nodup_map w.workspace.names mem' mem path
    rw [one, same] at changed
    cases changed

def Updated (ix : Indexer Text Id) (w : World ix) (c : Collection) (chunk : CodeChunk Id) : Prop :=
  (chunk ∈ (scanOf ix w).chunks ∧ chunk.collection = c) ∨
    ((chunk ∈ w.points c ∧ ¬(chunk.projectName = ix.project ∧ Selected ix w chunk.filePath)) ∧
      ∀ new ∈ (scanOf ix w).chunks, new.collection = c → new.id ≠ chunk.id)

theorem returns_update [DecidableEq Id] (keeps : ¬Refills ix w force) :
    Returns (fun v => v = w) (indexWorkspace ix force) fun _ => At w.workspace (Updated ix w) := by
  refine returns_world fun v same => ?_
  subst same
  refine returns_bind returns_prepare fun forced => spec_fact fun isForced => ?_
  rw [decide_eq_false keeps] at isForced
  subst isForced
  refine returns_world fun u start => ?_
  have cache : startCache ix false u.cache = v.cache := start.1
  rw [cache]
  refine returns_ite (fun yes => absurd yes Bool.false_ne_true) fun _ => ?_
  have begins (x : World ix) (same : x = u) : At v.workspace (Begins ix v false) x := by
    rw [same]
    exact start.2
  have purged := returns_conseq (returns_purgeDeleted v.cache (scanOf ix v).fileHashes) begins
    fun _ _ kept => kept
  refine returns_bind purged fun left => spec_fact fun kept => ?_
  subst kept
  refine returns_ite (fun none_ => ?_) fun some_ => ?_
  · refine returns_bind returns_saveCounts fun _ => returns_pure _ fun x at_ => at_.congr ?_
    intro c chunk
    have nothing : (scanOf ix v).chunks = [] := none_
    simp [Updated, Purged, Begins, Selected, nothing, deletedOf]
  · refine returns_conseq (returns_store (news_distinct v.workspace _ false) _ _ _ _)
      (fun _ at_ => at_) fun _ x at_ => at_.congr fun c chunk => ?_
    have something : (scanOf ix v).chunks ≠ [] := some_
    rw [Stored, Updated]
    refine or_congr Iff.rfl (and_congr ?_ Iff.rfl)
    have purges : Selected ix v chunk.filePath ↔ chunk.filePath ∈ deletedOf ix v ∨
        chunk.filePath ∈ obsolete ix (keptCache ix v) (scanOf ix v).reindex :=
      or_congr Iff.rfl (and_iff_right something)
    rw [purges, and_or_left, not_or, ← and_assoc]
    refine and_congr (and_congr ?_ Iff.rfl) Iff.rfl
    exact and_iff_left fun no => absurd no Bool.false_ne_true

theorem updated_iff_ready : (∀ coll chunk, Updated ix w coll chunk ∧ chunk.projectName = ix.project ↔
    chunk ∈ w.workspace.chunks ∧ chunk.collection = coll) ↔ Ready ix w := by
  have from_ {chunk : CodeChunk Id} (mem : chunk ∈ w.workspace.chunks) :
      chunk.projectName = ix.project ∧ (chunk ∈ (scanOf ix w).chunks ∨
        ∃ file ∈ w.workspace.files, unchanged ix w.cache file ∧
          chunk ∈ ix.chunkFile file.1 file.2) := by
    obtain ⟨file, there, own⟩ := List.mem_flatMap.mp mem
    refine ⟨(ix.placed _ _ _ own).1, ?_⟩
    by_cases same : unchanged ix w.cache file = true
    · exact .inr ⟨file, there, same, own⟩
    · exact .inl (mem_scanOf.mpr ⟨file, there, Bool.not_eq_true _ ▸ same, own⟩)
  have embedded {chunk : CodeChunk Id} (mem : chunk ∈ (scanOf ix w).chunks) :
      chunk ∈ w.workspace.chunks := by
    obtain ⟨file, there, _, own⟩ := mem_scanOf.mp mem
    exact List.mem_flatMap.mpr ⟨file, there, own⟩
  constructor
  · intro mirrors
    constructor
    · intro file there same chunk own
      have mem : chunk ∈ w.workspace.chunks := List.mem_flatMap.mpr ⟨file, there, own⟩
      rcases ((mirrors chunk.collection chunk).mpr ⟨mem, rfl⟩).1 with new | old
      · exact absurd rfl (unchanged_apart there same own new.1)
      · exact old.1.1
    · intro coll chunk stored own
      by_cases selected : Selected ix w chunk.filePath
      · exact .inl selected
      · by_cases replaced : ∃ new ∈ (scanOf ix w).chunks, new.collection = coll ∧ new.id = chunk.id
        · exact .inr (.inl replaced)
        · have stays : Updated ix w coll chunk := .inr ⟨⟨stored, fun both => selected both.2⟩,
            fun new mem same ids => replaced ⟨new, mem, same, ids⟩⟩
          obtain ⟨mem, collection⟩ := (mirrors coll chunk).mp ⟨stays, own⟩
          rcases (from_ mem).2 with new | file
          · exact .inr (.inl ⟨chunk, new, collection, rfl⟩)
          · exact .inr (.inr ⟨collection, file⟩)
  · intro ready coll chunk
    constructor
    · rintro ⟨new | ⟨⟨stored, unpurged⟩, unreplaced⟩, own⟩
      · exact ⟨embedded new.1, new.2⟩
      · rcases ready.others coll chunk stored own with selected | ⟨new, mem, same, ids⟩ |
          ⟨collection, file, there, _, mem⟩
        · exact absurd ⟨own, selected⟩ unpurged
        · exact absurd ids (unreplaced new mem same)
        · exact ⟨List.mem_flatMap.mpr ⟨file, there, mem⟩, collection⟩
    · rintro ⟨mem, rfl⟩
      refine ⟨?_, (from_ mem).1⟩
      rcases (from_ mem).2 with new | ⟨file, there, same, own⟩
      · exact .inl ⟨new, rfl⟩
      · refine .inr ⟨⟨ready.stored file there same chunk own, fun both => ?_⟩,
          fun new embedded _ => unchanged_apart there same own embedded⟩
        rw [(ix.placed _ _ _ own).2] at both
        exact unchanged_unselected there same both.2

end Ready

section Runs
variable [DecidableEq Id] {s t : State ix}

def State.begins (s : State ix) (script : List Outcome) : World ix := { s.world with script := script }

/-- A run that returns starts from nothing, or is ready. -/
def ReadyFor (ix : Indexer Text Id) (s : State ix) : Action ix → Prop
  | .edit _ => True
  | .index force script => (run (indexWorkspace ix force) (s.begins script)).1.isOk →
      Refills ix (s.begins script) force ∨ Ready ix (s.begins script)

/-- After a run that returned, the points of the project are the chunks of the files. -/
def Mirrored (ix : Indexer Text Id) (s : State ix) : Prop := s.returned → Mirrors ix s.world

theorem refill_mirrors {w w' : World ix} {force : Bool} {result : IndexResult}
    (returns : run (indexWorkspace ix force) w = (.ok result, w')) (refills : Refills ix w force) :
    Mirrors ix w' := returns_of_run (returns_refill refills) rfl returns

theorem update_mirrors {w w' : World ix} {force : Bool} {result : IndexResult}
    (returns : run (indexWorkspace ix force) w = (.ok result, w')) (keeps : ¬Refills ix w force) :
    Mirrors ix w' ↔ Ready ix w := by
  have at_ := returns_of_run (returns_update keeps) rfl returns
  rw [← updated_iff_ready, Mirrors]
  simp only [at_.points, at_.files]

theorem step_mirrored {action : Action ix} (taken : step ix s action = some t) :
    Mirrored ix t ↔ ReadyFor ix s action := by
  cases action with
  | edit workspace =>
    cases taken
    exact iff_of_true (fun no => absurd no Bool.false_ne_true) trivial
  | index force script =>
    cases taken
    rw [Mirrored, ReadyFor, ← State.begins]
    generalize ended : run (indexWorkspace ix force) (s.begins script) = after
    obtain ⟨result, w'⟩ := after
    cases result with
    | error error =>
      exact iff_of_true (fun no => absurd no Bool.false_ne_true)
        (fun no => absurd no Bool.false_ne_true)
    | ok result =>
      refine imp_congr_right fun _ => ?_
      by_cases refills : Refills ix (s.begins script) force
      · exact iff_of_true (refill_mirrors ended refills) (.inl refills)
      · exact (update_mirrors ended refills).trans (or_iff_right refills).symm

/-- From any files and stores: after every run that returns, the points of the project are exactly
    the chunks of the files on disk, if and only if every run that returns starts from nothing or is
    ready. -/
theorem index_mirrors_iff {w : World ix} {actions : List (Action ix)}
    (run : exec (step ix) { world := w } actions = some s) :
    Meets (step ix) (ReadyFor ix) { world := w } actions ↔
      ∀ done_ rest, actions = done_ ++ rest →
        ∀ m, exec (step ix) { world := w } done_ = some m → Mirrored ix m :=
  meets_iff_reached (Mirrored ix) (fun _ _ _ _ taken => step_mirrored taken)
    (fun no => absurd no Bool.false_ne_true) run

end Runs

section Instances

def wholeFiles : Indexer Str Str where
  project := "p".toList
  named := by decide
  hashContent text := text
  chunkFile path text :=
    if text = [] then [] else [⟨path, path, "p".toList, "code".toList, "code".toList, text⟩]
  placed path text chunk mem := by
    split_ifs at mem
    · cases mem
    · rw [List.mem_singleton.mp mem]
      exact ⟨rfl, rfl⟩
  batchSize := 32
  positive := by decide

def fileA (text : Str) : Workspace wholeFiles where
  files := [("a".toList, text)]
  names := List.nodup_singleton _
  ids := by
    by_cases empty : text = []
    · simp [wholeFiles, empty]
    · simp [wholeFiles, empty]

def filesAB (text : Str) : Workspace wholeFiles where
  files := [("a".toList, text), ("b".toList, "two".toList)]
  names := by simp
  ids := by
    by_cases empty : text = []
    · simp [wholeFiles, empty]
    · simp [wholeFiles, empty]

def chunkA (text : Str) : CodeChunk Str :=
  ⟨"a".toList, "a".toList, "p".toList, "code".toList, "code".toList, text⟩

def emptyWorld : World wholeFiles where
  workspace := ⟨[], List.nodup_nil, List.nodup_nil⟩
  points _ := {}

theorem index_mirrors_iff_one : ∃ s, exec (step wholeFiles) { world := emptyWorld }
    [.edit (fileA "one".toList), .index false []] = some s ∧ Mirrors wholeFiles s.world := by
  obtain ⟨s, ended, returned⟩ : ∃ s, exec (step wholeFiles) { world := emptyWorld }
    [.edit (fileA "one".toList), .index false []] = some s ∧ s.returned := ⟨_, rfl, rfl⟩
  refine ⟨s, ended, (index_mirrors_iff ended).mp ⟨trivial, fun t taken => ?_⟩ _ [] rfl s ended returned⟩
  cases taken
  refine ⟨fun _ => .inr ⟨fun file _ same => ?_, fun coll chunk mem => ?_⟩, fun _ _ => trivial⟩
  · cases same
  · cases mem

/-- A file that is emptied keeps its points. A file whose points were deleted by a run that failed
    then, and that is set back to its older text, is not indexed again. -/
theorem index_out_of_step :
    (∃ s, exec (step wholeFiles) { world := emptyWorld } [.edit (fileA "one".toList), .index false [],
      .edit (fileA []), .index false []] = some s ∧ s.returned ∧ ¬Mirrors wholeFiles s.world) ∧
      ∃ s, exec (step wholeFiles) { world := emptyWorld } [.edit (filesAB "one".toList),
        .index false [], .edit (filesAB "new".toList),
        .index false [.succeeds, .succeeds, .fails 0],
        .edit (filesAB "one".toList), .index false []] = some s ∧ s.returned ∧
          ¬Mirrors wholeFiles s.world := by
  refine ⟨⟨_, rfl, rfl, fun mirrors => ?_⟩, _, rfl, rfl, fun mirrors => ?_⟩
  · have left := (mirrors .code (chunkA "one".toList)).mp (by decide)
    exact absurd left (by decide)
  · have missing := (mirrors .code (chunkA "one".toList)).mpr (by decide)
    exact absurd missing (by decide)

end Instances
end DevopsCli.Index
