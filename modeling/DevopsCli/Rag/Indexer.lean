import DevopsCli.Lib.Act
import DevopsCli.Lib.Keyed
import DevopsCli.Lib.PyStr

/- The workspace indexer, ai/rag/indexer.py, for one named project without the knowledge base. The
   chunker, the content hash and the embedder are outside: the embedder gives a vector for each
   text, so a point is its chunk. A script says which of the calls to the embedder and to Qdrant
   fail. The check of the collections, the visibility and the progress reports are left out. -/
namespace DevopsCli.Index
open PyStr Act

inductive Collection where
  | code
  | docs
  deriving DecidableEq

structure CodeChunk (Id : Type) where
  id : Id
  filePath : Str
  projectName : Str
  category : Str
  docType : Str
  content : Str
  deriving DecidableEq

structure Indexer (Text Id : Type) where
  project : Str
  named : project ≠ []
  hashContent : Text → Str
  chunkFile : Str → Text → List (CodeChunk Id)
  placed : ∀ path text, ∀ chunk ∈ chunkFile path text,
    chunk.projectName = project ∧ chunk.filePath = path
  batchSize : Nat
  positive : 0 < batchSize

abbrev Cache := List (Str × Str)

/-- One call of a script. A call that fails may have had a part of its effect. -/
inductive Outcome where
  | succeeds
  | fails (done_ : Nat)

inductive IndexError where
  | qdrant
  | embeddings (firstFile lastFile : Option Str)
  deriving DecidableEq

structure IndexResult where
  indexedFiles : Nat
  totalChunks : Nat
  codeChunks : Nat
  docChunks : Nat
  removedFiles : Nat
  skippedFiles : Nat
  deriving DecidableEq

variable {Text Id : Type} [DecidableEq Id]

structure Workspace (ix : Indexer Text Id) where
  files : List (Str × Text)
  names : (files.map Prod.fst).Nodup
  ids : ((files.flatMap fun file => ix.chunkFile file.1 file.2).map CodeChunk.id).Nodup

structure World (ix : Indexer Text Id) where
  workspace : Workspace ix
  -- The cache file and the counts file.
  cache : Cache := []
  counts : Option (Collection → Nat) := none
  points : Collection → Keyed (@CodeChunk.id Id)
  script : List Outcome := []

abbrev IndexAct (ix : Indexer Text Id) (α : Type) := Act (World ix) IndexError α

def incompleteMarker : Str := "incomplete".toList

def CodeChunk.isDoc (chunk : CodeChunk Id) : Bool :=
  chunk.category = "docs".toList || chunk.docType = "doc".toList

def CodeChunk.collection (chunk : CodeChunk Id) : Collection := if chunk.isDoc then .docs else .code

def projectOf (key : Str) : Str := key.takeWhile (· ≠ ':')
def relPathOf (key : Str) : Str := (key.dropWhile (· ≠ ':')).drop 1

def cacheKey (project path : Str) : Str := project ++ ':' :: path

def setKey (cache : Cache) (key value : Str) : Cache :=
  if key ∈ cache.map Prod.fst then
    cache.map fun entry => if entry.1 = key then (key, value) else entry
  else cache ++ [(key, value)]

def batches {α : Type} (n : Nat) (xs : List α) : List (List α) :=
  (starts xs.length n).map fun i => (xs.drop i).take n

section Outside
variable {ix : Indexer Text Id}

def World.setPoints (w : World ix) (coll : Collection) (points : Keyed (@CodeChunk.id Id)) :
    World ix :=
  { w with points := Function.update w.points coll points }

def World.delete (w : World ix) (coll : Collection) (p : CodeChunk Id → Bool) : World ix :=
  w.setPoints coll ((w.points coll).keep fun chunk => !p chunk)

def World.upsert (w : World ix) (coll : Collection) (chunks : List (CodeChunk Id)) : World ix :=
  w.setPoints coll ((w.points coll).upsertAll chunks)

/-- A call outside: its effect, what a failed call may have done, and the error it raises. -/
def call (effect : World ix → World ix) (part : Nat → World ix → World ix) (error : IndexError) :
    IndexAct ix Unit := do
  let w ← world
  match w.script with
  | [] => change effect
  | .succeeds :: script => change fun w => effect { w with script := script }
  | .fails done_ :: script => do
    change fun w => part done_ { w with script := script }
    raise error

def deletePoints (coll : Collection) (p : CodeChunk Id → Bool) : IndexAct ix Unit :=
  call (·.delete coll p) (fun done_ w => if done_ = 0 then w else w.delete coll p) .qdrant

end Outside

section Methods
variable (ix : Indexer Text Id)

def deletePointsByFiles (coll : Collection) (paths : List Str) : IndexAct ix Unit :=
  if paths = [] then pure ()
  else deletePoints coll fun chunk => chunk.projectName = ix.project && chunk.filePath ∈ paths

def deletePointsByProject (coll : Collection) : IndexAct ix Unit :=
  deletePoints coll fun chunk => chunk.projectName = ix.project

def embedTexts (batch : List (CodeChunk Id)) : IndexAct ix Unit :=
  call id (fun _ => id) (.embeddings (batch.head?.map CodeChunk.filePath)
    (batch.getLast?.map CodeChunk.filePath))

/-- A failed upsert may have stored the first points. -/
def upsertPoints (coll : Collection) (chunks : List (CodeChunk Id)) : IndexAct ix Unit :=
  if chunks = [] then pure ()
  else call (·.upsert coll chunks) (fun done_ w => w.upsert coll (chunks.take done_)) .qdrant

def saveCache (cache : Cache) : IndexAct ix Unit := change fun w => { w with cache := cache }

def countPoints (w : World ix) (coll : Collection) : Nat :=
  (w.points coll).rows.countP fun chunk => chunk.projectName = ix.project

/-- Whether the counts file, or the cache where it says nothing, has points that are gone. -/
def checkProjectPointsIntact (w : World ix) : Bool :=
  match w.counts with
  | some counts =>
    [Collection.code, .docs].all fun coll => !(0 < counts coll && countPoints ix w coll = 0)
  | none =>
    !((w.cache.any fun entry => projectOf entry.1 = ix.project) &&
      countPoints ix w .code = 0 && countPoints ix w .docs = 0)

def prepareForceProjects (force : Bool) : IndexAct ix Bool := do
  let w ← world
  if force || !checkProjectPointsIntact ix w then do
    deletePointsByProject ix .code
    deletePointsByProject ix .docs
    return true
  else return false

def saveProjectCounts : IndexAct ix Unit :=
  change fun w => { w with counts := some fun coll => countPoints ix w coll }

structure Scan (Id : Type) where
  fileHashes : Cache
  chunks : List (CodeChunk Id)
  reindex : List Str

def unchanged (cache : Cache) (file : Str × Text) : Bool :=
  cache.lookup (cacheKey ix.project file.1) = some (ix.hashContent file.2)

def toReindex (cache : Cache) (forced : Bool) (files : List (Str × Text)) : List (Str × Text) :=
  files.filter fun file => forced || !unchanged ix cache file

def scanWorkspaceFiles (cache : Cache) (forced : Bool) (files : List (Str × Text)) : Scan Id where
  fileHashes := files.map fun file => (cacheKey ix.project file.1, ix.hashContent file.2)
  chunks := (toReindex ix cache forced files).flatMap fun file => ix.chunkFile file.1 file.2
  reindex := (toReindex ix cache forced files).map Prod.fst

def deletedPaths (cache fileHashes : Cache) : List Str :=
  ((cache.map Prod.fst).filter fun key => projectOf key = ix.project &&
    key ∉ fileHashes.map Prod.fst && relPathOf key ≠ []).map relPathOf

def purgeDeletedBatch (chunk : List Str) (cache : Cache) : IndexAct ix Cache := do
  deletePointsByFiles ix .code chunk
  deletePointsByFiles ix .docs chunk
  let cache := cache.filter fun entry => entry.1 ∉ chunk.map (cacheKey ix.project)
  saveCache ix cache
  return cache

def purgeDeletedBatches (cache : Cache) : List (List Str) → IndexAct ix Cache
  | [] => pure cache
  | chunk :: rest => do
    let cache ← purgeDeletedBatch ix chunk cache
    purgeDeletedBatches cache rest

def purgeDeletedVectors (cache fileHashes : Cache) : IndexAct ix Cache :=
  purgeDeletedBatches ix cache (batches 100 (deletedPaths ix cache fileHashes))

/-- The files to purge before they are indexed again: those in the cache, or all when it is empty. -/
def obsolete (cache : Cache) (paths : List Str) : List Str :=
  paths.filter fun path => cache = [] || cacheKey ix.project path ∈ cache.map Prod.fst

def purgeObsoletePoints (paths : List Str) (cache : Cache) : IndexAct ix PUnit :=
  (batches 100 (obsolete ix cache paths)).forM fun chunk => do
    deletePointsByFiles ix .code chunk
    deletePointsByFiles ix .docs chunk

structure Progress where
  cache : Cache
  pending : Str → Int

def noteStored (fileHashes : Cache) (progress : Progress) (chunk : CodeChunk Id) : Progress :=
  let key := cacheKey chunk.projectName chunk.filePath
  let left := progress.pending key - 1
  { pending := Function.update progress.pending key left
    cache :=
      match fileHashes.lookup key with
      | none => progress.cache
      | some hash => setKey progress.cache key (if left = 0 then hash else incompleteMarker) }

def updateIncrementalCache (fileHashes : Cache) (batch : List (CodeChunk Id)) (progress : Progress) :
    IndexAct ix Progress := do
  let noted := batch.foldl (noteStored fileHashes) progress
  saveCache ix noted.cache
  return noted

def upsertBatches (coll : Collection) (fileHashes : Cache) (progress : Progress) :
    List (List (CodeChunk Id)) → IndexAct ix Progress
  | [] => pure progress
  | batch :: rest => do
    embedTexts ix batch
    upsertPoints ix coll batch
    let progress ← updateIncrementalCache ix fileHashes batch progress
    upsertBatches coll fileHashes progress rest

def upsertChunks (coll : Collection) (chunks : List (CodeChunk Id)) (fileHashes : Cache)
    (progress : Progress) : IndexAct ix Progress :=
  upsertBatches ix coll fileHashes progress (batches ix.batchSize chunks)

def partitionChunks (chunks : List (CodeChunk Id)) (coll : Collection) : List (CodeChunk Id) :=
  chunks.filter fun chunk => chunk.collection = coll

def upsertPartitionedChunks (chunks : List (CodeChunk Id)) (cache fileHashes : Cache) :
    IndexAct ix Cache := do
  let keys := chunks.map fun chunk => cacheKey chunk.projectName chunk.filePath
  let progress ← upsertChunks ix .code (partitionChunks chunks .code) fileHashes
    { cache := cache, pending := fun key => keys.count key }
  let progress ← upsertChunks ix .docs (partitionChunks chunks .docs) fileHashes progress
  return progress.cache

def startCache (forced : Bool) (cache : Cache) : Cache :=
  if forced then cache.filter fun entry => projectOf entry.1 ≠ ix.project else cache

def indexWorkspace (force : Bool) : IndexAct ix IndexResult := do
  let found ← world
  let files := found.workspace.files
  let forced ← prepareForceProjects ix force
  let loaded ← world
  let cache := startCache ix forced loaded.cache
  let scan := scanWorkspaceFiles ix cache forced files
  let removed := if forced then [] else deletedPaths ix cache scan.fileHashes
  let cache ← if forced then pure cache else purgeDeletedVectors ix cache scan.fileHashes
  if scan.chunks = [] then do
    saveProjectCounts ix
    return ⟨0, 0, 0, 0, removed.length, files.length⟩
  else do
    purgeObsoletePoints ix scan.reindex cache
    let cache ← upsertPartitionedChunks ix scan.chunks cache scan.fileHashes
    saveCache ix cache
    saveProjectCounts ix
    pure
      { indexedFiles := scan.reindex.length
        totalChunks := scan.chunks.length
        codeChunks := (partitionChunks scan.chunks .code).length
        docChunks := (partitionChunks scan.chunks .docs).length
        removedFiles := removed.length
        skippedFiles := files.length - scan.reindex.length }

end Methods

section Runs
variable (ix : Indexer Text Id)

def Workspace.chunks {ix : Indexer Text Id} (workspace : Workspace ix) : List (CodeChunk Id) :=
  workspace.files.flatMap fun file => ix.chunkFile file.1 file.2

def Mirrors (w : World ix) : Prop :=
  ∀ coll chunk, chunk ∈ w.points coll ∧ chunk.projectName = ix.project ↔
    chunk ∈ w.workspace.chunks ∧ chunk.collection = coll

structure State where
  world : World ix
  -- The last thing that happened is a run that returned.
  returned : Bool := false

inductive Action where
  -- Files are added, changed, emptied and deleted.
  | edit (workspace : Workspace ix)
  | index (force : Bool) (script : List Outcome)

def step (s : State ix) : Action ix → Option (State ix)
  | .edit workspace => some { world := { s.world with workspace := workspace } }
  | .index force script =>
    let ended := run (indexWorkspace ix force) { s.world with script := script }
    some { world := ended.2, returned := ended.1.isOk }

end Runs
end DevopsCli.Index
