import DevopsCli.Lib.PyStr
import DevopsCli.Lib.Spans

/- The filter of search results for a prompt context, ai/rag/retriever.py. A result carries its
   scores along; the filter reads the chunk only. -/
namespace DevopsCli.Rag.ContextFilter
open PyStr Spans

structure CodeChunk where
  filePath : Str
  startLine : Int
  endLine : Int
  content : Str

def CodeChunk.span (chunk : CodeChunk) : Span := ⟨chunk.startLine, chunk.endLine⟩

structure SearchResult (Scores : Type) where
  chunk : CodeChunk
  scores : Scores

structure Limits where
  maxChars : Nat
  maxPerFile : Nat

variable {Scores : Type}

/-- The variables of the loop exceeds the results. -/
structure Kept (Scores : Type) where
  filtered : List (SearchResult Scores) := []
  fileCounts : Str → Nat := fun _ => 0
  coveredRanges : Str → List Span := fun _ => []
  currentChars : Nat := 0

def coversHalf (range chunk : Span) : Bool :=
  let overlapLen := max 0 (min chunk.last range.last - max chunk.first range.first + 1)
  let chunkLen := max 1 (chunk.last - chunk.first + 1)
  decide (chunkLen < 2 * overlapLen)

inductive Verdict where
  | skip
  | stop
  | take
  deriving DecidableEq

section Loop
variable (limits : Limits) (kept : Kept Scores) (res : SearchResult Scores)

def judge : Verdict :=
  let chunk := res.chunk
  if chunk.filePath = [] ∨ chunk.content = [] then .skip
  else if limits.maxPerFile ≤ kept.fileCounts chunk.filePath then .skip
  else if (kept.coveredRanges chunk.filePath).any (coversHalf · chunk.span) then .skip
  else if limits.maxChars < kept.currentChars + chunk.content.length ∧ kept.filtered ≠ [] then .stop
  else .take

def Kept.add : Kept Scores :=
  let path := res.chunk.filePath
  { filtered := kept.filtered ++ [res]
    fileCounts := Function.update kept.fileCounts path (kept.fileCounts path + 1)
    coveredRanges :=
      Function.update kept.coveredRanges path (kept.coveredRanges path ++ [res.chunk.span])
    currentChars := kept.currentChars + res.chunk.content.length }

def loop (kept : Kept Scores) : List (SearchResult Scores) → Kept Scores
  | [] => kept
  | res :: rest =>
    match judge limits kept res with
    | .skip => loop kept rest
    | .stop => kept
    | .take => loop (kept.add res) rest

def filterAndValidateResults (results : List (SearchResult Scores)) : List (SearchResult Scores) :=
  (loop limits {} results).filtered

end Loop

section Law
variable (limits : Limits)

def ofFile (path : Str) (results : List (SearchResult Scores)) : List (SearchResult Scores) :=
  results.filter fun res => res.chunk.filePath = path

def chars (results : List (SearchResult Scores)) : Nat :=
  (results.map fun res => res.chunk.content.length).sum

def Apart (a b : SearchResult Scores) : Prop :=
  a.chunk.filePath = b.chunk.filePath → ¬Crowded a.chunk.span b.chunk.span

/-- Why a result is left out beside those that were taken before it. -/
inductive LeftOut (taken : List (SearchResult Scores)) (res : SearchResult Scores) : Prop where
  | noPath (none_ : res.chunk.filePath = [])
  | noContent (none_ : res.chunk.content = [])
  | fileFull (full : limits.maxPerFile ≤ (ofFile res.chunk.filePath taken).length)
  | redundant (other : SearchResult Scores) (mem : other ∈ taken) (close : ¬Apart other res)

/-- The results that are returned of the ones to come, beside those taken before. A result that
    would break the budget of characters ends the selection. -/
inductive Selects : List (SearchResult Scores) → List (SearchResult Scores) →
    List (SearchResult Scores) → Prop where
  | done (taken) : Selects taken [] []
  | take (taken res rest out) (next : Selects (taken ++ [res]) rest out) :
      Selects taken (res :: rest) (res :: out)
  | leave (taken res rest out) (why : LeftOut limits taken res) (next : Selects taken rest out) :
      Selects taken (res :: rest) out
  | ended (taken res rest) (some_ : taken ≠ [])
      (exceeds : limits.maxChars < chars (taken ++ [res])) : Selects taken (res :: rest) []

structure Bounded (results out : List (SearchResult Scores)) : Prop where
  inOrder : out.Sublist results
  perFile : ∀ path, (ofFile path out).length ≤ limits.maxPerFile
  total : out.length ≠ 1 → chars out ≤ limits.maxChars
  apart : out.Pairwise Apart
  selected : Selects limits [] results out

/-- A range covered before lies in the chunk of a result for more than half of its own lines, and
    is the shorter of the two. -/
def Swallows (kept : Kept Scores) (res : SearchResult Scores) : Prop :=
  ∃ range ∈ kept.coveredRanges res.chunk.filePath, range.size < res.chunk.span.size ∧
    range.size < 2 * shared range res.chunk.span

def Careful (kept : Kept Scores) : List (SearchResult Scores) → Prop
  | [] => True
  | res :: rest =>
    match judge limits kept res with
    | .skip => Careful kept rest
    | .stop => True
    | .take => ¬Swallows kept res ∧ Careful (kept.add res) rest

end Law

section Steps
variable {limits : Limits} {kept : Kept Scores} {res : SearchResult Scores} {range : Span}

theorem coversHalf_iff (range chunk : Span) :
    coversHalf range chunk = true ↔ chunk.size < 2 * shared range chunk := by
  have size := size_eq chunk
  have both := shared_eq range chunk
  have within := shared_comm range chunk ▸ shared_le_left chunk range
  simp only [coversHalf, decide_eq_true_eq]
  omega

structure Tracks (limits : Limits) (kept : Kept Scores) : Prop where
  counts : ∀ path, kept.fileCounts path = (ofFile path kept.filtered).length
  ranges : ∀ path, kept.coveredRanges path = (ofFile path kept.filtered).map (·.chunk.span)
  sum : kept.currentChars = chars kept.filtered
  perFile : ∀ path, (ofFile path kept.filtered).length ≤ limits.maxPerFile
  total : kept.filtered.length ≤ 1 ∨ chars kept.filtered ≤ limits.maxChars

theorem tracks_empty : Tracks limits ({} : Kept Scores) where
  counts := fun _ => rfl
  ranges := fun _ => rfl
  sum := rfl
  perFile := fun _ => Nat.zero_le _
  total := .inl (Nat.zero_le 1)

theorem ofFile_snoc (path : Str) (results : List (SearchResult Scores)) (res : SearchResult Scores) :
    ofFile path (results ++ [res]) =
      ofFile path results ++ if res.chunk.filePath = path then [res] else [] := by
  unfold ofFile
  rw [List.filter_append, List.filter_singleton]
  by_cases same : res.chunk.filePath = path <;> simp [same]

theorem chars_snoc (results : List (SearchResult Scores)) (res : SearchResult Scores) :
    chars (results ++ [res]) = chars results + res.chunk.content.length := by
  unfold chars
  rw [List.map_append, List.sum_append, List.map_singleton, List.sum_singleton]

theorem judge_take (taken : judge limits kept res = .take) :
    kept.fileCounts res.chunk.filePath < limits.maxPerFile ∧
      (∀ range ∈ kept.coveredRanges res.chunk.filePath,
        2 * shared range res.chunk.span ≤ res.chunk.span.size) ∧
      (kept.currentChars + res.chunk.content.length ≤ limits.maxChars ∨ kept.filtered = []) := by
  unfold judge at taken
  simp only [List.any_eq_true, coversHalf_iff] at taken
  split at taken
  · cases taken
  split at taken
  · cases taken
  next free =>
  split at taken
  · cases taken
  next clear =>
  split at taken
  · cases taken
  next room =>
  push Not at free clear room
  refine ⟨free, clear, ?_⟩
  by_cases first : kept.filtered = []
  · exact .inr first
  · exact .inl (Nat.le_of_not_lt fun exceeds => first (room exceeds))

theorem judge_skip (tracks : Tracks limits kept) (skipped : judge limits kept res = .skip) :
    LeftOut limits kept.filtered res := by
  unfold judge at skipped
  simp only [List.any_eq_true, coversHalf_iff] at skipped
  split at skipped
  · next empty => exact empty.elim .noPath .noContent
  split at skipped
  · next full =>
    rw [tracks.counts] at full
    exact .fileFull full
  split at skipped
  · next covered =>
    obtain ⟨range, mem, half⟩ := covered
    rw [tracks.ranges, List.mem_map] at mem
    obtain ⟨other, taken, rfl⟩ := mem
    obtain ⟨taken, same⟩ := List.mem_filter.mp taken
    refine .redundant other taken fun apart => apart (of_decide_eq_true same) ?_
    unfold Crowded
    omega
  split at skipped <;> cases skipped

theorem judge_stop (tracks : Tracks limits kept) (stopped : judge limits kept res = .stop) :
    kept.filtered ≠ [] ∧ limits.maxChars < chars (kept.filtered ++ [res]) := by
  unfold judge at stopped
  simp only at stopped
  rw [chars_snoc, ← tracks.sum]
  split at stopped
  · cases stopped
  split at stopped
  · cases stopped
  split at stopped
  · cases stopped
  split at stopped
  · next exceeds => exact ⟨exceeds.2, exceeds.1⟩
  · cases stopped

theorem tracks_add (tracks : Tracks limits kept) (taken : judge limits kept res = .take) :
    Tracks limits (kept.add res) := by
  obtain ⟨free, _, room⟩ := judge_take taken
  constructor
  case counts =>
    intro path
    simp only [Kept.add]
    rw [ofFile_snoc]
    by_cases same : res.chunk.filePath = path
    · subst same
      rw [Function.update_self, tracks.counts, if_pos rfl, List.length_append, List.length_singleton]
    · rw [Function.update_of_ne (Ne.symm same), if_neg same, List.append_nil, tracks.counts]
  case ranges =>
    intro path
    simp only [Kept.add]
    rw [ofFile_snoc]
    by_cases same : res.chunk.filePath = path
    · subst same
      rw [Function.update_self, tracks.ranges, if_pos rfl, List.map_append, List.map_singleton]
    · rw [Function.update_of_ne (Ne.symm same), if_neg same, List.append_nil, tracks.ranges]
  case sum =>
    simp only [Kept.add]
    rw [chars_snoc, tracks.sum]
  case perFile =>
    intro path
    simp only [Kept.add]
    rw [ofFile_snoc]
    by_cases same : res.chunk.filePath = path
    · subst same
      rw [tracks.counts] at free
      rw [if_pos rfl, List.length_append, List.length_singleton]
      exact free
    · rw [if_neg same, List.append_nil]
      exact tracks.perFile path
  case total =>
    simp only [Kept.add]
    rw [chars_snoc, ← tracks.sum]
    rcases room with fits | first
    · exact .inr fits
    · rw [first]
      exact .inl (Nat.le_refl 1)

theorem apart_iff (tracks : Tracks limits kept) (taken : judge limits kept res = .take) :
    (∀ other ∈ kept.filtered, Apart other res) ↔ ¬Swallows kept res := by
  obtain ⟨_, clear, _⟩ := judge_take taken
  rw [tracks.ranges] at clear
  unfold Swallows
  rw [tracks.ranges]
  simp only [List.mem_map, ofFile, List.mem_filter, decide_eq_true_eq] at clear ⊢
  constructor
  · rintro apart ⟨range, ⟨other, ⟨mem, same⟩, rfl⟩, swallowed⟩
    have roomy := clear _ ⟨other, ⟨mem, same⟩, rfl⟩
    exact apart other mem same ((crowded_iff_of_le roomy).mpr swallowed)
  · intro none_ other mem same crowded
    have roomy := clear _ ⟨other, ⟨mem, same⟩, rfl⟩
    exact none_ ⟨_, ⟨other, ⟨mem, same⟩, rfl⟩, (crowded_iff_of_le roomy).mp crowded⟩

end Steps

section Runs
variable {limits : Limits} {kept : Kept Scores}

theorem loop_tracks (tracks : Tracks limits kept) (results : List (SearchResult Scores)) :
    Tracks limits (loop limits kept results) := by
  induction results generalizing kept with
  | nil => exact tracks
  | cons res rest ih =>
    unfold loop
    cases verdict : judge limits kept res with
    | skip => exact ih tracks
    | stop => exact tracks
    | take => exact ih (tracks_add tracks verdict)

theorem loop_selects (tracks : Tracks limits kept) (results : List (SearchResult Scores)) :
    ∃ out, (loop limits kept results).filtered = kept.filtered ++ out ∧
      Selects limits kept.filtered results out := by
  induction results generalizing kept with
  | nil => exact ⟨[], (List.append_nil _).symm, .done _⟩
  | cons res rest ih =>
    unfold loop
    cases verdict : judge limits kept res with
    | skip =>
      obtain ⟨out, same, selects⟩ := ih tracks
      exact ⟨out, same, .leave _ _ _ _ (judge_skip tracks verdict) selects⟩
    | stop =>
      obtain ⟨some_, exceeds⟩ := judge_stop tracks verdict
      exact ⟨[], (List.append_nil _).symm, .ended _ _ _ some_ exceeds⟩
    | take =>
      obtain ⟨out, same, selects⟩ := ih (tracks_add tracks verdict)
      refine ⟨res :: out, ?_, .take _ _ _ _ selects⟩
      rw [same, Kept.add, List.append_assoc, List.singleton_append]

theorem loop_apart_iff (tracks : Tracks limits kept) (results : List (SearchResult Scores)) :
    (loop limits kept results).filtered.Pairwise Apart ↔
      kept.filtered.Pairwise Apart ∧ Careful limits kept results := by
  induction results generalizing kept with
  | nil => simp only [loop, Careful, and_true]
  | cons res rest ih =>
    unfold loop Careful
    cases verdict : judge limits kept res with
    | skip => exact ih tracks
    | stop => simp only [and_true]
    | take =>
      have split : (kept.add res).filtered.Pairwise Apart ↔
          kept.filtered.Pairwise Apart ∧ ¬Swallows kept res := by
        rw [Kept.add, List.pairwise_append, ← apart_iff tracks verdict]
        simp
      simp only [ih (tracks_add tracks verdict), split, and_assoc]

theorem selects_sublist {taken results out : List (SearchResult Scores)}
    (selects : Selects limits taken results out) : out.Sublist results := by
  induction selects with
  | done taken => exact List.Sublist.refl _
  | take taken res rest out next ih => exact ih.cons_cons res
  | leave taken res rest out why next ih => exact ih.cons res
  | ended taken res rest some_ exceeds => exact List.nil_sublist _

end Runs

theorem filter_bounded_iff (limits : Limits) (results : List (SearchResult Scores)) :
    Bounded limits results (filterAndValidateResults limits results) ↔
      Careful limits {} results := by
  have tracks := loop_tracks (tracks_empty : Tracks limits ({} : Kept Scores)) results
  have apart := loop_apart_iff (tracks_empty : Tracks limits ({} : Kept Scores)) results
  obtain ⟨out, same, selects⟩ := loop_selects (tracks_empty : Tracks limits ({} : Kept Scores)) results
  constructor
  · intro bounded
    exact (apart.mp bounded.apart).2
  · intro careful
    refine ⟨?inOrder, tracks.perFile, ?total, apart.mpr ⟨List.Pairwise.nil, careful⟩, ?selected⟩
    case inOrder =>
      rw [filterAndValidateResults, same]
      exact selects_sublist selects
    case total =>
      intro several
      rcases tracks.total with few | fits
      · have none_ : (filterAndValidateResults limits results).length = 0 := by
          have : (filterAndValidateResults limits results).length ≤ 1 := few
          omega
        rw [List.length_eq_zero_iff.mp none_]
        exact Nat.zero_le _
      · exact fits
    case selected =>
      rw [filterAndValidateResults, same]
      exact selects

def shortThenLong : List (SearchResult Unit) :=
  [⟨⟨"a.py".toList, 5, 10, "x".toList⟩, ()⟩, ⟨⟨"a.py".toList, 1, 20, "y".toList⟩, ()⟩]

/-- The long chunk holds every line of the short one, and both are kept. -/
theorem short_chunk_swallowed :
    ¬Bounded ⟨32000, 20⟩ shortThenLong (filterAndValidateResults ⟨32000, 20⟩ shortThenLong) := by
  intro bounded
  have both : filterAndValidateResults ⟨32000, 20⟩ shortThenLong = shortThenLong := rfl
  have apart := bounded.apart
  rw [both, shortThenLong, List.pairwise_pair] at apart
  apply apart rfl
  have short := size_eq ⟨5, 10⟩
  have inside := shared_eq ⟨5, 10⟩ ⟨1, 20⟩
  simp only at short inside
  simp only [CodeChunk.span, Crowded]
  omega

end DevopsCli.Rag.ContextFilter
