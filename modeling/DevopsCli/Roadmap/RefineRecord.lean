import DevopsCli.Lib.PyDigits
import DevopsCli.Roadmap.RefineRounds
import DevopsCli.Roadmap.Store

/- The texts of the job record that refine reads and writes, stores/store.py and refine/refine.py:
   what each key reads as, and the marks that a round sets. What a mark says is what its key reads as
   after it is set. -/
namespace DevopsCli.Roadmap.RefineRounds
open Json

structure Times where
  isoformat : Int → Text
  fromisoformat : Text → Option Int
  back : ∀ at_, fromisoformat (isoformat at_) = some at_

inductive RecordKey where
  | bodyHash | sectionHash | needsSplit | failedBodyHash | nextStep | blockedBy | blockPaths
  | cappedAfter | alternativesAsked | deferred | returnedBodyHash | judge | tries | failedCheck
  | commentsSeen | commentedAt | waitRefs | verdict | tool | branch
deriving DecidableEq

def RecordKey.text : RecordKey → Text
  | .bodyHash => "refine.body_hash".toList
  | .sectionHash => "refine.section_hash".toList
  | .needsSplit => "refine.needs_split".toList
  | .failedBodyHash => "refine.failed_body_hash".toList
  | .nextStep => "refine.next_step".toList
  | .blockedBy => "refine.blocked_by".toList
  | .blockPaths => "refine.block_paths".toList
  | .cappedAfter => "refine.capped_after".toList
  | .alternativesAsked => "refine.alternatives_asked".toList
  | .deferred => "refine.deferred".toList
  | .returnedBodyHash => "refine.returned_body_hash".toList
  | .judge => "refine.judge".toList
  | .tries => "refine.tries".toList
  | .failedCheck => "refine.failed_check".toList
  | .commentsSeen => "refine.comments_seen".toList
  | .commentedAt => "refine.commented_at".toList
  | .waitRefs => "refine.wait_refs".toList
  | .verdict => "alternatives.verdict".toList
  | .tool => "alternatives.tool".toList
  | .branch => "stage.branch".toList

def RecordKey.all : List RecordKey :=
  [.bodyHash, .sectionHash, .needsSplit, .failedBodyHash, .nextStep, .blockedBy, .blockPaths,
    .cappedAfter, .alternativesAsked, .deferred, .returnedBodyHash, .judge, .tries, .failedCheck,
    .commentsSeen, .commentedAt, .waitRefs, .verdict, .tool, .branch]

theorem RecordKey.mem_all (key : RecordKey) : key ∈ all := by
  cases key <;> decide

theorem RecordKey.text_injective : Function.Injective RecordKey.text := by
  intro a b same
  have distinct : (all.map RecordKey.text).Nodup := by decide +kernel
  exact List.inj_on_of_nodup_map distinct a.mem_all b.mem_all same

theorem RecordKey.text_apart (key : RecordKey) (field : ItemField) : key.text ≠ field.name := by
  have apart : ∀ key ∈ all, ∀ field ∈ [ItemField.status, .priority, .value, .effort, .owner],
      key.text ≠ field.name := by decide +kernel
  exact apart key key.mem_all field (by cases field <;> decide)

abbrev Marks := List (RecordKey × Option Text)

def NextStep.text : NextStep → Text
  | .ready => "ready".toList
  | .person => "person".toList
  | .split => "split".toList
  | .blocked => "blocked".toList
  | .edit => "edit".toList
  | .retry => "retry".toList
  | .failed => "failed".toList
  | .none_ => "none".toList

def JobCheck.text : JobCheck → Text
  | .problemStatement => "problem_statement".toList
  | .existingTool => "existing_tool".toList
  | .acceptanceCriteria => "acceptance_criteria".toList
  | .missingSource => "missing_source".toList
  | .unansweredQuestion => "unanswered_question".toList
  | .investigationStopped => "investigation_stopped".toList

def JudgeVerdict.text : JudgeVerdict → Text
  | .approved => "approved".toList
  | .refused => "refused".toList

def Verdict.text : Verdict → Text
  | .covers => "covers".toList
  | .partly => "partly".toList
  | .none_ => "none".toList
  | .notApplicable => "not-applicable".toList
  | .rejected => "rejected".toList
  | .inUse => "in-use".toList

def flagText (flag : Bool) : Text := if flag then "true".toList else "false".toList

def named {α : Type} (values : List α) (name : α → Text) (text : Text) : Option α :=
  values.find? fun value => name value = text

def NextStep.read : Text → Option NextStep :=
  named [.ready, .person, .split, .blocked, .edit, .retry, .failed, .none_] NextStep.text

def JobCheck.read : Text → Option JobCheck :=
  named [.problemStatement, .existingTool, .acceptanceCriteria, .missingSource, .unansweredQuestion,
    .investigationStopped] JobCheck.text

def JudgeVerdict.read : Text → Option JudgeVerdict := named [.approved, .refused] JudgeVerdict.text

def Verdict.read : Text → Option Verdict :=
  named [.covers, .partly, .none_, .notApplicable, .rejected, .inUse] Verdict.text

def readFlag : Text → Option Bool := named [true, false] flagText

section Read
variable (decimals : PyStr.Decimals) (times : Times)

def readNumber (text : Text) : Option Nat :=
  if text ≠ [] ∧ text.all decimals.isDigit = true then some (decimals.number text) else none

def commaText (parts : List Text) : Text := PyStr.join [','] parts

def orNone (text : Text) : Option Text := if text = [] then none else some text

def readNumbers (text : Text) : List Nat :=
  (text.splitOn ',').filterMap fun part => readNumber decimals (PyStr.strip part)

def readPaths (text : Text) : List Text := (text.splitOn ',').filter (PyStr.strip · ≠ [])

def readChecks (text : Text) : List JobCheck := (text.splitOn ',').filterMap JobCheck.read

def isIssueName (name : Text) : Bool := name.head? = some '#'

def refsText (refs : Refs) : Text :=
  commaText (refs.issues.map (fun number => '#' :: PyStr.digits number) ++ refs.paths)

/-- The names of a wait. Where int refuses one, no round takes the item. -/
def readRefs (text : Text) : Refs :=
  let names := (text.splitOn ',').filter (· ≠ [])
  match (names.filter isIssueName).mapM fun name => readNumber decimals name.tail with
  | some issues => ⟨issues, names.filter (!isIssueName ·)⟩
  | none => ⟨[], []⟩

/-- What the keys of the job record read as. -/
def readRecord (get : RecordKey → Option Text) : RefineRecord Text where
  hashes := ⟨get .bodyHash, get .sectionHash⟩
  failedBodyHash := get .failedBodyHash
  nextStep := (get .nextStep).bind NextStep.read
  needsSplit := (get .needsSplit).bind readFlag
  blockedBy := ((get .blockedBy).elim [] (readNumbers decimals)).map Int.ofNat
  blockPaths := (get .blockPaths).elim [] readPaths
  -- The text is compared with one that the writer spells.
  cappedAfter := (get .cappedAfter).bind fun text =>
    (times.fromisoformat text).filter (times.isoformat · = text)
  alternativesAsked := get .alternativesAsked
  deferred := (get .deferred).elim [] (readNumbers decimals)
  returnedBodyHash := get .returnedBodyHash
  judge := (get .judge).bind JudgeVerdict.read
  tries := (get .tries).bind (readNumber decimals)
  failedCheck := (get .failedCheck).elim [] readChecks
  commentsSeen := (get .commentsSeen).bind fun text =>
    (readNumber decimals text).filter (PyStr.digits · = text)
  commentedAt := (get .commentedAt).bind times.fromisoformat
  waitRefs := (get .waitRefs).elim ⟨[], []⟩ (readRefs decimals)
  verdict := (get .verdict).bind Verdict.read
  tool := (get .tool).filter (· ≠ [])
  branch := (get .branch).filter (· ≠ [])

end Read

section Held
variable {F : Type} (held : Held F)

/-- The text of a key. A key that holds no text has no value. -/
def textOf (key : RecordKey) : Option Text :=
  match held.members.lookup key.text with
  | some (.str text) => some text
  | _ => none

/-- The key is in the job record, also with null. -/
def holdsKey (key : RecordKey) : Bool :=
  match held.members.lookup key.text with
  | some (.str _) | some .null => true
  | _ => false

def changesOf (marks : Marks) : List (Text × Option Text) := marks.map fun mark => (mark.1.text, mark.2)

def withMarks (get : RecordKey → Option Text) (marks : Marks) : RecordKey → Option Text :=
  marks.foldl (fun get mark => Function.update get mark.1 mark.2) get

end Held

section Lookup
variable {F : Type}

theorem lookup_row (key : Text) (value : Json F) (rest : Members F) (other : Text) :
    List.lookup other ((key, value) :: rest) = if other = key then some value else rest.lookup other := by
  by_cases same : other = key
  · simp [same]
  · rw [List.lookup_cons, beq_eq_false_iff_ne.mpr same, if_neg same]

theorem lookup_insertKey (members : Members F) (key : Text) (value : Json F) (other : Text) :
    (insertKey members key value).lookup other =
      if other = key then some value else members.lookup other := by
  induction members with
  | nil => rw [insertKey, lookup_row]
  | cons member rest ih =>
    obtain ⟨k, v⟩ := member
    by_cases same : key = k
    · subst same
      rw [insertKey, if_pos rfl, lookup_row, lookup_row]
      split <;> rfl
    · by_cases before : key < k
      · rw [insertKey, if_neg same, if_pos before, lookup_row]
      · rw [insertKey, if_neg same, if_neg before, lookup_row, lookup_row, ih]
        by_cases mine : other = key
        · simp [mine, same]
        · simp [mine]

theorem lookup_set (held : Held F) (key : Text) (value : Option Text) (other : Text) :
    (held.set key value).members.lookup other =
      if other = key then some (value.elim .null .str) else held.members.lookup other :=
  lookup_insertKey _ _ _ _

theorem textOf_set (held : Held F) (key : RecordKey) (value : Option Text) :
    textOf (held.set key.text value) = Function.update (textOf held) key value := by
  funext other
  rw [textOf, lookup_set]
  by_cases same : other = key
  · subst same
    cases value <;> simp
  · rw [if_neg fun text => same (RecordKey.text_injective text), Function.update_of_ne same]
    rfl

theorem textOf_merged (held : Held F) (marks : Marks) :
    textOf (held.merged (changesOf marks)) = withMarks (textOf held) marks := by
  induction marks generalizing held with
  | nil => rfl
  | cons mark marks ih =>
    have later := ih (held.set mark.1.text mark.2)
    rw [textOf_set] at later
    exact later

theorem lookup_merged_other (held : Held F) (marks : Marks) (field : ItemField) :
    (held.merged (changesOf marks)).members.lookup field.name = held.members.lookup field.name := by
  induction marks generalizing held with
  | nil => rfl
  | cons mark marks ih =>
    refine (ih (held.set mark.1.text mark.2)).trans ?_
    rw [lookup_set, if_neg (RecordKey.text_apart mark.1 field).symm]

theorem textOf_absent {held : Held F} {key : RecordKey} (absent : holdsKey held key = false) :
    textOf held key = none := by
  unfold holdsKey at absent
  unfold textOf
  split at absent
  · exact absurd absent (by simp)
  · exact absurd absent (by simp)
  · rename_i other _
    split
    · rename_i text found
      exact absurd found (other text)
    · rfl

end Lookup

section Back
variable (decimals : PyStr.Decimals) (times : Times)

@[simp] theorem nextStep_back (step : NextStep) : NextStep.read step.text = some step := by
  cases step <;> decide +kernel

@[simp] theorem judge_back (verdict : JudgeVerdict) : JudgeVerdict.read verdict.text = some verdict := by
  cases verdict <;> decide +kernel

@[simp] theorem flag_back (flag : Bool) : readFlag (flagText flag) = some flag := by
  cases flag <;> decide +kernel

@[simp] theorem number_back (n : Nat) : readNumber decimals (PyStr.digits n) = some n := by
  have all : (PyStr.digits n).all decimals.isDigit = true :=
    List.all_eq_true.mpr (decimals.digits_isDigit n)
  rw [readNumber, if_pos ⟨PyStr.Decimals.digits_ne_nil n, all⟩, decimals.number_digits]

theorem digits_plain {n : Nat} {c : Char} (mem : c ∈ PyStr.digits n) : c.isDigit = true :=
  Nat.isDigit_of_mem_toDigits (by decide) (by decide) mem

theorem strip_solid {text : Text} (solid : ∀ c ∈ text, PyStr.isSpace c = false) :
    PyStr.strip text = text := by
  have first : text.dropWhile PyStr.isSpace = text := by
    cases text with
    | nil => rfl
    | cons c rest => exact List.dropWhile_cons_of_neg (by simp [solid c List.mem_cons_self])
  have last : text.rdropWhile PyStr.isSpace = text := by
    rw [List.rdropWhile_eq_self_iff]
    intro some_ blank
    rw [solid _ (List.getLast_mem some_)] at blank
    exact Bool.false_ne_true blank
  rw [PyStr.strip, PyStr.rstrip, first, last]

theorem comma_back {parts : List Text} (some_ : parts ≠ []) (clear : ∀ part ∈ parts, ',' ∉ part) :
    (commaText parts).splitOn ',' = parts := List.splitOn_intercalate ',' clear some_

theorem printable_solid {c : Char} (low : 33 ≤ c.toNat) (high : c.toNat ≤ 126) :
    PyStr.isSpace c = false := by
  simp only [PyStr.isSpace]
  grind

theorem digits_blank {n : Nat} {c : Char} (mem : c ∈ PyStr.digits n) : PyStr.isSpace c = false := by
  have digit := digits_plain mem
  simp only [Char.isDigit, Bool.and_eq_true, decide_eq_true_eq, UInt32.le_iff_toNat_le] at digit
  have value : c.toNat = c.val.toNat := rfl
  have low : '0'.val.toNat = 48 := rfl
  have high : '9'.val.toNat = 57 := rfl
  exact printable_solid (by omega) (by omega)

theorem digits_solid (n : Nat) : PyStr.strip (PyStr.digits n) = PyStr.digits n :=
  strip_solid fun _ mem => digits_blank mem

theorem digits_clear {n : Nat} {c : Char} (other : c.isDigit = false) : c ∉ PyStr.digits n :=
  fun mem => Bool.false_ne_true (other.symm.trans (digits_plain mem))

theorem number_text (n : Nat) : BodyHash.number (Int.ofNat n) = PyStr.digits n := Nat.toList_repr

theorem number_below (n : Nat) : BodyHash.number (Int.negSucc n) = '-' :: PyStr.digits (n + 1) := by
  have text : toString (Int.negSucc n) = "-" ++ (n + 1).repr := rfl
  rw [BodyHash.number, text, String.toList_append, Nat.toList_repr]
  rfl

theorem int_back (i : Int) : (readNumber decimals (PyStr.strip (BodyHash.number i))).map Int.ofNat =
    if 0 ≤ i then some i else none := by
  cases i with
  | ofNat n =>
    rw [number_text, digits_solid, number_back]
    simp
  | negSucc n =>
    have solid : PyStr.strip ('-' :: PyStr.digits (n + 1)) = '-' :: PyStr.digits (n + 1) := by
      refine strip_solid fun c mem => ?_
      rcases List.mem_cons.mp mem with rfl | digit
      · decide
      · exact digits_blank digit
    have sign : decimals.isDigit '-' = false := decimals.not_digit (by decide) (by decide)
    rw [number_below, solid, readNumber, if_neg fun both => by simp [sign] at both]
    simp

section Joined
variable {α β : Type} (text : α → Text) (read : Text → Option β)

theorem joined_back (clear : ∀ value, ',' ∉ text value) (empty : read [] = none) (values : List α) :
    ((commaText (values.map text)).splitOn ',').filterMap read =
      values.filterMap fun value => read (text value) := by
  cases values with
  | nil => simp [commaText, PyStr.join, empty]
  | cons value rest =>
    rw [comma_back (by simp) fun part mem => ?_, List.filterMap_map]
    · rfl
    · obtain ⟨value, _, rfl⟩ := List.mem_map.mp mem
      exact clear value

end Joined

theorem elim_orNone {α : Type} {read : Text → α} {none_ : α} (empty : read [] = none_) (text : Text) :
    (orNone text).elim none_ read = read text := by
  unfold orNone
  split
  · next same => exact same ▸ empty.symm
  · rfl

theorem readNumbers_nil : readNumbers decimals [] = [] := rfl

theorem numbers_back (numbers : List Nat) :
    readNumbers decimals (commaText (numbers.map PyStr.digits)) = numbers := by
  have each (n : Nat) : readNumber decimals (PyStr.strip (PyStr.digits n)) = some n := by
    rw [digits_solid, number_back]
  refine (joined_back PyStr.digits _ (fun n => digits_clear (by decide)) rfl numbers).trans ?_
  simp [each]

/-- The blockers of a round, without those below zero. -/
theorem blockers_back (blockers : List Int) :
    ((orNone (commaText (blockers.map BodyHash.number))).elim [] (readNumbers decimals)).map Int.ofNat =
      blockers.filter (0 ≤ ·) := by
  have clear (i : Int) : ',' ∉ BodyHash.number i := by
    cases i with
    | ofNat n =>
      rw [number_text]
      exact digits_clear (by decide)
    | negSucc n =>
      rw [number_below, List.mem_cons, not_or]
      exact ⟨by decide, digits_clear (by decide)⟩
  rw [elim_orNone (readNumbers_nil decimals), readNumbers,
    joined_back BodyHash.number (fun part => readNumber decimals (PyStr.strip part)) clear rfl,
    List.map_filterMap]
  simp only [int_back, ← List.filterMap_eq_filter]
  exact List.filterMap_congr fun i _ => by simp [Option.guard]

theorem checks_back (checks : List JobCheck) :
    readChecks (commaText (checks.map JobCheck.text)) = checks := by
  have clear (check : JobCheck) : ',' ∉ check.text := by cases check <;> decide +kernel
  have each (check : JobCheck) : JobCheck.read check.text = some check := by cases check <;> decide +kernel
  refine (joined_back JobCheck.text JobCheck.read clear (by decide +kernel) checks).trans ?_
  simp [each]

theorem pathChar_range {c : Char} (char : isPathChar c = true) : 45 ≤ c.toNat ∧ c.toNat ≤ 122 := by
  have value : c.toNat = c.val.toNat := rfl
  simp only [isPathChar, Char.isAlphanum, Char.isAlpha, Char.isUpper, Char.isLower, Char.isDigit,
    Bool.or_eq_true, Bool.and_eq_true, decide_eq_true_eq, UInt32.le_iff_toNat_le, beq_iff_eq] at char
  rcases char with ((((letter | digit) | rfl) | rfl) | rfl) | rfl
  · simp at letter
    omega
  · simp at digit
    omega
  all_goals decide

section Cited
variable {path : Text} (cited : IsCited path)
include cited

theorem cited_strip : PyStr.strip path = path := by
  refine strip_solid fun c mem => ?_
  obtain ⟨low, high⟩ := pathChar_range (cited.2 c mem)
  exact printable_solid (by omega) (by omega)

theorem cited_clear {c : Char} (other : isPathChar c = false) : c ∉ path :=
  fun mem => Bool.false_ne_true (other.symm.trans (cited.2 c mem))

end Cited

theorem paths_back {paths : List Text} (cited : ∀ path ∈ paths, IsCited path) :
    (orNone (commaText paths)).elim [] readPaths = paths := by
  rw [elim_orNone (by decide), readPaths]
  cases paths with
  | nil => decide
  | cons path rest =>
    rw [comma_back (by simp) fun part mem => cited_clear (cited part mem) (by decide)]
    refine List.filter_eq_self.mpr fun part mem => ?_
    rw [cited_strip (cited part mem)]
    exact decide_eq_true (cited part mem).1

theorem readNumbers_mapM (issues : List Nat) :
    (issues.map fun number => '#' :: PyStr.digits number).mapM
      (fun name => readNumber decimals name.tail) = some issues := by
  induction issues with
  | nil => rfl
  | cons number rest ih => simp [ih]

theorem refs_back (refs : Names) :
    (orNone (refsText refs.toRefs)).elim ⟨[], []⟩ (readRefs decimals) = refs.toRefs := by
  have empty : readRefs decimals [] = ⟨[], []⟩ := rfl
  rw [elim_orNone empty]
  obtain ⟨⟨issues, paths⟩, cited⟩ := refs
  let named (number : Nat) : Text := '#' :: PyStr.digits number
  have clear : ∀ name ∈ issues.map named ++ paths, name ≠ [] ∧ ',' ∉ name := by
    intro name mem
    rcases List.mem_append.mp mem with issue | path
    · obtain ⟨number, _, rfl⟩ := List.mem_map.mp issue
      refine ⟨List.cons_ne_nil _ _, ?_⟩
      rw [List.mem_cons, not_or]
      exact ⟨by decide, digits_clear (by decide)⟩
    · exact ⟨(cited name path).1, cited_clear (cited name path) (by decide)⟩
  have names : ((commaText (issues.map named ++ paths)).splitOn ',').filter (· ≠ []) =
      issues.map named ++ paths := by
    cases all : issues.map named ++ paths with
    | nil => decide
    | cons name rest =>
      rw [all] at clear
      rw [comma_back (List.cons_ne_nil _ _) fun part mem => (clear part mem).2]
      exact List.filter_eq_self.mpr fun part mem => decide_eq_true (clear part mem).1
  have issue : ∀ name ∈ issues.map named, isIssueName name = true := by simp [named, isIssueName]
  have path : ∀ name ∈ paths, isIssueName name = false := by
    intro name mem
    obtain ⟨some_, chars⟩ := cited name mem
    obtain ⟨c, rest, rfl⟩ := List.exists_cons_of_ne_nil some_
    have char := chars c List.mem_cons_self
    refine decide_eq_false fun first => ?_
    obtain rfl := Option.some.inj first
    exact absurd char (by decide)
  have front : (issues.map named ++ paths).filter isIssueName = issues.map named := by
    rw [List.filter_append, List.filter_eq_self.mpr issue, List.filter_eq_nil_iff.mpr (by simpa using path),
      List.append_nil]
  have back : (issues.map named ++ paths).filter (!isIssueName ·) = paths := by
    rw [List.filter_append, List.filter_eq_nil_iff.mpr (by simpa using issue),
      List.filter_eq_self.mpr (by simpa using path), List.nil_append]
  have numbers := readNumbers_mapM decimals issues
  have text : refsText ⟨issues, paths⟩ = commaText (issues.map named ++ paths) := rfl
  simp only [readRefs, text, names, front, back]
  exact numbers ▸ rfl

end Back

section Marks
variable {F : Type} (times : Times) (hash : Text → Text) (held : Held F) (item : Item Text)

def cleared (keys : List RecordKey) : Marks := (keys.filter (holdsKey held)).map (·, none)

def withoutVerdict : Marks := cleared held [.judge]

def recordFailureMarks : Marks :=
  let seen := seenHashes hash item.body
  if item.record.failedBodyHash ≠ seen.bodyHash then [(.failedBodyHash, seen.bodyHash)]
  else
    [(.bodyHash, seen.bodyHash), (.sectionHash, seen.sectionHash), (.failedBodyHash, none),
      (.nextStep, some NextStep.edit.text)] ++ withoutVerdict held

/-- The marks of a failed job, without the line that tells its error. -/
def failureMarks (failure : List JobCheck) (tries : Nat) : Marks :=
  if failure.isEmpty then cleared held [.tries, .failedCheck]
  else
    [(.tries, some (PyStr.digits tries)), (.failedCheck, some (commaText (failure.map JobCheck.text)))]

def recordUnwrittenMarks (hashes : BodyHash.Hashes Text) (nextStep : NextStep) (failure : List JobCheck)
    (tries : Nat) : Marks :=
  [(.bodyHash, hashes.bodyHash), (.sectionHash, hashes.sectionHash), (.nextStep, some nextStep.text)] ++
    failureMarks held failure tries ++ withoutVerdict held

def judgeMarks (design : Design) : Marks :=
  if design.judge.isSome || holdsKey held .judge then [(.judge, design.judge.map JudgeVerdict.text)]
  else []

def deferredMarks (design : Design) : Marks :=
  if design.deferred.isEmpty then []
  else [(.deferred, some (commaText ((item.record.deferred ++ design.deferred).map PyStr.digits)))]

def resultMarks (hashes : BodyHash.Hashes Text) (design : Design) : Marks :=
  [(.bodyHash, hashes.bodyHash), (.sectionHash, hashes.sectionHash),
    (.needsSplit, some (flagText design.needsSplit)), (.failedBodyHash, none),
    (.nextStep, some design.nextStep.text),
    (.blockedBy, orNone (commaText (design.blockedBy.map BodyHash.number))),
    (.blockPaths, orNone (commaText design.blockPaths)), (.alternativesAsked, design.alternativesAsked),
    (.returnedBodyHash, if design.afterStageReturn then hashes.bodyHash else none)]

def refineMarksOf (hashes : BodyHash.Hashes Text) (design : Design) : Marks :=
  resultMarks hashes design ++ failureMarks held [] 0 ++ judgeMarks held design ++
    deferredMarks item design

def capMarks (at_ : Int) : Marks := [(.cappedAfter, some (times.isoformat at_))]

def readMarksOf (marks : ReadMarks) : Marks :=
  [(.commentsSeen, some (PyStr.digits marks.commentsSeen)),
    (.commentedAt, some (times.isoformat marks.commentedAt)),
    (.waitRefs, orNone (refsText marks.waitRefs.toRefs))]

end Marks

section Marked
variable {F : Type} {decimals : PyStr.Decimals} {times : Times} {hash : Text → Text} {held : Held F}
  {item : Item Text} {get : RecordKey → Option Text}

theorem withMarks_append (get : RecordKey → Option Text) (first second : Marks) :
    withMarks get (first ++ second) = withMarks (withMarks get first) second := List.foldl_append

theorem withMarks_cleared {keys : List RecordKey} (same : ∀ key ∈ keys, get key = textOf held key) :
    withMarks get (cleared held keys) = fun key => if key ∈ keys then none else get key := by
  have each (first : List RecordKey) (get : RecordKey → Option Text) (key : RecordKey) :
      withMarks get (first.map (·, none)) key = if key ∈ first then none else get key := by
    induction first generalizing get with
    | nil => rfl
    | cons mark rest ih =>
      refine (ih _).trans ?_
      by_cases mine : key = mark <;> simp [mine]
  funext key
  rw [cleared, each]
  by_cases mem : key ∈ keys
  · cases holds : holdsKey held key with
    | true => simp [mem, holds]
    | false => simp [mem, holds, same key mem, textOf_absent holds]
  · simp [mem]

theorem recordFailure_read (record : item.record = readRecord decimals times (textOf held)) :
    readRecord decimals times (withMarks (textOf held) (recordFailureMarks hash held item)) =
      recordFailure hash item := by
  unfold recordFailureMarks recordFailure
  simp only []
  split
  · simp [withMarks, readRecord, record]
  · rw [withMarks_append, withoutVerdict, withMarks_cleared (by simp [withMarks])]
    simp [withMarks, readRecord, record]

theorem recordUnwritten_read (record : item.record = readRecord decimals times (textOf held))
    (hashes : BodyHash.Hashes Text) (nextStep : NextStep) (failure : List JobCheck) (tries : Nat) :
    readRecord decimals times
        (withMarks (textOf held) (recordUnwrittenMarks held hashes nextStep failure tries)) =
      recordUnwritten item hashes nextStep failure tries := by
  unfold recordUnwrittenMarks recordUnwritten failureMarks
  split
  · next none_ =>
    obtain rfl := List.isEmpty_iff.mp none_
    rw [withMarks_append, withMarks_append, withMarks_cleared (by simp [withMarks]), withoutVerdict,
      withMarks_cleared (by simp [withMarks])]
    simp [withMarks, readRecord, record]
  · rw [withMarks_append, withMarks_append, withoutVerdict, withMarks_cleared (by simp [withMarks])]
    simp [withMarks, readRecord, record, checks_back]

theorem withMarks_judge (design : Design) (same : get .judge = textOf held .judge) :
    withMarks get (judgeMarks held design) =
      Function.update get .judge (design.judge.map JudgeVerdict.text) := by
  unfold judgeMarks
  split
  · rfl
  · next neither =>
    rw [Bool.or_eq_true, not_or] at neither
    have none_ : design.judge = none := by simpa using neither.1
    have absent := same.trans (textOf_absent (by simpa using neither.2))
    rw [none_, Option.map_none, ← absent, Function.update_eq_self]
    rfl

theorem deferredMarks_read (design : Design)
    (record : item.record.deferred = (get .deferred).elim [] (readNumbers decimals)) :
    readRecord decimals times (withMarks get (deferredMarks item design)) =
      { readRecord decimals times get with
        deferred := if design.deferred.isEmpty then item.record.deferred
          else item.record.deferred ++ design.deferred } := by
  unfold deferredMarks
  split
  · rw [record]
    rfl
  · have numbers := numbers_back decimals (item.record.deferred ++ design.deferred)
    simp only [withMarks, readRecord, List.foldl_cons, List.foldl_nil, Function.update_self, Option.elim_some,
      numbers]
    simp

theorem refineMarks_read (record : item.record = readRecord decimals times (textOf held))
    (hashes : BodyHash.Hashes Text) (design : Design) :
    readRecord decimals times (withMarks (textOf held) (refineMarksOf held item hashes design)) =
      refineMarks item hashes design := by
  let written := withMarks (textOf held) (resultMarks hashes design)
  have cleared_ : withMarks (textOf held) (resultMarks hashes design ++ failureMarks held [] 0) =
      fun key => if key ∈ [RecordKey.tries, .failedCheck] then none else written key := by
    have failures : failureMarks held [] 0 = cleared held [.tries, .failedCheck] := rfl
    rw [withMarks_append, failures, withMarks_cleared (by simp [withMarks, resultMarks])]
  have judged : withMarks (withMarks (textOf held) (resultMarks hashes design ++ failureMarks held [] 0))
      (judgeMarks held design) = _ := withMarks_judge design (by
    rw [cleared_]
    simp [written, withMarks, resultMarks])
  have verdict : (design.judge.map JudgeVerdict.text).bind JudgeVerdict.read = design.judge := by
    cases design.judge <;> simp
  unfold refineMarksOf
  rw [withMarks_append, deferredMarks_read, withMarks_append, judged, cleared_]
  · simp [written, resultMarks, withMarks, readRecord, refineMarks, record, blockers_back,
      paths_back design.cited, verdict]
  · rw [withMarks_append, judged, cleared_]
    simp [written, resultMarks, withMarks, readRecord, record]

theorem capMarks_read (record : item.record = readRecord decimals times (textOf held)) (at_ : Int) :
    readRecord decimals times (withMarks (textOf held) (capMarks times at_)) =
      { item.record with cappedAfter := some at_ } := by
  simp [capMarks, withMarks, readRecord, record, times.back]

theorem readMarks_read (record : item.record = readRecord decimals times (textOf held))
    (marks : ReadMarks) :
    readRecord decimals times (withMarks (textOf held) (readMarksOf times marks)) =
      { item.record with
        commentsSeen := some marks.commentsSeen
        commentedAt := some marks.commentedAt
        waitRefs := marks.waitRefs.toRefs } := by
  simp [readMarksOf, withMarks, readRecord, record, times.back, refs_back]

end Marked
end DevopsCli.Roadmap.RefineRounds
