import DevopsCli.Roadmap.BodyHash

/- When refine knows its own write again. Two line ends stand between the text of a person and the
   section, so no marker crosses from one into the other, and the section holds no marker of its
   own but the two around it. -/
namespace DevopsCli.Roadmap.BodyHash
open PyStr Sanitize

section Markers

structure IsMarker (marker : Str) : Prop where
  opens : "<!-- d".toList <+: marker
  unbroken : '\n' ∉ marker

theorem refineStart_marker : IsMarker refineStart := ⟨by decide +kernel, by decide +kernel⟩

theorem refineEnd_marker : IsMarker refineEndMarker := ⟨by decide +kernel, by decide +kernel⟩

theorem alternativesStart_marker : IsMarker alternativesStart := ⟨by decide +kernel, by decide +kernel⟩

theorem alternativesEnd_marker : IsMarker alternativesEnd := ⟨by decide +kernel, by decide +kernel⟩

theorem splitAt_eq_none {text marker : Str} : splitAt text marker = none ↔ Text.find text marker = none := by
  simp [splitAt]

theorem find_newline {marker : Str} (unbroken : '\n' ∉ marker) {before : Str} (after : Str)
    (absent : Text.find before marker = none) :
    Text.find (before ++ '\n' :: after) marker =
      (Text.find after marker).map (· + (before.length + 1)) := by
  have whole : before ++ '\n' :: after = (before ++ ['\n']) ++ after := by simp
  rw [whole, Text.find_append_clear]
  · simp
  · intro j inside here
    rw [← whole] at here
    by_cases ends : j + marker.length ≤ before.length
    · exact Text.find_eq_none.mp absent j (by omega) ((Text.prefix_drop_append ends).mp here)
    · simp only [List.length_append, List.length_singleton] at inside
      obtain ⟨rest, whole⟩ := here
      have at_ : (marker ++ rest)[before.length - j]? = some '\n' := by
        rw [whole, List.getElem?_drop]
        simp [show j + (before.length - j) = before.length by omega]
      rw [List.getElem?_append_left (by omega)] at at_
      exact unbroken (List.mem_of_getElem? at_)

theorem splitAt_newline_some {marker before x y : Str} (after : Str)
    (found : splitAt before marker = some (x, y)) :
    splitAt (before ++ '\n' :: after) marker = some (x, y ++ '\n' :: after) := by
  simp only [splitAt, Option.map_eq_some_iff, Prod.mk.injEq] at found
  obtain ⟨i, at_, rfl, rfl⟩ := found
  obtain ⟨bound, here, -⟩ := Text.find_eq_some.mp at_
  have ends := Text.end_le here bound
  rw [splitAt, Text.find_append_some _ at_, Option.map_some, List.take_append_of_le_length bound,
    List.drop_append_of_le_length ends]

theorem splitAt_newline_none {marker before : Str} (unbroken : '\n' ∉ marker) (after : Str)
    (absent : splitAt before marker = none) : splitAt (before ++ '\n' :: after) marker =
      (splitAt after marker).map fun found => (before ++ '\n' :: found.1, found.2) := by
  rw [splitAt, find_newline unbroken after (splitAt_eq_none.mp absent), splitAt]
  cases Text.find after marker with
  | none => rfl
  | some i =>
    have take : (before ++ '\n' :: after).take (i + (before.length + 1)) =
        before ++ '\n' :: after.take i := by
      rw [List.take_append, List.take_of_length_le (by omega)]
      simp [show i + (before.length + 1) - before.length = i + 1 by omega]
    have drop : (before ++ '\n' :: after).drop (i + (before.length + 1) + marker.length) =
        after.drop (i + marker.length) := by
      rw [List.drop_append, List.drop_of_length_le (by omega)]
      simp [show i + (before.length + 1) + marker.length - before.length = i + marker.length + 1 by omega]
    simp [take, drop]

theorem splitAt_spec {text marker x y : Str} (found : splitAt text marker = some (x, y)) :
    text = x ++ (marker ++ y) := by
  simp only [splitAt, Option.map_eq_some_iff, Prod.mk.injEq] at found
  obtain ⟨i, at_, rfl, rfl⟩ := found
  obtain ⟨_, ⟨rest, here⟩, -⟩ := Text.find_eq_some.mp at_
  have tail : text.drop (i + marker.length) = rest := by
    rw [← List.drop_drop, ← here, List.drop_left]
  rw [tail, here, List.take_append_drop]

theorem splitAt_self (marker rest : Str) : splitAt (marker ++ rest) marker = some ([], rest) := by
  have here : Text.find (marker ++ rest) marker = some 0 :=
    Text.find_eq_some.mpr ⟨Nat.zero_le _, by simp, by simp⟩
  simp [splitAt, here]

theorem splitAt_clear {text marker : Str} (clear : Clear False text) (ours : IsMarker marker) :
    splitAt text marker = none := by
  refine splitAt_eq_none.mpr (Text.find_eq_none.mpr fun j _ here => clear_no_opener (.inl rfl) clear j ?_)
  have opener : ['<', '!'] <+: "<!-- d".toList := by decide +kernel
  exact (opener.trans ours.opens).trans here

theorem splitAt_nil {marker : Str} (ours : IsMarker marker) : splitAt [] marker = none :=
  splitAt_clear trivial ours

theorem splitAt_checkedAt (sha : Sha) {marker : Str} (ours : IsMarker marker) :
    splitAt (checkedAt sha) marker = none := by
  refine splitAt_eq_none.mpr (Text.find_eq_none.mpr fun j _ here => ?_)
  have begins := ours.opens.trans here
  have plain : ∀ c ∈ "!-- checked-at: sha=".toList ++ sha.text ++ " -->".toList, c ≠ '<' := by
    intro c mem
    simp only [List.mem_append] at mem
    rcases mem with (first | name) | last
    · rintro rfl
      exact absurd first (by decide +kernel)
    · rintro rfl
      exact absurd (sha.hex _ name) (by decide)
    · rintro rfl
      exact absurd last (by decide +kernel)
  cases j with
  | zero =>
    obtain ⟨rest, whole⟩ := begins
    have sixth : ("<!-- d".toList ++ rest)[5]? = some 'c' := by rw [whole]; rfl
    have other : ("<!-- d".toList ++ rest)[5]? = some 'd' := rfl
    exact absurd (Option.some.inj (sixth.symm.trans other)) (by decide)
  | succ j =>
    have first : '<' ∈ (checkedAt sha).drop (j + 1) := begins.subset (by decide +kernel)
    have tail : checkedAt sha = '<' :: ("!-- checked-at: sha=".toList ++ sha.text ++ " -->".toList) := by
      rfl
    rw [tail, List.drop_succ_cons] at first
    exact plain '<' (List.mem_of_mem_drop first) rfl

end Markers

section Section_
variable {engine : Engine} {proposal : RefinementProposal} {openQuestions : List Str} {sha : Sha}
  {allowedUrls : List Str}

/-- What stands in a section: the comment of the commit and a sanitized text, on lines of their
    own. -/
structure IsInside (inside : Str) : Prop where
  lines : ∃ sha shown, Clear False shown ∧ inside = '\n' :: checkedAt sha ++ '\n' :: shown ++ ['\n']

theorem sectionInside_lines :
    IsInside (sectionInside engine proposal openQuestions sha allowedUrls) :=
  ⟨sha, _, sanitizeText_clear _ _ _, rfl⟩

theorem splitAt_inside {inside marker : Str} (lines : IsInside inside) (ours : IsMarker marker)
    (after : Str) : splitAt (inside ++ after) marker =
      (splitAt after marker).map fun found => (inside ++ found.1, found.2) := by
  obtain ⟨sha, shown, clear, rfl⟩ := lines
  have whole : ('\n' :: checkedAt sha ++ '\n' :: shown ++ ['\n']) ++ after =
      [] ++ '\n' :: (checkedAt sha ++ '\n' :: (shown ++ '\n' :: after)) := by simp
  rw [whole, splitAt_newline_none ours.unbroken _ (splitAt_nil ours),
    splitAt_newline_none ours.unbroken _ (splitAt_checkedAt sha ours),
    splitAt_newline_none ours.unbroken _ (splitAt_clear clear ours)]
  cases splitAt after marker <;> simp

def appended (inside : Str) : Str := '\n' :: '\n' :: (refineStart ++ inside ++ refineEndMarker)

theorem splitAt_end {inside : Str} (lines : IsInside inside) :
    splitAt (inside ++ refineEndMarker) refineEndMarker = some (inside, []) := by
  have last := splitAt_self refineEndMarker []
  rw [List.append_nil] at last
  rw [splitAt_inside lines refineEnd_marker, last]
  simp

theorem splitAt_appended_none {inside marker : Str} (lines : IsInside inside) (ours : IsMarker marker)
    (start : splitAt refineStart marker = none) (end_ : splitAt refineEndMarker marker = none) :
    splitAt (appended inside) marker = none := by
  obtain ⟨sha, shown, clear, rfl⟩ := lines
  have whole : appended ('\n' :: checkedAt sha ++ '\n' :: shown ++ ['\n']) = [] ++ '\n' :: ([] ++ '\n' ::
      (refineStart ++ '\n' :: (checkedAt sha ++ '\n' :: (shown ++ '\n' :: refineEndMarker)))) := by
    simp [appended]
  have none_ := splitAt_nil ours
  rw [whole, splitAt_newline_none ours.unbroken _ none_, splitAt_newline_none ours.unbroken _ none_,
    splitAt_newline_none ours.unbroken _ start,
    splitAt_newline_none ours.unbroken _ (splitAt_checkedAt sha ours),
    splitAt_newline_none ours.unbroken _ (splitAt_clear clear ours), end_]
  rfl

theorem extract_append {before after start end_ : Str} (starts : IsMarker start) (ends : IsMarker end_)
    (no_start : splitAt ('\n' :: after) start = none) (no_end : splitAt ('\n' :: after) end_ = none) :
    extract (before ++ '\n' :: after) start end_ =
      ((extract before start end_).1 ++ '\n' :: after, (extract before start end_).2) := by
  have tail (marker : Str) (ours : IsMarker marker) (none_ : splitAt ('\n' :: after) marker = none) :
      splitAt after marker = none := by
    have split := splitAt_newline_none ours.unbroken after (splitAt_nil ours)
    rw [List.nil_append, none_] at split
    simpa using split.symm
  rw [extract, extract]
  cases found : splitAt before start with
  | none => simp [splitAt_newline_none starts.unbroken after found, tail start starts no_start]
  | some cut =>
    obtain ⟨x, rest⟩ := cut
    rw [splitAt_newline_some after found]
    cases closed : splitAt rest end_ with
    | none => simp [splitAt_newline_none ends.unbroken after closed, tail end_ ends no_end, closed]
    | some cut =>
      obtain ⟨inside, y⟩ := cut
      simp [splitAt_newline_some after closed, closed]

theorem alternatives_appended (before : Str) {inside : Str} (lines : IsInside inside) :
    extract (before ++ appended inside) alternativesStart alternativesEnd =
      (withoutAlternatives before ++ appended inside,
        (extract before alternativesStart alternativesEnd).2) :=
  extract_append alternativesStart_marker alternativesEnd_marker
    (splitAt_appended_none lines alternativesStart_marker (by decide +kernel) (by decide +kernel))
    (splitAt_appended_none lines alternativesEnd_marker (by decide +kernel) (by decide +kernel))

theorem withoutAlternatives_appended (before : Str) {inside : Str} (lines : IsInside inside) :
    withoutAlternatives (before ++ appended inside) =
      withoutAlternatives before ++ appended inside :=
  congrArg Prod.fst (alternatives_appended before lines)

inductive Reads (before inside : Str) (found : Str × Option Str) : Prop
  | own (absent : splitAt before refineStart = none)
      (same : found = (before ++ ['\n', '\n'], some inside))
  | other (twin : Str) (earlier : (extractSectionAndOutside before).2 = some twin)
      (same : found = ((extractSectionAndOutside before).1 ++ appended inside, some twin))
  | joined (x rest : Str) (stray : splitAt before refineStart = some (x, rest))
      (unclosed : (extractSectionAndOutside before).2 = none)
      (same : found = (x, some (rest ++ '\n' :: '\n' :: (refineStart ++ inside))))

theorem extract_appended (before : Str) {inside : Str} (lines : IsInside inside) :
    Reads before inside (extractSectionAndOutside (before ++ appended inside)) := by
  have starts := refineStart_marker.unbroken
  have ends := refineEnd_marker.unbroken
  cases stray : splitAt before refineStart with
  | none =>
    refine .own stray ?_
    have whole := splitAt_newline_none starts ('\n' :: (refineStart ++ inside ++ refineEndMarker)) stray
    have next : splitAt ('\n' :: (refineStart ++ inside ++ refineEndMarker)) refineStart =
        some (['\n'], inside ++ refineEndMarker) := by
      have line := splitAt_newline_none starts (refineStart ++ (inside ++ refineEndMarker))
        (splitAt_nil refineStart_marker)
      rw [List.nil_append, splitAt_self] at line
      rw [List.append_assoc, line]
      rfl
    rw [next] at whole
    simp only [extractSectionAndOutside, extract, appended, whole, Option.map_some, splitAt_end lines,
      List.append_nil]
  | some cut =>
    obtain ⟨x, rest⟩ := cut
    have whole : splitAt (before ++ appended inside) refineStart = some (x, rest ++ appended inside) :=
      splitAt_newline_some _ stray
    cases closed : splitAt rest refineEndMarker with
    | some cut =>
      obtain ⟨twin, y⟩ := cut
      have later : splitAt (rest ++ appended inside) refineEndMarker = some (twin, y ++ appended inside) :=
        splitAt_newline_some _ closed
      refine .other twin ?_ ?_
      · simp [extractSectionAndOutside, extract, stray, closed]
      · simp [extractSectionAndOutside, extract, stray, closed, whole, later]
    | none =>
      refine .joined x rest stray ?_ ?_
      · simp [extractSectionAndOutside, extract, stray, closed]
      · have start : splitAt refineStart refineEndMarker = none := by decide +kernel
        have later : splitAt (rest ++ appended inside) refineEndMarker =
            some (rest ++ '\n' :: '\n' :: (refineStart ++ inside), []) := by
          obtain ⟨sha, shown, clear, rfl⟩ := lines
          have text : appended ('\n' :: checkedAt sha ++ '\n' :: shown ++ ['\n']) = '\n' :: ([] ++ '\n' ::
              (refineStart ++ '\n' :: (checkedAt sha ++ '\n' :: (shown ++ '\n' :: (refineEndMarker ++ []))))) := by
            simp [appended]
          rw [text, splitAt_newline_none ends _ closed,
            splitAt_newline_none ends _ (splitAt_nil refineEnd_marker),
            splitAt_newline_none ends _ start, splitAt_newline_none ends _ (splitAt_checkedAt sha refineEnd_marker),
            splitAt_newline_none ends _ (splitAt_clear clear refineEnd_marker), splitAt_self]
          simp
        simp [extractSectionAndOutside, extract, whole, later]

end Section_

section Blank

def solid (text : Str) : Nat := text.countP (!PyStr.isSpace ·)

theorem solid_append (a b : Str) : solid (a ++ b) = solid a + solid b := List.countP_append

theorem solid_lstrip (text : Str) : solid (text.dropWhile PyStr.isSpace) = solid text := by
  induction text with
  | nil => rfl
  | cons c rest ih =>
    rw [List.dropWhile_cons]
    split
    · rename_i space
      rw [ih, solid, solid, List.countP_cons_of_neg (by simp [space])]
    · rfl

theorem solid_rstrip (text : Str) : solid (rstrip text) = solid text := by
  have back := solid_lstrip text.reverse
  rw [solid, solid, List.countP_reverse] at back
  rw [rstrip, List.rdropWhile, solid, List.countP_reverse, back]
  rfl

theorem solid_strip (text : Str) : solid (PyStr.strip text) = solid text := by
  rw [PyStr.strip, solid_rstrip, solid_lstrip]

theorem rstrip_newline (text : Str) : rstrip (text ++ ['\n']) = rstrip text :=
  List.rdropWhile_concat_pos _ _ _ (by decide)

theorem strip_newline (text : Str) : PyStr.strip (text ++ ['\n']) = PyStr.strip text := by
  rw [PyStr.strip, PyStr.strip, List.dropWhile_append]
  split
  · rename_i blank
    have empty := List.isEmpty_iff.mp blank
    rw [empty]
    rfl
  · exact rstrip_newline _

theorem rstrip_newlines (text : Str) : rstrip (text ++ ['\n', '\n']) = rstrip text := by
  have twice : text ++ ['\n', '\n'] = (text ++ ['\n']) ++ ['\n'] := by simp
  rw [twice, rstrip_newline, rstrip_newline]

theorem strip_newlines (text : Str) : PyStr.strip (text ++ ['\n', '\n']) = PyStr.strip text := by
  have twice : text ++ ['\n', '\n'] = (text ++ ['\n']) ++ ['\n'] := by simp
  rw [twice, strip_newline, strip_newline]

theorem rstrip_solid (text : Str) {c : Char} (solid : PyStr.isSpace c = false) :
    rstrip (text ++ [c]) = text ++ [c] :=
  List.rdropWhile_concat_neg _ _ _ (by simp [solid])

end Blank
section Write
variable {H : Type} {hash : Str → H} {inside : Str}

theorem found_some {before twin : Str} (found : (extractSectionAndOutside before).2 = some twin) :
    splitAt before refineStart ≠ none := by
  intro none_
  simp [extractSectionAndOutside, extract, none_] at found

theorem extract_length {before twin : Str} (found : (extractSectionAndOutside before).2 = some twin) :
    before.length = (extractSectionAndOutside before).1.length + refineStart.length + twin.length +
      refineEndMarker.length := by
  cases start : splitAt before refineStart with
  | none => exact absurd start (found_some found)
  | some cut =>
    obtain ⟨x, rest⟩ := cut
    cases closed : splitAt rest refineEndMarker with
    | none => simp [extractSectionAndOutside, extract, start, closed] at found
    | some cut =>
      obtain ⟨inside, y⟩ := cut
      have whole := congrArg List.length (splitAt_spec start)
      have tail := congrArg List.length (splitAt_spec closed)
      simp only [extractSectionAndOutside, extract, start, closed, Option.some.injEq] at found ⊢
      subst found
      simp only [List.length_append] at whole tail ⊢
      omega

theorem strip_ne_nil (lines : IsInside inside) : PyStr.strip inside ≠ [] := by
  obtain ⟨sha, shown, _, rfl⟩ := lines
  intro empty
  have count := solid_strip ('\n' :: checkedAt sha ++ '\n' :: shown ++ ['\n'])
  have head : '<' ∈ checkedAt sha :=
    List.mem_append_left _ (List.mem_append_left _ (by decide +kernel))
  have some_ : 0 < solid (checkedAt sha) := List.countP_pos_iff.mpr ⟨'<', head, by decide⟩
  rw [empty, List.append_assoc, List.cons_append, ← List.singleton_append, solid_append,
    solid_append] at count
  have none_ : solid [] = 0 := rfl
  omega

theorem solid_start : 0 < solid refineStart := by decide +kernel

theorem rstrip_appended (before : Str) : rstrip (before ++ appended inside) = before ++ appended inside := by
  obtain ⟨init, last⟩ : ∃ init, refineEndMarker = init ++ ['>'] := ⟨refineEndMarker.dropLast, by decide +kernel⟩
  have whole : before ++ appended inside =
      (before ++ '\n' :: '\n' :: (refineStart ++ inside ++ init)) ++ ['>'] := by
    simp [appended, last]
  rw [whole, rstrip_solid _ (by decide)]

/-- What lets refine know its write: no start marker stands outside the section that it replaces,
    and the text without the block of the alternatives job is the one that it hashed, without a
    start marker; or that text holds a section of the same text, which is cut in its place. -/
def Recognisable (body inside : Str) : Prop :=
  let before := rstrip (extractSectionAndOutside body).1
  let kept := withoutAlternatives before
  splitAt before refineStart = none ∧
    ((splitAt kept refineStart = none ∧ PyStr.strip kept = PyStr.strip (textOfAPerson body)) ∨
      ∃ twin, (extractSectionAndOutside kept).2 = some twin ∧ PyStr.strip twin = PyStr.strip inside ∧
        PyStr.strip ((extractSectionAndOutside kept).1 ++ appended inside) = PyStr.strip (textOfAPerson body))

theorem section_hash_iff (injective : Function.Injective hash) (lines : IsInside inside) (twin : Str) :
    ((some twin).filter (· ≠ [])).map (hashText hash) = some (hashText hash inside) ↔
      PyStr.strip twin = PyStr.strip inside := by
  by_cases empty : twin = []
  · subst empty
    have other : PyStr.strip [] ≠ PyStr.strip inside := fun same => strip_ne_nil lines same.symm
    simp [Option.filter, other]
  · simp [Option.filter, empty, hashText, injective.eq_iff]

variable [DecidableEq H]

structure Recognised (hash : Str → H) (written : Written H) (body inside : Str) : Prop where
  unchanged : isUnchanged hash written.hashes written.newBody = true
  no_edit : checkPersonEdits hash written.hashes written.newBody = none
  section_ : (extractSectionAndOutside written.newBody).2 = some inside
  outside : rstrip (extractSectionAndOutside written.newBody).1 =
    rstrip (extractSectionAndOutside body).1

theorem isUnchanged_iff (recorded : Hashes H) (body : Str) : isUnchanged hash recorded body = true ↔
    some (bodyHashes hash body).1 = recorded.bodyHash ∧ (bodyHashes hash body).2 = recorded.sectionHash := by
  simp [isUnchanged]

/-- A section that another start marker opens earlier holds more than the one that was written. -/
theorem joined_longer (rest inside : Str) :
    PyStr.strip (rest ++ '\n' :: '\n' :: (refineStart ++ inside)) ≠ PyStr.strip inside := by
  intro equal
  have count := congrArg solid equal
  have whole : rest ++ '\n' :: '\n' :: (refineStart ++ inside) =
      rest ++ (['\n', '\n'] ++ (refineStart ++ inside)) := by simp
  rw [solid_strip, solid_strip, whole, solid_append, solid_append, solid_append] at count
  have some_ := solid_start
  omega

theorem unchanged_iff (injective : Function.Injective hash) (lines : IsInside inside)
    (before person : Str) :
    isUnchanged hash ⟨some (hashText hash person), some (hashText hash inside)⟩
        (before ++ appended inside) = true ↔
      ((splitAt (withoutAlternatives before) refineStart = none ∧
          PyStr.strip (withoutAlternatives before) = PyStr.strip person) ∨
        ∃ twin, (extractSectionAndOutside (withoutAlternatives before)).2 = some twin ∧
          PyStr.strip twin = PyStr.strip inside ∧
          PyStr.strip ((extractSectionAndOutside (withoutAlternatives before)).1 ++ appended inside) =
            PyStr.strip person) := by
  rw [isUnchanged_iff, bodyHashes, withoutAlternatives_appended before lines]
  generalize withoutAlternatives before = kept
  have read := extract_appended kept lines
  have body (text : Str) : some (hashText hash text) = some (hashText hash person) ↔
      PyStr.strip text = PyStr.strip person := by simp [hashText, injective.eq_iff]
  rcases read with ⟨absent, same⟩ | ⟨twin, earlier, same⟩ | ⟨x, rest, stray, unclosed, same⟩
  · have nothing : ∀ twin, (extractSectionAndOutside kept).2 ≠ some twin :=
      fun twin found => found_some found absent
    simp only [same, body, section_hash_iff injective lines, strip_newlines, absent, nothing]
    simp
  · have held : splitAt kept refineStart ≠ none := found_some earlier
    simp only [same, body, section_hash_iff injective lines, earlier, held, false_and, false_or,
      Option.some.injEq, exists_eq_left']
    exact and_comm
  · simp only [same, body, section_hash_iff injective lines, stray, unclosed]
    simp [joined_longer rest inside]

/-- What the reader gives back is what was written exactly when no start marker stands before. -/
theorem given_back_iff (before : Str) (solid_end : rstrip before = before) (lines : IsInside inside) :
    ((extractSectionAndOutside (before ++ appended inside)).2 = some inside ∧
      rstrip (extractSectionAndOutside (before ++ appended inside)).1 = before) ↔
      splitAt before refineStart = none := by
  rcases extract_appended before lines with
    ⟨absent, same⟩ | ⟨twin, earlier, same⟩ | ⟨x, rest, stray, unclosed, same⟩
  · simp [same, absent, rstrip_newlines, solid_end]
  · have held : splitAt before refineStart ≠ none := found_some earlier
    simp only [same, held, iff_false, rstrip_appended, Option.some.injEq, not_and]
    rintro rfl back
    -- The text that is given back holds the two line ends more.
    have whole := extract_length earlier
    have length := congrArg List.length back
    simp only [appended, List.length_append, List.length_cons] at length
    omega
  · have held : splitAt before refineStart ≠ none := by simp [stray]
    simp only [same, held, iff_false, Option.some.injEq, not_and]
    intro longer
    have length := congrArg List.length longer
    simp only [List.length_append, List.length_cons] at length
    omega

theorem refineOneItem_writes {engine : Engine} {recorded : Hashes H} {body : Str}
    {proposal : RefinementProposal} {openQuestions : List Str} {sha : Sha} {allowedUrls : List Str}
    {written : Written H}
    (run : refineOneItem hash engine recorded body proposal openQuestions sha allowedUrls = some written) :
    let inside := sectionInside engine proposal openQuestions sha allowedUrls
    written = ⟨rstrip (extractSectionAndOutside body).1 ++ appended inside,
      ⟨some (hashText hash (textOfAPerson body)), some (hashText hash inside)⟩⟩ := by
  simp only [refineOneItem] at run
  split at run
  · exact absurd run (by simp)
  · split at run
    · exact absurd run (by simp)
    · obtain rfl := Option.some.inj run
      have slice (inside : Str) : ((refineStart ++ inside ++ refineEndMarker).drop refineStart.length).take
          ((refineStart ++ inside ++ refineEndMarker).length - refineStart.length -
            refineEndMarker.length) = inside := by
        have count : (refineStart ++ inside ++ refineEndMarker).length - refineStart.length -
            refineEndMarker.length = inside.length := by
          simp only [List.length_append]
          omega
        rw [count, List.append_assoc, List.drop_left, List.take_left]
      simp only [renderProposalSection, slice]
      simp [appended, bodyHashes, textOfAPerson]

/-- Refine knows its own write exactly when no start marker stands in the text outside the section,
    and the cut of the alternatives block leaves the text that it hashed. -/
theorem refine_knows_its_write (hash : Str → H) (injective : Function.Injective hash)
    (engine : Engine) (recorded : Hashes H) (body : Str) (proposal : RefinementProposal)
    (openQuestions : List Str) (sha : Sha) (allowedUrls : List Str) (written : Written H)
    (run : refineOneItem hash engine recorded body proposal openQuestions sha allowedUrls =
      some written) :
    Recognised hash written body (sectionInside engine proposal openQuestions sha allowedUrls) ↔
      Recognisable body (sectionInside engine proposal openQuestions sha allowedUrls) := by
  have lines : IsInside (sectionInside engine proposal openQuestions sha allowedUrls) :=
    sectionInside_lines
  obtain rfl := refineOneItem_writes run
  generalize sectionInside engine proposal openQuestions sha allowedUrls = inside at lines
  have solid_end : rstrip (rstrip (extractSectionAndOutside body).1) =
      rstrip (extractSectionAndOutside body).1 := List.rdropWhile_idempotent _ _
  have back := given_back_iff (rstrip (extractSectionAndOutside body).1) solid_end lines
  have unchanged := unchanged_iff injective lines (rstrip (extractSectionAndOutside body).1)
    (textOfAPerson body)
  constructor
  · intro known
    exact ⟨back.mp ⟨known.section_, known.outside⟩, unchanged.mp known.unchanged⟩
  · rintro ⟨absent, same⟩
    obtain ⟨given, outside⟩ := back.mpr absent
    refine ⟨unchanged.mpr same, ?_, given, outside⟩
    simp [checkPersonEdits, given]

end Write

section Inputs

def plainEngine : Engine where
  finditer _ text := ⟨[], text⟩
  linkGroups _ := ([], [])
  inCode _ _ _ _ := false
  showsStrayBacktick _ := false
  whole _ text := by simp [Matches.text]
  opener := by simp

def plainProposal : RefinementProposal where
  problemStatement := "A retry is lost.".toList
  acceptanceCriteria := []
  existingTool := "None fits.".toList
  keyQuestions := []
  fitsOnePr := true
  splitOffs := []
  suspectedBlock := none
  dependencies := []

def plainSha : Sha := ⟨['c', '0', 'f', 'f', 'e', 'e'], by simp⟩

def plainWrite (body : Str) : Option (Written Str) :=
  refineOneItem id plainEngine ⟨none, none⟩ body plainProposal [] plainSha []

/-- The body of an item that no round has refined. -/
theorem refine_knows_its_write_plain : ∃ written, plainWrite "Retry the call.".toList = some written ∧
    Recognised id written "Retry the call.".toList
      (sectionInside plainEngine plainProposal [] plainSha []) := by
  have writes : (plainWrite "Retry the call.".toList).isSome = true := by decide +kernel
  obtain ⟨written, run⟩ := Option.isSome_iff_exists.mp writes
  refine ⟨written, run, (refine_knows_its_write id Function.injective_id plainEngine ⟨none, none⟩ _
    plainProposal [] plainSha [] written run).mpr ⟨by decide +kernel, Or.inl ⟨?_, ?_⟩⟩⟩
  · decide +kernel
  · decide +kernel

/-- A person wrote a start marker and no end marker: the next round reads another section than was
    written. -/
theorem stray_marker_is_an_edit : ∃ written, plainWrite ("See ".toList ++ refineStart) = some written ∧
    ¬ Recognised id written ("See ".toList ++ refineStart)
      (sectionInside plainEngine plainProposal [] plainSha []) := by
  have writes : (plainWrite ("See ".toList ++ refineStart)).isSome = true := by decide +kernel
  obtain ⟨written, run⟩ := Option.isSome_iff_exists.mp writes
  refine ⟨written, run, fun known => ?_⟩
  obtain rfl := refineOneItem_writes run
  have before := (given_back_iff _ (List.rdropWhile_idempotent _ _) sectionInside_lines).mp
    ⟨known.section_, known.outside⟩
  exact absurd before (by decide +kernel)

end Inputs
end DevopsCli.Roadmap.BodyHash
