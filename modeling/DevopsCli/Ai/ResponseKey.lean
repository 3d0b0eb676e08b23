import DevopsCli.Lib.Json
import DevopsCli.Lib.PyWords

/- The key of a request in the response cache, generate_key of ai/response_cache.py. The hex digest
   of SHA-256 and str.lower come from outside. Options hold JSON values, an object as the list of
   its members in the order of the keys. -/
namespace DevopsCli.Ai.ResponseCache
open PyStr Separated

/-- str.lower. It takes no blank character away and makes none, and what it gives stays. -/
structure Lowercase where
  lower : Str → Str
  strip_lower : ∀ text, strip (lower (strip text)) = lower (strip text)
  settled : ∀ text part, (∀ c ∈ part, c ∈ lower text) → lower part = part

inductive Role where
  | system
  | user
  | assistant
  deriving DecidableEq

def Role.text : Role → Str
  | .system => "system".toList
  | .user => "user".toList
  | .assistant => "assistant".toList

structure ChatMessage where
  role : Role
  content : Str
  deriving DecidableEq

inductive Body where
  | prompt (text : Str)
  | messages (list : List ChatMessage)
  deriving DecidableEq

structure Options (F : Type) where
  members : Json.Members F
  ordered : (Json.obj members).Ordered

structure Request (F : Type) where
  provider : Str
  model : Str
  system : Str
  body : Body
  options : Option (Options F) := none

def ChatMessage.part (message : ChatMessage) : Str :=
  message.role.text ++ ':' :: (strip message.content ++ ['|'])

def Body.text : Body → Str
  | .prompt text => strip text
  | .messages list => list.flatMap ChatMessage.part

def Body.stripped : Body → Body
  | .prompt text => .prompt (strip text)
  | .messages list => .messages (list.map fun message => { message with content := strip message.content })

section Key
variable {F : Type} (floats : Floats F) (case_ : Lowercase) (hexdigest : Str → Str)

def Options.text (options : Options F) : Str := Json.dumps floats (.obj options.members)

/-- The members that the options give: none and an empty dict give no member. -/
def Request.given (r : Request F) : Json.Members F := (r.options.map Options.members).getD []

def Request.optionsText (r : Request F) : Str :=
  match r.options with
  | none => []
  | some options => if options.members.isEmpty then [] else options.text floats

def Request.providerText (r : Request F) : Str := case_.lower (strip r.provider)

def Request.modelText (r : Request F) : Str := case_.lower (strip r.model)

def Request.hashed (r : Request F) : Str :=
  r.providerText case_ ++ '|' :: (r.modelText case_ ++ '|' :: (strip r.system ++ '|' ::
    (r.body.text ++ r.optionsText floats)))

def generateKey (r : Request F) : Str := "llm_".toList ++ hexdigest (r.hashed floats case_)

structure Alike (r r' : Request F) : Prop where
  provider : r.providerText case_ = r'.providerText case_
  model : r.modelText case_ = r'.modelText case_
  system : strip r.system = strip r'.system
  body : r.body.stripped = r'.body.stripped
  options : r.given = r'.given

/-- A bar that a text before it and a text after it, neither with blank space around it, make a
    field of two. -/
abbrev BarCut (field : Str) : Prop := Cut isSpace '|' field

/-- A request that can be read from its key: a prompt without options, whose fields no bar cuts,
    and that is not a text followed by options. -/
structure Unambiguous (r : Request F) : Prop where
  bare : r.given = []
  prompt : ∃ text, r.body = .prompt text
  some_ : r.body.text ≠ []
  uncut : ∀ field ∈ [r.providerText case_, r.modelText case_, strip r.system, r.body.text],
    ¬BarCut field
  optionless : ∀ before (options : Options F), options.members ≠ [] → strip before = before →
    r.body.text ≠ before ++ options.text floats

section Texts

theorem trimmed_role (role : Role) : Trimmed isSpace role.text := by
  cases role <;> exact (trimmed_iff _).mpr (by decide)

theorem bar_plain : ¬isSpace '|' := by decide

def ChatMessage.body (message : ChatMessage) : Str :=
  message.role.text ++ ([':'] ++ strip message.content)

theorem ChatMessage.part_eq (message : ChatMessage) : message.part = message.body ++ ['|'] := by
  simp [ChatMessage.part, ChatMessage.body]

theorem trimmed_message (message : ChatMessage) : Trimmed isSpace message.body :=
  (trimmed_role message.role).append
    (((trimmed_iff _).mpr (by decide)).append (trimmed_strip message.content))

theorem trimmed_messages (list : List ChatMessage) :
    Trimmed isSpace (list.flatMap ChatMessage.part) := by
  induction list with
  | nil => exact trimmed_nil
  | cons message rest ih =>
    rw [List.flatMap_cons, ChatMessage.part_eq]
    exact ((trimmed_message message).append ((trimmed_iff _).mpr (by decide))).append ih

theorem trimmed_body (body : Body) : Trimmed isSpace body.text := by
  cases body with
  | prompt text => exact trimmed_strip text
  | messages list => exact trimmed_messages list

theorem messages_cut {list : List ChatMessage} (some_ : list ≠ []) :
    BarCut (Body.messages list).text := by
  obtain ⟨init, last, rfl⟩ := List.eq_nil_or_concat' list |>.resolve_left some_
  refine ⟨init.flatMap ChatMessage.part ++ last.body, [], ?_, ?_, trimmed_nil⟩
  · simp [Body.text, ChatMessage.part_eq]
  · exact (trimmed_messages init).append (trimmed_message last)

theorem trimmed_options (options : Options F) : Trimmed isSpace (options.text floats) := by
  have braces : options.text floats
      = ['{'] ++ (Json.dumpsMembers floats options.members ++ ['}']) := by
    rw [Options.text, Json.dumps]
    rfl
  rw [braces]
  constructor
  · rintro c ⟨⟩
    decide
  · rw [← List.append_assoc, List.getLast?_concat]
    rintro c ⟨⟩
    decide

variable (r : Request F)

theorem trimmed_optionsText : Trimmed isSpace (r.optionsText floats) := by
  unfold Request.optionsText
  split
  · exact trimmed_nil
  · split
    · exact trimmed_nil
    · exact trimmed_options floats _

theorem trimmed_lower (text : Str) : Trimmed isSpace (case_.lower (strip text)) :=
  (trimmed_iff _).mpr (case_.strip_lower text)

theorem optionsText_bare (bare : r.given = []) : r.optionsText floats = [] := by
  unfold Request.optionsText
  split
  · rfl
  · rename_i options held
    have none : options.members = [] := by simpa [Request.given, held] using bare
    rw [if_pos (List.isEmpty_iff.mpr none)]

def Request.parts : List Str :=
  [r.providerText case_, r.modelText case_, strip r.system, r.body.text ++ r.optionsText floats]

theorem hashed_eq : r.hashed floats case_ = ['|'].intercalate (r.parts floats case_) := by
  simp [Request.hashed, Request.parts, List.intercalate_cons_cons]

theorem parts_trimmed : ∀ part ∈ r.parts floats case_, Trimmed isSpace part := by
  simp only [Request.parts, List.forall_mem_cons]
  exact ⟨trimmed_lower case_ _, trimmed_lower case_ _, trimmed_strip _,
    (trimmed_body _).append (trimmed_optionsText floats r), by simp⟩

end Texts

section Readings
variable {floats case_} {r r' : Request F}

theorem bare_parts (bare : r.given = []) : r.parts floats case_ =
    [r.providerText case_, r.modelText case_, strip r.system, r.body.text] := by
  rw [Request.parts, optionsText_bare floats r bare, List.append_nil]

theorem optionsText_given (floats : Floats F) (given : r.given ≠ []) :
    ∃ options : Options F, options.members ≠ [] ∧ r.optionsText floats = options.text floats := by
  obtain ⟨provider, model, system, body, options⟩ := r
  cases options with
  | none => exact absurd rfl given
  | some options => exact ⟨options, given, if_neg (mt List.isEmpty_iff.mp given)⟩

theorem Unambiguous.alike (own : Unambiguous floats case_ r)
    (same : r'.hashed floats case_ = r.hashed floats case_) : Alike case_ r' r := by
  have uncut : ∀ part ∈ r.parts floats case_, Trimmed isSpace part ∧ ¬BarCut part := by
    intro part mem
    refine ⟨parts_trimmed floats case_ r part mem, own.uncut part ?_⟩
    rwa [bare_parts own.bare] at mem
  rw [hashed_eq, hashed_eq] at same
  have equal := uncut_unique bar_plain uncut (parts_trimmed floats case_ r') rfl same.symm
  rw [bare_parts own.bare, Request.parts] at equal
  obtain ⟨provider, equal⟩ := List.cons_eq_cons.mp equal
  obtain ⟨model, equal⟩ := List.cons_eq_cons.mp equal
  obtain ⟨system, equal⟩ := List.cons_eq_cons.mp equal
  have last : r'.body.text ++ r'.optionsText floats = r.body.text := (List.cons_eq_cons.mp equal).1
  have bare' : r'.given = [] := by
    by_contra given
    obtain ⟨options, some_, written⟩ := optionsText_given floats given
    rw [written] at last
    exact own.optionless _ options some_ ((trimmed_iff _).mp (trimmed_body r'.body)) last.symm
  rw [optionsText_bare floats r' bare', List.append_nil] at last
  obtain ⟨text, prompt⟩ := own.prompt
  refine ⟨provider, model, system, ?_, bare'.trans own.bare.symm⟩
  cases body : r'.body with
  | prompt text' =>
    rw [body, prompt] at last
    rw [prompt]
    exact congrArg Body.prompt last
  | messages list =>
    rw [body] at last
    cases list with
    | nil => exact absurd last.symm own.some_
    | cons message rest =>
      have cut := messages_cut (List.cons_ne_nil message rest)
      rw [last] at cut
      exact absurd cut (own.uncut _ (by simp))

def Request.asPrompt (floats : Floats F) (r : Request F) : Request F :=
  { r with body := .prompt (r.body.text ++ r.optionsText floats), options := none }

theorem hashed_asPrompt : (r.asPrompt floats).hashed floats case_ = r.hashed floats case_ := by
  have trimmed := (trimmed_body r.body).append (trimmed_optionsText floats r)
  have text : (r.asPrompt floats).body.text = r.body.text ++ r.optionsText floats :=
    (trimmed_iff _).mp trimmed
  have bare : (r.asPrompt floats).optionsText floats = [] := rfl
  rw [Request.hashed, text, bare, List.append_nil]
  rfl

def plain (provider model system text : Str) : Request F :=
  { provider, model, system, body := .prompt text }

theorem lower_piece {text piece : Str} (trimmed : Trimmed isSpace piece)
    (inside : piece ⊆ case_.lower text) : case_.lower (strip piece) = piece := by
  rw [(trimmed_iff _).mp trimmed]
  exact case_.settled text piece fun c mem => inside mem

theorem hashed_plain {provider model system text : Str}
    (provider_ : case_.lower (strip provider) = provider) (model_ : case_.lower (strip model) = model)
    (system_ : Trimmed isSpace system) (text_ : Trimmed isSpace text) :
    (plain provider model system text : Request F).hashed floats case_ =
      ['|'].intercalate [provider, model, system, text] := by
  have parts : (plain provider model system text : Request F).parts floats case_ =
      [case_.lower (strip provider), case_.lower (strip model), strip system, strip text ++ []] := rfl
  rw [hashed_eq, parts, provider_, model_, (trimmed_iff _).mp system_, (trimmed_iff _).mp text_,
    List.append_nil]

theorem longer {before after : Str} {c : Char} : before ≠ before ++ c :: after := by
  intro same
  have := congrArg List.length same
  simp at this

/-- A request that no other request shares its key with. -/
def Own (floats : Floats F) (case_ : Lowercase) (r : Request F) : Prop :=
  ∀ r' : Request F, r'.hashed floats case_ = r.hashed floats case_ → Alike case_ r' r

theorem Own.uncut (own : Own floats case_ r) (bare : r.given = []) :
    ∀ field ∈ [r.providerText case_, r.modelText case_, strip r.system, r.body.text],
      ¬BarCut field := by
  have hashed := hashed_eq floats case_ r
  rw [bare_parts bare] at hashed
  have model : Trimmed isSpace (r.modelText case_) := trimmed_lower case_ r.model
  have system := trimmed_strip r.system
  have text := trimmed_body r.body
  have provider_ : case_.lower (strip (r.providerText case_)) = r.providerText case_ :=
    lower_piece (trimmed_lower case_ r.provider) (List.Subset.refl _)
  have model_ : case_.lower (strip (r.modelText case_)) = r.modelText case_ :=
    lower_piece model (List.Subset.refl _)
  simp only [List.forall_mem_cons]
  refine ⟨?provider, ?model, ?system, ?text, by simp⟩
  case provider =>
    rintro ⟨before, after, split, first, last⟩
    have head : before ⊆ case_.lower (strip r.provider) := by
      rw [← Request.providerText, split]
      exact List.subset_append_left _ _
    have tail : after ⊆ case_.lower (strip r.provider) := by
      rw [← Request.providerText, split]
      exact fun c mem => List.mem_append_right _ (List.mem_cons_of_mem _ mem)
    have before_ := lower_piece first head
    have after_ := lower_piece last tail
    have read := own (plain before after (r.modelText case_ ++ '|' :: strip r.system) r.body.text) (by
      rw [hashed_plain before_ after_ (model.joined bar_plain system) text, hashed, split]
      simp [List.intercalate_cons_cons])
    have same := read.provider
    rw [split] at same
    exact longer (before_.symm.trans same)
  case model =>
    rintro ⟨before, after, split, first, last⟩
    have head : before ⊆ case_.lower (strip r.model) := by
      rw [← Request.modelText, split]
      exact List.subset_append_left _ _
    have before_ := lower_piece first head
    have read := own (plain (r.providerText case_) before (after ++ '|' :: strip r.system)
      r.body.text) (by
      rw [hashed_plain provider_ before_ (last.joined bar_plain system) text, hashed, split]
      simp [List.intercalate_cons_cons])
    have same := read.model
    rw [split] at same
    exact longer (before_.symm.trans same)
  case system =>
    rintro ⟨before, after, split, first, last⟩
    have read := own (plain (r.providerText case_) (r.modelText case_) before
      (after ++ '|' :: r.body.text)) (by
      rw [hashed_plain provider_ model_ first (last.joined bar_plain text), hashed, split]
      simp [List.intercalate_cons_cons])
    have same := read.system
    rw [split] at same
    exact longer (((trimmed_iff _).mp first).symm.trans same)
  case text =>
    rintro ⟨before, after, split, first, last⟩
    have read := own (plain (r.providerText case_) (r.modelText case_)
      (strip r.system ++ '|' :: before) after) (by
      rw [hashed_plain provider_ model_ (system.joined bar_plain first) last, hashed, split]
      simp [List.intercalate_cons_cons])
    have same := read.system
    exact longer (((trimmed_iff _).mp (system.joined bar_plain first)).symm.trans same).symm

theorem Own.unambiguous (own : Own floats case_ r) : Unambiguous floats case_ r := by
  have prompt := own (r.asPrompt floats) hashed_asPrompt
  have bare : r.given = [] := prompt.options.symm
  have body : ∃ text, r.body = .prompt text := by
    cases held : r.body with
    | prompt text => exact ⟨text, rfl⟩
    | messages list =>
      have same := prompt.body
      rw [held] at same
      cases same
  refine ⟨bare, body, ?some_, own.uncut bare, ?optionless⟩
  case some_ =>
    intro none
    have read := own { r with body := .messages [] } (by
      rw [Request.hashed, Request.hashed, none]
      rfl)
    obtain ⟨text, held⟩ := body
    have same := read.body
    rw [held] at same
    cases same
  case optionless =>
    intro before options some_ trimmed split
    have given : options.members.isEmpty = false := List.isEmpty_eq_false_iff.mpr some_
    have read := own { r with body := .prompt before, options := some options } (by
      rw [Request.hashed, Request.hashed, optionsText_bare floats r bare, split, List.append_nil]
      simp only [Request.optionsText, Body.text, trimmed, given]
      rfl)
    exact some_ (read.options.trans bare)

theorem own_iff : Own floats case_ r ↔ Unambiguous floats case_ r :=
  ⟨Own.unambiguous, fun unambiguous _ same => unambiguous.alike same⟩

theorem key_eq_iff {hexdigest : Str → Str} (injective : Function.Injective hexdigest) :
    generateKey floats case_ hexdigest r' = generateKey floats case_ hexdigest r ↔
      r'.hashed floats case_ = r.hashed floats case_ := by
  rw [generateKey, generateKey, List.append_cancel_left_eq, injective.eq_iff]

end Readings

end Key
end DevopsCli.Ai.ResponseCache
