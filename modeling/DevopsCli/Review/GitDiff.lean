import DevopsCli.Lib.LineEnds
import DevopsCli.Review.Diff

/- The diffs that git writes: names, extended headers, hunks with their lengths and lines. A name with
   a control character, a quote, a backslash or a character beyond ASCII is quoted, and a tab follows
   a name with a space. -/
namespace DevopsCli.Review.Diff
open PyStr

structure LineText where
  text : Str
  one : '\n' ∉ text

inductive DiffLine where
  | context (text : LineText)
  /-- An empty context line that is written with nothing on it. -/
  | blank
  | removed (text : LineText)
  | added (text : LineText)

namespace DiffLine

def text : DiffLine → Str
  | context line => ' ' :: line.text
  | blank => []
  | removed line => '-' :: line.text
  | added line => '+' :: line.text

def inOld : DiffLine → Bool
  | added _ => false
  | _ => true

def inNew : DiffLine → Bool
  | removed _ => false
  | _ => true

def isNew : DiffLine → Bool
  | added _ => true
  | _ => false

end DiffLine

/-- A line of a hunk, and whether its file ends there without a line feed. -/
structure HunkLine where
  line : DiffLine
  noNewline : Bool := false

def oldCount (lines : List HunkLine) : Nat := lines.countP (·.line.inOld)
def newCount (lines : List HunkLine) : Nat := lines.countP (·.line.inNew)

structure Hunk where
  oldStart : Nat
  newStart : Nat
  /-- Whether a length of one is written. -/
  oldOne : Bool := false
  newOne : Bool := false
  heading : LineText
  lines : List HunkLine
  counted : 0 < newCount lines → 0 < newStart

def noNewlineMark : Str := "\\ No newline at end of file".toList

def countText (count : Nat) (one : Bool) : Str :=
  if count = 1 ∧ one = false then [] else ',' :: digits count

def Hunk.header (hunk : Hunk) : Str :=
  "@@ -".toList ++ (digits hunk.oldStart ++ (countText (oldCount hunk.lines) hunk.oldOne ++
    (" +".toList ++ (digits hunk.newStart ++ (countText (newCount hunk.lines) hunk.newOne ++
      (" @@".toList ++ hunk.heading.text))))))

def HunkLine.texts (line : HunkLine) : List Str :=
  line.line.text :: if line.noNewline = true then [noNewlineMark] else []

def Hunk.texts (hunk : Hunk) : List Str := hunk.header :: hunk.lines.flatMap HunkLine.texts

inductive HeaderKey where
  | oldMode | newMode | deletedFile | newFile | copyFrom | copyTo | renameFrom | renameTo
  | similarity | dissimilarity | index | binary

def HeaderKey.text : HeaderKey → Str
  | .oldMode => "old mode ".toList
  | .newMode => "new mode ".toList
  | .deletedFile => "deleted file mode ".toList
  | .newFile => "new file mode ".toList
  | .copyFrom => "copy from ".toList
  | .copyTo => "copy to ".toList
  | .renameFrom => "rename from ".toList
  | .renameTo => "rename to ".toList
  | .similarity => "similarity index ".toList
  | .dissimilarity => "dissimilarity index ".toList
  | .index => "index ".toList
  | .binary => "Binary files ".toList

structure ExtendedHeader where
  key : HeaderKey
  value : LineText

def needsQuote (c : Char) : Bool :=
  decide (c.toNat < 32) || c == '"' || c == '\\' || decide (127 ≤ c.toNat)

def octal (byte : Nat) : Str :=
  ['\\', Nat.digitChar (byte / 64 % 8), Nat.digitChar (byte / 8 % 8), Nat.digitChar (byte % 8)]

def shortEscapes : Str := [7, 8, 9, 10, 11, 12, 13].map Char.ofNat

def letterOf : Nat → Char
  | 0 => 'a'
  | 1 => 'b'
  | 2 => 't'
  | 3 => 'n'
  | 4 => 'v'
  | 5 => 'f'
  | _ => 'r'

def quoteChar (c : Char) : Str :=
  if needsQuote c = false then [c]
  else if c = '"' ∨ c = '\\' then ['\\', c]
  else
    match shortEscapes.idxOf? c with
    | some place => ['\\', letterOf place]
    | none => (String.utf8EncodeChar c).flatMap fun byte => octal byte.toNat

def quoteName (start name : Str) : Str :=
  if name.any needsQuote = true then '"' :: start ++ name.flatMap quoteChar ++ ['"']
  else start ++ name

structure FileDiff where
  oldName : Str
  newName : Str
  headers : List ExtendedHeader := []
  oldExists : Bool := true
  newExists : Bool := true
  hunks : List Hunk := []
  named : newName ≠ []
  deleted : newExists = false → ∀ hunk ∈ hunks, newCount hunk.lines = 0

def sideLabel (exists_ : Bool) (start name : Str) : Str :=
  if exists_ = true then quoteName start name else "/dev/null".toList

def withTab (label : Str) : Str := if ' ' ∈ label then label ++ ['\t'] else label

namespace FileDiff
variable (file : FileDiff)

def first : Str :=
  "diff --git ".toList ++ quoteName "a/".toList file.oldName ++
    ' ' :: quoteName "b/".toList file.newName

def oldHeader : Str :=
  "--- ".toList ++ withTab (sideLabel file.oldExists "a/".toList file.oldName)

def newHeader : Str :=
  "+++ ".toList ++ withTab (sideLabel file.newExists "b/".toList file.newName)

def texts : List Str :=
  file.first :: (file.headers.map fun header => header.key.text ++ header.value.text) ++
    if file.hunks = [] then []
    else file.oldHeader :: file.newHeader :: file.hunks.flatMap Hunk.texts

end FileDiff

def diffLines (diff : List FileDiff) : List Str := diff.flatMap FileDiff.texts

def diffText (diff : List FileDiff) : Str := textOfLines (diffLines diff)

def addedNumbers (number : Nat) : List HunkLine → List Nat
  | [] => []
  | line :: rest =>
    if line.line.isNew = true then number :: addedNumbers (number + 1) rest
    else addedNumbers (if line.line.inNew = true then number + 1 else number) rest

def FileDiff.added (file : FileDiff) : List (Str × Nat) :=
  file.hunks.flatMap fun hunk => (addedNumbers hunk.newStart hunk.lines).map (file.newName, ·)

def addedLines (diff : List FileDiff) : List (Str × Nat) := diff.flatMap FileDiff.added

structure PlainName (name : Str) : Prop where
  unquoted : name.any needsQuote = false
  trimmed : strip name = name

/-- A diff whose added lines both readers see: no line breaks inside, no added text starts with two
    plus signs, every empty context line has its space, and the names of files with added lines
    are written as they are. -/
structure Readable (diff : List FileDiff) : Prop where
  whole : ∀ line ∈ diffLines diff, ReadsWhole line
  content : ∀ file ∈ diff, ∀ hunk ∈ file.hunks, ∀ line ∈ hunk.lines, ∀ text,
    line.line = .added text → ¬['+', '+'] <+: text.text
  spaced : ∀ file ∈ diff, ∀ hunk ∈ file.hunks, ∀ line ∈ hunk.lines, line.line ≠ .blank
  names : ∀ file ∈ diff, file.added ≠ [] → PlainName file.newName

end DevopsCli.Review.Diff
