import DevopsCli.Lib.PyStr

/- The chunks of a file, ai/rag/chunker.py: what the language chunkers cut from it, and how the
   token limit cuts that again. The parsers and the tokenizer are outside. -/
namespace DevopsCli.Rag
open PyStr

/-- A tokenizer. Both of its calls can raise. -/
structure Encoding (Token : Type) where
  encode : Str → Option (List Token)
  decode : List Token → Option Str

structure Window where
  startLine : Nat
  endLine : Nat
  content : Str

def Window.range (w : Window) : Nat × Nat := (w.startLine, w.endLine)

section Tokens
variable {Token : Type} (enc : Option (Encoding Token)) (maxTokens : Int)

def countChunkTokens (text : Str) : Nat :=
  if text = [] then 0
  else
    match enc.bind (·.encode text) with
    | some tokens => tokens.length
    | none => text.length

def overLimit (text : Str) : Bool := decide (maxTokens < countChunkTokens enc text)

/-- The slices of a text or of its tokens. A limit of zero raises, and a negative one gives no
    slice. -/
def slices {α : Type} (xs : List α) : Option (List (List α)) :=
  if maxTokens = 0 then none
  else if maxTokens < 0 then some []
  else some ((starts xs.length maxTokens.toNat).map fun i => (xs.drop i).take maxTokens.toNat)

def decodeAll (e : Encoding Token) : List (List Token) → List Str × Bool
  | [] => ([], true)
  | part :: rest =>
    match e.decode part with
    | none => ([], false)
    | some piece =>
      let (pieces, whole) := decodeAll e rest
      (if piece = [] then pieces else piece :: pieces, whole)

def tokenPieces (content : Str) : Option (List Str × Bool) := do
  let e ← enc
  let tokens ← e.encode content
  let parts ← slices maxTokens tokens
  return decodeAll e parts

/-- The pieces of a content over the limit: its tokens, or its characters after the pieces that
    decoded. -/
def pieces (content : Str) : Option (List Str) :=
  match tokenPieces enc maxTokens content with
  | some (decoded, true) => some decoded
  | some (decoded, false) => (slices maxTokens content).map (decoded ++ ·)
  | none => slices maxTokens content

def appendSubWindow (startLine endLine : Nat) (content : Str) : Option (List Window) :=
  if content = [] then some []
  else if overLimit enc maxTokens content then
    (pieces enc maxTokens content).map (·.map fun piece => ⟨startLine, endLine, piece⟩)
  else some [⟨startLine, endLine, content⟩]

def flush (start : Nat) (current : List Str) : Option (List Window) :=
  appendSubWindow enc maxTokens start (start + current.length - 1) (strip (join ['\n'] current))

def full (current : List Str) (line : Str) : Bool :=
  !current.isEmpty && overLimit enc maxTokens (strip (join ['\n'] (current ++ [line])))

def splitFrom (next start : Nat) (current : List Str) : List Str → Option (List Window)
  | [] => if current = [] then some [] else flush enc maxTokens start current
  | line :: rest =>
    if full enc maxTokens current line then do
      let before ← flush enc maxTokens start current
      let after ← splitFrom (next + 1) next [line] rest
      return before ++ after
    else splitFrom (next + 1) start (current ++ [line]) rest

def splitWindowByTokenLimit (lines : List Str) (windowStart : Nat) : Option (List Window) :=
  splitFrom enc maxTokens windowStart windowStart [] lines

end Tokens

structure PythonNode where
  isDefinition : Bool
  lineno : Nat
  endLineno : Nat

structure SymbolSpan where
  row : Nat
  lineEnd : Nat

/-- What the parser of a language says about a file. -/
inductive Rendering where
  -- Nothing when the file has a syntax error.
  | python (tree : Option (List PythonNode))
  -- The lines of the start mark and the end mark of each document.
  | yaml (docs : Option (List (Option (Nat × Nat))))
  -- The lines of the headings; nothing for another language than Markdown.
  | techDocs (headings : Option (List Nat))
  | symbols (spans : List SymbolSpan)
  | lines

structure Chunker (Token Id : Type) where
  chunkSize : Nat
  chunkOverlap : Nat
  enc : Option (Encoding Token)
  maxTokens : Int
  uuid5 : Str → Id
  projectName : Str
  filePath : Str

section
variable {Token Id : Type}

def Chunker.generateId (c : Chunker Token Id) (startLine endLine : Nat) : Id :=
  c.uuid5 (c.projectName ++ ':' :: (c.filePath ++ ':' :: (digits startLine ++ ':' :: digits endLine)))

structure CodeChunk (c : Chunker Token Id) where
  id : Id
  startLine : Nat
  endLine : Nat
  content : Str
  named : id = c.generateId startLine endLine

def CodeChunk.range {c : Chunker Token Id} (chunk : CodeChunk c) : Nat × Nat :=
  (chunk.startLine, chunk.endLine)

end

namespace Chunker
variable {Token Id : Type} (c : Chunker Token Id)

def makeChunk (w : Window) : CodeChunk c where
  id := c.generateId w.startLine w.endLine
  startLine := w.startLine
  endLine := w.endLine
  content := w.content
  named := rfl

def splitLargeChunk (chunk : CodeChunk c) : Option (List (CodeChunk c)) :=
  if overLimit c.enc c.maxTokens chunk.content then
    (splitWindowByTokenLimit c.enc c.maxTokens (splitlines chunk.content) chunk.startLine).map
      (·.map c.makeChunk)
  else some [chunk]

def lineWindow (lines : List Str) (start : Nat) : Option (List (CodeChunk c)) :=
  let end_ := min lines.length (start + c.chunkSize)
  let chunkLines := (lines.drop start).take (end_ - start)
  let content := strip (join ['\n'] chunkLines)
  if content = [] then some []
  else if overLimit c.enc c.maxTokens content then
    (splitWindowByTokenLimit c.enc c.maxTokens chunkLines (start + 1)).map (·.map c.makeChunk)
  else some [c.makeChunk ⟨start + 1, end_, content⟩]

def chunkLineWindow (content : Str) : Option (List (CodeChunk c)) :=
  let lines := splitlines content
  ((starts lines.length (max 1 (c.chunkSize - c.chunkOverlap))).mapM (c.lineWindow lines)).map
    List.flatten

def linesOf (lines : List Str) (startLine endLine : Nat) : List Str :=
  (lines.drop (startLine - 1)).take (endLine + 1 - startLine)

def preamble (lines : List Str) (covered : List Nat) : Option (CodeChunk c) :=
  let uncovered := ((List.range lines.length).map (· + 1)).filter fun line => line ∉ covered
  let preambleEnd := min (covered.min?.getD (lines.length + 1) - 1) 60
  let content := strip (join ['\n'] (lines.take preambleEnd))
  if uncovered.head? = some 1 ∧ 3 < uncovered.length ∧ 1 ≤ preambleEnd ∧ content ≠ [] then
    some (c.makeChunk ⟨1, preambleEnd, content⟩)
  else none

def chunkPython (content : Str) (tree : Option (List PythonNode)) : Option (List (CodeChunk c)) :=
  let lines := splitlines content
  if lines = [] then some []
  else
    match tree with
    | none => c.chunkLineWindow content
    | some nodes =>
      let definitions := nodes.filter (·.isDefinition)
      let chunks := definitions.map fun node => c.makeChunk
        ⟨node.lineno, node.endLineno, join ['\n'] (linesOf lines node.lineno node.endLineno)⟩
      let covered := definitions.flatMap fun node =>
        List.range' node.lineno (node.endLineno + 1 - node.lineno)
      some ((c.preamble lines covered).toList ++ chunks)

def symbolChunk (lines : List Str) (span : SymbolSpan) : Option (CodeChunk c) :=
  let endLine := min lines.length span.lineEnd
  let content := strip (join ['\n'] (linesOf lines (span.row + 1) endLine))
  if lines.length < span.row + 1 ∨ endLine < span.row + 1 ∨ content = [] then none
  else some (c.makeChunk ⟨span.row + 1, endLine, content⟩)

def chunkTreeSitterSymbols (content : Str) (spans : List SymbolSpan) :
    Option (List (CodeChunk c)) :=
  if spans = [] then c.chunkLineWindow content
  else
    let lines := splitlines content
    if lines = [] then some []
    else
      let chunks := spans.filterMap (c.symbolChunk lines)
      let covered := chunks.flatMap fun chunk =>
        List.range' chunk.startLine (chunk.endLine + 1 - chunk.startLine)
      some ((c.preamble lines covered).toList ++ chunks)

def chunkYaml (content : Str) (docs : Option (List (Option (Nat × Nat)))) :
    Option (List (CodeChunk c)) :=
  let lines := splitlines content
  if lines = [] then some []
  else
    match docs with
    | none => c.chunkLineWindow content
    | some docs => some <| docs.reduceOption.filterMap fun (startMark, endMark) =>
      let startLine := startMark + 1
      let endLine := max startLine endMark
      let docContent := strip (join ['\n'] (linesOf lines startLine endLine))
      if docContent = [] then none else some (c.makeChunk ⟨startLine, endLine, docContent⟩)

def chunkTechDocs (content : Str) (headings : Option (List Nat)) : Option (List (CodeChunk c)) :=
  let lines := splitlines content
  if lines = [] then some []
  else
    match headings with
    | none | some [] => c.chunkLineWindow content
    | some (first :: rest) => some <| ((first :: rest).zip (rest ++ [lines.length])).filterMap
      fun (startIdx, endIdx) =>
        let secContent := strip (join ['\n'] ((lines.drop startIdx).take (endIdx - startIdx)))
        if secContent = [] then none else some (c.makeChunk ⟨startIdx + 1, endIdx, secContent⟩)

def dispatchLanguageChunker (content : Str) : Rendering → Option (List (CodeChunk c))
  | .python tree => c.chunkPython content tree
  | .yaml docs => c.chunkYaml content docs
  | .techDocs headings => c.chunkTechDocs content headings
  | .symbols spans => c.chunkTreeSitterSymbols content spans
  | .lines => c.chunkLineWindow content

def languageChunks (content : Str) (rendering : Rendering) : Option (List (CodeChunk c)) := do
  let chunks ← c.dispatchLanguageChunker content rendering
  if chunks.isEmpty && !(strip content).isEmpty then c.chunkLineWindow content else return chunks

def chunkFile (content : Str) (rendering : Rendering) : Option (List (CodeChunk c)) := do
  let chunks ← c.languageChunks content rendering
  return (← chunks.mapM c.splitLargeChunk).flatten

end Chunker
end DevopsCli.Rag
