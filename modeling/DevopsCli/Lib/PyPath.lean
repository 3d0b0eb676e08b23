import DevopsCli.Lib.PyStr

/- Paths and globs on lists of characters: PurePosixPath, posixpath.normpath and fnmatchcase, and
   the words of shlex.split. -/
namespace DevopsCli.PyPath
open PyStr

/-- The root of a path: two slashes stay two, more are one. -/
def root (path : Str) : Str :=
  match path.takeWhile (· == '/') with
  | [] => []
  | ['/', '/'] => ['/', '/']
  | _ => ['/']

/-- The parts of a path behind its root. -/
def parts (path : Str) : List Str := (path.splitOn '/').filter fun part => !part.isEmpty && part != ['.']

def foldersOf (path : Str) : List Str :=
  ((parts path).dropLast.inits.map fun above => root path ++ join ['/'] above).filter (· ≠ [])

def name (path : Str) : Str := (parts path).getLastD []

def suffixOf (name : Str) : Str :=
  let after := name.reverse.takeWhile (· != '.')
  let before := (name.reverse.drop (after.length + 1)).reverse
  if after.length < name.length ∧ before.any (· != '.') then '.' :: after.reverse else []

def suffix (path : Str) : Str := suffixOf (name path)

def normStep (rooted : Bool) (kept : List Str) (part : Str) : List Str :=
  if part = [] ∨ part = ['.'] then kept
  else if part ≠ ['.', '.'] ∨ (rooted = false ∧ kept = []) ∨ kept.getLast? = some ['.', '.'] then
    kept ++ [part]
  else kept.dropLast

def normpath (path : Str) : Str :=
  let text := root path ++ join ['/'] ((path.splitOn '/').foldl (normStep (root path != [])) [])
  if text = [] then ['.'] else text

inductive GlobToken where
  | star
  | any
  | set (negated : Bool) (ranges : List (Char × Char))
  | char (c : Char)

def ranges : Str → List (Char × Char)
  | first :: '-' :: last :: rest => (first, last) :: ranges rest
  | c :: rest => (c, c) :: ranges rest
  | [] => []

/-- The set behind an open bracket and the text behind the set. A bracket that closes at once is a
    character of the set. -/
def bracket (rest : Str) : Option (GlobToken × Str) :=
  let negated := rest.head? == some '!'
  let rest := if negated then rest.tail else rest
  let lead := if rest.head? = some ']' then [']'] else []
  let rest := rest.drop lead.length
  match rest.dropWhile (· != ']') with
  | [] => none
  | _ :: after => some (.set negated (ranges (lead ++ rest.takeWhile (· != ']'))), after)

def globTokens : Nat → Str → List GlobToken
  | 0, _ => []
  | _, [] => []
  | fuel + 1, '*' :: rest => .star :: globTokens fuel rest
  | fuel + 1, '?' :: rest => .any :: globTokens fuel rest
  | fuel + 1, c :: rest =>
    match if c = '[' then bracket rest else none with
    | some (token, after) => token :: globTokens fuel after
    | none => .char c :: globTokens fuel rest

def GlobToken.accepts : GlobToken → Char → Bool
  | .star, _ => true
  | .any, _ => true
  | .set negated ranges, c => (ranges.any fun range => range.1 ≤ c && c ≤ range.2) != negated
  | .char own, c => c == own

def globMatch : List GlobToken → Str → Bool
  | [], name => name.isEmpty
  | .star :: tokens, name => name.tails.any fun rest => globMatch tokens rest
  | _ :: _, [] => false
  | token :: tokens, c :: rest => token.accepts c && globMatch tokens rest

def fnmatchcase (name pattern : Str) : Bool := globMatch (globTokens pattern.length pattern) name

def hasMagic (path : Str) : Bool := path.any fun c => c == '*' || c == '?' || c == '['

inductive ShlexState where
  | blank
  | word
  | quoted (quote : Char)
  | escaped (inQuote : Bool)

def isQuote (c : Char) : Bool := c.toNat == 34 || c.toNat == 39
def isShlexSpace (c : Char) : Bool := c == ' ' || c == '\t' || c == '\r' || c == '\n'

/-- A token that ends; an empty one counts where it was quoted. -/
def emit (token : Str) (quoted : Bool) : List Str := if token = [] ∧ quoted = false then [] else [token]

def shlexFrom (state : ShlexState) (token : Str) (quoted : Bool) : Str → Option (List Str)
  | [] =>
    match state with
    | .blank => some []
    | .word => some (emit token quoted)
    | .quoted _ => none
    | .escaped _ => none
  | c :: rest =>
    match state with
    | .blank =>
      if isShlexSpace c then shlexFrom .blank [] false rest
      else if c = '\\' then shlexFrom (.escaped false) [] false rest
      else if isQuote c then shlexFrom (.quoted c) [] false rest
      else shlexFrom .word [c] false rest
    | .quoted quote =>
      if c = quote then shlexFrom .word token true rest
      else if c = '\\' ∧ quote.toNat = 34 then shlexFrom (.escaped true) token true rest
      else shlexFrom (.quoted quote) (token ++ [c]) true rest
    | .escaped false => shlexFrom .word (token ++ [c]) quoted rest
    | .escaped true =>
      if c = '\\' ∨ c.toNat = 34 then shlexFrom (.quoted '"') (token ++ [c]) quoted rest
      else shlexFrom (.quoted '"') (token ++ ['\\', c]) quoted rest
    | .word =>
      if isShlexSpace c then (shlexFrom .blank [] false rest).map (emit token quoted ++ ·)
      else if isQuote c then shlexFrom (.quoted c) token quoted rest
      else if c = '\\' then shlexFrom (.escaped false) token quoted rest
      else shlexFrom .word (token ++ [c]) quoted rest

def shlexSplit (text : Str) : Option (List Str) := shlexFrom .blank [] false text

end DevopsCli.PyPath
