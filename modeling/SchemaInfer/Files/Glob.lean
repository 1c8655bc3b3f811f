import SchemaInfer.Files.Host

/-!
File name patterns.

In a pattern, `*` stands for any text in one part of a path, `?` for any character, `[..]` for one of the
listed characters or ranges of characters, `[!..]` for any other, and a part `**` for any number of
directories. Braces stand for themselves. A path is matched part by part, and the matches come in the order
of their names.
-/

namespace SchemaInfer

namespace Glob

/-- A piece of a pattern. -/
inductive Token where
  | char (c : Char)
  | anyChar
  | oneOf (ranges : List (Char × Char))
  | noneOf (ranges : List (Char × Char))
  | anyText
  | anyParts
deriving DecidableEq

/-- What is wrong with a pattern. -/
inductive Problem where
  | tooManyStars
  | partialRecursion
  | invalidRange

/-- A pattern that means nothing, and the position of the character at which that shows. -/
structure Error where
  position : Nat
  problem : Problem

def Problem.message : Problem → String
  | tooManyStars => "wildcards are either regular `*` or recursive `**`"
  | partialRecursion => "recursive wildcards must form a single path component"
  | invalidRange => "invalid range pattern"

def Error.message (error : Error) : String :=
  "Pattern syntax error near position " ++ toString error.position ++ ": " ++ error.problem.message

/-! ### Reading patterns -/

/-- The characters between brackets: single ones, and ranges with a dash. -/
def ranges : List Char → List (Char × Char)
  | first :: '-' :: last :: rest => (first, last) :: ranges rest
  | c :: rest => (c, c) :: ranges rest
  | [] => []

/-- Whether the text after an opening bracket asks for other characters than the listed ones. -/
def isNegated : List Char → Bool
  | '!' :: _ => true
  | _ => false

/-- The listed characters after an opening bracket, and what follows the closing one. The first of them
may be a closing bracket itself. -/
def bracket? (cs : List Char) : Option (List Char × List Char) :=
  match if isNegated cs then cs.drop 1 else cs with
  | [] => none
  | c :: rest => (Text.cutAt? ']' rest).map fun (listed, after) => (c :: listed, after)

theorem length_lt_of_bracket? {cs listed after : List Char} (h : bracket? cs = some (listed, after)) :
    after.length < cs.length := by
  unfold bracket? at h
  split at h
  · simp at h
  · rename_i c rest heq
    obtain ⟨⟨b, a⟩, hcut, hpair⟩ := Option.map_eq_some_iff.1 h
    have hlt := Text.length_lt_of_cutAt? hcut
    have hle : (c :: rest).length ≤ cs.length := by
      rw [← heq]
      split <;> simp
    simp_all
    omega

/-- The tokens of a pattern from a position on; `fresh` says that a part starts there. -/
def tokens (position : Nat) (fresh : Bool) (cs : List Char) : Except Error (List Token) :=
  match cs with
  | [] => return []
  | '?' :: rest => return .anyChar :: (← tokens (position + 1) false rest)
  | '*' :: '*' :: '*' :: _ => .error ⟨position + 2, .tooManyStars⟩
  | '*' :: '*' :: rest =>
    if fresh then
      match rest with
      | [] => return [.anyParts]
      | '/' :: rest => return .anyParts :: (← tokens (position + 3) true rest)
      | _ => .error ⟨position + 2, .partialRecursion⟩
    else .error ⟨position - 1, .partialRecursion⟩
  | '*' :: rest => return .anyText :: (← tokens (position + 1) false rest)
  | '[' :: rest =>
    match _h : bracket? rest with
    | none => .error ⟨position, .invalidRange⟩
    | some (listed, after) => do
      let token := if isNegated rest then Token.noneOf (ranges listed) else .oneOf (ranges listed)
      return token :: (← tokens (position + 1 + (rest.length - after.length)) false after)
  | c :: rest => return .char c :: (← tokens (position + 1) (c == '/') rest)
termination_by cs.length
decreasing_by
  all_goals simp_all +arith
  have := length_lt_of_bracket? _h
  omega

end Glob

/-- A pattern, part by part. -/
structure Glob where
  absolute : Bool
  parts : List (List Glob.Token)
  directoriesOnly : Bool

namespace Glob

/-- Whether a text is to be read as a pattern. -/
def isPattern (text : String) : Bool :=
  text.toList.any fun c => decide (c ∈ ['*', '?', '[', '\x7b'])

/-- Reads a pattern. It has to make sense as a whole and part by part. -/
def ofText (text : String) : Except Error Glob := do
  let cs := text.toList
  let _ ← tokens 0 true cs
  let absolute := Files.isAbsolute text
  let pieces := Text.splitAt '/' (if absolute then cs.dropWhile (· == '/') else cs)
  let directoriesOnly := cs.getLast? == some '/'
  let parts ← (if directoriesOnly then pieces.dropLast else pieces).mapM (tokens 0 true)
  return { absolute, parts, directoriesOnly }

/-! ### Matching names -/

def inRanges (ranges : List (Char × Char)) (c : Char) : Bool :=
  ranges.any fun (first, last) => decide (first ≤ c) && decide (c ≤ last)

/-- Whether a token that stands for one character stands for this one. -/
def Token.accepts (c : Char) : Token → Bool
  | char other => c == other
  | anyChar => true
  | oneOf ranges => inRanges ranges c
  | noneOf ranges => !inRanges ranges c
  | anyText => false
  | anyParts => false

/-- Whether a text or one of its endings satisfies a condition. -/
def anyEnding (condition : List Char → Bool) : List Char → Bool
  | [] => condition []
  | c :: cs => condition (c :: cs) || anyEnding condition cs

/-- Whether a pattern matches a whole text. -/
def accepts : List Token → List Char → Bool
  | [], cs => cs.isEmpty
  | .anyText :: tokens, cs => anyEnding (accepts tokens) cs
  | .anyParts :: tokens, cs => anyEnding (accepts tokens) cs
  | _ :: _, [] => false
  | token :: tokens, c :: cs => token.accepts c && accepts tokens cs

def isRecursive (part : List Token) : Bool :=
  part.contains .anyParts

def Token.char? : Token → Option Char
  | char c => some c
  | _ => none

/-- The text of a part that stands for itself. -/
def plain? (part : List Token) : Option String :=
  (part.mapM Token.char?).map String.ofList

/-! ### Matching files -/

/-- Whether a path is the working directory by its text. -/
def isHere (path : String) : Bool :=
  path != "" && !Files.isAbsolute path && (Files.parts path).isEmpty

/-- The path of an entry; entries of the working directory go by their names. -/
def entryOf (path name : String) : String :=
  if isHere path then name else Files.join path name

variable {m : Type → Type} [Monad m]

/-- The path as a match, if it may be one. -/
def asMatch (host : Host m) (directoriesOnly : Bool) (path : String) : m (List String) := do
  if directoriesOnly && !(← host.isDirectory path) then return [] else return [path]

mutual

/-- The matches inside of a directory for the parts of a pattern, with a limit on the steps. -/
def inside (host : Host m) (directoriesOnly : Bool) (limit : Nat) (path : String)
    (parts : List (List Token)) : m (List String) :=
  match limit, parts with
  | 0, _ => return []
  | _, [] => return []
  | limit + 1, part :: rest => do
    let goOn (next : String) : m (List String) :=
      if rest.isEmpty then asMatch host directoriesOnly next
      else inside host directoriesOnly limit next rest
    match plain? part with
    | some name =>
      let next := entryOf path name
      let there ←
        if name = "." || name = ".." then host.isDirectory path else host.exists? next
      if there then goOn next else return []
    | none =>
      match ← host.listSorted path with
      | .error _ => return []
      | .ok names =>
        let special := if part.head? = some (.char '.') then ["..", "."] else []
        let around ← (special.filter fun name => accepts part name.toList).flatMapM fun name =>
          goOn (Files.join path name)
        let within ← names.flatMapM fun name =>
          visit host directoriesOnly limit (entryOf path name) (part :: rest)
        return around ++ within
termination_by structural limit

/-- The matches at a path and below it for the parts of a pattern. A part `**` matches the path as well as
everything below it. -/
def visit (host : Host m) (directoriesOnly : Bool) (limit : Nat) (path : String)
    (parts : List (List Token)) : m (List String) :=
  match limit, parts with
  | 0, _ => return []
  | _, [] => return []
  | limit + 1, part :: rest => do
    let named (parts : List (List Token)) : m (List String) :=
      match parts, Files.fileName? path with
      | [], _ => return []
      | _, none => return []
      | part :: rest, some name =>
        if !accepts part name.toList then return []
        else if rest.isEmpty then asMatch host directoriesOnly path
        else inside host directoriesOnly limit path rest
    if isRecursive part then
      let rest := rest.dropWhile isRecursive
      if ← host.isDirectory path then
        let here ← if rest.isEmpty then pure [path] else named rest
        let below ← inside host directoriesOnly limit path (part :: rest)
        return here ++ below
      else named rest
    else named (part :: rest)
termination_by structural limit

end

/-- The most characters that a path can have, so the deepest that directories can nest. -/
def longestPath : Nat := 4096

/-- The files and directories that a pattern matches. -/
def files (host : Host m) (glob : Glob) : m (List String) :=
  inside host glob.directoriesOnly (2 * (longestPath + glob.parts.length))
    (if glob.absolute then "/" else ".") glob.parts

end Glob

end SchemaInfer
