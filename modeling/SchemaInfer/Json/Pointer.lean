import SchemaInfer.Json.Basic
import SchemaInfer.Text.Split

/-!
JSON pointers.

A pointer is a list of tokens that lead from a value to one of its parts: a key of an object, or the
decimal index of an array item without leading zeros. In text each token follows a slash, with `~0` for
a tilde and `~1` for a slash inside it, and the empty text leads to the value itself.
-/

namespace SchemaInfer.Json

/-- A way from a value to one of its parts. -/
abbrev Pointer : Type := List String

namespace Pointer

/-! ### Text -/

def escapeChar (c : Char) : List Char :=
  if c = '~' then ['~', '0'] else if c = '/' then ['~', '1'] else [c]

/-- The text of a token, without its slash. -/
def escape (token : String) : String :=
  String.ofList (token.toList.flatMap escapeChar)

/-- The text of a pointer. -/
def text (pointer : Pointer) : String :=
  String.join (pointer.map fun token => "/" ++ escape token)

/-- The token that an escaped text stands for; a tilde that starts no escape stands for itself. -/
def unescape : List Char → List Char
  | '~' :: '1' :: rest => '/' :: unescape rest
  | '~' :: '0' :: rest => '~' :: unescape rest
  | c :: rest => c :: unescape rest
  | [] => []

/-- Reads the text of a pointer: it is empty or starts with a slash. -/
def ofText? (text : String) : Option Pointer :=
  match text.toList with
  | [] => some []
  | '/' :: rest => some ((Text.splitAt '/' rest).map fun piece => String.ofList (unescape piece))
  | _ => none

end Pointer

/-! ### Resolution -/

/-- The number that a decimal index stands for; neither a sign nor a leading zero is allowed. -/
def index? (token : String) : Option Nat :=
  match token.toList with
  | [] => none
  | ['0'] => some 0
  | '0' :: _ => none
  | cs =>
    if cs.all fun c => decide ('0' ≤ c) && decide (c ≤ '9') then
      some (cs.foldl (fun n c => n * 10 + (c.toNat - '0'.toNat)) 0)
    else none

/-- The part of a value that one token leads to. -/
def child? (token : String) : Json → Option Json
  | object entries => entries.lookup token
  | array items => (index? token).bind fun i => items[i]?
  | _ => none

/-- The part of a value that a pointer leads to. -/
def resolve? (json : Json) (pointer : Pointer) : Option Json :=
  match pointer with
  | [] => some json
  | token :: rest => (json.child? token).bind fun part => part.resolve? rest

end SchemaInfer.Json
