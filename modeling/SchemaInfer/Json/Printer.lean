import SchemaInfer.Json.Basic
import SchemaInfer.Binary64.Decimal

/-!
JSON text: a compact form without blanks, and an indented form with two blanks a level in which empty
arrays and objects stay on one line. Characters beyond ASCII are written as they are.
-/

namespace SchemaInfer.Json

/-- The four hexadecimal digits of a control character. -/
def hexDigits (c : Char) : List Char :=
  ['0', '0', Nat.digitChar (c.toNat / 16), Nat.digitChar (c.toNat % 16)]

/-- A character inside a quoted text. -/
def escapeChar (c : Char) : List Char :=
  if c = '"' then ['\\', '"']
  else if c = '\\' then ['\\', '\\']
  else if c = '\n' then ['\\', 'n']
  else if c = '\r' then ['\\', 'r']
  else if c = '\t' then ['\\', 't']
  else if c.toNat = 8 then ['\\', 'b']
  else if c.toNat = 12 then ['\\', 'f']
  else if c.toNat < 32 then '\\' :: 'u' :: hexDigits c
  else [c]

/-- A text in quotes. -/
def quote (s : String) : String :=
  String.ofList ('"' :: s.toList.flatMap escapeChar ++ ['"'])

mutual

/-- The compact text of a value. -/
def compact : Json → String
  | null => "null"
  | bool true => "true"
  | bool false => "false"
  | int n => toString n
  | float x => if x.isFinite then x.text else "null"
  | string s => quote s
  | array items => "[" ++ ",".intercalate (compactItems items) ++ "]"
  | object entries => "\x7b" ++ ",".intercalate (compactEntries entries) ++ "\x7d"

def compactItems : List Json → List String
  | [] => []
  | item :: items => item.compact :: compactItems items

def compactEntries : List (String × Json) → List String
  | [] => []
  | (key, value) :: entries => (quote key ++ ":" ++ value.compact) :: compactEntries entries

end

/-- Blanks in front of a line at the given depth. -/
def indentation (depth : Nat) : String :=
  String.ofList (List.replicate (2 * depth) ' ')

/-- The parts of an array or object between its brackets, one a line. -/
def bracketed (opening closing : String) (depth : Nat) (parts : List String) : String :=
  match parts with
  | [] => opening ++ closing
  | parts =>
    let lines := parts.map fun part => indentation (depth + 1) ++ part
    opening ++ "\n" ++ ",\n".intercalate lines ++ "\n" ++ indentation depth ++ closing

mutual

/-- The indented text of a value whose first line starts at the given depth. -/
def indentedAt (depth : Nat) : Json → String
  | array items => bracketed "[" "]" depth (indentedItems (depth + 1) items)
  | object entries => bracketed "\x7b" "\x7d" depth (indentedEntries (depth + 1) entries)
  | null => compact null
  | bool b => compact (bool b)
  | int n => compact (int n)
  | float x => compact (float x)
  | string s => compact (string s)

def indentedItems (depth : Nat) : List Json → List String
  | [] => []
  | item :: items => item.indentedAt depth :: indentedItems depth items

def indentedEntries (depth : Nat) : List (String × Json) → List String
  | [] => []
  | (key, value) :: entries =>
    (quote key ++ ": " ++ value.indentedAt depth) :: indentedEntries depth entries

end

/-- The indented text of a value. -/
def indented (json : Json) : String :=
  json.indentedAt 0

end SchemaInfer.Json
