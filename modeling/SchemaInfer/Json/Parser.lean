import SchemaInfer.Binary64.Decimal
import SchemaInfer.Json.Written

/-!
Reading JSON text.

A text is read up to the end of its first value. An integer between `-2 ^ 63` and `2 ^ 64 - 1` is an
integer, and every other number is a double: fractions, exponents, longer integers and `-0`. A number
beyond the doubles and half of a surrogate pair are well written, but stand for no value. Repeated keys
are kept; `ofText?` collapses them.
-/

namespace SchemaInfer.Json

/-! ### Blanks and texts -/

def isBlank (c : Char) : Bool :=
  c == ' ' || c == '\n' || c == '\t' || c == '\r'

def skipBlanks (cs : List Char) : List Char :=
  cs.dropWhile isBlank

/-- The value of a hexadecimal digit. -/
def hexValue? (c : Char) : Option Nat :=
  if '0' ≤ c ∧ c ≤ '9' then some (c.toNat - '0'.toNat)
  else if 'a' ≤ c ∧ c ≤ 'f' then some (c.toNat - 'a'.toNat + 10)
  else if 'A' ≤ c ∧ c ≤ 'F' then some (c.toNat - 'A'.toNat + 10)
  else none

/-- The number that four hexadecimal digits stand for. -/
def hexNumber? (a b c d : Char) : Option Nat := do
  return (((← hexValue? a) * 16 + (← hexValue? b)) * 16 + (← hexValue? c)) * 16 + (← hexValue? d)

/-- The character that a one-letter escape stands for. -/
def escaped? (c : Char) : Option Char :=
  match c with
  | '"' => some '"'
  | '\\' => some '\\'
  | '/' => some '/'
  | 'b' => some (Char.ofNat 8)
  | 'f' => some (Char.ofNat 12)
  | 'n' => some '\n'
  | 'r' => some '\r'
  | 't' => some '\t'
  | _ => none

/-- A piece of a text: a character, or a 16-bit unit that is written by its number. -/
inductive Piece where
  | char (c : Char)
  | unit (number : Nat)

/-- The first unit of a surrogate pair. -/
def isLeading (unit : Nat) : Bool :=
  decide (0xD800 ≤ unit) && decide (unit < 0xDC00)

/-- The second unit of a surrogate pair. -/
def isTrailing (unit : Nat) : Bool :=
  decide (0xDC00 ≤ unit) && decide (unit < 0xE000)

/-- The character that a surrogate pair stands for. -/
def pairChar (leading trailing : Nat) : Char :=
  Char.ofNat (0x10000 + (leading - 0xD800) * 0x400 + (trailing - 0xDC00))

/-- The text that pieces stand for, unless half of a surrogate pair is among them; `acc` holds the
characters so far, the last one first. -/
def joinPieces? (acc : List Char) : List Piece → Option String
  | [] => some (String.ofList acc.reverse)
  | .char c :: rest => joinPieces? (c :: acc) rest
  | .unit n :: rest =>
    if isLeading n then
      match rest with
      | .unit m :: rest => if isTrailing m then joinPieces? (pairChar n m :: acc) rest else none
      | _ => none
    else if isTrailing n then none
    else joinPieces? (Char.ofNat n :: acc) rest

/-- Reads the pieces of a text after its opening quote; `acc` holds the pieces so far, the last one
first. -/
def readPieces (acc : List Piece) : List Char → Option (List Piece × List Char)
  | '"' :: rest => some (acc.reverse, rest)
  | '\\' :: 'u' :: a :: b :: c :: d :: rest =>
    match hexNumber? a b c d with
    | none => none
    | some n => readPieces (.unit n :: acc) rest
  | '\\' :: c :: rest =>
    match escaped? c with
    | none => none
    | some e => readPieces (.char e :: acc) rest
  | c :: rest => if c.toNat < 32 then none else readPieces (.char c :: acc) rest
  | [] => none

/-- Reads a text after its opening quote: what it stands for, and the rest. -/
def readString (cs : List Char) : Option (Option String × List Char) :=
  (readPieces [] cs).map fun (pieces, rest) => (joinPieces? [] pieces, rest)

/-! ### Numbers -/

def isDigit (c : Char) : Bool :=
  decide ('0' ≤ c) && decide (c ≤ '9')

def digitValue (c : Char) : Nat :=
  c.toNat - '0'.toNat

/-- Appends digits to a number as long as the result stays below `2 ^ 64`, and counts the digits that
were left over from the first one that did not fit. -/
def appendDigits (number : Nat) : List Char → Nat × Nat
  | [] => (number, 0)
  | c :: cs =>
    let next := number * 10 + digitValue c
    if next < UInt64.size then appendDigits next cs else (number, cs.length + 1)

/-- The exponent of a number from its digits, or the sign of an exponent beyond 31 bits. -/
def exponentOf (negative : Bool) (digits : List Char) : Int :=
  let limit : Int := 2147483648
  let size : Int := digits.foldl (fun (n : Int) c => min limit (n * 10 + digitValue c)) 0
  if negative then -size else size

/-- Reads the exponent part of a number: its value and the rest. -/
def readExponent : List Char → Option (Int × List Char)
  | cs =>
    let (negative, cs) :=
      match cs with
      | '+' :: rest => (false, rest)
      | '-' :: rest => (true, rest)
      | rest => (false, rest)
    match cs.takeWhile isDigit with
    | [] => none
    | digits => some (exponentOf negative digits, cs.dropWhile isDigit)

/-- Reads a number after its sign: what it stands for, and the rest. -/
def readNumber (negative : Bool) (cs : List Char) : Option (Option Json × List Char) := do
  let whole := cs.takeWhile isDigit
  let rest := cs.dropWhile isDigit
  if whole.isEmpty || (whole.head? == some '0' && 1 < whole.length) then none
  let (number, unread) := appendDigits 0 whole
  let (number, shift, rest, isDecimal) ←
    match rest with
    | '.' :: rest =>
      let fraction := rest.takeWhile isDigit
      if fraction.isEmpty then none
      else
        let (number, skipped) := appendDigits number fraction
        some (number, (unread : Int) - (fraction.length - skipped), rest.dropWhile isDigit, true)
    | rest => some (number, (unread : Int), rest, decide (0 < unread))
  let (exponent, rest, isDecimal) ←
    match rest with
    | 'e' :: rest | 'E' :: rest => (readExponent rest).map fun (e, rest) => (e, rest, true)
    | rest => some (0, rest, isDecimal)
  if isDecimal then
    return ((Binary64.ofDecimal negative number (shift + exponent)).map float, rest)
  else if !negative then
    return (some (int number), rest)
  else if number = 0 ∨ Int64.maxValue.toInt + 1 < number then
    return (some (float (Binary64.withSign true (Binary64.ofNat number))), rest)
  else
    return (some (int (-number)), rest)

/-! ### Values -/

/-- A plain value that was read, with the rest. -/
def plainly (read : Option Json × List Char) : Written × List Char :=
  (.plain read.1, read.2)

mutual

/-- Reads the first value of a text. `fuel` bounds the number of steps. -/
def readValue : (fuel : Nat) → List Char → Option (Written × List Char)
  | 0, _ => none
  | fuel + 1, cs =>
    match skipBlanks cs with
    | '"' :: rest => (readString rest).map fun (s, rest) => plainly (s.map string, rest)
    | '[' :: rest =>
      match skipBlanks rest with
      | ']' :: rest => some (.array [], rest)
      | rest => readItems fuel [] rest
    | '\x7b' :: rest =>
      match skipBlanks rest with
      | '\x7d' :: rest => some (.object [], rest)
      | rest => readEntries fuel [] rest
    | 't' :: 'r' :: 'u' :: 'e' :: rest => some (plainly (bool true, rest))
    | 'f' :: 'a' :: 'l' :: 's' :: 'e' :: rest => some (plainly (bool false, rest))
    | 'n' :: 'u' :: 'l' :: 'l' :: rest => some (plainly (null, rest))
    | '-' :: rest => (readNumber true rest).map plainly
    | rest => (readNumber false rest).map plainly

/-- Reads the items of an array up to its end; `acc` holds the items so far, the last one first. -/
def readItems : (fuel : Nat) → List Written → List Char → Option (Written × List Char)
  | 0, _, _ => none
  | fuel + 1, acc, cs =>
    match readValue fuel cs with
    | none => none
    | some (item, rest) =>
      match skipBlanks rest with
      | ',' :: rest => readItems fuel (item :: acc) rest
      | ']' :: rest => some (.array (item :: acc).reverse, rest)
      | _ => none

/-- Reads the entries of an object up to its end. -/
def readEntries :
    (fuel : Nat) → List (Option String × Written) → List Char → Option (Written × List Char)
  | 0, _, _ => none
  | fuel + 1, acc, cs =>
    match skipBlanks cs with
    | '"' :: rest =>
      match readString rest with
      | none => none
      | some (key, rest) =>
        match skipBlanks rest with
        | ':' :: rest =>
          match readValue fuel rest with
          | none => none
          | some (value, rest) =>
            match skipBlanks rest with
            | ',' :: rest => readEntries fuel ((key, value) :: acc) rest
            | '\x7d' :: rest => some (.object ((key, value) :: acc).reverse, rest)
            | _ => none
        | _ => none
    | _ => none

end

/-- Reads the first value of a text as it is written. Two steps at most go by without reading a
character, which bounds the number of steps. -/
def Written.ofText? (text : String) : Option Written :=
  let cs := text.toList
  (readValue (2 * cs.length + 2) cs).map Prod.fst

/-- How deep arrays and objects may nest in the parts of a document that are looked at. -/
def nestingLimit : Nat := 127

/-- Reads the parts of the first value of a text that are looked at, with repeated keys. -/
def parse? (outline : Outline) (limit : Nat) (text : String) : Option Json :=
  (Written.ofText? text).bind (Written.value? limit outline)

/-- Reads the first value of a document; repeated keys are collapsed. -/
def ofText? (text : String) : Option Json :=
  (parse? .whole nestingLimit text).map collapse

end SchemaInfer.Json
