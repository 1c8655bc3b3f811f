import SchemaInfer.Text.Split
import SchemaInfer.Ty.Basic

/-!
Paths into types.

A path is a text of segments with dots between them, such as `input.Order.Items.Item[0].@sku`. A
segment is a name with any number of index suffixes. A name selects a property of an object. Arrays are
crossed on the way: a numeric name, or a suffix, selects an element, and any other name is looked up in
the elements. A nullable type is crossed too and the result stays nullable; below `any` every path
leads to `any`.
-/

namespace SchemaInfer

/-- A segment of a path: a name and the number of its index suffixes. -/
structure Segment where
  name : String
  indexes : Nat

namespace Segment

/-- Where the reading of index suffixes stands. -/
inductive Cursor where
  | outside
  | opened
  | digits

/-- Counts suffixes of the form `[digits]`; nothing else may follow. Digits of every script count. -/
def countIndexes? : Cursor → (seen : Nat) → List Char → Option Nat
  | .outside, seen, [] => some seen
  | .outside, seen, c :: cs => if c = '[' then countIndexes? .opened seen cs else none
  | .opened, seen, c :: cs =>
    if Text.isDecimalDigit c then countIndexes? .digits seen cs else none
  | .digits, seen, c :: cs =>
    if c = ']' then countIndexes? .outside (seen + 1) cs
    else if Text.isDecimalDigit c then countIndexes? .digits seen cs
    else none
  | _, _, [] => none

def isBracket (c : Char) : Bool :=
  c == '[' || c == ']'

/-- Reads a segment: no bracket stands in its name. -/
def ofChars? (cs : List Char) : Option Segment :=
  (countIndexes? .outside 0 (cs.dropWhile (!isBracket ·))).map fun indexes =>
    { name := String.ofList (cs.takeWhile (!isBracket ·)), indexes }

end Segment

namespace Ty

/-- Whether a name is a number in ASCII digits. -/
def isNumeric (name : String) : Bool :=
  name.toList.all fun c => decide ('0' ≤ c) && decide (c ≤ '9')

mutual

/-- The type that a name selects. -/
def select? (name : String) : Ty → Option Ty
  | any => some any
  | object ps _ => (ps.lookup name).map fun p => p.ty
  | array t => if isNumeric name then some t else t.select? name
  | union ms =>
    if ms.any isNull then
      match selections name ms with
      | [selected] => selected.map orNull
      | _ => none
    else none
  | _ => none

/-- What a name selects in each member of a union that is not null. -/
def selections (name : String) : List Ty → List (Option Ty)
  | [] => []
  | m :: ms => if m.isNull then selections name ms else m.select? name :: selections name ms

end

/-- The type after a number of index suffixes. -/
def indexed? : (indexes : Nat) → Ty → Option Ty
  | 0, t => some t
  | n + 1, array t => indexed? n t
  | n + 1, any => indexed? n any
  | _ + 1, _ => none

/-- The type that one segment leads to. An empty name stays where it is. -/
def descend? (segment : List Char) (t : Ty) : Option Ty := do
  let s ← Segment.ofChars? segment
  let selected ← if s.name.isEmpty then some t else t.select? s.name
  selected.indexed? s.indexes

theorem descend?_eq_bind {segment : List Char} {t : Ty} : t.descend? segment =
    (Segment.ofChars? segment).bind fun s =>
      (if s.name.isEmpty then some t else t.select? s.name).bind (indexed? s.indexes) := by
  unfold descend?
  cases Segment.ofChars? segment with
  | none => rfl
  | some s =>
    change (if s.name.isEmpty then _ else _) = _
    rw [Option.bind_some]
    split <;> rfl

/-- The type that a list of segments leads to. -/
def follow? : List (List Char) → Ty → Option Ty
  | [], t => some t
  | segment :: segments, t => (t.descend? segment).bind (follow? segments)

end Ty

end SchemaInfer
