import SchemaInfer.Json.Pointer
import SchemaInfer.Schema.Document
import SchemaInfer.Text.Split

/-!
The differences between a schema that was expected and the actual one.

JSON documents are compared part by part; under the keywords whose arrays are sets, arrays are compared
without regard to order. XML documents are compared line by line without regard to blanks.
-/

namespace SchemaInfer

/-- Where two documents differ. -/
inductive Place where
  | part (pointer : Json.Pointer)
  | line (number : Nat)

def Place.text : Place → String
  | part pointer => pointer.text
  | line number => "line " ++ toString number

/-- A difference; what is missing on one side is absent there. -/
structure Difference where
  place : Place
  expected : Option Json
  actual : Option Json

namespace Difference

/-- The line that reports a difference. -/
def text (difference : Difference) : String :=
  let place := difference.place.text
  let place := if place.isEmpty then "/" else place
  match difference.expected, difference.actual with
  | some expected, some actual =>
    place ++ ": expected " ++ expected.compact ++ ", found " ++ actual.compact
  | some expected, none => place ++ ": missing " ++ expected.compact
  | none, some actual => place ++ ": unexpected " ++ actual.compact
  | none, none => place ++ ": differs"

/-! ### JSON documents -/

/-- The keywords whose arrays are sets. -/
def unorderedKeywords : List String :=
  ["required", "type", "enum", "anyOf", "oneOf"]

/-- Whether two arrays have the same items, each as often, in whatever order. -/
def sameMembers : List Json → List Json → Bool
  | [], actual => actual.isEmpty
  | item :: expected, actual =>
    actual.any item.same && sameMembers expected (actual.eraseP item.same)

/-- A difference of two parts as one of the values around them. -/
def within (token : String) (difference : Difference) : Difference :=
  match difference.place with
  | .part pointer => { difference with place := .part (token :: pointer) }
  | .line _ => difference

/-- The parts that only one side has are missing or unexpected as a whole. -/
def missing (token : String) (expected : Json) : Difference where
  place := .part [token]
  expected := some expected
  actual := none

def unexpected (token : String) (actual : Json) : Difference where
  place := .part [token]
  expected := none
  actual := some actual

/-- Two different values. -/
def changed (expected actual : Json) : Difference where
  place := .part []
  expected := some expected
  actual := some actual

/-- The items beyond the end of the other array. -/
def beyond (report : String → Json → Difference) (position : Nat) (items : List Json) :
    List Difference :=
  (items.zipIdx position).map fun (item, i) => report (toString i) item

mutual

/-- The differences of two values, the value of `keyword` if they are values of an object. -/
def ofJson (keyword : Option String) (expected actual : Json) : List Difference :=
  match expected, actual with
  | .object es, .object as =>
    ofEntries es as
      ++ (as.filter fun (key, _) => !Entries.hasKey key es).map fun (key, a) => unexpected key a
  | .array es, .array as =>
    if keyword.any fun name => decide (name ∈ unorderedKeywords) then
      if sameMembers es as then [] else [changed (.array es) (.array as)]
    else ofItems 0 es as
  | e, a => if e.same a then [] else [changed e a]
termination_by structural expected

/-- The differences at the keys that are expected. -/
def ofEntries (expected actual : List (String × Json)) : List Difference :=
  match expected with
  | [] => []
  | (key, e) :: es =>
    (match actual.lookup key with
      | some a => (ofJson (some key) e a).map (within key)
      | none => [missing key e])
      ++ ofEntries es actual
termination_by structural expected

/-- The differences of two arrays from a position on. -/
def ofItems (position : Nat) (expected actual : List Json) : List Difference :=
  match expected, actual with
  | [], as => beyond unexpected position as
  | e :: es, [] => beyond missing position (e :: es)
  | e :: es, a :: as =>
    (ofJson none e a).map (within (toString position)) ++ ofItems (position + 1) es as
termination_by structural expected

end

/-! ### XML documents -/

/-- The lines that are not blank, each with single blanks between its words. -/
def plainLines (text : String) : List String :=
  ((Text.lines text.toList).map Text.words).filterMap fun words =>
    if words.isEmpty then none else some (" ".intercalate (words.map String.ofList))

/-- The differences of two lists of lines from a line number on. -/
def ofLines (number : Nat) (expected actual : List String) : List Difference :=
  match expected, actual with
  | [], as =>
    (as.zipIdx number).map fun (a, i) =>
      { place := .line i, expected := none, actual := some (.string a) }
  | es, [] =>
    (es.zipIdx number).map fun (e, i) =>
      { place := .line i, expected := some (.string e), actual := none }
  | e :: es, a :: as =>
    let here : Difference :=
      { place := .line number, expected := some (.string e), actual := some (.string a) }
    (if e = a then [] else [here]) ++ ofLines (number + 1) es as

/-! ### Documents -/

/-- The differences of two documents. -/
def ofDocuments (expected actual : Document) : List Difference :=
  match expected, actual with
  | .json e, .json a => ofJson none e a
  | .xml e, .xml a => ofLines 1 (plainLines e) (plainLines a)
  | e, a => [changed (.string e.title) (.string a.title)]

end Difference

end SchemaInfer
