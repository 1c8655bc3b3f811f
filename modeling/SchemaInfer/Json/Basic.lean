import SchemaInfer.Entries
import SchemaInfer.Binary64.Basic

/-!
JSON values.

Integers and doubles are different values: `1` is not `1.0`. An object is a list of entries in the
order of the document. A text may repeat a key; `collapse` gives such a key its first position and
its last value, and values that are not read from text have no repeated keys.
-/

namespace SchemaInfer

inductive Json where
  | null
  | bool (value : Bool)
  | int (value : Int)
  | float (value : Binary64)
  | string (value : String)
  | array (items : List Json)
  | object (entries : List (String × Json))

namespace Json

instance : Inhabited Json := ⟨null⟩

/-! ### Parts -/

/-- The value of a key, for an object. -/
def get? (key : String) : Json → Option Json
  | object entries => entries.lookup key
  | _ => none

def string? : Json → Option String
  | string s => some s
  | _ => none

def bool? : Json → Option Bool
  | bool b => some b
  | _ => none

def array? : Json → Option (List Json)
  | array items => some items
  | _ => none

def object? : Json → Option (List (String × Json))
  | object entries => some entries
  | _ => none

/-- The text under a key, if there is one. -/
def stringAt? (key : String) (json : Json) : Option String :=
  (json.get? key).bind string?

theorem sizeOf_lt_of_item {item : Json} {items : List Json} (h : item ∈ items) :
    sizeOf item < sizeOf (array items) := by
  have := List.sizeOf_lt_of_mem h
  simp +arith
  omega

theorem sizeOf_lt_of_entry {key : String} {value : Json} {entries : List (String × Json)}
    (h : (key, value) ∈ entries) : sizeOf value < sizeOf (object entries) := by
  have hmem := List.sizeOf_lt_of_mem h
  have hpair : sizeOf (key, value) = 1 + sizeOf key + sizeOf value := rfl
  simp +arith
  omega

/-! ### Equality -/

mutual

/-- Equality of values. The order of the entries of an object does not count. -/
def same : Json → Json → Bool
  | null, null => true
  | bool a, bool b => a == b
  | int a, int b => a == b
  | float a, float b => a.sameNumber b
  | string a, string b => a == b
  | array as, array bs => sameItems as bs
  | object as, object bs => as.length == bs.length && sameEntries as bs
  | _, _ => false
termination_by structural a _ => a

def sameItems : List Json → List Json → Bool
  | [], [] => true
  | a :: as, b :: bs => a.same b && sameItems as bs
  | _, _ => false
termination_by structural as _ => as

/-- Every entry on the left stands on the right with an equal value. -/
def sameEntries : List (String × Json) → List (String × Json) → Bool
  | [], _ => true
  | (key, a) :: as, bs =>
    (match bs.lookup key with
      | some b => a.same b
      | none => false)
      && sameEntries as bs
termination_by structural as _ => as

end

/-! ### Repeated keys -/

mutual

/-- Gives each repeated key its first position and its last value, at every depth. -/
def collapse : Json → Json
  | array items => array (collapseItems items)
  | object entries => object (Entries.ofList (collapseEntries entries))
  | null => null
  | bool b => bool b
  | int n => int n
  | float x => float x
  | string s => string s

def collapseItems : List Json → List Json
  | [] => []
  | item :: items => item.collapse :: collapseItems items

def collapseEntries : List (String × Json) → List (String × Json)
  | [] => []
  | (key, value) :: entries => (key, value.collapse) :: collapseEntries entries

end

end Json

end SchemaInfer
