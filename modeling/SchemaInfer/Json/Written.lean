import SchemaInfer.Json.Basic

/-!
JSON values as a text writes them.

A text can write more than there are values. A number may lie beyond the doubles, half of a surrogate
pair is no character, and arrays and objects may nest deeper than a document is allowed to. This matters
only in the parts of a document that somebody looks at. `Written` is the tree of a text, `Outline` says
which of its parts count, and `Written.value?` gives the value that these parts stand for.
-/

namespace SchemaInfer.Json

/-- A value as it is written. A key, text or number that stands for nothing is `none`. -/
inductive Written where
  | plain (value : Option Json)
  | array (items : List Written)
  | object (entries : List (Option String × Written))

/-- Which parts of a document are looked at. -/
inductive Outline where
  /-- All of them. -/
  | whole
  /-- The parts of each item of an array. -/
  | items (item : Outline)
  /-- The named fields of a record, and no other key. -/
  | record (fields : List (String × Outline))
  /-- All of them, but of one entry only the parts in its own outline. -/
  | wholeBut (key : String) (entry : Outline)

namespace Outline

/-- A record whose fields are looked at as a whole. -/
def plainRecord (fields : List String) : Outline :=
  record (fields.map fun field => (field, whole))

/-- A record of which some fields have an outline of their own, and the others count as a whole. -/
def recordWith (fields : List String) (inner : List (String × Outline)) : Outline :=
  record (fields.map fun field => (field, (inner.lookup field).getD whole))

/-- What is looked at in the entry of a key; `none` if the entry does not count. -/
def atKey? (key : String) : Outline → Option Outline
  | record fields => fields.lookup key
  | wholeBut special entry => some (if key = special then entry else whole)
  | whole | items _ => some whole

/-- What is looked at in the item at a position. A record may be an array of its fields. -/
def atIndex (position : Nat) : Outline → Outline
  | items item => item
  | record fields => (fields[position]?.map Prod.snd).getD whole
  | whole | wholeBut _ _ => whole

end Outline

namespace Written

mutual

/-- The value of the parts that are looked at, if each of them stands for one and they nest at most
`depth` levels. Entries that do not count are left out, but their keys have to be texts. -/
def value? : (depth : Nat) → Outline → Written → Option Json
  | _, _, plain value => value
  | 0, _, array _ | 0, _, object _ => none
  | depth + 1, outline, array items => (itemValues? depth outline 0 items).map Json.array
  | depth + 1, outline, object entries => (entryValues? depth outline entries).map Json.object
termination_by structural _ _ written => written

def itemValues? : (depth : Nat) → Outline → (position : Nat) → List Written → Option (List Json)
  | _, _, _, [] => some []
  | depth, outline, position, item :: items => do
    let first ← item.value? depth (outline.atIndex position)
    return first :: (← itemValues? depth outline (position + 1) items)
termination_by structural _ _ _ items => items

def entryValues? :
    (depth : Nat) → Outline → List (Option String × Written) → Option (List (String × Json))
  | _, _, [] => some []
  | _, _, (none, _) :: _ => none
  | depth, outline, (some key, value) :: entries =>
    match outline.atKey? key with
    | none => entryValues? depth outline entries
    | some inner => do
      let first ← value.value? depth inner
      return (key, first) :: (← entryValues? depth outline entries)
termination_by structural _ _ entries => entries

end

end Written

end SchemaInfer.Json
