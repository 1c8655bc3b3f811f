import SchemaInfer.Avro.Model
import SchemaInfer.Json.Printer
import SchemaInfer.Schema.Error
import SchemaInfer.Text.Split

/-!
Reading Avro schemas from their JSON documents.

A text is a primitive type or a reference, an array is a union, and an object says what it is in its
`type`. The namespace of a record is that of the named types inside of it unless they have their own.
Messages say where in the document a part is wrong, from `$` down.
-/

namespace SchemaInfer.Avro.Schema

def malformed {α : Type} (path reason : String) : Except ImportError α :=
  .error (.malformed path reason)

def textAt? (key : String) (entries : List (String × Json)) : Option String :=
  (entries.lookup key).bind Json.string?

/-- The name of a named type. A dotted name carries its own namespace. -/
def nameOf (space : Option String) (path : String) (entries : List (String × Json)) :
    Except ImportError Name :=
  match textAt? "name" entries with
  | none => malformed path "named type without `name`"
  | some name =>
    match Text.cutAtLast? '.' name.toList with
    | some (before, after) =>
      return { name := String.ofList after, space := some (String.ofList before) }
    | none => return { name, space := textAt? "namespace" entries <|> space }

def symbolsOf (entries : List (String × Json)) : List String :=
  match entries.lookup "symbols" with
  | some (.array symbols) => symbols.filterMap Json.string?
  | _ => []

/-- A size that is no natural number counts as zero. -/
def sizeOfFixed (entries : List (String × Json)) : Nat :=
  match entries.lookup "size" with
  | some (.int n) => n.toNat
  | _ => 0

mutual

/-- Reads a schema in a namespace. -/
def read (space : Option String) (path : String) (json : Json) : Except ImportError Schema :=
  match json with
  | .string name => return (primitive? name).getD (named name)
  | .array branches => return union (← readBranches space path 0 branches)
  | .object entries => readObject space path entries
  | other => malformed path ("expected a schema, found " ++ other.compact)
termination_by (sizeOf json, 0)

def readBranches (space : Option String) (path : String) (position : Nat) (branches : List Json) :
    Except ImportError (List Schema) :=
  match branches with
  | [] => return []
  | branch :: others => do
    let schema ← read space (path ++ "[" ++ toString position ++ "]") branch
    let schemas ← readBranches space path (position + 1) others
    return schema :: schemas
termination_by (sizeOf branches, 0)

/-- Reads an object, as a logical type over what it is otherwise if it says so. -/
def readObject (space : Option String) (path : String) (entries : List (String × Json)) :
    Except ImportError Schema :=
  match textAt? "logicalType" entries with
  | some type => do
    let base ← readTyped space path entries
    return logical type base
  | none => readTyped space path entries
termination_by (sizeOf entries, 2)

/-- Reads what an object says in its `type`. -/
def readTyped (space : Option String) (path : String) (entries : List (String × Json)) :
    Except ImportError Schema :=
  match _h : entries.lookup "type" with
  | none => malformed path "missing `type`"
  | some (.string "record") => readRecord space path entries
  | some (.string "error") => readRecord space path entries
  | some (.string "enum") => do
    let name ← nameOf space path entries
    return enum name (symbolsOf entries) (textAt? "doc" entries)
  | some (.string "fixed") => do
    let name ← nameOf space path entries
    return fixed name (sizeOfFixed entries)
  | some (.string "array") =>
    match _h : entries.lookup "items" with
    | some items => return array (← read space (path ++ ".items") items)
    | none => malformed path "array without `items`"
  | some (.string "map") =>
    match _h : entries.lookup "values" with
    | some values => return map (← read space (path ++ ".values") values)
    | none => malformed path "map without `values`"
  | some type => read space (path ++ ".type") type
termination_by (sizeOf entries, 1)
decreasing_by
  · exact .right _ (by decide)
  · exact .right _ (by decide)
  all_goals exact .left _ _ (Entries.sizeOf_lt_of_lookup _h)

def readRecord (space : Option String) (path : String) (entries : List (String × Json)) :
    Except ImportError Schema := do
  let name ← nameOf space path entries
  match _h : entries.lookup "fields" with
  | some (.array fields) =>
    return record name (textAt? "doc" entries) (← readFields name.space path 0 fields)
  | _ => malformed path "record without `fields`"
termination_by (sizeOf entries, 0)
decreasing_by
  have := Entries.sizeOf_lt_of_lookup _h
  exact .left _ _ (by simp_all; omega)

/-- Reads the fields of a record from a position on. -/
def readFields (space : Option String) (path : String) (position : Nat) (fields : List Json) :
    Except ImportError (List Field) :=
  match fields with
  | [] => return []
  | field :: others => do
    let first ← readField space (path ++ ".fields[" ++ toString position ++ "]") field
    let rest ← readFields space path (position + 1) others
    return first :: rest
termination_by (sizeOf fields, 0)

def readField (space : Option String) (path : String) (field : Json) : Except ImportError Field :=
  match field with
  | .object entries =>
    match textAt? "name" entries, _h : entries.lookup "type" with
    | none, _ => malformed path "field without `name`"
    | some _, none => malformed path "field without `type`"
    | some name, some type => do
      let schema ← read space (path ++ ".type") type
      return { name, doc := textAt? "doc" entries, schema, default := entries.lookup "default" }
  | _ => malformed path "field without `name`"
termination_by (sizeOf field, 0)
decreasing_by
  have := Entries.sizeOf_lt_of_lookup _h
  exact .left _ _ (by simp +arith; omega)

end

/-- Reads a schema document. -/
def ofJson (json : Json) : Except ImportError Schema :=
  read none "$" json

end SchemaInfer.Avro.Schema
