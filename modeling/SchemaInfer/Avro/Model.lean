import SchemaInfer.Json.Basic

/-!
Avro schemas: primitive types, named types (records, enumerations and fixed-size bytes), containers,
references to named types, and logical types over a base.
-/

namespace SchemaInfer.Avro

/-- The name of a type, in a namespace if there is one. -/
structure Name where
  name : String
  space : Option String
deriving DecidableEq

namespace Name

/-- The name with its namespace in front; an empty namespace counts as none. -/
def full (name : Name) : String :=
  match name.space with
  | some space => if space.isEmpty then name.name else space ++ "." ++ name.name
  | none => name.name

end Name

mutual

inductive Schema where
  | null
  | boolean
  | int
  | long
  | float
  | double
  | bytes
  | string
  | record (name : Name) (doc : Option String) (fields : List Field)
  | enum (name : Name) (symbols : List String) (doc : Option String)
  | fixed (name : Name) (size : Nat)
  | array (items : Schema)
  | map (values : Schema)
  | union (branches : List Schema)
  | named (reference : String)
  | logical (type : String) (base : Schema)

/-- A field of a record. -/
structure Field where
  name : String
  doc : Option String
  schema : Schema
  default : Option Json

end

namespace Schema

/-- The schema of a primitive type name. -/
def primitive? : String → Option Schema
  | "null" => some null
  | "boolean" => some boolean
  | "int" => some int
  | "long" => some long
  | "float" => some float
  | "double" => some double
  | "bytes" => some bytes
  | "string" => some string
  | _ => none

def isUnion : Schema → Bool
  | union _ => true
  | _ => false

end Schema

end SchemaInfer.Avro
