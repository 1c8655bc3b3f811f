import SchemaInfer.Json.Basic
import SchemaInfer.Schema.Format

/-!
Types as JSON Schemas.

Every data type has a schema with `type`, `items`, `properties`, `required`, `additionalProperties` and
`anyOf`. A union of one type with null widens the `type` of that one where it has a single one. Functions
and placeholders have no schema.
-/

namespace SchemaInfer.JsonSchema

/-- The schema of the values of one kind. -/
def ofKind (name : String) : Json :=
  .object [("type", .string name)]

/-- The schema of the values that one of the schemas allows. -/
def anyOf (schemas : List Json) : Json :=
  .object [("anyOf", .array schemas)]

/-- Allows null besides the values of a schema. -/
def allowingNull (schema : Json) : Json :=
  match schema, schema.stringAt? "type" with
  | .object entries, some name =>
    .object (Entries.insert "type" (.array [.string name, .string "null"]) entries)
  | _, _ => anyOf [schema, ofKind "null"]

/-- The schema of a union, from its members and their schemas. -/
def ofUnion (members : List (Ty × Json)) : Json :=
  match members.filter fun (member, _) => !member.isNull with
  | [(_, schema)] =>
    if members.length = 2 then allowingNull schema else anyOf (members.map Prod.snd)
  | _ => anyOf (members.map Prod.snd)

/-- Adds the description of a property to its schema. -/
def describe (description : Option String) (schema : Json) : Json :=
  match description, schema with
  | some text, .object entries => .object (Entries.insert "description" (.string text) entries)
  | _, _ => schema

/-- The names of the properties that have to be there. -/
def demanded (properties : Properties) : List String :=
  (properties.filter fun (_, p) => !p.isOptional).map Prod.fst

/-- The schema of an object, from the schemas of its properties. -/
def ofObject (schemas : List (String × Json)) (demanded : List String) (isOpen : Bool) : Json :=
  .object [
    ("type", .string "object"),
    ("properties", .object schemas),
    ("required", .array (demanded.map .string)),
    ("additionalProperties", .bool isOpen)]

mutual

/-- The schema of a type. -/
def ofType : Ty → Except ExportError Json
  | .string => return ofKind "string"
  | .number => return ofKind "number"
  | .integer => return ofKind "integer"
  | .boolean => return ofKind "boolean"
  | .null => return ofKind "null"
  | .any => return .object []
  | .array t => return .object [("type", .string "array"), ("items", ← ofType t)]
  | .object ps isOpen => return ofObject (← ofProperties ps) (demanded ps) isOpen
  | .union ms => return ofUnion (ms.zip (← ofTypes ms))
  | .var name => .error { type := .var name, format := .jsonSchema, reason := .notData }
  | .function ps r => .error { type := .function ps r, format := .jsonSchema, reason := .notData }
termination_by structural t => t

def ofTypes : List Ty → Except ExportError (List Json)
  | [] => return []
  | t :: ts => do
    let schema ← ofType t
    let schemas ← ofTypes ts
    return schema :: schemas
termination_by structural ts => ts

def ofProperties : List (String × Property Ty) → Except ExportError (List (String × Json))
  | [] => return []
  | (name, p) :: ps => do
    let schema ← ofType p.ty
    let schemas ← ofProperties ps
    return (name, describe p.description schema) :: schemas
termination_by structural ps => ps

end

end SchemaInfer.JsonSchema
