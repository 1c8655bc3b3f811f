import SchemaInfer.Avro.Model
import SchemaInfer.Schema.Expansion
import SchemaInfer.Ty.Basic

/-!
The types that Avro schemas describe.

A record is a closed object whose fields are demanded unless they are unions with null; a map is an
object about which nothing is known; enumerations, fixed-size bytes and bytes are text, and a decimal is a
number. A reference is looked up by the full names and the short names of the types that the document
defines, the first definition counting.
-/

namespace SchemaInfer.Avro.Schema

/-! ### Definitions -/

mutual

/-- The named types of a schema, each under its full name and under its short one. -/
def definitions : Schema → List (String × Schema)
  | record name doc fields =>
    (name.full, record name doc fields) :: (name.name, record name doc fields)
      :: definitionsOfFields fields
  | enum name symbols doc => [(name.full, enum name symbols doc), (name.name, enum name symbols doc)]
  | fixed name size => [(name.full, fixed name size), (name.name, fixed name size)]
  | array items => items.definitions
  | map values => values.definitions
  | logical _ base => base.definitions
  | union branches => definitionsOfAll branches
  | _ => []
termination_by structural schema => schema

def definitionsOfFields : List Field → List (String × Schema)
  | [] => []
  | ⟨_, _, schema, _⟩ :: fields => schema.definitions ++ definitionsOfFields fields
termination_by structural fields => fields

def definitionsOfAll : List Schema → List (String × Schema)
  | [] => []
  | schema :: schemas => schema.definitions ++ definitionsOfAll schemas
termination_by structural schemas => schemas

end

/-- The full name of a record. -/
def recordName? : Schema → Option String
  | record name _ _ => some name.full
  | _ => none

/-! ### Conversion -/

/-- A field as a property. -/
def fieldProperty (field : Field) (ty : Ty) : Property Ty :=
  { (if ty.admitsNull && field.schema.isUnion then Property.optional ty else Property.mandatory ty) with
    description := field.doc }

mutual

/-- The type that a schema describes, among the `defined` types and where only the `available` records may
be expanded. -/
def convert (defined : List (String × Schema)) (available : List String) (schema : Schema) :
    Except ImportError Ty :=
  match schema with
  | null => return .null
  | boolean => return .boolean
  | int | long => return .integer
  | float | double => return .number
  | bytes | string => return .string
  | enum _ _ _ => return .string
  | fixed _ _ => return .string
  | array items => return .array (← convert defined available items)
  | map _ => return .openObject
  | union branches => return Ty.oneOf (← convertAll defined available branches)
  | logical type base => if type = "decimal" then return .number else convert defined available base
  | record name _ fields =>
    Expansion.expanding name.full available fun rest _ => do
      return .closedObject (← convertFields defined rest fields)
  | named reference =>
    match defined.lookup reference with
    | none => .error (.unresolvedReference reference)
    | some (record name _ fields) =>
      Expansion.expanding name.full available fun rest _ => do
        return .closedObject (← convertFields defined rest fields)
    | some _ => return .string
termination_by (available.length, sizeOf schema)

/-- The types of the branches of a union. -/
def convertAll (defined : List (String × Schema)) (available : List String) (schemas : List Schema) :
    Except ImportError (List Ty) :=
  match schemas with
  | [] => return []
  | schema :: others => do
    let ty ← convert defined available schema
    let types ← convertAll defined available others
    return ty :: types
termination_by (available.length, sizeOf schemas)

/-- The fields of a record as properties. -/
def convertFields (defined : List (String × Schema)) (available : List String) (fields : List Field) :
    Except ImportError Properties :=
  match fields with
  | [] => return []
  | field :: others => do
    let ty ← convert defined available field.schema
    let properties ← convertFields defined available others
    return (field.name, fieldProperty field ty) :: properties
termination_by (available.length, sizeOf fields)
decreasing_by
  · refine .right _ ?_
    cases field
    simp +arith
  · exact .right _ (by simp +arith)

end

/-- The type that a schema describes. -/
def toType (schema : Schema) : Except ImportError Ty :=
  let defined := schema.definitions
  convert defined (defined.filterMap fun (_, type) => type.recordName?) schema

end SchemaInfer.Avro.Schema
