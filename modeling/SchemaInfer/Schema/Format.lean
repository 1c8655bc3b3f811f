import SchemaInfer.Ty.Text

/-!
The notations in which a type can be written down as a schema, and why a type cannot be.
-/

namespace SchemaInfer

/-- A notation for schemas that are written. -/
inductive Format where
  | jsonSchema
  | xsd
deriving DecidableEq

def Format.title : Format → String
  | jsonSchema => "JSON Schema"
  | xsd => "XSD"

/-- What keeps a type out of a schema. -/
inductive ExportError.Reason where
  | notData
  | invalidName (name : String)

/-- A type that has no place in a schema, which may be a part of the type that was to be written. -/
structure ExportError where
  type : Ty
  format : Format
  reason : ExportError.Reason

namespace ExportError

def Reason.message : Reason → String
  | notData => "only data types have a schema"
  | invalidName name => "'" ++ name ++ "' is not a valid XML name"

def message (error : ExportError) : String :=
  "type " ++ error.type.text ++ " cannot be rendered as " ++ error.format.title ++ ": "
    ++ error.reason.message

end ExportError

end SchemaInfer
