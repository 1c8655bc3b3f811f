import SchemaInfer.Json.Printer
import SchemaInfer.JsonSchema.Export
import SchemaInfer.Xsd.Export

/-!
Schema documents that are written for types.
-/

namespace SchemaInfer

inductive Document where
  | json (value : Json)
  | xml (text : String)

def Document.text : Document → String
  | json value => value.indented
  | xml text => text

/-- What a document is called where its content does not matter. -/
def Document.title : Document → String
  | json _ => "JSON document"
  | xml _ => "XSD document"

/-- A schema and what it does not express of its type. -/
structure Rendering where
  format : Format
  document : Document
  warnings : List String

namespace Rendering

/-- The name of the global element where none is asked for. -/
def defaultRoot : String := "root"

/-- Writes a type as a schema. The root name is the one of the global element, for the format that has
one. -/
def ofType (format : Format) (rootName : String) (ty : Ty) : Except ExportError Rendering :=
  match format with
  | .jsonSchema => do
    let schema ← JsonSchema.ofType ty
    return { format, document := .json schema, warnings := [] }
  | .xsd => do
    let (text, losses) ← Xsd.ofType rootName ty
    return { format, document := .xml text, warnings := losses.map Xsd.Loss.message }

end Rendering

end SchemaInfer
