import SchemaInfer.Avro.Document
import SchemaInfer.Avro.Import
import SchemaInfer.Json.Parser
import SchemaInfer.JsonSchema.Import
import SchemaInfer.Schema.Dialect
import SchemaInfer.Scope
import SchemaInfer.Xsd.Document
import SchemaInfer.Xsd.Import

/-!
Schemas as inputs: reading one in its dialect, the type that it describes, and the scope in which expressions
over such an input are typed.
-/

namespace SchemaInfer

/-- A schema document in one of the dialects. -/
inductive Source where
  | xsd (schema : Xsd.Schema)
  | jsonSchema (document : Json)
  | avro (schema : Avro.Schema)

/-- A document that is no schema, or a schema that describes no type. -/
inductive SourceError where
  | unfit (misfit : Misfit)
  | invalid (error : ImportError)

namespace SourceError

def message : SourceError → String
  | unfit misfit => misfit.message
  | invalid error => error.message

end SourceError

namespace Source

/-- Reads a schema of a dialect. -/
def ofJson (dialect : Dialect) (json : Json) : Except SourceError Source :=
  match dialect with
  | .xsd => ((Xsd.Schema.ofJson json).map xsd).mapError .unfit
  | .jsonSchema => return jsonSchema json
  | .avro => ((Avro.Schema.ofJson json).map avro).mapError .invalid

/-- Reads the text of a schema of a dialect. -/
def ofText (dialect : Dialect) (text : String) : Except SourceError Source :=
  match Json.ofText? text with
  | some json => ofJson dialect json
  | none => .error (.unfit ⟨[], .unreadable⟩)

/-- The type of the documents that a schema describes. -/
def toType : Source → Except ImportError Ty
  | xsd schema => schema.toType
  | jsonSchema document => JsonSchema.toType document
  | avro schema => schema.toType

end Source

namespace Scope

/-- The name that stands for the whole input. -/
def inputName : String := "input"

/-- The scope for an input of a type: its properties, each under its path, and the input itself. -/
def ofInput (ty : Ty) : Scope :=
  let properties :=
    match ty with
    | .object ps _ => ps
    | _ => []
  (properties.foldl (fun scope (name, p) => scope.bind (inputName ++ "." ++ name) p.ty) empty).bind
    inputName ty

end Scope

end SchemaInfer
