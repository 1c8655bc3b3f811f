import SchemaInfer.Expr.Document
import SchemaInfer.Library.Standard
import SchemaInfer.Schema.Difference
import SchemaInfer.Schema.Source
import SchemaInfer.Typing.Infer

/-!
Conformance cases: a schema, an expression over its inputs, and what is expected of the expression.
-/

namespace SchemaInfer.Conformance

/-- What is expected of an expression; what is left out is not looked at. -/
structure Expected where
  typeText : Option String := none
  errorKind : Option String := none
  jsonSchema : Option Json := none

/-- A case. One with a known issue is skipped. -/
structure Case where
  name : String := ""
  dialect : Dialect := .jsonSchema
  document : Json := .null
  expression : Expr := default
  expected : Expected := {}
  knownIssue : Option String := none

/-! ### Documents -/

def Expected.fields : List String :=
  ["type", "error", "jsonSchema"]

def Expected.ofJson (json : Json) : Except Misfit Expected :=
  json.asRecord Expected.fields [] {} fun name part _ expected =>
    match name with
    | "type" => do return { expected with typeText := ← part.asOption fun part _ => part.asString }
    | "error" => do return { expected with errorKind := ← part.asOption fun part _ => part.asString }
    | "jsonSchema" => do
      return { expected with jsonSchema := ← part.asOption fun part _ => .ok part.collapse }
    | _ => return expected

def schemaFields : List String :=
  ["format", "document"]

/-- Reads a schema and its dialect. -/
def schemaOfJson (json : Json) : Except Misfit (Dialect × Json) :=
  json.asRecord schemaFields schemaFields (.jsonSchema, .null) fun name part _ schema =>
    match name with
    | "format" => do return (← part.asName false Dialect.ofName?, schema.2)
    | "document" => return (schema.1, part.collapse)
    | _ => return schema

def Case.fields : List String :=
  ["name", "schema", "expression", "expected", "knownIssue"]

def Case.ofJson (json : Json) : Except Misfit Case :=
  json.asRecord Case.fields ["name", "schema", "expression", "expected"] {} fun name part _ c =>
    match name with
    | "name" => do return { c with name := ← part.asString }
    | "schema" => do
      let (dialect, document) ← schemaOfJson part
      return { c with dialect, document }
    | "expression" => do return { c with expression := ← Expr.ofJson part }
    | "expected" => do return { c with expected := ← Expected.ofJson part }
    | "knownIssue" => do
      return { c with knownIssue := ← part.asOption fun part _ => part.asString }
    | _ => return c

/-- What is looked at in the text of a case. -/
def Case.outline : Json.Outline :=
  .recordWith Case.fields
    [("schema", .plainRecord schemaFields), ("expression", Expr.outline),
      ("expected", .plainRecord Expected.fields)]

/-- Reads the text of a case. -/
def Case.ofText (text : String) : Except Misfit Case :=
  Json.readText Case.outline Case.ofJson text

/-! ### Verdicts -/

inductive Verdict where
  | passed
  | skipped (reason : String)
  | failed (reason : String)

/-- The type of the inputs of a case. -/
def Case.inputType (c : Case) : Except SourceError Ty := do
  let source ← Source.ofJson c.dialect c.document
  source.toType.mapError .invalid

/-- Compares the schema of a type with the expected one. -/
def judgeSchema (ty : Ty) : Option Json → Verdict
  | none => .passed
  | some schema =>
    match JsonSchema.ofType ty with
    | .error error => .failed error.message
    | .ok actual =>
      match Difference.ofJson none schema actual with
      | [] => .passed
      | first :: others =>
        .failed (toString (others.length + 1) ++ " schema difference(s), first: " ++ first.text)

/-- Compares a type with what is expected. -/
def judgeType (expected : Expected) (ty : Ty) : Verdict :=
  match expected.errorKind, expected.typeText with
  | some kind, _ => .failed ("expected " ++ kind ++ ", inferred " ++ ty.text)
  | none, some text =>
    if ty.text = text then judgeSchema ty expected.jsonSchema
    else .failed ("expected type " ++ text ++ ", inferred " ++ ty.text)
  | none, none => judgeSchema ty expected.jsonSchema

/-- Types the expression of a case and compares the outcome with what is expected. -/
def Case.judge (c : Case) : Verdict :=
  match c.knownIssue, c.inputType with
  | some reason, _ => .skipped reason
  | none, .error error => .failed ("schema import failed: " ++ error.message)
  | none, .ok input =>
    match Typing.infer .standard (.ofInput input) c.expression with
    | .ok ty => judgeType c.expected ty
    | .error error =>
      if c.expected.errorKind = some error.kind then .passed
      else .failed (error.kind ++ " " ++ error.message)

end SchemaInfer.Conformance
