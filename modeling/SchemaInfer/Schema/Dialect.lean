import SchemaInfer.Files.Name

/-!
The notations of the schemas that are read.
-/

namespace SchemaInfer

/-- A notation for schemas that are read. -/
inductive Dialect where
  | xsd
  | jsonSchema
  | avro
deriving DecidableEq

namespace Dialect

/-- The name by which a dialect is chosen. -/
def name : Dialect → String
  | xsd => "xsd"
  | jsonSchema => "json-schema"
  | avro => "avro"

def ofName? : String → Option Dialect
  | "xsd" => some xsd
  | "json-schema" => some jsonSchema
  | "avro" => some avro
  | _ => none

/-- The name of a dialect in messages. -/
def title : Dialect → String
  | xsd => "Xsd"
  | jsonSchema => "JsonSchema"
  | avro => "Avro"

/-- The dialect of the schema in a file: the ending of the file name decides, in letters of either case. -/
def ofPath (path : String) : Dialect :=
  let name := ((Files.fileName? path).getD "").toList.map Char.toLower
  if ".avsc".toList.isSuffixOf name then avro
  else if ".xsd.json".toList.isSuffixOf name then xsd
  else jsonSchema

end Dialect

end SchemaInfer
