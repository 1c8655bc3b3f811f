import SchemaInfer.Command.Options
import SchemaInfer.Schema.Dialect
import SchemaInfer.Schema.Document

/-!
The commands and how they are called.

`analyze` writes the schema of what an expression yields, `check` types any number of expressions, and
`types` lists what a schema binds. All of them take a schema, whose dialect may be given.
-/

namespace SchemaInfer

/-- A schema file and the dialect it is to be read in, if that is given. -/
structure SchemaFile where
  path : String
  dialect : Option Dialect

/-- The dialect of a schema file: the given one, or else the one for its name. -/
def SchemaFile.effectiveDialect (file : SchemaFile) : Dialect :=
  file.dialect.getD (.ofPath file.path)

inductive Command where
  /-- Writes the schema of the type of an expression to a file, or else to the output, and compares it
  with an expected one. -/
  | analyze (schema : SchemaFile) (expression : String) (format : Format) (rootName : String)
    (target expected : Option String)
  /-- Types the expressions in the files with the given names or patterns. -/
  | check (schema : SchemaFile) (expressions : List String)
  /-- Lists the bindings that a schema makes. -/
  | types (schema : SchemaFile)

def Format.ofName? : String → Option Format
  | "json-schema" => some jsonSchema
  | "xsd" => some xsd
  | _ => none

namespace Command

def verbose : OptionSpec := { long := "verbose", short := some 'v', arity := .flag }

/-- The options that every command has. -/
def sharedOptions : List OptionSpec := [
  verbose,
  { long := "schema", short := some 's', arity := .one },
  { long := "schema-format", arity := .one }]

def analyzeOptions : List OptionSpec := sharedOptions ++ [
  { long := "transform", short := some 't', arity := .one },
  { long := "format", short := some 'f', arity := .one },
  { long := "root-name", arity := .one },
  { long := "out", short := some 'o', arity := .one },
  { long := "expected", arity := .one }]

def checkOptions : List OptionSpec := sharedOptions ++ [
  { long := "transform", short := some 't', arity := .many }]

def schemaFile? (args : List Argument) : Option SchemaFile := do
  let path ← required? "schema" path? args
  let dialect ← optional? "schema-format" Dialect.ofName? args
  return { path, dialect }

/-- The arguments of a command that takes options only. -/
def optionsOnly? (specs : List OptionSpec) (args : List String) : Option (List Argument) := do
  let args ← arguments? specs args
  if (words args).isEmpty && givenOnce verbose.long args then some args else none

def analyze? (args : List String) : Option Command := do
  let args ← optionsOnly? analyzeOptions args
  let schema ← schemaFile? args
  let expression ← required? "transform" path? args
  let format ← optional? "format" Format.ofName? args
  let rootName ← optional? "root-name" some args
  let target ← optional? "out" path? args
  let expected ← optional? "expected" path? args
  return analyze schema expression (format.getD .jsonSchema) (rootName.getD Rendering.defaultRoot)
    target expected

def check? (args : List String) : Option Command := do
  let args ← optionsOnly? checkOptions args
  let schema ← schemaFile? args
  match occurrences "transform" args with
  | [] => none
  | expressions => return check schema expressions.flatten

def types? (args : List String) : Option Command := do
  let args ← optionsOnly? sharedOptions args
  return types (← schemaFile? args)

def named? (name : String) (args : List String) : Option Command :=
  match name with
  | "analyze" => analyze? args
  | "check" => check? args
  | "types" => types? args
  | _ => none

/-- Reads a command line: the name of a command and its arguments. The option for more messages may
also stand in front of the name. -/
def ofArgs? : List String → Option Command
  | [] => none
  | "-v" :: name :: args | "--verbose" :: name :: args => named? name args
  | name :: args => named? name args

end Command

end SchemaInfer
