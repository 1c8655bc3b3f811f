import SchemaInfer.Expr.Basic
import SchemaInfer.Json.Record

/-!
Expressions as JSON documents.

A node is an object with its `kind`, the fields of that kind and, if the place of the node is known, its
`location`. `Expr.toJson` writes a node and `Expr.ofJson` reads one. Inside a node places are not
followed, except in the location of the outermost one. Keys that are no field are ignored; in a text this
holds in that location only, and all else is looked at.
-/

namespace SchemaInfer

open Misfit (fail within unplaced)

namespace Location

def toJson (location : Location) : Json :=
  let place := [("line", Json.int location.line.toNat), ("column", Json.int location.column.toNat)]
  match location.file with
  | some file => .object (("file", .string file) :: place)
  | none => .object place

def fields : List String :=
  ["file", "line", "column"]

def ofJson (json : Json) : Except Misfit Location :=
  json.asRecord fields ["line", "column"] { file := none, line := 0, column := 0 }
    fun name part _ location =>
      match name with
      | "file" => do return { location with file := ← part.asOption fun part _ => part.asString }
      | "line" => do return { location with line := ← part.asUInt32 }
      | "column" => do return { location with column := ← part.asUInt32 }
      | _ => return location

end Location

namespace Literal

/-- A constant is written under the name of its kind; null is the name alone. -/
def toJson : Literal → Json
  | string s => .object [("string", .string s)]
  | integer n => .object [("integer", .int n.toInt)]
  | number x => .object [("number", if x.isFinite then .float x else .null)]
  | boolean b => .object [("boolean", .bool b)]
  | null => .string "null"

def ofJson : Json → Except Misfit Literal
  | .string "null" => return null
  | .object [("string", value)] => return string (← value.asString)
  | .object [("integer", value)] => return integer (← value.asInt64)
  | .object [("number", value)] => return number (← value.asDouble)
  | .object [("boolean", value)] => return boolean (← value.asBool)
  | .object [("null", value)] => if value.isUnit true then return null else fail (.expected "nothing")
  | _ => fail (.expected "a constant")

end Literal

namespace Expr

/-! ### Kinds of nodes -/

inductive Kind where
  | literal | path | member | unary | binary | conditional | call | map | filter | lambda | letIn
  | object | array

namespace Kind

def name : Kind → String
  | literal => "literal"
  | path => "path"
  | member => "member"
  | unary => "unary"
  | binary => "binary"
  | conditional => "conditional"
  | call => "call"
  | map => "map"
  | filter => "filter"
  | lambda => "lambda"
  | letIn => "let"
  | object => "object"
  | array => "array"

/-- The kinds in order. A node may also give the number of its kind in this list. -/
def all : List Kind :=
  [literal, path, member, unary, binary, conditional, call, map, filter, lambda, letIn, object, array]

/-- The fields of a kind of node. -/
def fields : Kind → List String
  | literal => ["value"]
  | path => ["path"]
  | member => ["object", "property"]
  | unary => ["op", "operand"]
  | binary => ["op", "left", "right"]
  | conditional => ["condition", "then_branch", "else_branch"]
  | call => ["name", "args"]
  | map | filter => ["collection", "lambda"]
  | lambda => ["params", "body"]
  | letIn => ["name", "value", "body"]
  | object => ["entries"]
  | array => ["elements"]

end Kind

/-! ### Writing -/

/-- A node: its kind, its fields and its place. -/
def node (kind : Kind) (fields : List (String × Json)) (location : Option Location) : Json :=
  .object (("kind", .string kind.name) :: fields ++
    match location with
    | some location => [("location", location.toJson)]
    | none => [])

/-- The parameters of a function. -/
def paramsJson (params : List String) : Json :=
  .array (params.map Json.string)

mutual

/-- The document of an expression. -/
def toJson : Expr → Json
  | literal value l => node .literal [("value", value.toJson)] l
  | path p l => node .path [("path", .string p)] l
  | member e property l => node .member [("object", e.toJson), ("property", .string property)] l
  | unary op e l => node .unary [("op", .string op.symbol), ("operand", e.toJson)] l
  | binary op a b l =>
    node .binary [("op", .string op.symbol), ("left", a.toJson), ("right", b.toJson)] l
  | conditional c t e l =>
    node .conditional
      [("condition", c.toJson), ("then_branch", t.toJson), ("else_branch", e.toJson)] l
  | call name args l => node .call [("name", .string name), ("args", .array (toJsonAll args))] l
  | map c params body l =>
    node .map [("collection", c.toJson),
      ("lambda", .object [("params", paramsJson params), ("body", body.toJson)])] l
  | filter c params body l =>
    node .filter [("collection", c.toJson),
      ("lambda", .object [("params", paramsJson params), ("body", body.toJson)])] l
  | lambda params body l => node .lambda [("params", paramsJson params), ("body", body.toJson)] l
  | letIn name value body l =>
    node .letIn [("name", .string name), ("value", value.toJson), ("body", body.toJson)] l
  | object entries l => node .object [("entries", .array (toJsonEntries entries))] l
  | array elements l => node .array [("elements", .array (toJsonAll elements))] l

def toJsonAll : List Expr → List Json
  | [] => []
  | e :: es => e.toJson :: toJsonAll es

def toJsonEntries : List (String × Expr) → List Json
  | [] => []
  | (key, value) :: entries =>
    .object [("key", .string key), ("value", value.toJson)] :: toJsonEntries entries

end

/-! ### Reading -/

/-- The place of a node, which may be missing or null. -/
def locationOf (json : Json) : Except Misfit (Option Location) :=
  match json.get? "location" with
  | none => return none
  | some part => within (.key "location") (part.asOption fun part _ => Location.ofJson part)

def paramsOf (json : Json) : Except Misfit (List String) :=
  json.asList fun item _ => item.asString

/-- The parameters and the body of a function. -/
def functionOf (json : Json)
    (read : (part : Json) → sizeOf part < sizeOf json → Except Misfit Expr) :
    Except Misfit (List String × Expr) :=
  json.asRecord ["params", "body"] ["params", "body"] ([], default) fun name part h function =>
    match name with
    | "params" => do return (← paramsOf part, function.2)
    | "body" => do return (function.1, ← read part h)
    | _ => return function

/-- The key and the value of an entry. -/
def entryOf (json : Json) (read : (part : Json) → sizeOf part < sizeOf json → Except Misfit Expr) :
    Except Misfit (String × Expr) :=
  json.asRecord ["key", "value"] ["key", "value"] ("", default) fun name part h entry =>
    match name with
    | "key" => do return (← part.asString, entry.2)
    | "value" => do return (entry.1, ← read part h)
    | _ => return entry

/-- Reads the fields of a node, given how expressions inside of it are read. -/
def nodeOf (json : Json) (kind : Kind) (location : Option Location)
    (read : (part : Json) → sizeOf part < sizeOf json → Except Misfit Expr) : Except Misfit Expr := do
  let text (name : String) := json.field name fun part _ => part.asString
  let list (name : String) := json.field name fun part h =>
    part.asList fun item h' => read item (Nat.lt_trans h' h)
  let function (name : String) := json.field name fun part h =>
    functionOf part fun inner h' => read inner (Nat.lt_trans h' h)
  match kind with
  | .literal => return literal (← json.field "value" fun part _ => Literal.ofJson part) location
  | .path => return path (← text "path") location
  | .member => return member (← json.field "object" read) (← text "property") location
  | .unary =>
    let op ← json.field "op" fun part _ => part.asName true UnaryOp.ofSymbol?
    return unary op (← json.field "operand" read) location
  | .binary =>
    let op ← json.field "op" fun part _ => part.asName true BinaryOp.ofSymbol?
    let left ← json.field "left" read
    return binary op left (← json.field "right" read) location
  | .conditional =>
    let condition ← json.field "condition" read
    let thenBranch ← json.field "then_branch" read
    return conditional condition thenBranch (← json.field "else_branch" read) location
  | .call =>
    let name ← text "name"
    return call name (← list "args") location
  | .map =>
    let collection ← json.field "collection" read
    let (params, body) ← function "lambda"
    return map collection params body location
  | .filter =>
    let collection ← json.field "collection" read
    let (params, body) ← function "lambda"
    return filter collection params body location
  | .lambda =>
    let params ← json.field "params" fun part _ => paramsOf part
    return lambda params (← json.field "body" read) location
  | .letIn =>
    let name ← text "name"
    let value ← json.field "value" read
    return letIn name value (← json.field "body" read) location
  | .object =>
    let entries ← json.field "entries" fun part h => part.asList fun item h' =>
      entryOf item fun inner h'' => read inner (Nat.lt_trans h'' (Nat.lt_trans h' h))
    return object entries location
  | .array => return array (← list "elements") location

/-- Reads an expression. -/
def ofJson (json : Json) : Except Misfit Expr := do
  json.refuseRepeated ["location", "kind"]
  let location ← locationOf json
  unplaced do
    let kind ← json.field "kind" fun part _ => part.asTag true Kind.name Kind.all
    json.refuseRepeated kind.fields
    nodeOf json kind location fun part _ => ofJson part
termination_by sizeOf json

/-- What is looked at in the text of an expression. -/
def outline : Json.Outline :=
  .wholeBut "location" (.plainRecord Location.fields)

/-- Reads the text of an expression. -/
def ofText (text : String) : Except Misfit Expr :=
  Json.readText outline ofJson text

end Expr

end SchemaInfer
