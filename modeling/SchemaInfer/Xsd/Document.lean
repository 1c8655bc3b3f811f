import SchemaInfer.Json.Record
import SchemaInfer.Xsd.Model

/-!
XML Schemas as JSON documents.

Records are objects whose keys are the names of the fields; a particle also has its `kind`. Writing gives
every field. In reading, fields may be missing, and `maxOccurs` is a number or a text: `unbounded`, or a
decimal number with or without a sign. The path to a misfit is followed down to the content of a complex
type and, from there, only to its `kind`. Keys that are no field are ignored; in a text this holds outside
of content, all of which is looked at.
-/

namespace SchemaInfer.Xsd

open Misfit (fail within unplaced)

/-! ### Kinds of particles -/

inductive ParticleKind where
  | group (compositor : Compositor)
  | element

def ParticleKind.name : ParticleKind → String
  | group compositor => compositor.name
  | element => "element"

/-- The kinds in order. Inside a particle a kind may also be given by its number in this list. -/
def ParticleKind.all : List ParticleKind :=
  [group .sequence, group .choice, group .all, element]

/-! ### Writing -/

def optionJson {α : Type} (write : α → Json) : Option α → Json
  | some value => write value
  | none => .null

def textsJson (texts : List String) : Json :=
  .array (texts.map Json.string)

def SimpleType.toJson (type : SimpleType) : Json :=
  .object [
    ("name", optionJson .string type.name),
    ("base", optionJson .string type.base),
    ("enumeration", textsJson type.enumeration),
    ("listOf", optionJson .string type.listOf),
    ("unionOf", textsJson type.unionOf)]

def Attribute.toJson (attr : Attribute) : Json :=
  .object [
    ("name", .string attr.name),
    ("type", optionJson .string attr.typeName),
    ("simpleType", optionJson SimpleType.toJson attr.simpleType),
    ("use", .string attr.use.name),
    ("documentation", optionJson .string attr.documentation)]

mutual

/-- The fields of an element. -/
def Element.entries : Element → List (String × Json)
  | ⟨name, reference, typeName, complexType, simpleType, minOccurs, maxOccurs, nillable,
      documentation⟩ => [
    ("name", optionJson .string name),
    ("ref", optionJson .string reference),
    ("type", optionJson .string typeName),
    ("complexType",
      match complexType with
      | some type => .object type.entries
      | none => .null),
    ("simpleType", optionJson SimpleType.toJson simpleType),
    ("minOccurs", .int minOccurs.toNat),
    ("maxOccurs", .int maxOccurs.toInt),
    ("nillable", .bool nillable),
    ("documentation", optionJson .string documentation)]

/-- The fields of a complex type. -/
def ComplexType.entries : ComplexType → List (String × Json)
  | ⟨name, content, attributes, simpleContent, mixed⟩ => [
    ("name", optionJson .string name),
    ("content",
      match content with
      | some particle => particle.toJson
      | none => .null),
    ("attributes", .array (attributes.map Attribute.toJson)),
    ("simpleContent", optionJson .string simpleContent),
    ("mixed", .bool mixed)]

def Particle.toJson : Particle → Json
  | .group compositor particles minOccurs maxOccurs =>
    .object [
      ("kind", .string (ParticleKind.group compositor).name),
      ("particles", .array (Particle.toJsonAll particles)),
      ("minOccurs", .int minOccurs.toNat),
      ("maxOccurs", .int maxOccurs.toInt)]
  | .element element => .object (("kind", .string ParticleKind.element.name) :: element.entries)

def Particle.toJsonAll : List Particle → List Json
  | [] => []
  | particle :: particles => particle.toJson :: Particle.toJsonAll particles

end

def Element.toJson (element : Element) : Json :=
  .object element.entries

def ComplexType.toJson (type : ComplexType) : Json :=
  .object type.entries

def Schema.toJson (schema : Schema) : Json :=
  .object [
    ("targetNamespace", optionJson .string schema.targetNamespace),
    ("elements", .array (schema.elements.map Element.toJson)),
    ("complexTypes", .array (schema.complexTypes.map ComplexType.toJson)),
    ("simpleTypes", .array (schema.simpleTypes.map SimpleType.toJson))]

/-! ### Reading -/

def text? (json : Json) : Except Misfit (Option String) :=
  json.asOption fun part _ => part.asString

def texts (json : Json) : Except Misfit (List String) :=
  json.asList fun item _ => item.asString

/-- The number that a decimal text with an optional sign stands for. -/
def decimal? (text : String) : Option Int :=
  let number? (digits : List Char) : Option Int :=
    if digits.isEmpty || !digits.all fun c => decide ('0' ≤ c) && decide (c ≤ '9') then none
    else some (digits.foldl (fun (n : Int) c => n * 10 + (c.toNat - '0'.toNat : Nat)) 0)
  match text.toList with
  | '+' :: digits => number? digits
  | '-' :: digits => (number? digits).map fun n => -n
  | digits => number? digits

/-- An upper bound on occurrences. -/
def bound : Json → Except Misfit Int32
  | .string text =>
    if text = "unbounded" then .ok (-1)
    else
      match decimal? text with
      | some n =>
        if Int32.minValue.toInt ≤ n ∧ n ≤ Int32.maxValue.toInt then .ok (Int32.ofInt n)
        else fail (.invalidBound text)
      | none => fail (.invalidBound text)
  | json => json.asInt32

def SimpleType.fields : List String :=
  ["name", "base", "enumeration", "listOf", "unionOf"]

def SimpleType.ofJson (json : Json) : Except Misfit SimpleType :=
  json.asRecord SimpleType.fields [] {} fun name part _ type =>
    match name with
    | "name" => do return { type with name := ← text? part }
    | "base" => do return { type with base := ← text? part }
    | "enumeration" => do return { type with enumeration := ← texts part }
    | "listOf" => do return { type with listOf := ← text? part }
    | "unionOf" => do return { type with unionOf := ← texts part }
    | _ => return type

def Attribute.fields : List String :=
  ["name", "type", "simpleType", "use", "documentation"]

def Attribute.ofJson (nested : Bool) (json : Json) : Except Misfit Attribute :=
  json.asRecord Attribute.fields ["name"] { name := "" }
    fun name part _ attr =>
      match name with
      | "name" => do return { attr with name := ← part.asString }
      | "type" => do return { attr with typeName := ← text? part }
      | "simpleType" => do
        return { attr with simpleType := ← part.asOption fun part _ => SimpleType.ofJson part }
      | "use" => do return { attr with use := ← part.asName nested Use.ofName? }
      | "documentation" => do return { attr with documentation := ← text? part }
      | _ => return attr

/-- What a group of particles is read onto. -/
structure GroupFields where
  particles : List Particle := []
  minOccurs : UInt32 := 1
  maxOccurs : Int32 := 1

def Element.fields : List String :=
  ["name", "ref", "type", "complexType", "simpleType", "minOccurs", "maxOccurs", "nillable",
    "documentation"]

def ComplexType.fields : List String :=
  ["name", "content", "attributes", "simpleContent", "mixed"]

mutual

def Element.ofJson (nested : Bool) (json : Json) : Except Misfit Element :=
  json.asRecord Element.fields [] {} fun name part _ element =>
    match name with
    | "name" => do return { element with name := ← text? part }
    | "ref" => do return { element with reference := ← text? part }
    | "type" => do return { element with typeName := ← text? part }
    | "complexType" => do
      return { element with
        complexType := ← part.asOption fun part _ => ComplexType.ofJson nested part }
    | "simpleType" => do
      return { element with simpleType := ← part.asOption fun part _ => SimpleType.ofJson part }
    | "minOccurs" => do return { element with minOccurs := ← part.asUInt32 }
    | "maxOccurs" => do return { element with maxOccurs := ← bound part }
    | "nillable" => do return { element with nillable := ← part.asBool }
    | "documentation" => do return { element with documentation := ← text? part }
    | _ => return element
termination_by (sizeOf json, 0)
decreasing_by exact .left _ _ (by simp_all)

def ComplexType.ofJson (nested : Bool) (json : Json) : Except Misfit ComplexType :=
  json.asRecord ComplexType.fields [] {} fun name part _ type =>
    match name with
    | "name" => do return { type with name := ← text? part }
    | "content" => do
      return { type with content := ← part.asOption fun part _ => Particle.ofJson nested part }
    | "attributes" => do
      return { type with attributes := ← part.asList fun item _ => Attribute.ofJson nested item }
    | "simpleContent" => do return { type with simpleContent := ← text? part }
    | "mixed" => do return { type with mixed := ← part.asBool }
    | _ => return type
termination_by (sizeOf json, 0)
decreasing_by exact .left _ _ (by simp_all)

/-- Reads a particle: an object with a `kind` among its fields, or an array with its kind in front. -/
def Particle.ofJson (nested : Bool) (json : Json) : Except Misfit Particle :=
  match json with
  | .object entries => do
    (Json.object entries).refuseRepeated ["kind"]
    match entries.lookup "kind" with
    | none => fail (.missing "kind")
    | some tag =>
      let kind ← within (.key "kind") (tag.asTag nested ParticleKind.name ParticleKind.all)
      unplaced (Particle.ofFields kind (.object entries))
  | .array [] => fail (.missing "kind")
  | .array (tag :: fields) => do
    let kind ← within (.index 0) (tag.asTag nested ParticleKind.name ParticleKind.all)
    unplaced (Particle.ofFields kind (.array fields))
  | _ => fail (.expected "a particle")
termination_by (sizeOf json, 2)

/-- Reads the fields of a particle of a known kind. -/
def Particle.ofFields (kind : ParticleKind) (json : Json) : Except Misfit Particle := do
  match kind with
  | .group compositor =>
    let fields ← json.asRecord ["particles", "minOccurs", "maxOccurs"] [] ({} : GroupFields)
      fun name part _ fields =>
        match name with
        | "particles" => do
          return { fields with particles := ← part.asList fun item _ => Particle.ofJson true item }
        | "minOccurs" => do return { fields with minOccurs := ← part.asUInt32 }
        | "maxOccurs" => do return { fields with maxOccurs := ← bound part }
        | _ => return fields
    return .group compositor fields.particles fields.minOccurs fields.maxOccurs
  | .element => return .element (← Element.ofJson true json)
termination_by (sizeOf json, 1)
decreasing_by
  · exact .left _ _ (by omega)
  · exact .right _ (by decide)

end

def Schema.fields : List String :=
  ["targetNamespace", "elements", "complexTypes", "simpleTypes"]

/-- Reads a schema. -/
def Schema.ofJson (json : Json) : Except Misfit Schema :=
  json.asRecord Schema.fields [] {} fun name part _ schema =>
    match name with
    | "targetNamespace" => do return { schema with targetNamespace := ← text? part }
    | "elements" => do
      return { schema with elements := ← part.asList fun item _ => Element.ofJson false item }
    | "complexTypes" => do
      return { schema with
        complexTypes := ← part.asList fun item _ => ComplexType.ofJson false item }
    | "simpleTypes" => do
      return { schema with simpleTypes := ← part.asList fun item _ => SimpleType.ofJson item }
    | _ => return schema

/-! ### Outlines -/

def SimpleType.outline : Json.Outline :=
  .plainRecord SimpleType.fields

def Attribute.outline : Json.Outline :=
  .recordWith Attribute.fields [("simpleType", SimpleType.outline)]

def ComplexType.outline : Json.Outline :=
  .recordWith ComplexType.fields [("attributes", .items Attribute.outline)]

def Element.outline : Json.Outline :=
  .recordWith Element.fields
    [("complexType", ComplexType.outline), ("simpleType", SimpleType.outline)]

/-- What is looked at in the text of a schema. -/
def Schema.outline : Json.Outline :=
  .recordWith Schema.fields
    [("elements", .items Element.outline), ("complexTypes", .items ComplexType.outline),
      ("simpleTypes", .items SimpleType.outline)]

/-- Reads the text of a schema. -/
def Schema.ofText (text : String) : Except Misfit Schema :=
  Json.readText Schema.outline Schema.ofJson text

end SchemaInfer.Xsd
