import SchemaInfer.Schema.Expansion
import SchemaInfer.Text.Split
import SchemaInfer.Ty.Subtype
import SchemaInfer.Xsd.Model
import SchemaInfer.Xsd.Naming

/-!
The types that XML Schemas describe.

The root is an object with a property for each global element. Attributes become properties with an `@` in
front, text becomes `_text`, repeated elements become arrays, and a choice becomes a union of its branches
under `_choice`, `_choice2` and so on. Named types and references to global elements go through a
`Resolver`; `expandType` and `expandElement` are the one of a schema.
-/

namespace SchemaInfer.Xsd

/-! ### Names -/

/-- The types that XML Schema knows by itself. -/
def builtin? (name : String) : Option Ty :=
  if name ∈ ["string", "normalizedString", "token", "language", "Name", "NCName", "NMTOKEN", "NMTOKENS",
      "ID", "IDREF", "IDREFS", "ENTITY", "QName", "anyURI", "date", "dateTime", "time", "duration",
      "gYear", "gYearMonth", "gMonth", "gMonthDay", "gDay", "base64Binary", "hexBinary"] then
    some .string
  else if name ∈ ["integer", "int", "long", "short", "byte", "nonNegativeInteger", "positiveInteger",
      "negativeInteger", "nonPositiveInteger", "unsignedLong", "unsignedInt", "unsignedShort",
      "unsignedByte"] then
    some .integer
  else if name ∈ ["decimal", "float", "double"] then some .number
  else if name = "boolean" then some .boolean
  else if name ∈ ["anyType", "anySimpleType"] then some .any
  else none

/-- A qualified name: what stands in front of its first colon, if there is one, and the local name. -/
def splitName (name : String) : Option String × String :=
  match Text.cutAt? ':' name.toList with
  | some (space, rest) => (some (String.ofList space), String.ofList rest)
  | none => (none, name)

/-! ### Occurrences -/

/-- What the groups around a particle say about how often it occurs. -/
structure Multiplicity where
  optional : Bool
  repeated : Bool

namespace Multiplicity

def once : Multiplicity :=
  { optional := false, repeated := false }

/-- Inside of one more group. -/
def within (minOccurs : UInt32) (maxOccurs : Int32) (outer : Multiplicity) : Multiplicity :=
  { optional := outer.optional || minOccurs == 0
    repeated := outer.repeated || isRepeated maxOccurs }

/-- A property inside of groups: it is optional if one of them is, and an array if one of them is
repeated. -/
def apply (outer : Multiplicity) (p : Property Ty) : Property Ty :=
  let p := if outer.optional then { p with required := false, minOccurs := 0 } else p
  if outer.repeated && !p.isRepeated then { p with ty := .array p.ty, maxOccurs := unbounded } else p

end Multiplicity

/-- The type of one occurrence of a property. -/
def occurrenceType (p : Property Ty) : Ty :=
  match p.ty, p.isRepeated with
  | .array t, true => t
  | t, _ => t

/-- The sum of two lower bounds, which stops at the largest one. -/
def addBounds (a b : UInt32) : UInt32 :=
  UInt32.ofNat (min (a.toNat + b.toNat) (UInt32.size - 1))

/-- Adds the property of an element. A name that is there already repeats: it becomes an array of what
covers all its occurrences. -/
def addElement (name : String) (p : Property Ty) (properties : Properties) : Properties :=
  match properties.lookup name with
  | none => Entries.insert name p properties
  | some q =>
    Entries.insert name
      { q with
        ty := .array ((occurrenceType q).join (occurrenceType p))
        required := q.required || p.required
        minOccurs := addBounds q.minOccurs p.minOccurs
        maxOccurs := unbounded }
      properties

/-! ### Conversion -/

/-- How the names in a schema are resolved: named types, and references to global elements, which give
the name, the type of one occurrence and the documentation. -/
structure Resolver (m : Type → Type) where
  named : String → m Ty
  element : String → m (String × Ty × Option String)

namespace Resolver

variable {m : Type → Type} [Monad m] [MonadExceptOf ImportError m]

/-- The type that a simple type describes. Names of values are text. -/
def simpleType (r : Resolver m) (type : SimpleType) : m Ty :=
  match type.listOf, type.unionOf, type.base with
  | some item, _, _ => return .array (← r.named item)
  | none, [], some base => r.named base
  | none, [], none => return .string
  | none, members, _ => return Ty.oneOf (← members.mapM r.named)

def attributeType (r : Resolver m) (attr : Attribute) : m Ty :=
  match attr.simpleType, attr.typeName with
  | some type, _ => r.simpleType type
  | none, some name => r.named name
  | none, none => return .string

/-- Adds the properties of attributes; one that is prohibited has none. -/
def attributes (r : Resolver m) : List Attribute → Properties → m Properties
  | [], properties => return properties
  | attr :: attrs, properties =>
    if attr.use = .prohibited then r.attributes attrs properties
    else do
      let ty ← r.attributeType attr
      let p := if attr.use = .required then Property.mandatory ty else Property.optional ty
      r.attributes attrs
        (Entries.insert (attributeProperty attr.name) { p with description := attr.documentation }
          properties)

/-- Adds the property for text: simple content has some, mixed content may have. -/
def content (r : Resolver m) (simpleContent : Option String) (mixed : Bool) (properties : Properties) :
    m Properties :=
  match simpleContent, mixed with
  | some base, _ => do
    let ty ← r.named base
    return Entries.insert textProperty (Property.mandatory ty) properties
  | none, true => return Entries.insert textProperty (Property.optional .string) properties
  | none, false => return properties

/-- The name and the property of an element, given the type of its own that it has if it refers to no
other. -/
def declare (r : Resolver m) (element : Element) (own : m Ty) :
    m (String × Property Ty) := do
  let (name, ty, description) ←
    match element.reference, element.name with
    | some reference, _ => r.element reference
    | none, some name => do
      let ty ← own
      pure (name, ty, element.documentation)
    | none, none => throw (.malformed "element" "element without name or ref")
  return (name,
    { ty := if isRepeated element.maxOccurs then .array ty else ty
      required := decide (0 < element.minOccurs)
      minOccurs := element.minOccurs
      maxOccurs := element.maxOccurs
      description })

/-- The property of a choice between objects. -/
def choiceOf (branches : List Ty) (occurs : Multiplicity) : Property Ty :=
  let union := Ty.oneOf branches
  { ty := if occurs.repeated then .array union else union
    required := !occurs.optional
    minOccurs := if occurs.optional then 0 else 1
    maxOccurs := if occurs.repeated then unbounded else 1
    description := none }

mutual

/-- The type of one occurrence of an element. -/
def elementType (r : Resolver m) : Element → m Ty
  | ⟨_, _, typeName, complexType, simpleType, _, _, nillable, _⟩ => do
    let ty ←
      match complexType, simpleType, typeName with
      | some type, _, _ => r.complexType type
      | none, some type, _ => r.simpleType type
      | none, none, some name => r.named name
      | none, none, none => pure .any
    return if nillable then ty.orNull else ty
termination_by structural element => element

/-- The type that a complex type describes. -/
def complexType (r : Resolver m) : ComplexType → m Ty
  | ⟨_, content, attributes, simpleContent, mixed⟩ => do
    let properties ← r.attributes attributes []
    let properties ← r.content simpleContent mixed properties
    match content with
    | some particle => do
      let (properties, _) ← r.particle .once particle (properties, 0)
      return .object properties false
    | none => return .object properties false
termination_by structural type => type

/-- Adds what a particle stands for to the properties, along with the number of choices so far. -/
def particle (r : Resolver m) (outer : Multiplicity) :
    Particle → Properties × Nat → m (Properties × Nat)
  | .element element, (properties, choices) => do
    let (name, p) ← r.declare element (r.elementType element)
    return (addElement name (outer.apply p) properties, choices)
  | .group .choice particles minOccurs maxOccurs, (properties, choices) => do
    let branches ← r.branches particles
    let p := choiceOf branches (outer.within minOccurs maxOccurs)
    return (Entries.insert (choiceProperty choices) p properties, choices + 1)
  | .group _ particles minOccurs maxOccurs, state =>
    r.particles (outer.within minOccurs maxOccurs) particles state
termination_by structural particle => particle

/-- Adds what the particles of a group stand for. -/
def particles (r : Resolver m) (outer : Multiplicity) :
    List Particle → Properties × Nat → m (Properties × Nat)
  | [], state => return state
  | p :: ps, state => do
    let state ← r.particle outer p state
    r.particles outer ps state
termination_by structural particles => particles

/-- The branches of a choice, each an object of its own. -/
def branches (r : Resolver m) : List Particle → m (List Ty)
  | [] => return []
  | p :: ps => do
    let (properties, _) ← r.particle .once p ([], 0)
    let types ← r.branches ps
    return .object properties false :: types
termination_by structural particles => particles

end

end Resolver

/-! ### Named definitions -/

namespace Schema

/-- The complex type with this name; the last one counts. -/
def complexType? (name : String) (schema : Schema) : Option ComplexType :=
  schema.complexTypes.reverse.find? fun type => type.name == some name

/-- The simple type with this name; the last one counts. -/
def simpleType? (name : String) (schema : Schema) : Option SimpleType :=
  schema.simpleTypes.reverse.find? fun type => type.name == some name

/-- The global element with this name; the last one counts. -/
def element? (name : String) (schema : Schema) : Option Element :=
  schema.elements.reverse.find? fun element => element.name == some name

end Schema

/-- How messages call a named type. -/
def typeKey (name : String) : String :=
  "type " ++ name

/-- How messages call a global element. -/
def elementKey (name : String) : String :=
  "element " ++ name

/-- Everything in a schema that can be referred to. -/
def Schema.keys (schema : Schema) : List String :=
  (schema.complexTypes.filterMap fun type => type.name.map typeKey)
    ++ (schema.simpleTypes.filterMap fun type => type.name.map typeKey)
    ++ (schema.elements.filterMap fun element => element.name.map elementKey)

mutual

/-- The type with a qualified name, where only the `available` definitions may be expanded. Names with
the prefixes `xs` and `xsd` are built in; other names may be, if the schema does not define them. -/
def expandType (schema : Schema) (available : List String) (name : String) :
    Except ImportError Ty :=
  let (space, base) := splitName name
  let known :=
    match builtin? base with
    | some ty => .ok ty
    | none => .error (.unknownType name)
  if space = some "xs" ∨ space = some "xsd" then known
  else
    match schema.complexType? base, schema.simpleType? base with
    | some type, _ =>
      Expansion.expanding (typeKey base) available fun rest _ =>
        Resolver.complexType
          { named := fun name => expandType schema rest name
            element := fun name => expandElement schema rest name } type
    | none, some type =>
      Expansion.expanding (typeKey base) available fun rest _ =>
        Resolver.simpleType
          { named := fun name => expandType schema rest name
            element := fun name => expandElement schema rest name } type
    | none, none => known
termination_by available.length

/-- The global element that a reference names, where only the `available` definitions may be expanded. -/
def expandElement (schema : Schema) (available : List String) (reference : String) :
    Except ImportError (String × Ty × Option String) :=
  let (_, base) := splitName reference
  match schema.element? base with
  | none => .error (.unresolvedReference reference)
  | some element =>
    Expansion.expanding (elementKey base) available fun rest _ => do
      let ty ← Resolver.elementType
        { named := fun name => expandType schema rest name
          element := fun name => expandElement schema rest name } element
      return (base, ty, element.documentation)
termination_by available.length

end

/-- How a schema resolves names. -/
def Schema.resolver (schema : Schema) : Resolver (Except ImportError) where
  named := expandType schema schema.keys
  element := expandElement schema schema.keys

/-! ### The root -/

/-- One of several global elements may be missing from a document. -/
def oneOfMany (p : Property Ty) : Property Ty :=
  { p with required := false, minOccurs := 0 }

/-- The type that a schema describes: an object with the global elements. A single one is demanded as its
own bounds say. -/
def Schema.toType (schema : Schema) : Except ImportError Ty := do
  let r := schema.resolver
  let declared ← schema.elements.mapM fun element => r.declare element (r.elementType element)
  match declared with
  | [(name, p)] => return .object [(name, p)] false
  | several => return .closedObject (several.map fun (name, p) => (name, oneOfMany p))

end SchemaInfer.Xsd
