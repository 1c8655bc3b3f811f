import SchemaInfer.Json.Pointer
import SchemaInfer.Json.Printer
import SchemaInfer.Schema.Expansion
import SchemaInfer.Ty.Subtype

/-!
The types that JSON Schemas describe.

`convert` reads one schema: its own `type` with the keywords of objects and arrays, `enum` and `const`,
the combinators `allOf`, `oneOf` and `anyOf`, and `nullable`. References into the document go through a
function that it is given, in any monad that has errors. `expand` is that function for a document, and
`toType` reads a document.
-/

namespace SchemaInfer

namespace Ty

mutual

/-- What two schemas say together. Objects pool their properties: one that either demands is demanded,
and the result is open only if both are. A schema that says nothing leaves the other as it is. -/
def pool : Ty → Ty → Ty
  | any, t => t
  | s, any => s
  | object ps open₁, object qs open₂ =>
    object (poolProperties ps qs ++ qs.filter fun (name, _) => !Entries.hasKey name ps)
      (open₁ && open₂)
  | s, t => s.join t
termination_by structural s => s

/-- The properties on the left with what the right says about them. -/
def poolProperties : List (String × Property Ty) → List (String × Property Ty) →
    List (String × Property Ty)
  | [], _ => []
  | (name, p) :: ps, qs =>
    (name,
      match qs.lookup name with
      | none => p
      | some q =>
        { ty := p.ty.pool q.ty
          required := p.required || q.required
          minOccurs := if q.required then max (max p.minOccurs q.minOccurs) 1 else p.minOccurs
          maxOccurs := p.maxOccurs
          description := p.description <|> q.description }) :: poolProperties ps qs
termination_by structural ps => ps

end

end Ty

namespace JsonSchema

/-! ### Constants -/

mutual

/-- The type of a constant of an `enum` or `const`. -/
def valueType : Json → Ty
  | .null => .null
  | .bool _ => .boolean
  | .int _ => .integer
  | .float _ => .number
  | .string _ => .string
  | .array items => .array (Ty.elementOf (valueTypes items))
  | .object _ => .openObject

def valueTypes : List Json → List Ty
  | [] => []
  | v :: vs => valueType v :: valueTypes vs

end

/-! ### Properties -/

/-- The names that an object schema demands. -/
def requiredNames (entries : List (String × Json)) : List String :=
  match entries.lookup "required" with
  | some (.array names) => names.filterMap Json.string?
  | _ => []

/-- Adds the demanded names that no property declares. -/
def addUndeclared (names : List String) (properties : Properties) : Properties :=
  names.foldl
    (fun acc name =>
      if Entries.hasKey name acc then acc else Entries.insert name (Property.mandatory .any) acc)
    properties

/-- A declared property. -/
def declared (required : List String) (name : String) (schema : Json) (ty : Ty) : Property Ty :=
  { (if name ∈ required then Property.mandatory ty else Property.optional ty) with
    description := schema.stringAt? "description" }

/-- An object is open unless it says that it is not. -/
def isOpen (entries : List (String × Json)) : Bool :=
  match entries.lookup "additionalProperties" with
  | some (.bool false) => false
  | _ => true

/-- A type with null besides its values, where a schema asks for that. -/
def nullableType (entries : List (String × Json)) (ty : Ty) : Ty :=
  match entries.lookup "nullable" with
  | some (.bool true) => ty.orNull
  | _ => ty

/-! ### Schemas -/

theorem sizeOf_items_lt {key : String} {entries : List (String × Json)} {items : List Json}
    (h : entries.lookup key = some (.array items)) : sizeOf items < sizeOf entries := by
  have hlt := Entries.sizeOf_lt_of_lookup h
  rw [Json.array.sizeOf_spec] at hlt
  omega

theorem sizeOf_entries_lt {key : String} {entries inner : List (String × Json)}
    (h : entries.lookup key = some (.object inner)) : sizeOf inner < sizeOf entries := by
  have hlt := Entries.sizeOf_lt_of_lookup h
  rw [Json.object.sizeOf_spec] at hlt
  omega

section Convert

variable {m : Type → Type} [Monad m] [MonadExceptOf ImportError m]

mutual

/-- The type that a schema describes. `deref` gives the types of references, in whatever way it finds them,
and `path` says in messages where the schema stands. -/
def convert (deref : String → m Ty) (path : String) (schema : Json) : m Ty :=
  match schema with
  | .bool true => pure .any
  | .bool false => throw (.unsupported path "the `false` schema admits no value")
  | .object entries => do
    let ty ← convertBody deref path entries
    return nullableType entries ty
  | other => throw (.malformed path ("expected a schema object, found " ++ other.compact))
termination_by (sizeOf schema, 0)

/-- A reference stands for all that a schema says besides. -/
def convertBody (deref : String → m Ty) (path : String) (entries : List (String × Json)) : m Ty :=
  match entries.lookup "$ref" with
  | some (.string reference) => deref reference
  | some _ => throw (.malformed (path ++ "/$ref") "`$ref` must be a string")
  | none => convertInline deref path entries
termination_by (sizeOf entries, 5)

/-- A schema without a reference. -/
def convertInline (deref : String → m Ty) (path : String) (entries : List (String × Json)) : m Ty :=
  match entries.lookup "const", entries.lookup "enum" with
  | some value, _ => pure (valueType value)
  | none, some (.array []) =>
    throw (.unsupported (path ++ "/enum") "an empty `enum` admits no value")
  | none, some (.array values) => pure (Ty.oneOf (valueTypes values))
  | none, some _ => throw (.malformed (path ++ "/enum") "`enum` must be an array")
  | none, none => do
    let own ← convertTyped deref path entries
    let parts ← convertCombinator deref path "allOf" entries
    convertAlternatives deref path ((parts.getD []).foldl Ty.pool own) entries
termination_by (sizeOf entries, 4)

/-- The alternatives of a schema, each with what stands besides them. -/
def convertAlternatives (deref : String → m Ty) (path : String) (base : Ty)
    (entries : List (String × Json)) : m Ty := do
  match ← convertCombinator deref path "oneOf" entries with
  | some parts => return Ty.oneOf (parts.map fun part => base.pool part)
  | none =>
    match ← convertCombinator deref path "anyOf" entries with
    | some parts => return Ty.oneOf (parts.map fun part => base.pool part)
    | none => return base
termination_by (sizeOf entries, 1)

/-- The branches of a combinator, if the schema has it. -/
def convertCombinator (deref : String → m Ty) (path keyword : String) (entries : List (String × Json)) :
    m (Option (List Ty)) :=
  match _h : entries.lookup keyword with
  | some branches => do
    let parts ← convertBranches deref (path ++ "/" ++ keyword) branches
    return some parts
  | none => return none
termination_by (sizeOf entries, 0)
decreasing_by exact .left _ _ (Entries.sizeOf_lt_of_lookup _h)

/-- What a schema says by itself, combinators aside. Without a `type` the other keywords tell objects and
arrays. -/
def convertTyped (deref : String → m Ty) (path : String) (entries : List (String × Json)) : m Ty :=
  match entries.lookup "type" with
  | some (.string name) => convertNamed deref path entries name
  | some (.array names) => do
    let types ← names.mapM fun name =>
      match name with
      | .string name => convertNamed deref path entries name
      | other =>
        throw (.malformed (path ++ "/type") ("type names must be strings, found " ++ other.compact))
    return Ty.oneOf types
  | some other => throw (.malformed (path ++ "/type") ("unexpected `type` value " ++ other.compact))
  | none =>
    if Entries.hasKey "properties" entries || Entries.hasKey "required" entries then
      convertObject deref path entries
    else if Entries.hasKey "items" entries || Entries.hasKey "prefixItems" entries then
      convertArray deref path entries
    else pure .any
termination_by (sizeOf entries, 3)

/-- A schema with the given type name. -/
def convertNamed (deref : String → m Ty) (path : String) (entries : List (String × Json))
    (name : String) : m Ty :=
  match name with
  | "string" => pure .string
  | "integer" => pure .integer
  | "number" => pure .number
  | "boolean" => pure .boolean
  | "null" => pure .null
  | "array" => convertArray deref path entries
  | "object" => convertObject deref path entries
  | other => throw (.unknownType other)
termination_by (sizeOf entries, 2)

def convertObject (deref : String → m Ty) (path : String) (entries : List (String × Json)) : m Ty := do
  let properties ← convertDeclared deref path entries
  return .object (addUndeclared (requiredNames entries) (Entries.ofList properties)) (isOpen entries)
termination_by (sizeOf entries, 1)

/-- The properties that an object schema declares. -/
def convertDeclared (deref : String → m Ty) (path : String) (entries : List (String × Json)) :
    m Properties :=
  match _h : entries.lookup "properties" with
  | some (.object schemas) =>
    convertProperties deref (path ++ "/properties/") (requiredNames entries) schemas
  | _ => pure []
termination_by (sizeOf entries, 0)
decreasing_by exact .left _ _ (sizeOf_entries_lt _h)

def convertProperties (deref : String → m Ty) (path : String) (required : List String)
    (schemas : List (String × Json)) : m Properties :=
  match schemas with
  | [] => pure []
  | (name, schema) :: others => do
    let ty ← convert deref (path ++ name) schema
    let properties ← convertProperties deref path required others
    return (name, declared required name schema ty) :: properties
termination_by (sizeOf schemas, 0)

/-- An array schema. The positions of a tuple and the schema for the rest all describe elements. -/
def convertArray (deref : String → m Ty) (path : String) (entries : List (String × Json)) : m Ty := do
  let positions ← convertPositions deref path entries
  let others ← convertOthers deref path entries
  return .array (Ty.elementOf (positions ++ others))
termination_by (sizeOf entries, 1)

/-- The positions of a tuple. -/
def convertPositions (deref : String → m Ty) (path : String) (entries : List (String × Json)) :
    m (List Ty) :=
  match _h : entries.lookup "prefixItems" with
  | some (.array schemas) => convertItems deref (path ++ "/prefixItems/") 0 schemas
  | _ => pure []
termination_by (sizeOf entries, 0)
decreasing_by exact .left _ _ (sizeOf_items_lt _h)

/-- The elements besides those in the positions of a tuple. -/
def convertOthers (deref : String → m Ty) (path : String) (entries : List (String × Json)) :
    m (List Ty) :=
  match _h : entries.lookup "items" with
  | some (.array schemas) => convertItems deref (path ++ "/items/") 0 schemas
  | some (.bool false) => pure []
  | none => pure []
  | some schema => do
    let ty ← convert deref (path ++ "/items") schema
    return [ty]
termination_by (sizeOf entries, 0)
decreasing_by
  · exact .left _ _ (sizeOf_items_lt _h)
  · exact .left _ _ (Entries.sizeOf_lt_of_lookup _h)

/-- Schemas in a row, from a position on. -/
def convertItems (deref : String → m Ty) (path : String) (position : Nat) (schemas : List Json) :
    m (List Ty) :=
  match schemas with
  | [] => pure []
  | schema :: others => do
    let ty ← convert deref (path ++ toString position) schema
    let types ← convertItems deref path (position + 1) others
    return ty :: types
termination_by (sizeOf schemas, 0)

/-- The branches of a combinator. -/
def convertBranches (deref : String → m Ty) (path : String) (branches : Json) : m (List Ty) :=
  match branches with
  | .array schemas => convertItems deref (path ++ "/") 0 schemas
  | _ => throw (.malformed path "expected an array of schemas")
termination_by (sizeOf branches, 0)

end

end Convert

/-! ### References -/

mutual

/-- The references of a document, in whatever place they stand. -/
def references : Json → List String
  | .array items => referencesOfItems items
  | .object entries => referencesOfEntries entries
  | _ => []

def referencesOfItems : List Json → List String
  | [] => []
  | item :: items => references item ++ referencesOfItems items

def referencesOfEntries : List (String × Json) → List String
  | [] => []
  | (key, value) :: entries =>
    (match key, value with
      | "$ref", .string reference => [reference]
      | _, _ => [])
      ++ references value ++ referencesOfEntries entries

end

/-- The part of a document that a reference names: a JSON pointer after a number sign. -/
def target? (document : Json) (reference : String) : Option Json :=
  match reference.toList with
  | '#' :: pointer => (Json.Pointer.ofText? (String.ofList pointer)).bind document.resolve?
  | _ => none

/-- The type of a reference, where only the `available` references may be expanded. -/
def expand (document : Json) (available : List String) (reference : String) :
    Except ImportError Ty :=
  if reference.toList.head? == some '#' then
    Expansion.expanding reference available fun rest _ =>
      match target? document reference with
      | some schema => convert (fun inner => expand document rest inner) reference schema
      | none => .error (.unresolvedReference reference)
  else .error (.unresolvedReference reference)
termination_by available.length

/-- The type that a document describes. -/
def toType (document : Json) : Except ImportError Ty :=
  convert (expand document (references document)) "#" document

end JsonSchema

end SchemaInfer
