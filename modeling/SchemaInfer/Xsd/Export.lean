import SchemaInfer.Schema.Format
import SchemaInfer.Xml
import SchemaInfer.Xsd.Naming

/-!
Types as XML Schemas.

The schema declares one global element. Objects become complex types: properties with an `@` in front become
attributes, `_text` becomes text content, and the others become elements of a sequence, repeated where the
type is an array. XML Schema has no unions and no null, so these are declared without a type, and the loss
is noted.
-/

namespace SchemaInfer

/-! ### Data types -/

mutual

/-- The first part of a type that no value has: a function or a placeholder. -/
def Ty.nonData? : Ty → Option Ty
  | .array t => t.nonData?
  | .object ps _ => nonDataProperty? ps
  | .union ms => nonDataMember? ms
  | .var name => some (.var name)
  | .function ps r => some (.function ps r)
  | .string | .number | .integer | .boolean | .null | .any => none
termination_by structural t => t

def Ty.nonDataMember? : List Ty → Option Ty
  | [] => none
  | t :: ts => t.nonData?.or (nonDataMember? ts)
termination_by structural ts => ts

def Ty.nonDataProperty? : List (String × Property Ty) → Option Ty
  | [] => none
  | (_, p) :: ps => p.ty.nonData?.or (nonDataProperty? ps)
termination_by structural ps => ps

end

namespace Xsd

/-! ### Drafts -/

/-- A part of the type that the schema does not express. -/
structure Loss where
  path : String
  type : Ty

def Loss.message (loss : Loss) : String :=
  loss.path ++ ": " ++ loss.type.text ++ " has no XSD equivalent, rendered as xs:anyType"

/-- Something to be written, with what gets lost and what fails, in order. The content counts if nothing
fails. -/
structure Draft (α : Type) where
  content : α
  losses : List Loss
  failures : List ExportError

namespace Draft

instance : Monad Draft where
  pure a := ⟨a, [], []⟩
  bind x f :=
    let y := f x.content
    ⟨y.content, x.losses ++ y.losses, x.failures ++ y.failures⟩

/-- Notes a loss. -/
def lose (path : String) (type : Ty) : Draft Unit :=
  ⟨(), [{ path, type }], []⟩

/-- Notes why something of a type cannot be written. -/
def fail (type : Ty) (reason : ExportError.Reason) : Draft Unit :=
  ⟨(), [], [{ type, format := .xsd, reason }]⟩

/-- Notes a name that is to be written for something of a type. -/
def naming (name : String) (type : Ty) : Draft Unit :=
  if Xml.isName name then return () else fail type (.invalidName name)

end Draft

/-! ### Elements and attributes -/

/-- How often an element occurs; a negative `most` sets no upper bound. -/
structure Occurrence where
  least : UInt32
  most : Int32

namespace Occurrence

def once : Occurrence := ⟨1, 1⟩

def anyNumber : Occurrence := ⟨0, unbounded⟩

/-- The bounds that differ from one. -/
def bounds (occurs : Occurrence) : List (String × String) :=
  (if occurs.least = 1 then [] else [("minOccurs", toString occurs.least)])
    ++ (if occurs.most = 1 then []
      else if occurs.most < 0 then [("maxOccurs", "unbounded")]
      else [("maxOccurs", toString occurs.most)])

/-- The occurrences of the element for a property. -/
def ofProperty (p : Property Ty) : Occurrence where
  least := if p.isOptional then 0 else if p.minOccurs < 1 then 1 else p.minOccurs
  most := if p.ty.isArray then (if 1 < p.maxOccurs then p.maxOccurs else unbounded) else 1

end Occurrence

/-- The simple type that stands for a primitive type. -/
def simpleName? : Ty → Option String
  | .string => some "xs:string"
  | .number => some "xs:decimal"
  | .integer => some "xs:integer"
  | .boolean => some "xs:boolean"
  | _ => none

/-- The simple type that stands for a type, or else another one. -/
def simpleName (path otherwise : String) (ty : Ty) : Draft String :=
  match simpleName? ty with
  | some name => return name
  | none => do
    Draft.lose path ty
    return otherwise

def documentation : Option String → List Xml
  | none => []
  | some text => [.node "xs:annotation" [] [.text "xs:documentation" [] text]]

/-- The declaration of an attribute. -/
def attributeDecl (path name : String) (p : Property Ty) : Draft Xml := do
  Draft.naming name p.ty
  let type ← simpleName (path ++ "/" ++ attributeProperty name) "xs:anySimpleType" p.ty
  let head :=
    [("name", name), ("use", if p.isOptional then "optional" else "required"), ("type", type)]
  match documentation p.description with
  | [] => return .empty "xs:attribute" head
  | notes => return .node "xs:attribute" head notes

/-- The declarations of the attributes among the properties of an object. -/
def attributes (path : String) : Properties → Draft (List Xml)
  | [] => return []
  | (name, p) :: ps =>
    match attributeName? name with
    | none => attributes path ps
    | some attr => do
      let first ← attributeDecl path attr p
      let rest ← attributes path ps
      return first :: rest

/-- What the declaration of an element says about it besides its type. -/
structure Position where
  path : String
  name : String
  occurs : Occurrence
  description : Option String

namespace Position

def head (position : Position) : List (String × String) :=
  ("name", position.name) :: position.occurs.bounds

/-- The declaration of an element that may hold anything. -/
def untyped (position : Position) : Xml :=
  .empty "xs:element" (position.head ++ [("type", "xs:anyType")])

/-- The declaration of an element with a type of its own. -/
def typed (position : Position) (type : Xml) : Xml :=
  .node "xs:element" position.head (documentation position.description ++ [type])

/-- The items of an array that is no property. -/
def items (position : Position) : Position where
  path := position.path ++ "/item"
  name := "item"
  occurs := .anyNumber
  description := none

/-- The element for a property. -/
def child (path name : String) (p : Property Ty) : Position where
  path := path ++ "/" ++ name
  name := name
  occurs := .ofProperty p
  description := p.description

end Position

/-- The type of an element that holds a simple value. -/
def restriction (base : String) : Xml :=
  .node "xs:simpleType" [] [.empty "xs:restriction" [("base", base)]]

def sequence (children : List Xml) : Xml :=
  .node "xs:sequence" [] children

/-- What lets an open object have further elements. -/
def wildcard : Xml :=
  .empty "xs:any" [("minOccurs", "0"), ("maxOccurs", "unbounded"), ("processContents", "lax")]

/-- The type of an object that holds text and attributes only. -/
def textType (path : String) (text : Ty) (ps : Properties) : Draft Xml := do
  let base ← simpleName (path ++ "/" ++ textProperty) "xs:string" text
  let attrs ← attributes path ps
  return .node "xs:complexType" [] [.node "xs:simpleContent" [] [.node "xs:extension" [("base", base)] attrs]]

/-- The type of an object with the given child elements. -/
def nodeType (path : String) (children : List Xml) (ps : Properties) (isOpen : Bool) : Draft Xml := do
  let attrs ← attributes path ps
  let inner := if isOpen then children ++ [wildcard] else children
  let mixed := if Entries.hasKey textProperty ps then [("mixed", "true")] else []
  return .node "xs:complexType" mixed ((if inner.isEmpty then [] else [sequence inner]) ++ attrs)

/-- Whether the type of an object has text content and no elements: its text, if so. -/
def textOnly? (ps : Properties) (isOpen : Bool) : Option Ty :=
  if isOpen || ps.any fun (name, _) => isChild name then none
  else (ps.lookup textProperty).map Property.ty

mutual

/-- The declaration of an element. -/
def element (position : Position) (ty : Ty) : Draft Xml := do
  Draft.naming position.name ty
  match ty with
  | .string => return position.typed (restriction "xs:string")
  | .number => return position.typed (restriction "xs:decimal")
  | .integer => return position.typed (restriction "xs:integer")
  | .boolean => return position.typed (restriction "xs:boolean")
  | .any => return position.untyped
  | .array t =>
    let item ← element position.items t
    return position.typed (.node "xs:complexType" [] [sequence [item]])
  | .object ps isOpen =>
    match textOnly? ps isOpen with
    | some text => return position.typed (← textType position.path text ps)
    | none =>
      let children ← elements position.path ps
      return position.typed (← nodeType position.path children ps isOpen)
  | .null =>
    Draft.lose position.path .null
    return position.untyped
  | .union ms =>
    Draft.lose position.path (.union ms)
    return position.untyped
  | .var name =>
    Draft.fail (.var name) .notData
    return position.untyped
  | .function params result =>
    Draft.fail (.function params result) .notData
    return position.untyped
termination_by structural ty

/-- The declarations of the elements among the properties of an object. A property with an array repeats
the element. -/
def elements (path : String) : List (String × Property Ty) → Draft (List Xml)
  | [] => return []
  | (name, ⟨.array t, required, minOccurs, maxOccurs, description⟩) :: ps =>
    if isChild name then do
      let p := { ty := .array t, required, minOccurs, maxOccurs, description }
      let first ← element (.child path name p) t
      let rest ← elements path ps
      return first :: rest
    else elements path ps
  | (name, p) :: ps =>
    if isChild name then do
      let first ← element (.child path name p) p.ty
      let rest ← elements path ps
      return first :: rest
    else elements path ps
termination_by structural ps => ps

end

/-! ### Schemas -/

/-- The schema that declares one global element. -/
def schema (root : Xml) : Xml :=
  .node "xs:schema"
    [("xmlns:xs", "http://www.w3.org/2001/XMLSchema"), ("elementFormDefault", "qualified")] [root]

/-- The text of the schema for a type and what it loses. -/
def ofType (rootName : String) (ty : Ty) : Except ExportError (String × List Loss) :=
  match ty.nonData? with
  | some type => .error { type, format := .xsd, reason := .notData }
  | none =>
    let draft := element { path := rootName, name := rootName, occurs := .once, description := none } ty
    match draft.failures with
    | failure :: _ => .error failure
    | [] => return ((schema draft.content).document, draft.losses)

end Xsd

end SchemaInfer
