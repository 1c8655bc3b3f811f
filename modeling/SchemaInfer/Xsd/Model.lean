/-!
The parts of an XML Schema.

A schema declares global elements and named types. An element has the type that it names or one of its
own, and says how often it occurs; a negative `maxOccurs` sets no upper bound. The content of a complex
type is a particle: an element, or a group of particles.
-/

namespace SchemaInfer.Xsd

/-- A simple type: a list of items, a union, a restriction of a base, or plain text. -/
structure SimpleType where
  name : Option String := none
  base : Option String := none
  enumeration : List String := []
  listOf : Option String := none
  unionOf : List String := []

/-- Whether an attribute has to be there. -/
inductive Use where
  | optional
  | required
  | prohibited
deriving DecidableEq

structure Attribute where
  name : String
  typeName : Option String := none
  simpleType : Option SimpleType := none
  use : Use := .optional
  documentation : Option String := none

/-- How the particles of a group go together. -/
inductive Compositor where
  | sequence
  | choice
  | all
deriving DecidableEq

mutual

/-- An element, which is declared here or refers to a global one. -/
structure Element where
  name : Option String := none
  reference : Option String := none
  typeName : Option String := none
  complexType : Option ComplexType := none
  simpleType : Option SimpleType := none
  minOccurs : UInt32 := 1
  maxOccurs : Int32 := 1
  nillable : Bool := false
  documentation : Option String := none

/-- A complex type: attributes around text, particles, or both. -/
structure ComplexType where
  name : Option String := none
  content : Option Particle := none
  attributes : List Attribute := []
  simpleContent : Option String := none
  mixed : Bool := false

/-- A piece of content. -/
inductive Particle where
  | group (compositor : Compositor) (particles : List Particle) (minOccurs : UInt32)
    (maxOccurs : Int32)
  | element (element : Element)

end

structure Schema where
  targetNamespace : Option String := none
  elements : List Element := []
  complexTypes : List ComplexType := []
  simpleTypes : List SimpleType := []

namespace Use

def name : Use → String
  | optional => "optional"
  | required => "required"
  | prohibited => "prohibited"

def ofName? : String → Option Use
  | "optional" => some optional
  | "required" => some required
  | "prohibited" => some prohibited
  | _ => none

end Use

namespace Compositor

def name : Compositor → String
  | sequence => "sequence"
  | choice => "choice"
  | all => "all"

end Compositor

end SchemaInfer.Xsd
