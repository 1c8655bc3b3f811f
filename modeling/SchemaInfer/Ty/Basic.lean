import SchemaInfer.Entries

/-!
The types of documents.

A type describes the shape a value may take. Unions are sets of alternatives: `Ty.oneOf` is the only
way the library builds them, so that a union never holds another union or the same member twice.
Equality looks through the order of properties and of union members. A type variable stands in a
function signature only, until a call site says what it is.
-/

namespace SchemaInfer

/-- What an object type says about one of its properties: its type, whether it has to be there, how
often it occurs (a negative `maxOccurs` sets no upper bound), and what it is for. -/
structure Property (τ : Type) where
  ty : τ
  required : Bool
  minOccurs : UInt32
  maxOccurs : Int32
  description : Option String

/-- The `maxOccurs` of a property without an upper bound. -/
def unbounded : Int32 := -1

/-- Whether a bound on occurrences allows more than one. -/
def isRepeated (maxOccurs : Int32) : Bool :=
  maxOccurs < 0 || 1 < maxOccurs

namespace Property

variable {τ : Type}

/-- A property that a value of the object may lack. -/
def isOptional (p : Property τ) : Bool :=
  !p.required || p.minOccurs == 0

/-- A property that may occur more than once. -/
def isRepeated (p : Property τ) : Bool :=
  SchemaInfer.isRepeated p.maxOccurs

end Property

/-- The shape of a document. An object is open when it may hold properties that it does not list. -/
inductive Ty where
  | string
  | number
  | integer
  | boolean
  | null
  | any
  | array (element : Ty)
  | object (properties : List (String × Property Ty)) (isOpen : Bool)
  | union (members : List Ty)
  | var (name : String)
  | function (params : List Ty) (result : Ty)

/-- The properties of an object type, by name and in order. -/
abbrev Properties : Type := List (String × Property Ty)

namespace Ty

instance : Inhabited Ty := ⟨any⟩

/-! ### Classification -/

def isArray : Ty → Bool
  | array _ => true
  | _ => false

def isFunction : Ty → Bool
  | function _ _ => true
  | _ => false

def isNull : Ty → Bool
  | null => true
  | _ => false

def isAny : Ty → Bool
  | any => true
  | _ => false

def isString : Ty → Bool
  | string => true
  | _ => false

def isInteger : Ty → Bool
  | integer => true
  | _ => false

/-- A type without parts. -/
def isPrimitive : Ty → Bool
  | string | number | integer | boolean | null | any => true
  | _ => false

/-- The type of the elements, for an array type. -/
def element? : Ty → Option Ty
  | array t => some t
  | _ => none

mutual

/-- Whether a type variable occurs anywhere inside. -/
def hasVar : Ty → Bool
  | var _ => true
  | array t => t.hasVar
  | object ps _ => anyPropertyHasVar ps
  | union ms => anyHasVar ms
  | function ps r => anyHasVar ps || r.hasVar
  | string | number | integer | boolean | null | any => false

def anyHasVar : List Ty → Bool
  | [] => false
  | t :: ts => t.hasVar || anyHasVar ts

def anyPropertyHasVar : List (String × Property Ty) → Bool
  | [] => false
  | (_, p) :: ps => p.ty.hasVar || anyPropertyHasVar ps

end

/-! ### Equality -/

mutual

/-- Equality of types. Objects compare by name and unions as sets of equally many members, so order
does not count in either. -/
def beq : Ty → Ty → Bool
  | string, string | number, number | integer, integer => true
  | boolean, boolean | null, null | any, any => true
  | array s, array t => s.beq t
  | object ps open₁, object qs open₂ =>
    ps.length == qs.length && beqProperties ps qs && open₁ == open₂
  | union ms, union ns => ms.length == ns.length && beqMembers ms ns
  | var a, var b => a == b
  | function ps r, function qs s => beqParams ps qs && r.beq s
  | _, _ => false
termination_by structural s _ => s

/-- Every property on the left stands on the right with equal data. -/
def beqProperties : List (String × Property Ty) → List (String × Property Ty) → Bool
  | [], _ => true
  | (name, p) :: ps, qs =>
    (match qs.lookup name with
      | some q =>
        p.ty.beq q.ty && p.required == q.required && p.minOccurs == q.minOccurs
          && p.maxOccurs == q.maxOccurs && p.description == q.description
      | none => false)
      && beqProperties ps qs
termination_by structural ps _ => ps

/-- Every member on the left has an equal on the right. -/
def beqMembers : List Ty → List Ty → Bool
  | [], _ => true
  | m :: ms, ns => ns.any (fun n => m.beq n) && beqMembers ms ns
termination_by structural ms _ => ms

/-- Equal lists, position by position. -/
def beqParams : List Ty → List Ty → Bool
  | [], [] => true
  | p :: ps, q :: qs => p.beq q && beqParams ps qs
  | _, _ => false
termination_by structural ps _ => ps

end

instance : BEq Ty := ⟨beq⟩

/-! ### Unions -/

/-- The alternatives that a type offers: the members of a union, and any other type itself. -/
def alternatives : Ty → List Ty
  | union ms => ms
  | t => [t]

/-- The type of the values that have one of the given types. Unions among them are opened up, a
repeated alternative counts once, a lone alternative stands for itself, and no alternative at all
leaves only null. -/
def oneOf (types : List Ty) : Ty :=
  match (types.flatMap alternatives).eraseDups with
  | [] => null
  | [t] => t
  | ts => union ts

/-- Whether null is a value of the type. -/
def admitsNull : Ty → Bool
  | null | any => true
  | union ms => ms.any isNull
  | _ => false

/-- The type together with null. -/
def orNull : Ty → Ty
  | null => null
  | any => any
  | t => oneOf [t, null]

/-- The type without null among its alternatives; a type that is not a union stays as it is. -/
def withoutNull : Ty → Ty
  | union ms => oneOf (ms.filter fun t => !t.isNull)
  | t => t

/-! ### Objects -/

/-- An object with exactly the given properties; a later one of the same name replaces an earlier. -/
def closedObject (properties : Properties) : Ty :=
  object (Entries.ofList properties) false

/-- An object about which nothing is known. -/
def openObject : Ty :=
  object [] true

end Ty

namespace Property

/-- A property that every value of the object has. An array repeats, so it sets no upper bound. -/
def mandatory (ty : Ty) : Property Ty :=
  { ty, required := true, minOccurs := 1, maxOccurs := if ty.isArray then unbounded else 1,
    description := none }

/-- A property that a value of the object may lack. -/
def optional (ty : Ty) : Property Ty :=
  { mandatory ty with required := false, minOccurs := 0 }

end Property

end SchemaInfer
