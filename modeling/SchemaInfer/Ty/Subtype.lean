import SchemaInfer.Ty.Basic

/-!
Subtyping and joins.

`a.subtypeOf b` says that a value of `a` may stand wherever `b` is expected. `a.join b` is the most
specific type that covers both, `a.either b` the plain union of the two.
-/

namespace SchemaInfer.Ty

theorem sizeOf_property {p : Property Ty} : sizeOf p.ty < sizeOf p := by
  cases p
  simp +arith

theorem sizeOf_lt_of_lookup {name : String} {p : Property Ty} {ps : Properties}
    (h : ps.lookup name = some p) : sizeOf p.ty < sizeOf ps :=
  Nat.lt_trans sizeOf_property (Entries.sizeOf_lt_of_lookup h)

theorem sizeOf_lt_of_property_mem {name : String} {p : Property Ty} {ps : Properties}
    (h : (name, p) ∈ ps) : sizeOf p.ty < sizeOf ps := by
  have hmem := List.sizeOf_lt_of_mem h
  have hpair : sizeOf (name, p) = 1 + sizeOf name + sizeOf p := rfl
  have hty := sizeOf_property (p := p)
  omega

/-- Whether every value of the first type is usable as one of the second. A union fits if all its
members do, and a union accepts what one of its members accepts. An object with more properties fits
an open one only, and each property that the second type demands must be there in the first. -/
def subtypeOf (a b : Ty) : Bool :=
  a == b ||
  match a, b with
  | _, any => true
  | union ms, b => ms.attach.all fun ⟨m, _⟩ => m.subtypeOf b
  | a, union ms => ms.attach.any fun ⟨m, _⟩ => a.subtypeOf m
  | integer, number => true
  | array s, array t => s.subtypeOf t
  | object ps open₁, object qs open₂ =>
    (open₂ || (!open₁ && ps.all fun (name, _) => Entries.hasKey name qs)) &&
    qs.attach.all fun ⟨(name, q), _⟩ =>
      q.isOptional ||
      match _h : ps.lookup name with
      | some p => !p.isOptional && p.ty.subtypeOf q.ty
      | none => false
  | function ps r, function qs s =>
    ps.length == qs.length &&
    ((ps.zip qs).attach.all fun ⟨(p, q), _⟩ => q.subtypeOf p) &&
    r.subtypeOf s
  | _, _ => false
termination_by sizeOf a + sizeOf b
decreasing_by
  · have := List.sizeOf_lt_of_mem ‹_ ∈ ms›
    simp +arith; omega
  · have := List.sizeOf_lt_of_mem ‹_ ∈ ms›
    simp +arith; omega
  · simp +arith
  · have := sizeOf_lt_of_lookup _h
    have := sizeOf_lt_of_property_mem ‹(name, q) ∈ qs›
    simp +arith; omega
  · have hp := List.sizeOf_lt_of_mem (List.of_mem_zip ‹(p, q) ∈ ps.zip qs›).1
    have hq := List.sizeOf_lt_of_mem (List.of_mem_zip ‹(p, q) ∈ ps.zip qs›).2
    simp +arith; omega
  · simp +arith

/-- Both types side by side. A type about which nothing is known absorbs the other. -/
def either (a b : Ty) : Ty :=
  if a == b then a
  else if a.isAny || b.isAny then any
  else oneOf [a, b]

/-- The most specific type that covers both. -/
def join (a b : Ty) : Ty :=
  if a.subtypeOf b then b
  else if b.subtypeOf a then a
  else a.either b

/-- The join of a list of types, if there are any. -/
def joinAll? : List Ty → Option Ty
  | [] => none
  | t :: ts => some (ts.foldl join t)

/-- The element type of an array whose elements have the given types. -/
def elementOf (types : List Ty) : Ty :=
  (joinAll? types).getD any

end SchemaInfer.Ty
