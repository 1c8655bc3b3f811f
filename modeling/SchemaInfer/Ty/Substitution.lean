import SchemaInfer.Ty.Basic

/-!
Type variables and what stands for them.

`t.subst σ` puts the assigned types in the place of the variables of `t` in one pass; a variable
without an assignment stays. `t.ground σ` leaves no variable: what is still open afterwards becomes
`any`.
-/

namespace SchemaInfer

/-- What is known about the type variables of a signature at one call site. -/
abbrev Assignment : Type := List (String × Ty)

namespace Ty

mutual

/-- Replaces the assigned variables. -/
def subst (σ : Assignment) : Ty → Ty
  | var name => (σ.lookup name).getD (var name)
  | array t => array (t.subst σ)
  | object ps isOpen => object (substProperties σ ps) isOpen
  | union ms => oneOf (substAll σ ms)
  | function ps r => function (substAll σ ps) (r.subst σ)
  | string => string
  | number => number
  | integer => integer
  | boolean => boolean
  | null => null
  | any => any

def substAll (σ : Assignment) : List Ty → List Ty
  | [] => []
  | t :: ts => t.subst σ :: substAll σ ts

def substProperties (σ : Assignment) : List (String × Property Ty) → List (String × Property Ty)
  | [] => []
  | (name, p) :: ps => (name, { p with ty := p.ty.subst σ }) :: substProperties σ ps

end

mutual

/-- The variables of a type in the order of their occurrences. -/
def vars : Ty → List String
  | var name => [name]
  | array t => t.vars
  | object ps _ => propertyVars ps
  | union ms => varsAll ms
  | function ps r => varsAll ps ++ r.vars
  | string | number | integer | boolean | null | any => []

def varsAll : List Ty → List String
  | [] => []
  | t :: ts => t.vars ++ varsAll ts

def propertyVars : List (String × Property Ty) → List String
  | [] => []
  | (_, p) :: ps => p.ty.vars ++ propertyVars ps

end

/-- The assignment of `any` to some variables. -/
def anyFor (names : List String) : Assignment :=
  names.map fun name => (name, any)

/-- Replaces the assigned variables and then every variable that is left by `any`. -/
def ground (σ : Assignment) (t : Ty) : Ty :=
  let t' := t.subst σ
  if t'.hasVar then t'.subst (anyFor t'.vars) else t'

end Ty

end SchemaInfer
