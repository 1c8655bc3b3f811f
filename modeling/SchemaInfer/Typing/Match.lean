import SchemaInfer.Ty.Subtype
import SchemaInfer.Ty.Substitution

/-!
Matching argument types with parameter types.

A match binds the type variables of the parameter. A variable that is bound already is widened to cover
the new type as long as the two are related up to null; otherwise they conflict.
-/

namespace SchemaInfer

namespace Ty

/-- The wider of two related types. Nothing is learnt from a type that is not known. -/
def wider? (bound found : Ty) : Option Ty :=
  if found.isAny || found.subtypeOf bound then some bound
  else if bound.subtypeOf found then some found
  else none

/-- What a type variable stands for after one more observation. Null makes the type nullable, and with
null set aside the types have to be related. -/
def refine? (bound found : Ty) : Option Ty :=
  match wider? bound found with
  | some wider => some wider
  | none =>
    if found.isNull then some bound.orNull
    else if bound.isNull then some found.orNull
    else if bound.admitsNull || found.admitsNull then
      (wider? bound.withoutNull found.withoutNull).map orNull
    else none

end Ty

/-- Why an argument type does not match: it does not fit, given what the variables stood for by then, or a
variable would have to stand for two unrelated types. -/
inductive MatchFailure where
  | unfit (assignment : Assignment)
  | conflict (parameter : String) (bound found : Ty)

namespace Ty

/-- Matches with a parameter that binds no variable from here on. -/
def fit (param actual : Ty) (σ : Assignment) : Except MatchFailure Assignment :=
  if actual.isAny || actual.subtypeOf (if param.hasVar then param.ground σ else param) then .ok σ
  else .error (.unfit σ)

mutual

/-- Matches an argument type with a parameter type. -/
def accept : (param actual : Ty) → Assignment → Except MatchFailure Assignment
  | var name, actual, σ =>
    match σ.lookup name with
    | none => .ok (Entries.insert name actual σ)
    | some bound =>
      match refine? bound actual with
      | some refined => .ok (Entries.insert name refined σ)
      | none => .error (.conflict name bound actual)
  | array p, array a, σ => accept p a σ
  | array p, any, σ => if p.hasVar then accept p any σ else .ok σ
  | function ps r, function as s, σ =>
    if ps.length = as.length then
      match acceptAll ps as σ with
      | .ok σ' => accept r s σ'
      | .error failure => .error failure
    else fit (function ps r) (function as s) σ
  | param, actual, σ => fit param actual σ
termination_by structural param => param

/-- Matches position by position. -/
def acceptAll : (params actuals : List Ty) → Assignment → Except MatchFailure Assignment
  | p :: ps, a :: as, σ =>
    match accept p a σ with
    | .ok σ' => acceptAll ps as σ'
    | .error failure => .error failure
  | _, _, σ => .ok σ
termination_by structural params => params

end

end Ty

end SchemaInfer
