import SchemaInfer.Expr.Basic
import SchemaInfer.Ty.Text

/-!
Type errors: what is wrong with an expression, and where. Inference stops at the first one.
-/

namespace SchemaInfer

/-- What is wrong with an expression. -/
inductive TypeError.Cause where
  | unknownPath (path : String)
  | unknownFunction (name : String)
  | argumentCount (name : String) (least : Nat) (most : Option Nat) (found : Nat)
  | mismatch (expected actual : Ty) (place : String)
  | nonBooleanCondition (actual : Ty)
  | nonArray (operation : String) (actual : Ty)
  | conflict (function parameter : String) (bound found : Ty)

/-- A type error and the place of the node that raised it. -/
structure TypeError where
  cause : TypeError.Cause
  location : Option Location

namespace TypeError

/-- How many arguments a function takes. -/
def countText (least : Nat) : Option Nat → String
  | some most => if most = least then toString least else toString least ++ " to " ++ toString most
  | none => "at least " ++ toString least

def Cause.message : Cause → String
  | unknownPath path => "unknown path '" ++ path ++ "'"
  | unknownFunction name => "unknown function '" ++ name ++ "'"
  | argumentCount name least most found =>
    name ++ " expects " ++ countText least most ++ " argument(s), found " ++ toString found
  | mismatch expected actual place =>
    "type mismatch in " ++ place ++ ": expected " ++ expected.text ++ ", actual " ++ actual.text
  | nonBooleanCondition actual => "non-boolean condition: expected Boolean, found " ++ actual.text
  | nonArray operation actual => operation ++ " expects an array, found " ++ actual.text
  | conflict function parameter bound found =>
    function ++ ": type parameter " ++ parameter ++ " is bound to " ++ bound.text
      ++ " but an argument of type " ++ found.text ++ " was passed"

/-- The name of the kind of error, which stays the same whatever the wording. -/
def Cause.kind : Cause → String
  | unknownPath _ => "UnknownPath"
  | unknownFunction _ => "UnknownFunction"
  | argumentCount _ _ _ _ => "ArityError"
  | mismatch _ _ _ => "TypeMismatch"
  | nonBooleanCondition _ => "NonBooleanCondition"
  | nonArray _ _ => "NonArrayCollection"
  | conflict _ _ _ _ => "GenericBindingConflict"

def message (error : TypeError) : String :=
  error.cause.message

def kind (error : TypeError) : String :=
  error.cause.kind

end TypeError

end SchemaInfer
