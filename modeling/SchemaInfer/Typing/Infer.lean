import SchemaInfer.Library.Basic
import SchemaInfer.Scope
import SchemaInfer.Typing.Error
import SchemaInfer.Typing.Match

/-!
Type inference.

`infer` gives the type of an expression in a scope, against a library of functions, or the first error.
The arguments of a call are taken in two rounds: first all that are not functions written in place, so
that these see what the type variables stand for, and then those.
-/

namespace SchemaInfer

namespace Literal

/-- The type of a constant. -/
def ty : Literal → Ty
  | string _ => .string
  | integer _ => .integer
  | number _ => .number
  | boolean _ => .boolean
  | null => .null

end Literal

namespace Ty

/-- Whether a value of the type may serve as a condition. -/
def isCondition : Ty → Bool
  | boolean | any => true
  | _ => false

/-- Whether a value of the type may take part in arithmetic. -/
def isOperand (t : Ty) : Bool :=
  t.isAny || t.subtypeOf number

/-- The type of the elements of a collection. -/
def elements? : Ty → Option Ty
  | array t => some t
  | any => some any
  | _ => none

end Ty

namespace Scope

/-- The scope of a function body: each parameter in a scope of its own inside the one before, and `any`
for the parameters beyond the given types. -/
def enterAll : (names : List String) → (types : List Ty) → Scope → Scope
  | [], _, scope => scope
  | name :: names, [], scope => enterAll names [] (scope.enter name .any)
  | name :: names, t :: ts, scope => enterAll names ts (scope.enter name t)

end Scope

namespace Typing

/-- Fails at a place. -/
def fail {α : Type} (cause : TypeError.Cause) (location : Option Location) : Except TypeError α :=
  .error { cause, location }

/-! ### Operators -/

def unaryType (op : UnaryOp) (t : Ty) (location : Option Location) : Except TypeError Ty :=
  match op with
  | .not =>
    if t.isCondition then .ok .boolean
    else fail (.mismatch .boolean t "operand of !") location
  | .negate =>
    if t.isInteger then .ok .integer
    else if t.isOperand then .ok .number
    else fail (.mismatch .number t "operand of unary -") location

/-- Whether an addition joins texts: one side is a text and the other has no parts. -/
def concatenates (left right : Ty) : Bool :=
  (left.isString && right.isPrimitive) || (right.isString && left.isPrimitive)

def binaryType (op : BinaryOp) (left right : Ty) (location : Option Location) :
    Except TypeError Ty :=
  let onLeft := "left operand of " ++ op.symbol
  let onRight := "right operand of " ++ op.symbol
  if op.isComparison then .ok .boolean
  else if op.isLogical then
    if !left.isCondition then fail (.mismatch .boolean left onLeft) location
    else if !right.isCondition then fail (.mismatch .boolean right onRight) location
    else .ok .boolean
  else if op = .add ∧ concatenates left right then .ok .string
  else if op = .add ∧ (left.isAny || right.isAny) then .ok .any
  else if !left.isOperand then fail (.mismatch .number left onLeft) location
  else if !right.isOperand then fail (.mismatch .number right onRight) location
  else if left.isInteger && right.isInteger && op.keepsIntegers then .ok .integer
  else .ok .number

/-! ### Arguments -/

def argumentPlace (position : Nat) (function : String) : String :=
  "argument " ++ toString (position + 1) ++ " of " ++ function

/-- Matches an argument of a call with its parameter. A function that takes functions says so when it is
given something that is no array. -/
def checkArgument (sig : Signature) (position : Nat) (param actual : Ty) (σ : Assignment)
    (location : Option Location) : Except TypeError Assignment :=
  if param.isArray && !actual.isArray && !actual.isAny && !actual.subtypeOf param
      && sig.takesFunction then
    fail (.nonArray sig.name actual) location
  else
    match param.accept actual σ with
    | .ok σ' => .ok σ'
    | .error (.unfit σ') =>
      fail (.mismatch (param.ground σ') actual (argumentPlace position sig.name)) location
    | .error (.conflict parameter bound found) =>
      fail (.conflict sig.name parameter bound found) location

def countError (sig : Signature) (found : Nat) : TypeError.Cause :=
  .argumentCount sig.name sig.minArgs sig.maxArgs found

/-! ### Expressions -/

mutual

/-- The type of an expression. -/
def infer (library : Library) (scope : Scope) : Expr → Except TypeError Ty
  | .literal value _ => .ok value.ty
  | .path path location =>
    match scope.resolve? path with
    | some t => .ok t
    | none => fail (.unknownPath path) location
  | .member object property location => do
    let t ← infer library scope object
    match t.descend? property.toList with
    | some selected => return selected
    | none => fail (.unknownPath (object.sourceText ++ "." ++ property)) location
  | .unary op operand location => do
    let t ← infer library scope operand
    unaryType op t location
  | .binary op left right location => do
    let l ← infer library scope left
    let r ← infer library scope right
    binaryType op l r location
  | .conditional condition thenBranch elseBranch location => do
    let c ← infer library scope condition
    if c.isCondition then
      let t ← infer library scope thenBranch
      let e ← infer library scope elseBranch
      return t.join e
    else fail (.nonBooleanCondition c) location
  | .call name args location =>
    match library.find? name with
    | none => fail (.unknownFunction name) location
    | some sig =>
      if sig.acceptsCount args.length then do
        let σ ← bindPlain library scope sig args.length location 0 [] args
        let σ ← bindLambdas library scope sig location 0 σ args
        return sig.result.ground σ
      else fail (countError sig args.length) location
  | .map collection params body location => do
    let input ← infer library scope collection
    match input.elements? with
    | none => fail (.nonArray "map" input) location
    | some element =>
      let result ← infer library (scope.enterAll params [element]) body
      return .array result
  | .filter collection params body location => do
    let input ← infer library scope collection
    match input.elements? with
    | none => fail (.nonArray "filter" input) location
    | some element =>
      let result ← infer library (scope.enterAll params [element]) body
      if result.isCondition then return .array element
      else fail (.nonBooleanCondition result) location
  | .lambda params body _ => do
    let result ← infer library (scope.enterAll params []) body
    return .function (params.map fun _ => .any) result
  | .letIn name value body _ => do
    let t ← infer library scope value
    infer library (scope.enter name t) body
  | .object entries _ => do
    let properties ← inferEntries library scope entries
    return .closedObject properties
  | .array elements _ => do
    let types ← inferAll library scope elements
    return .array (Ty.elementOf types)

/-- The types of the entries of an object expression, as properties. -/
def inferEntries (library : Library) (scope : Scope) :
    List (String × Expr) → Except TypeError Properties
  | [] => .ok []
  | (key, value) :: entries => do
    let t ← infer library scope value
    let properties ← inferEntries library scope entries
    return (key, Property.mandatory t) :: properties

/-- The types of a list of expressions. -/
def inferAll (library : Library) (scope : Scope) : List Expr → Except TypeError (List Ty)
  | [] => .ok []
  | e :: es => do
    let t ← infer library scope e
    let ts ← inferAll library scope es
    return t :: ts

/-- The first round over the arguments of a call: all but functions written in place. -/
def bindPlain (library : Library) (scope : Scope) (sig : Signature) (count : Nat)
    (location : Option Location) : (position : Nat) → Assignment → List Expr →
    Except TypeError Assignment
  | _, σ, [] => .ok σ
  | position, σ, arg :: args =>
    match sig.paramAt? position with
    | none => fail (countError sig count) location
    | some param =>
      if arg.isLambda && param.isFunction then
        bindPlain library scope sig count location (position + 1) σ args
      else do
        let actual ← infer library scope arg
        let σ ← checkArgument sig position param actual σ location
        bindPlain library scope sig count location (position + 1) σ args

/-- The second round: functions written in place, whose parameters get the types that are known by now
and whose result is matched like an argument. -/
def bindLambdas (library : Library) (scope : Scope) (sig : Signature)
    (location : Option Location) : (position : Nat) → Assignment → List Expr →
    Except TypeError Assignment
  | _, σ, [] => .ok σ
  | position, σ, .lambda names body _ :: args =>
    match sig.paramAt? position with
    | some (.function params result) =>
      if params.length < names.length then
        fail (.mismatch ((Ty.function params result).ground σ)
          (.function (names.map fun _ => .any) .any) (argumentPlace position sig.name)) location
      else do
        let actual ← infer library (scope.enterAll names (params.map fun p => p.ground σ)) body
        let σ ← checkArgument sig position result actual σ location
        bindLambdas library scope sig location (position + 1) σ args
    | _ => bindLambdas library scope sig location (position + 1) σ args
  | position, σ, _ :: args => bindLambdas library scope sig location (position + 1) σ args

end

end Typing

end SchemaInfer
