import SchemaInfer.Ty.Text

/-!
Function signatures and libraries of them.

A signature gives the types of the parameters, how many arguments a call may have, and the type of the
result, all of which may mention type variables. A library finds signatures by name.
-/

namespace SchemaInfer

/-- The signature of a function. No `maxArgs` means that there is no upper limit; `variadic` repeats the
last parameter for the arguments that follow it. -/
structure Signature where
  name : String
  params : List Ty
  result : Ty
  minArgs : Nat
  maxArgs : Option Nat
  variadic : Bool
  description : String

namespace Signature

/-- A function all of whose parameters are needed. -/
def fixed (name : String) (params : List Ty) (result : Ty) : Signature :=
  { name, params, result, minArgs := params.length, maxArgs := some params.length,
    variadic := false, description := "" }

/-- The arguments after the first `count` ones may be left out. -/
def needing (count : Nat) (sig : Signature) : Signature :=
  { sig with minArgs := count }

/-- The last parameter may be repeated. -/
def repeating (sig : Signature) : Signature :=
  { sig with variadic := true, maxArgs := none }

def describedAs (description : String) (sig : Signature) : Signature :=
  { sig with description }

/-- The type of the parameter for the argument at a position. -/
def paramAt? (position : Nat) (sig : Signature) : Option Ty :=
  match sig.params[position]? with
  | some param => some param
  | none => if sig.variadic then sig.params.getLast? else none

/-- Whether a call may have this many arguments. -/
def acceptsCount (count : Nat) (sig : Signature) : Bool :=
  decide (sig.minArgs ≤ count) && sig.maxArgs.all fun most => decide (count ≤ most)

/-- Whether a parameter takes a function. -/
def takesFunction (sig : Signature) : Bool :=
  sig.params.any Ty.isFunction

/-- Whether the signature mentions a type variable. -/
def isGeneric (sig : Signature) : Bool :=
  sig.params.any Ty.hasVar || sig.result.hasVar

/-- The text of a signature: a question mark follows a parameter that may be left out, three dots the
one that may be repeated. -/
def text (sig : Signature) : String :=
  let params := sig.params.mapIdx fun i param => param.text ++ if sig.minArgs ≤ i then "?" else ""
  sig.name ++ "(" ++ ", ".intercalate params ++ (if sig.variadic then "..." else "") ++ ") -> "
    ++ sig.result.text

end Signature

/-- Signatures by name, in the order in which they were added. -/
structure Library where
  signatures : List (String × Signature)

namespace Library

def empty : Library :=
  { signatures := [] }

/-- Adds signatures; one with a known name replaces the older one in its place. -/
def extend (library : Library) (signatures : List Signature) : Library :=
  { signatures := signatures.foldl (fun acc sig => Entries.insert sig.name sig acc) library.signatures }

def ofSignatures (signatures : List Signature) : Library :=
  empty.extend signatures

def find? (name : String) (library : Library) : Option Signature :=
  library.signatures.lookup name

end Library

end SchemaInfer
