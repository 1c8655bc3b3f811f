import SchemaInfer.Path

/-!
Scopes: what the names of an expression stand for.

A scope holds bindings of its own, keyed by path text, inside the scopes around it. A path is resolved in
the innermost scope that binds the whole path or the name it starts with.
-/

namespace SchemaInfer

/-- The bindings of one level, in the order in which they were made. -/
abbrev Bindings : Type := List (String × Ty)

/-- A scope and the scopes around it, the innermost first. -/
structure Scope where
  bindings : Bindings
  outer : List Bindings

namespace Scope

/-- A scope that binds nothing. -/
def empty : Scope :=
  { bindings := [], outer := [] }

/-- Binds a path in the scope itself; a path bound before takes the new type. -/
def bind (path : String) (ty : Ty) (scope : Scope) : Scope :=
  { scope with bindings := Entries.insert path ty scope.bindings }

/-- A new scope inside this one, with one binding. -/
def enter (name : String) (ty : Ty) (scope : Scope) : Scope :=
  { bindings := [(name, ty)], outer := scope.bindings :: scope.outer }

/-- The scope around this one. -/
def leave? (scope : Scope) : Option Scope :=
  match scope.outer with
  | [] => none
  | bindings :: outer => some { bindings, outer }

/-- All levels, the innermost first. -/
def levels (scope : Scope) : List Bindings :=
  scope.bindings :: scope.outer

/-- The type bound to exactly this path in the innermost level that binds it. -/
def find? (path : String) (scope : Scope) : Option Ty :=
  scope.levels.findSome? fun bindings => bindings.lookup path

/-- Resolves a path, given its first segment and the others, in the innermost level that binds all of it
or its first name. -/
def resolveIn? (path : String) (head : List Char) (segments : List (List Char)) :
    List Bindings → Option Ty
  | [] => none
  | bindings :: outer =>
    match bindings.lookup path with
    | some ty => some ty
    | none =>
      match Segment.ofChars? head with
      | none => none
      | some s =>
        match bindings.lookup s.name with
        | none => resolveIn? path head segments outer
        | some root => (root.indexed? s.indexes).bind (Ty.follow? segments)

/-- The type that a path leads to. -/
def resolve? (path : String) (scope : Scope) : Option Ty :=
  match Text.splitAt '.' path.toList with
  | [] => none
  | head :: segments => resolveIn? path head segments scope.levels

end Scope

end SchemaInfer
