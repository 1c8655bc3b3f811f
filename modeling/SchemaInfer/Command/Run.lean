import SchemaInfer.Command.Basic
import SchemaInfer.Expr.Document
import SchemaInfer.Files.Glob
import SchemaInfer.Library.Standard
import SchemaInfer.Schema.Difference
import SchemaInfer.Schema.Source
import SchemaInfer.Typing.Infer

/-!
Running commands on a host.

A command ends with an exit code: zero if all went well, one if a type error or a difference was reported or
if the command could not be carried out. In the last case the reason goes to the channel for errors, behind
what was to be done.
-/

namespace SchemaInfer.Command

variable {m : Type → Type} [Monad m]

/-- A part of a command, which may end it with a reason. -/
abbrev Job (m : Type → Type) (α : Type) : Type :=
  ExceptT String m α

namespace Job

/-- Goes on with a result, or ends with its reason behind what was to be done. -/
def attempt {ε α : Type} (purpose : String) (message : ε → String) (result : Except ε α) : Job m α :=
  match result with
  | .ok value => return value
  | .error error => throw (purpose ++ ": " ++ message error)

/-- Carries out a job and tells why it ended early, which makes for an exit code of one. -/
def exitCode (host : Host m) (job : Job m Bool) : m Nat := do
  match ← job.run with
  | .ok true => return 0
  | .ok false => return 1
  | .error reason =>
    host.complain ("error: " ++ reason ++ "\n")
    return 1

end Job

open Job (attempt)

/-! ### Documents -/

/-- The scope for the inputs that a schema describes. -/
def loadScope (host : Host m) (file : SchemaFile) : Job m Scope := do
  let dialect := file.effectiveDialect
  let text ← attempt ("failed to read schema file " ++ file.path) FileError.message
    (← host.read file.path)
  let source ← attempt ("failed to load " ++ dialect.title ++ " schema " ++ file.path)
    SourceError.message (Source.ofText dialect text)
  let ty ← attempt ("failed to import schema " ++ file.path) ImportError.message source.toType
  return .ofInput ty

def loadExpr (host : Host m) (path : String) : Job m Expr := do
  let text ← attempt ("failed to read transformation file " ++ path) FileError.message
    (← host.read path)
  attempt ("failed to parse transformation file " ++ path) Misfit.message (Expr.ofText text)

def loadExpected (host : Host m) (path : String) (format : Format) : Job m Document := do
  let text ← attempt ("failed to read expected schema " ++ path) FileError.message (← host.read path)
  match format with
  | .xsd => return .xml text
  | .jsonSchema =>
    let result : Except Misfit Json :=
      match Json.ofText? text with
      | some json => .ok json
      | none => .error ⟨[], .unreadable⟩
    return .json (← attempt ("failed to parse expected schema " ++ path) Misfit.message result)

/-! ### Results -/

/-- The line for a type error; it names the file that the failing node came from, or else the file with
the expression. -/
def errorLine (path : String) (error : TypeError) : String :=
  match error.location with
  | some location =>
    "Type Error at " ++ { location with file := some (location.file.getD path) }.text ++ ": "
      ++ error.message
  | none => "Type Error in " ++ path ++ ": " ++ error.message

/-- Writes a text to a file, whose directories are made as needed, or to the output. -/
def deliver (host : Host m) (text : String) : Option String → Job m Unit
  | none => host.print (text ++ "\n")
  | some path => do
    match ← host.makeAncestors path with
    | .error error => throw error.message
    | .ok () => attempt ("failed to write " ++ path) FileError.message (← host.write path text)

/-- The files that names and patterns stand for. -/
def resolveFiles (host : Host m) : List String → Job m (List String)
  | [] => return []
  | name :: names => do
    let found ←
      if Glob.isPattern name then
        match Glob.ofText name with
        | .error error => throw error.message
        | .ok glob =>
          match ← ExceptT.lift (glob.files host) with
          | [] => throw ("glob pattern matched no files: " ++ name)
          | paths => pure paths
      else pure [name]
    return found ++ (← resolveFiles host names)

/-! ### Commands -/

def runAnalyze (host : Host m) (schema : SchemaFile) (expression : String) (format : Format)
    (rootName : String) (target expected : Option String) : Job m Bool := do
  let scope ← loadScope host schema
  let expr ← loadExpr host expression
  match Typing.infer .standard scope expr with
  | .error error =>
    host.complain (errorLine expression error ++ "\n")
    return false
  | .ok ty =>
    match Rendering.ofType format rootName ty with
    | .error error => throw error.message
    | .ok rendering =>
      for warning in rendering.warnings do
        host.complain ("warning: " ++ warning ++ "\n")
      deliver host rendering.document.text target
      match expected with
      | none => return true
      | some path =>
        let document ← loadExpected host path format
        match Difference.ofDocuments document rendering.document with
        | [] => return true
        | differences =>
          host.complain ("Schema mismatch against " ++ path ++ "\n")
          for difference in differences do
            host.complain ("  " ++ difference.text ++ "\n")
          return false

/-- Types the expressions of some files one by one: whether all of them have a type. -/
def checkFiles (host : Host m) (scope : Scope) : List String → Job m Bool
  | [] => return true
  | path :: paths => do
    let expr ← loadExpr host path
    match Typing.infer .standard scope expr with
    | .ok ty =>
      host.print ("ok " ++ path ++ ": " ++ ty.text ++ "\n")
      checkFiles host scope paths
    | .error error =>
      host.complain (errorLine path error ++ "\n")
      let _ ← checkFiles host scope paths
      return false

def runCheck (host : Host m) (schema : SchemaFile) (expressions : List String) : Job m Bool := do
  let scope ← loadScope host schema
  checkFiles host scope (← resolveFiles host expressions)

def runTypes (host : Host m) (schema : SchemaFile) : Job m Bool := do
  let scope ← loadScope host schema
  for (path, ty) in scope.bindings.mergeSort fun a b => decide (a.1 ≤ b.1) do
    host.print (path ++ ": " ++ ty.text ++ "\n")
  return true

/-- Runs a command: its exit code. -/
def run (host : Host m) (command : Command) : m Nat :=
  Job.exitCode host <|
    match command with
    | analyze schema expression format rootName target expected =>
      runAnalyze host schema expression format rootName target expected
    | check schema expressions => runCheck host schema expressions
    | types schema => runTypes host schema

end SchemaInfer.Command
