import SchemaInfer.Command.Options
import SchemaInfer.Command.Run
import SchemaInfer.Conformance.Case
import SchemaInfer.Conformance.NameFilter

/-!
Running the conformance cases of a directory, in the order of their file names.
-/

namespace SchemaInfer.Conformance

open Command (Job)

/-- Which cases to run: those in a directory whose names pass a filter. -/
structure Settings where
  directory : String
  filter : Option String

namespace Settings

def options : List Command.OptionSpec :=
  [{ long := "dir", arity := .one }]

/-- Reads the command line: an option for the directory, and at most one word, the filter. -/
def ofArgs? (args : List String) : Option Settings := do
  let args ← Command.arguments? options args
  let directory ← Command.optional? "dir" Command.path? args
  let directory := directory.getD "conformance"
  match Command.words args with
  | [] => return { directory, filter := none }
  | [filter] => return { directory, filter := some filter }
  | _ => none

end Settings

/-- How many cases passed, failed and were skipped. -/
structure Tally where
  passed : Nat := 0
  failed : Nat := 0
  skipped : Nat := 0

namespace Tally

def add (verdict : Verdict) (tally : Tally) : Tally :=
  match verdict with
  | .passed => { tally with passed := tally.passed + 1 }
  | .failed _ => { tally with failed := tally.failed + 1 }
  | .skipped _ => { tally with skipped := tally.skipped + 1 }

def text (tally : Tally) : String :=
  toString tally.passed ++ " passed, " ++ toString tally.failed ++ " failed, "
    ++ toString tally.skipped ++ " skipped"

end Tally

/-- The line that reports a case. -/
def report (name : String) : Verdict → String
  | .passed => "✓ " ++ name
  | .skipped reason => "⚠ " ++ name ++ " (" ++ reason ++ ")"
  | .failed reason => "✗ " ++ name ++ ": " ++ reason

variable {m : Type → Type} [Monad m]

def loadCase (host : Host m) (path : String) : Job m Case := do
  let text ← Job.attempt ("failed to read " ++ path) FileError.message (← host.read path)
  match Case.ofText text with
  | .ok c => return c
  | .error misfit =>
    throw (path ++ ": invalid case at " ++ Misfit.pathText misfit.path ++ ": " ++ misfit.cause.message)

/-- The case files of a directory. -/
def caseFiles (host : Host m) (directory : String) : Job m (List String) := do
  let names ← Job.attempt ("failed to list " ++ directory) FileError.message
    (← host.listSorted directory)
  return (names.filter fun name => Files.extension? name == some "json").map (Files.join directory)

/-- Runs the cases of some files. All of them have to be readable, also those that the filter leaves out. -/
def runCases (host : Host m) (filter : Option NameFilter) : List String → Tally → Job m Tally
  | [], tally => return tally
  | path :: paths, tally => do
    let c ← loadCase host path
    if filter.all fun filter => filter.accepts c.name then
      let verdict := c.judge
      host.print (report c.name verdict ++ "\n")
      runCases host filter paths (tally.add verdict)
    else runCases host filter paths tally

/-- Runs the conformance cases: the exit code is zero if none failed. -/
def run (host : Host m) (settings : Settings) : m Nat :=
  Job.exitCode host do
    let paths ← caseFiles host settings.directory
    let tally ← runCases host (settings.filter.map .ofText) paths {}
    host.print ("\n" ++ tally.text ++ "\n")
    return tally.failed == 0

end SchemaInfer.Conformance
