import SchemaInfer.Command.Run
import SchemaInfer.Conformance.Run

/-!
The program on a real system. The first argument names the command; `conformance` runs the conformance cases.
-/

namespace SchemaInfer

/-- The reason behind an error of the system. -/
def FileError.ofSystem : IO.Error → FileError
  | .noFileOrDirectory _ _ _ => .notFound
  | .alreadyExists _ _ _ => .alreadyThere
  | .inappropriateType _ code _ => if code = 20 then .notDirectory else .isDirectory
  | error => .other (toString error)

/-- The result of an action, also if the system refuses it. -/
def attemptSystem {α : Type} (action : IO α) : IO (Except FileError α) := do
  match ← action.toBaseIO with
  | .ok value => return .ok value
  | .error error => return .error (.ofSystem error)

/-- A path as the system knows it. -/
def systemEntry (path : String) : IO.FS.DirEntry :=
  { root := path, fileName := "" }

/-- The host of a real system. -/
def systemHost : Host IO where
  read path := attemptSystem (IO.FS.readFile path)
  write path text := attemptSystem (IO.FS.writeFile path text)
  makeDirectory path := attemptSystem (IO.FS.createDir path)
  list path := attemptSystem do
    return (← (systemEntry path).root.readDir).toList.map fun entry => entry.fileName
  exists? path := (systemEntry path).root.pathExists
  isDirectory path := (systemEntry path).root.isDir
  print text := IO.print text
  complain text := IO.eprint text

def usage : String :=
  "usage: schema-infer [-v] analyze -s SCHEMA -t TRANSFORM [-f FORMAT] [--root-name NAME] [-o OUT] "
    ++ "[--expected FILE]\n"
    ++ "       schema-infer [-v] check -s SCHEMA -t TRANSFORM..\n"
    ++ "       schema-infer [-v] types -s SCHEMA\n"
    ++ "       schema-infer conformance [--dir DIR] [FILTER]\n"

/-- Ends with the exit code for arguments that are turned down. -/
def refuseArguments : IO UInt32 := do
  IO.eprint usage
  return 2

/-- Runs the program: its exit code. -/
def program : List String → IO UInt32
  | "conformance" :: args =>
    match Conformance.Settings.ofArgs? args with
    | some settings => return (← Conformance.run systemHost settings).toUInt32
    | none => refuseArguments
  | args =>
    match Command.ofArgs? args with
    | some command => return (← Command.run systemHost command).toUInt32
    | none => refuseArguments

end SchemaInfer

def main (args : List String) : IO UInt32 :=
  SchemaInfer.program args
