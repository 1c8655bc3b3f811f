import SchemaInfer.Files.Name

/-!
What a command needs from the system it runs on: files, directories and two channels for text. Commands are
written for any host, so that they run on a real system as well as on a disk that is a value.
-/

namespace SchemaInfer

/-- Why a file or directory cannot be used. -/
inductive FileError where
  | notFound
  | alreadyThere
  | notDirectory
  | isDirectory
  | other (text : String)
deriving DecidableEq

def FileError.message : FileError → String
  | notFound => "No such file or directory (os error 2)"
  | alreadyThere => "File exists (os error 17)"
  | notDirectory => "Not a directory (os error 20)"
  | isDirectory => "Is a directory (os error 21)"
  | other text => text

/-- A system that commands run on. -/
structure Host (m : Type → Type) where
  /-- The text of a file. -/
  read : String → m (Except FileError String)
  /-- Gives a file a text; the file is made if it is not there. -/
  write : String → String → m (Except FileError Unit)
  /-- Makes one directory, whose parent has to be there. -/
  makeDirectory : String → m (Except FileError Unit)
  /-- The names of the entries of a directory, in no particular order. -/
  list : String → m (Except FileError (List String))
  exists? : String → m Bool
  isDirectory : String → m Bool
  /-- Writes a text to the standard output. -/
  print : String → m Unit
  /-- Writes a text to the channel for errors. -/
  complain : String → m Unit

namespace Host

variable {m : Type → Type} [Monad m]

/-- Makes the first of a list of directories in which each lies in the next; the outer ones are made as
needed. -/
def makeNested (host : Host m) : List String → m (Except FileError Unit)
  | [] => return .ok ()
  | directory :: outer => do
    let settle (result : Except FileError Unit) : m (Except FileError Unit) := do
      if result.isOk then return result
      else if ← host.isDirectory directory then return .ok ()
      else return result
    match ← host.makeDirectory directory with
    | .error .notFound =>
      match ← host.makeNested outer with
      | .error error => return .error error
      | .ok () => settle (← host.makeDirectory directory)
    | result => settle result

/-- Makes the directories that a file lies in. -/
def makeAncestors (host : Host m) (path : String) : m (Except FileError Unit) :=
  host.makeNested (Files.ancestors path)

/-- The names of the entries of a directory in increasing order. -/
def listSorted (host : Host m) (directory : String) : m (Except FileError (List String)) := do
  return (← host.list directory).map fun names => names.mergeSort fun a b => decide (a ≤ b)

end Host

end SchemaInfer
