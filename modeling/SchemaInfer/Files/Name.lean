import SchemaInfer.Text.Split

/-!
The names of files: paths as text, their parts, and how they are put together.
-/

namespace SchemaInfer.Files

/-- The pieces of a path between its slashes. -/
def pieces (path : String) : List String :=
  (Text.splitAt '/' path.toList).map String.ofList

/-- The parts of a path that lead anywhere: empty ones and single dots do not. -/
def parts (path : String) : List String :=
  (pieces path).filter fun part => part != "" && part != "."

def isAbsolute (path : String) : Bool :=
  path.toList.head? == some '/'

/-- The last part of a path, if it names a file; two dots do not. -/
def fileName? (path : String) : Option String :=
  match (parts path).getLast? with
  | some ".." => none
  | last => last

/-- What follows the last dot of a file name; a dot at the front starts no extension. -/
def extension? (path : String) : Option String :=
  match (fileName? path).bind fun name => Text.cutAtLast? '.' name.toList with
  | some (_ :: _, ext) => some (String.ofList ext)
  | _ => none

/-- The path of an entry of a directory. -/
def join (directory name : String) : String :=
  match directory.toList.getLast? with
  | none => name
  | some '/' => directory ++ name
  | some _ => directory ++ "/" ++ name

/-- The text of a path with the given parts. -/
def ofParts (absolute : Bool) (parts : List String) : String :=
  (if absolute then "/" else "") ++ "/".intercalate parts

/-- The directories that a path lies in, the innermost first. -/
def ancestors (path : String) : List String :=
  let parts := parts path
  ((List.range parts.length).reverse.map fun n => ofParts (isAbsolute path) (parts.take n)).filter
    fun directory => directory != ""

end SchemaInfer.Files
