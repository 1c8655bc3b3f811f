import SchemaInfer.Files.Host

/-!
A disk that is a value: a working directory with files and directories in it, and the host that runs commands
there. Nothing is known of what lies outside of the working directory.
-/

namespace SchemaInfer

/-- What a path can lead to. -/
inductive Disk.Node where
  | file (text : String)
  | directory
deriving DecidableEq

/-- The files and directories of a disk by their parts, without the working directory itself. -/
structure Disk where
  nodes : List (List String × Disk.Node)

namespace Disk

/-- A directory in the working directory, or one outside. -/
inductive Place where
  | inside (parts : List String)
  | outside

/-- What a path leads to. -/
inductive Found where
  | file (text : String)
  | directory (place : Place)

def empty : Disk :=
  { nodes := [] }

/-- Gives the node at some parts. -/
def set (parts : List String) (node : Node) (disk : Disk) : Disk :=
  { nodes := (parts, node) :: disk.nodes.filter fun (other, _) => other != parts }

/-- The disk with the given files and the directories that they lie in. -/
def ofFiles (files : List (String × String)) : Disk :=
  files.foldl
    (fun disk (name, text) =>
      let parts := Files.parts name
      let outer := (List.range (parts.length - 1)).map fun n => parts.take (n + 1)
      (outer.foldl (fun disk directory => disk.set directory .directory) disk).set parts (.file text))
    empty

/-- The files by name. -/
def files (disk : Disk) : List (String × String) :=
  disk.nodes.filterMap fun (parts, node) =>
    match node with
    | .file text => some (Files.ofParts false parts, text)
    | .directory => none

/-- The files that an older disk does not have, or has with another text, in the order of their names. -/
def changes (before after : Disk) : List (String × String) :=
  ((after.files.filter fun (name, text) => before.files.lookup name != some text)).mergeSort
    fun a b => decide (a.1 ≤ b.1)

/-- The entry of a directory. -/
def entry (place : Place) (name : String) (disk : Disk) : Except FileError Found :=
  match place with
  | .outside => .error .notFound
  | .inside parts =>
    match disk.nodes.lookup (parts ++ [name]) with
    | none => .error .notFound
    | some (.file text) => .ok (.file text)
    | some .directory => .ok (.directory (.inside (parts ++ [name])))

/-- The directory around a directory. -/
def Place.parent : Place → Place
  | inside [] => outside
  | inside parts => inside parts.dropLast
  | outside => outside

/-- Follows the pieces of a path. -/
def follow (disk : Disk) : Found → List String → Except FileError Found
  | found, [] => .ok found
  | .file _, _ :: _ => .error .notDirectory
  | .directory place, piece :: rest =>
    if piece = "" || piece = "." then disk.follow (.directory place) rest
    else if piece = ".." then disk.follow (.directory place.parent) rest
    else
      match disk.entry place piece with
      | .ok found => disk.follow found rest
      | .error error => .error error

/-- Where the pieces of a path start. -/
def start (path : String) : Found :=
  .directory (if Files.isAbsolute path then .outside else .inside [])

/-- What a path leads to. -/
def find (path : String) (disk : Disk) : Except FileError Found :=
  if path = "" then .error .notFound else disk.follow (start path) (Files.pieces path)

def read (path : String) (disk : Disk) : Except FileError String :=
  match disk.find path with
  | .ok (.file text) => .ok text
  | .ok (.directory _) => .error .isDirectory
  | .error error => .error error

def list (path : String) (disk : Disk) : Except FileError (List String) :=
  match disk.find path with
  | .ok (.directory (.inside parts)) =>
    .ok (disk.nodes.filterMap fun (other, _) =>
      if other.dropLast = parts then other.getLast? else none)
  | .ok (.directory .outside) => .ok []
  | .ok (.file _) => .error .notDirectory
  | .error error => .error error

/-- Puts a node at a path. What is in its place already, if anything, may refuse it. -/
def put (path : String) (node : Node) (refusal : Option Found → Option FileError) (disk : Disk) :
    Except FileError Disk :=
  match ((Files.pieces path).reverse.dropWhile fun piece => piece = "") with
  | [] => .error .notFound
  | name :: outer =>
    match disk.follow (start path) outer.reverse with
    | .error error => .error error
    | .ok (.file _) => .error .notDirectory
    | .ok (.directory place) =>
      match place, refusal (disk.follow (.directory place) [name]).toOption with
      | _, some error => .error error
      | .outside, none => .error .notFound
      | .inside parts, none => .ok (disk.set (parts ++ [name]) node)

/-- Gives a file a text. A path that ends with a slash can only be one of a directory. -/
def write (path text : String) (disk : Disk) : Except FileError Disk :=
  disk.put path (.file text) fun
    | some (.directory _) => some .isDirectory
    | _ => if path.toList.getLast? = some '/' then some .isDirectory else none

def makeDirectory (path : String) (disk : Disk) : Except FileError Disk :=
  disk.put path .directory fun
    | some _ => some .alreadyThere
    | none => none

end Disk

/-- A disk on which commands run, and the lines that they have written so far. -/
structure Session where
  disk : Disk
  output : String
  complaints : String

namespace Session

def ofDisk (disk : Disk) : Session :=
  { disk, output := "", complaints := "" }

/-- Changes the disk unless that fails. -/
def update (change : Disk → Except FileError Disk) : StateM Session (Except FileError Unit) := do
  match change (← get).disk with
  | .ok disk =>
    modify fun session => { session with disk }
    return .ok ()
  | .error error => return .error error

/-- The host of a session. -/
def host : Host (StateM Session) where
  read path := return (← get).disk.read path
  write path text := update (Disk.write path text)
  makeDirectory path := update (Disk.makeDirectory path)
  list path := return (← get).disk.list path
  exists? path := return ((← get).disk.find path).isOk
  isDirectory path := return ((← get).disk.list path).isOk
  print text := modify fun session => { session with output := session.output ++ text }
  complain text := modify fun session => { session with complaints := session.complaints ++ text }

end Session

end SchemaInfer
