import SchemaInfer.Text.Split

/-!
Filters on names: alternatives of characters, where a dot stands for any character but a line end, `^` for
the start of the name and `$` for its end. A name passes if an alternative is found anywhere in it.
-/

namespace SchemaInfer.Conformance

/-- A piece of a filter. -/
inductive NameFilter.Atom where
  | char (c : Char)
  | anyChar
  | start
  | stop

/-- The alternatives of a filter. -/
structure NameFilter where
  alternatives : List (List NameFilter.Atom)

namespace NameFilter

def Atom.ofChar (c : Char) : Atom :=
  match c with
  | '.' => anyChar
  | '^' => start
  | '$' => stop
  | c => char c

def ofText (text : String) : NameFilter :=
  { alternatives := (Text.splitAt '|' text.toList).map fun piece => piece.map Atom.ofChar }

/-- Whether the atoms are found right here, where `atStart` says that nothing stands before. -/
def foundHere : List Atom → Bool → List Char → Bool
  | [], _, _ => true
  | .start :: atoms, atStart, cs => atStart && foundHere atoms atStart cs
  | .stop :: atoms, atStart, cs => cs.isEmpty && foundHere atoms atStart cs
  | .anyChar :: atoms, _, c :: cs => c != '\n' && foundHere atoms false cs
  | .char d :: atoms, _, c :: cs => c == d && foundHere atoms false cs
  | _ :: _, _, [] => false

/-- Whether the atoms are found here or further on. -/
def foundFrom (atoms : List Atom) (atStart : Bool) : List Char → Bool
  | [] => foundHere atoms atStart []
  | c :: cs => foundHere atoms atStart (c :: cs) || foundFrom atoms false cs

/-- Whether a name passes the filter. -/
def accepts (filter : NameFilter) (name : String) : Bool :=
  filter.alternatives.any fun atoms => foundFrom atoms true name.toList

end NameFilter

end SchemaInfer.Conformance
