import SchemaInfer.Text.CharClass

/-!
XML trees and their text.

An element is empty, holds text, or holds elements. Each tag that opens or closes elements stands on a
line of its own, two blanks further in for each level.
-/

namespace SchemaInfer

inductive Xml where
  | empty (tag : String) (attributes : List (String × String))
  | text (tag : String) (attributes : List (String × String)) (content : String)
  | node (tag : String) (attributes : List (String × String)) (children : List Xml)

namespace Xml

/-! ### Names -/

def isNameStart (c : Char) : Bool :=
  Text.isLetter c || c = '_'

def isNamePart (c : Char) : Bool :=
  Text.isLetter c || Text.isNumber c || c = '.' || c = '_' || c = '-'

/-- Whether a text can name an element or an attribute. -/
def isName (name : String) : Bool :=
  match name.toList with
  | [] => false
  | c :: cs => isNameStart c && cs.all isNamePart

/-! ### Text -/

def escapeChar (c : Char) : List Char :=
  if c = '&' then ['&', 'a', 'm', 'p', ';']
  else if c = '<' then ['&', 'l', 't', ';']
  else if c = '>' then ['&', 'g', 't', ';']
  else if c = '"' then ['&', 'q', 'u', 'o', 't', ';']
  else [c]

/-- A text with entities for the characters that have a meaning in XML. -/
def escape (text : String) : String :=
  String.ofList (text.toList.flatMap escapeChar)

/-- A tag without its brackets. -/
def head (tag : String) (attributes : List (String × String)) : String :=
  tag ++ String.join (attributes.map fun (name, value) => " " ++ name ++ "=\"" ++ escape value ++ "\"")

/-- A line at the given depth. -/
def line (depth : Nat) (text : String) : String :=
  String.ofList (List.replicate (2 * depth) ' ') ++ text

mutual

/-- The lines of an element at the given depth. -/
def lines (depth : Nat) : Xml → List String
  | empty tag attributes => [line depth ("<" ++ head tag attributes ++ "/>")]
  | text tag attributes content =>
    [line depth ("<" ++ head tag attributes ++ ">" ++ escape content ++ "</" ++ tag ++ ">")]
  | node tag attributes children =>
    line depth ("<" ++ head tag attributes ++ ">")
      :: (linesOfAll (depth + 1) children ++ [line depth ("</" ++ tag ++ ">")])
termination_by structural xml => xml

def linesOfAll (depth : Nat) : List Xml → List String
  | [] => []
  | child :: children => child.lines depth ++ linesOfAll depth children
termination_by structural children => children

end

/-- A whole document with this element at the top. -/
def document (root : Xml) : String :=
  String.join
    (("<?xml version=\"1.0\" encoding=\"UTF-8\"?>" :: root.lines 0).map fun line => line ++ "\n")

end Xml

end SchemaInfer
