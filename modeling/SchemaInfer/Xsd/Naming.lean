/-!
The names of the properties that stand for the parts of an XML element: its text, its attributes and its
choices. A name of no such form stands for a child element.
-/

namespace SchemaInfer.Xsd

/-- The name of the property for text. -/
def textProperty : String := "_text"

/-- The name of the property for an attribute. -/
def attributeProperty (name : String) : String :=
  "@" ++ name

/-- The attribute that a property stands for. -/
def attributeName? (property : String) : Option String :=
  match property.toList with
  | '@' :: name => some (String.ofList name)
  | _ => none

/-- Whether a property stands for a child element. -/
def isChild (property : String) : Bool :=
  (attributeName? property).isNone && property != textProperty

/-- The name of the property for the choice after `earlier` others in the same type. -/
def choiceProperty (earlier : Nat) : String :=
  if earlier = 0 then "_choice" else "_choice" ++ toString (earlier + 1)

end SchemaInfer.Xsd
