import SchemaInfer.Ty.Basic

/-!
The text of a type, as messages and listings show it: `Array<T>`, `{name: T, note?: U, ...}`,
`T | U` and `(T, U) -> R`. A question mark follows the name of an optional property, three dots end
an open object, and a function among the members of a union stands in parentheses.
-/

namespace SchemaInfer.Ty

mutual

/-- The text of a type. -/
def text : Ty → String
  | string => "String"
  | number => "Number"
  | integer => "Integer"
  | boolean => "Boolean"
  | null => "Null"
  | any => "Any"
  | array t => "Array<" ++ t.text ++ ">"
  | object ps isOpen =>
    let listed := propertyTexts ps
    "\x7b" ++ ", ".intercalate (if isOpen then listed ++ ["..."] else listed) ++ "\x7d"
  | union ms => " | ".intercalate (memberTexts ms)
  | var name => name
  | function ps r => "(" ++ ", ".intercalate (paramTexts ps) ++ ") -> " ++ r.text

def propertyTexts : List (String × Property Ty) → List String
  | [] => []
  | (name, p) :: ps =>
    (name ++ (if p.isOptional then "?" else "") ++ ": " ++ p.ty.text) :: propertyTexts ps

def memberTexts : List Ty → List String
  | [] => []
  | m :: ms => (if m.isFunction then "(" ++ m.text ++ ")" else m.text) :: memberTexts ms

def paramTexts : List Ty → List String
  | [] => []
  | p :: ps => p.text :: paramTexts ps

end

end SchemaInfer.Ty
