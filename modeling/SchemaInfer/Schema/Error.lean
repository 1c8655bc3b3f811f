/-!
Schemas that describe no type: what is wrong with them, in the words of the person who reads the message.
-/

namespace SchemaInfer

/-- Why a schema cannot be turned into a type. -/
inductive ImportError where
  | unresolvedReference (reference : String)
  | recursiveReference (reference : String)
  | unknownType (name : String)
  | unsupported (path reason : String)
  | malformed (path reason : String)
deriving DecidableEq

namespace ImportError

def message : ImportError → String
  | unresolvedReference reference => "unresolved reference '" ++ reference ++ "'"
  | recursiveReference reference =>
    "recursive reference '" ++ reference ++ "' cannot be expanded into a finite type"
  | unknownType name => "unknown type '" ++ name ++ "'"
  | unsupported path reason => "unsupported construct at " ++ path ++ ": " ++ reason
  | malformed path reason => "malformed document at " ++ path ++ ": " ++ reason

end ImportError

end SchemaInfer
