import SchemaInfer.Binary64.Basic

/-!
Expressions of the transformation language.

Every node may carry the place in a source text that it came from. The places label errors and mean
nothing else.
-/

namespace SchemaInfer

/-- A place in a source text. -/
structure Location where
  file : Option String
  line : UInt32
  column : UInt32
deriving DecidableEq

namespace Location

/-- The text of a place: `line:column`, after the file and a colon if it is known. -/
def text (location : Location) : String :=
  let place := toString location.line.toNat ++ ":" ++ toString location.column.toNat
  match location.file with
  | some file => file ++ ":" ++ place
  | none => place

end Location

/-- A constant. -/
inductive Literal where
  | string (value : String)
  | integer (value : Int64)
  | number (value : Binary64)
  | boolean (value : Bool)
  | null
deriving DecidableEq

inductive UnaryOp where
  | not
  | negate
deriving DecidableEq

inductive BinaryOp where
  | add | subtract | multiply | divide | remainder
  | equal | unequal | less | atMost | greater | atLeast
  | and | or
deriving DecidableEq

namespace UnaryOp

def symbol : UnaryOp → String
  | not => "!"
  | negate => "-"

def all : List UnaryOp := [not, negate]

def ofSymbol? (symbol : String) : Option UnaryOp :=
  all.find? fun op => op.symbol == symbol

end UnaryOp

namespace BinaryOp

def symbol : BinaryOp → String
  | add => "+"
  | subtract => "-"
  | multiply => "*"
  | divide => "/"
  | remainder => "%"
  | equal => "=="
  | unequal => "!="
  | less => "<"
  | atMost => "<="
  | greater => ">"
  | atLeast => ">="
  | and => "&&"
  | or => "||"

def all : List BinaryOp :=
  [add, subtract, multiply, divide, remainder, equal, unequal, less, atMost, greater, atLeast, and, or]

def ofSymbol? (symbol : String) : Option BinaryOp :=
  all.find? fun op => op.symbol == symbol

def isArithmetic : BinaryOp → Bool
  | add | subtract | multiply | divide | remainder => true
  | _ => false

def isComparison : BinaryOp → Bool
  | equal | unequal | less | atMost | greater | atLeast => true
  | _ => false

def isLogical : BinaryOp → Bool
  | and | or => true
  | _ => false

/-- The operations that two integers do not leave. -/
def keepsIntegers : BinaryOp → Bool
  | add | subtract | multiply => true
  | _ => false

end BinaryOp

/-- An expression. `map` and `filter` apply the function with the given parameters and body to the
elements of a collection. -/
inductive Expr where
  | literal (value : Literal) (location : Option Location)
  | path (path : String) (location : Option Location)
  | member (object : Expr) (property : String) (location : Option Location)
  | unary (op : UnaryOp) (operand : Expr) (location : Option Location)
  | binary (op : BinaryOp) (left right : Expr) (location : Option Location)
  | conditional (condition thenBranch elseBranch : Expr) (location : Option Location)
  | call (name : String) (args : List Expr) (location : Option Location)
  | map (collection : Expr) (params : List String) (body : Expr) (location : Option Location)
  | filter (collection : Expr) (params : List String) (body : Expr) (location : Option Location)
  | lambda (params : List String) (body : Expr) (location : Option Location)
  | letIn (name : String) (value body : Expr) (location : Option Location)
  | object (entries : List (String × Expr)) (location : Option Location)
  | array (elements : List Expr) (location : Option Location)

namespace Expr

instance : Inhabited Expr := ⟨literal .null none⟩

/-- Where the node came from. -/
def location : Expr → Option Location
  | literal _ l | path _ l | member _ _ l | unary _ _ l | binary _ _ _ l | conditional _ _ _ l
  | call _ _ l | map _ _ _ l | filter _ _ _ l | lambda _ _ l | letIn _ _ _ l | object _ l
  | array _ l => l

/-- The node at another place; its parts stay where they are. -/
def relocate (location : Option Location) : Expr → Expr
  | literal v _ => literal v location
  | path p _ => path p location
  | member e p _ => member e p location
  | unary op e _ => unary op e location
  | binary op l r _ => binary op l r location
  | conditional c t e _ => conditional c t e location
  | call f args _ => call f args location
  | map c ps b _ => map c ps b location
  | filter c ps b _ => filter c ps b location
  | lambda ps b _ => lambda ps b location
  | letIn x v b _ => letIn x v b location
  | object es _ => object es location
  | array es _ => array es location

/-- The node at a line and column. -/
def placedAt (line column : UInt32) (expr : Expr) : Expr :=
  expr.relocate (some { file := none, line, column })

def isLambda : Expr → Bool
  | lambda _ _ _ => true
  | _ => false

/-- How messages show an expression that a property is taken of. -/
def sourceText : Expr → String
  | path p _ => p
  | member e property _ => e.sourceText ++ "." ++ property
  | call name _ _ => name ++ "(..)"
  | _ => "(..)"

end Expr

end SchemaInfer
