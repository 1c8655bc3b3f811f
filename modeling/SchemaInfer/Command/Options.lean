import SchemaInfer.Text.Split

/-!
Command line options.

An option has a long name and may have a short one. It stands alone, takes one value, or takes as many
values as follow. A value stands in the next argument, or is attached: after an equals sign, or right
behind a short name. Short names may be put together behind one dash, the last of them with a value.
Two dashes end the options. An argument with a dash in front is no value unless it is a lone dash.
-/

namespace SchemaInfer.Command

/-- How many values an option takes. -/
inductive Arity where
  | flag
  | one
  | many
deriving DecidableEq

/-- An option that a command knows. -/
structure OptionSpec where
  long : String
  short : Option Char := none
  arity : Arity

/-- A piece of a command line: an option with its values, or a plain word. -/
inductive Argument where
  | option (long : String) (values : List String)
  | word (text : String)

/-- Whether an argument can be a value of an option. -/
def isValue (arg : String) : Bool :=
  match arg.toList with
  | ['-'] => true
  | '-' :: _ => false
  | _ => true

/-- The values of an option that stand in the next arguments. -/
def following? (arity : Arity) (rest : List String) : Option (List String) :=
  match arity with
  | .flag => some []
  | .one =>
    match rest with
    | arg :: _ => if isValue arg then some [arg] else none
    | [] => none
  | .many =>
    match rest.takeWhile isValue with
    | [] => none
    | values => some values

/-- The options of an argument with a long name, and how many of the next arguments belong to it. -/
def long? (specs : List OptionSpec) (text : List Char) (rest : List String) :
    Option (List Argument × Nat) := do
  let (name, attached) :=
    match Text.cutAt? '=' text with
    | some (name, value) => (String.ofList name, some (String.ofList value))
    | none => (String.ofList text, none)
  let spec ← specs.find? fun spec => spec.long == name
  match attached, spec.arity with
  | some _, .flag => none
  | some value, _ => return ([.option name [value]], 0)
  | none, arity =>
    let values ← following? arity rest
    return ([.option name values], values.length)

/-- The options of an argument with short names, and how many of the next arguments belong to it. -/
def short? (specs : List OptionSpec) (rest : List String) : List Char → Option (List Argument × Nat)
  | [] => return ([], 0)
  | c :: more => do
    let spec ← specs.find? fun spec => spec.short == some c
    match spec.arity, more with
    | .flag, _ =>
      let (others, count) ← short? specs rest more
      return (.option spec.long [] :: others, count)
    | arity, [] =>
      let values ← following? arity rest
      return ([.option spec.long values], values.length)
    | _, '=' :: value => return ([.option spec.long [String.ofList value]], 0)
    | _, value => return ([.option spec.long [String.ofList value]], 0)

/-- Reads the arguments of a command; there is no answer if one of them is not known or lacks its value. -/
def arguments? (specs : List OptionSpec) (args : List String) : Option (List Argument) :=
  match args with
  | [] => return []
  | arg :: rest =>
    match arg.toList with
    | ['-', '-'] => return rest.map .word
    | '-' :: '-' :: text => do
      let (found, count) ← long? specs text rest
      return found ++ (← arguments? specs (rest.drop count))
    | '-' :: c :: cs => do
      let (found, count) ← short? specs rest (c :: cs)
      return found ++ (← arguments? specs (rest.drop count))
    | _ => return .word arg :: (← arguments? specs rest)
termination_by args.length
decreasing_by all_goals simp +arith

/-! ### Values -/

/-- The values of an option, one list for each time that it is given. -/
def occurrences (long : String) (args : List Argument) : List (List String) :=
  args.filterMap fun
    | .option name values => if name = long then some values else none
    | .word _ => none

/-- The value of an option that may be given once: an answer without one if it is not given. -/
def single? (long : String) (args : List Argument) : Option (Option String) :=
  match occurrences long args with
  | [] => some none
  | [values] => some values.head?
  | _ => none

/-- Whether an option that stands alone is given at most once. -/
def givenOnce (long : String) (args : List Argument) : Bool :=
  decide ((occurrences long args).length ≤ 1)

/-- The words among the arguments. -/
def words (args : List Argument) : List String :=
  args.filterMap fun
    | .word text => some text
    | .option _ _ => none

/-- A path is not empty. -/
def path? (text : String) : Option String :=
  if text.isEmpty then none else some text

/-- The value of an option that may be given once, read by `read?`. -/
def optional? {α : Type} (long : String) (read? : String → Option α) (args : List Argument) :
    Option (Option α) := do
  match ← single? long args with
  | none => return none
  | some text => return some (← read? text)

/-- The value of an option that has to be given once. -/
def required? {α : Type} (long : String) (read? : String → Option α) (args : List Argument) :
    Option α := do
  (← optional? long read? args)

end SchemaInfer.Command
