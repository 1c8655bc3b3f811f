import SchemaInfer.Json.Parser

/-!
Reading typed documents out of JSON.

A document model is read part by part. A record is an object, whose unknown keys are ignored and whose
known keys must not repeat, or an array of its fields in their fixed order. When a document does not
fit, `Misfit` says where and why: the place is a path of keys and indexes from the document down to the
part that does not fit, or to the record that lacks a field. Parts are read in the order of the document,
so the first one that does not fit is reported. In the text of a document the parts that its model ignores
need only be well written.
-/

namespace SchemaInfer

/-- One step down into a document. -/
inductive Step where
  | key (name : String)
  | index (position : Nat)

/-- Why a part of a document does not fit its model. -/
inductive Misfit.Cause where
  | unreadable
  | expected (what : String)
  | missing (field : String)
  | repeated (field : String)
  | unknownName (name : String)
  | tooManyFields
  | invalidBound (text : String)

/-- A document that does not fit its model. -/
structure Misfit where
  path : List Step
  cause : Misfit.Cause

namespace Misfit

/-- The text of a path: keys joined by dots, indexes in brackets, and a dot for the document itself. -/
def pathText : List Step → String
  | [] => "."
  | steps =>
    let parts := steps.mapIdx fun i step =>
      match step with
      | .key name => if i = 0 then name else "." ++ name
      | .index position => "[" ++ toString position ++ "]"
    String.join parts

def Cause.message : Cause → String
  | unreadable => "not a JSON document"
  | expected what => "expected " ++ what
  | missing field => "missing field '" ++ field ++ "'"
  | repeated field => "repeated field '" ++ field ++ "'"
  | unknownName name => "unknown name '" ++ name ++ "'"
  | tooManyFields => "too many fields"
  | invalidBound text => "invalid maxOccurs '" ++ text ++ "'"

def message (misfit : Misfit) : String :=
  "malformed document at " ++ pathText misfit.path ++ ": " ++ misfit.cause.message

/-- Fails at the current place. -/
def fail {α : Type} (cause : Cause) : Except Misfit α :=
  .error ⟨[], cause⟩

/-- Reads a part one step further down. -/
def within {α : Type} (step : Step) (result : Except Misfit α) : Except Misfit α :=
  result.mapError fun misfit => { misfit with path := step :: misfit.path }

/-- Reads a part inside of which places are not followed. -/
def unplaced {α : Type} (result : Except Misfit α) : Except Misfit α :=
  result.mapError fun misfit => { misfit with path := [] }

end Misfit

namespace Json

open Misfit (fail within)

/-! ### Plain values -/

def asString : Json → Except Misfit String
  | string s => .ok s
  | _ => fail (.expected "a text")

def asBool : Json → Except Misfit Bool
  | bool b => .ok b
  | _ => fail (.expected "true or false")

def asUInt32 : Json → Except Misfit UInt32
  | int n => if 0 ≤ n ∧ n < UInt32.size then .ok (UInt32.ofNat n.toNat) else fail (.expected "an integer")
  | _ => fail (.expected "an integer")

def asInt32 : Json → Except Misfit Int32
  | int n =>
    if Int32.minValue.toInt ≤ n ∧ n ≤ Int32.maxValue.toInt then .ok (Int32.ofInt n)
    else fail (.expected "an integer")
  | _ => fail (.expected "an integer")

def asInt64 : Json → Except Misfit Int64
  | int n =>
    if Int64.minValue.toInt ≤ n ∧ n ≤ Int64.maxValue.toInt then .ok (Int64.ofInt n)
    else fail (.expected "an integer")
  | _ => fail (.expected "an integer")

/-- A number; an integer is rounded to a double. -/
def asDouble : Json → Except Misfit Binary64
  | int n => .ok (Binary64.ofInt n)
  | float x => .ok x
  | _ => fail (.expected "a number")

/-! ### Composite values -/

/-- Reads a part that may be null. -/
def asOption {α : Type} (json : Json) (read : (part : Json) → part = json → Except Misfit α) :
    Except Misfit (Option α) :=
  match json with
  | null => .ok none
  | part => (read part rfl).map some

/-- Reads the items of a list in order. -/
def readAll {α : Type} : (items : List Json) → (start : Nat) →
    (read : (item : Json) → item ∈ items → Except Misfit α) → Except Misfit (List α)
  | [], _, _ => .ok []
  | item :: items, start, read => do
    let first ← within (.index start) (read item List.mem_cons_self)
    let others ← readAll items (start + 1) fun part h => read part (List.mem_cons_of_mem item h)
    return first :: others

/-- Reads an array. -/
def asList {α : Type} (json : Json)
    (read : (item : Json) → sizeOf item < sizeOf json → Except Misfit α) :
    Except Misfit (List α) :=
  match json with
  | array items => readAll items 0 fun item h => read item (sizeOf_lt_of_item h)
  | _ => fail (.expected "an array")

/-- The fields of a record as they stand in a document: the step that leads to each, its name and its
value. An array gives the fields in the order of `fields`. -/
def recordParts (fields : List String) (json : Json) :
    Except Misfit (List (Step × String × { part : Json // sizeOf part < sizeOf json })) :=
  match json with
  | object entries =>
    match fields.find? fun field => decide (1 < (Entries.keys entries).count field) with
    | some field => fail (.repeated field)
    | none =>
      .ok (entries.attach.map fun ⟨(key, value), h⟩ => (.key key, key, ⟨value, sizeOf_lt_of_entry h⟩))
  | array items =>
    .ok ((fields.zip items.attach).mapIdx fun i (name, item) =>
      (.index i, name, ⟨item.1, sizeOf_lt_of_item item.2⟩))
  | _ => fail (.expected "a record")

/-- Reads a record onto its default. `set` puts one field into the record and leaves it alone for a name
that it does not know; `needed` are the fields that have no default. -/
def asRecord {α : Type} (fields needed : List String) (default : α) (json : Json)
    (set : (field : String) → (part : Json) → sizeOf part < sizeOf json → α → Except Misfit α) :
    Except Misfit α := do
  let parts ← json.recordParts fields
  let record ← parts.foldlM (fun acc (step, name, part) => within step (set name part.1 part.2 acc)) default
  match needed.find? fun field => !parts.any fun (_, name, _) => name == field, json with
  | some field, _ => fail (.missing field)
  | none, array items => if fields.length < items.length then fail .tooManyFields else return record
  | none, _ => return record

/-- Reads one needed field of an object. -/
def field {α : Type} (name : String) (json : Json)
    (read : (part : Json) → sizeOf part < sizeOf json → Except Misfit α) : Except Misfit α :=
  match json with
  | object entries =>
    match h : entries.lookup name with
    | some part => read part (sizeOf_lt_of_entry (Entries.mem_of_lookup h))
    | none => fail (.missing name)
  | _ => fail (.expected "an object")

/-- Refuses an object in which one of the given keys repeats. -/
def refuseRepeated (names : List String) : Json → Except Misfit Unit
  | object entries =>
    match names.find? fun name => decide (1 < (Entries.keys entries).count name) with
    | some name => fail (.repeated name)
    | none => .ok ()
  | _ => .ok ()

/-! ### Names -/

/-- Nothing, as a value: null and, if `lenient`, an object without entries. -/
def isUnit (lenient : Bool) : Json → Bool
  | null => true
  | object [] => lenient
  | _ => false

/-- Reads one of a set of names. It stands as a text, or as the only key of an object with nothing for
its value. -/
def asName {α : Type} (lenient : Bool) (ofName? : String → Option α) (json : Json) :
    Except Misfit α :=
  let known (name : String) : Except Misfit α :=
    match ofName? name with
    | some value => .ok value
    | none => fail (.unknownName name)
  match json with
  | string name => known name
  | object [(name, value)] => do
    let choice ← known name
    if value.isUnit lenient then return choice
    else within (.key name) (fail (.expected "nothing"))
  | _ => fail (.expected "a name")

/-- Reads a tag that selects one of a list of alternatives: its name and, if `lenient`, also its number. -/
def asTag {α : Type} (lenient : Bool) (name : α → String) (alternatives : List α) :
    Json → Except Misfit α
  | string text =>
    match alternatives.find? fun choice => name choice == text with
    | some choice => .ok choice
    | none => fail (.unknownName text)
  | int n =>
    if lenient && decide (0 ≤ n) then
      match alternatives[n.toNat]? with
      | some choice => .ok choice
      | none => fail (.expected "a tag")
    else fail (.expected "a tag")
  | _ => fail (.expected "a tag")

/-! ### Texts -/

/-- Reads the text of a document, in which `outline` covers the parts that `read` looks at. -/
def readText {α : Type} (outline : Outline) (read : Json → Except Misfit α) (text : String) :
    Except Misfit α :=
  match parse? outline nestingLimit text with
  | some json => read json
  | none => fail .unreadable

end Json

end SchemaInfer
