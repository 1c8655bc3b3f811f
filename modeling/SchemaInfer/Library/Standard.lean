import SchemaInfer.Library.Basic

/-!
The standard library: functions on texts, numbers, arrays and objects, and a few on any value. Most array
functions are generic in the element type `T`; those that take a function bind its result to `R`.
-/

namespace SchemaInfer.Library

open Ty Signature

private abbrev tVar : Ty := var "T"

private abbrev rVar : Ty := var "R"

/-- Functions on texts. -/
def textFunctions : List Signature := [
  (fixed "upper" [string] string).describedAs "Upper-case a string",
  (fixed "lower" [string] string).describedAs "Lower-case a string",
  fixed "trim" [string] string,
  fixed "capitalize" [string] string,
  fixed "length" [string] integer,
  ((fixed "substring" [string, integer, integer] string).needing 2).describedAs
    "Characters from start up to (excluding) end",
  (((fixed "concat" [any] string).needing 1).repeating).describedAs
    "String concatenation of every argument",
  fixed "contains" [string, string] boolean,
  fixed "startsWith" [string, string] boolean,
  fixed "endsWith" [string, string] boolean,
  fixed "replace" [string, string, string] string,
  fixed "split" [string, string] (array string),
  (fixed "join" [array any, string] string).needing 1,
  (fixed "matches" [string, string] boolean).describedAs "Regular-expression test",
  (fixed "padLeft" [string, integer, string] string).needing 2,
  fixed "toString" [any] string,
  fixed "formatDate" [string, string] string,
  (fixed "parseDate" [string, string] string).needing 1,
  (fixed "now" [] string).describedAs "Current timestamp, ISO 8601",
  fixed "formatNumber" [number, string] string]

/-- Functions on numbers. -/
def numberFunctions : List Signature := [
  fixed "abs" [number] number,
  ((fixed "round" [number, integer] number).needing 1).describedAs
    "Round half away from zero, optionally to a number of decimals",
  fixed "floor" [number] integer,
  fixed "ceil" [number] integer,
  fixed "sqrt" [number] number,
  fixed "pow" [number, number] number,
  fixed "toNumber" [any] number,
  fixed "parseInt" [string] integer,
  fixed "random" [] number]

/-- Functions on arrays. -/
def arrayFunctions : List Signature := [
  fixed "map" [array tVar, function [tVar] rVar] (array rVar),
  fixed "filter" [array tVar, function [tVar] boolean] (array tVar),
  (fixed "reduce" [array tVar, function [rVar, tVar] rVar, rVar] rVar).describedAs
    "Fold with an initial accumulator",
  fixed "sum" [array number] number,
  fixed "avg" [array number] number,
  fixed "count" [array any] integer,
  fixed "first" [array tVar] tVar.orNull,
  fixed "last" [array tVar] tVar.orNull,
  fixed "reverse" [array tVar] (array tVar),
  fixed "sort" [array tVar] (array tVar),
  fixed "sortBy" [array tVar, function [tVar] any] (array tVar),
  (fixed "groupBy" [array tVar, function [tVar] any] openObject).describedAs
    "Object keyed by the lambda result",
  fixed "distinct" [array tVar] (array tVar),
  fixed "flatten" [array (array tVar)] (array tVar),
  fixed "flatMap" [array tVar, function [tVar] (array rVar)] (array rVar),
  fixed "find" [array tVar, function [tVar] boolean] tVar.orNull,
  fixed "some" [array tVar, function [tVar] boolean] boolean,
  fixed "every" [array tVar, function [tVar] boolean] boolean,
  fixed "take" [array tVar, integer] (array tVar),
  fixed "drop" [array tVar, integer] (array tVar),
  fixed "min" [array number] number.orNull,
  fixed "max" [array number] number.orNull,
  fixed "includes" [array tVar, tVar] boolean,
  fixed "append" [array tVar, tVar] (array tVar)]

/-- Functions on objects. -/
def objectFunctions : List Signature := [
  fixed "keys" [openObject] (array string),
  fixed "values" [openObject] (array any),
  fixed "entries" [openObject]
    (array (closedObject [("key", .mandatory string), ("value", .mandatory any)])),
  fixed "hasKey" [openObject, string] boolean,
  (fixed "merge" [openObject, openObject] openObject).describedAs
    "Shallow merge; keys of the second object win"]

/-- Functions on any value. -/
def valueFunctions : List Signature := [
  fixed "typeOf" [any] string,
  fixed "isNull" [any] boolean,
  fixed "isEmpty" [any] boolean,
  (((fixed "coalesce" [tVar] tVar).needing 1).repeating).describedAs "First non-null argument"]

/-- The functions that every transformation may call. -/
def standard : Library :=
  ofSignatures
    (textFunctions ++ numberFunctions ++ arrayFunctions ++ objectFunctions ++ valueFunctions)

end SchemaInfer.Library
