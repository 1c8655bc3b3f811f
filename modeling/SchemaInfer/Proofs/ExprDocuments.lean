import SchemaInfer.Expr.Document
import SchemaInfer.Proofs.InferenceInvariant
import SchemaInfer.Proofs.RecordReading

/-!
# Expressions are read back

A node is written with its kind in front, then the fields of that kind, then its place if it is known. None
of these keys stands twice, so reading the node comes to reading its fields (`IsNode.ofJson_node`), and each field
is read from what was written under its key (`IsNode.field`). Each kind of node is then read back if its
parts are (`ReadBack`), and so all expressions are. Only numbers that are not finite have no form in JSON.
-/

namespace SchemaInfer

open Misfit (unplaced)

/-! ### Places and constants -/

theorem Location.ofJson_toJson (location : Location) : ofJson location.toJson = .ok location := by
  obtain ⟨file, line, column⟩ := location
  cases file with
  | none =>
    rw [ofJson, toJson]
    dsimp only
    rw [Json.asRecord_object ["line", "column"] rfl (by decide) (by decide)]
    simp [Json.asUInt32_toNat, ok_bind, pure_eq_ok]
  | some file =>
    rw [ofJson, toJson]
    dsimp only
    rw [Json.asRecord_object ["file", "line", "column"] rfl (by decide) (by decide)]
    simp [Json.asOption, Json.asString, Except.map, Json.asUInt32_toNat, ok_bind, pure_eq_ok]

theorem Location.toJson_ne_null (location : Location) : location.toJson ≠ .null := by
  obtain ⟨file, line, column⟩ := location
  cases file <;> simp [toJson]

/-- A constant that JSON has a form for. -/
def Literal.IsFinite : Literal → Prop
  | number x => x.isFinite = true
  | _ => True

theorem Literal.ofJson_toJson {value : Literal} (h : value.IsFinite) :
    ofJson value.toJson = .ok value := by
  cases value with
  | string s => rfl
  | integer n => simp [toJson, ofJson, Json.asInt64_toInt, ok_bind, pure_eq_ok]
  | number x =>
    have hfinite : x.isFinite = true := h
    simp [toJson, ofJson, hfinite, Json.asDouble, ok_bind, pure_eq_ok]
  | boolean b => rfl
  | null => rfl

theorem UnaryOp.asName_symbol (op : UnaryOp) :
    (Json.string op.symbol).asName true ofSymbol? = .ok op := by
  cases op <;> rfl

theorem BinaryOp.asName_symbol (op : BinaryOp) :
    (Json.string op.symbol).asName true ofSymbol? = .ok op := by
  cases op <;> rfl

namespace Expr

/-! ### The constants of an expression -/

mutual

/-- The constants that stand in an expression. -/
def literals : Expr → List Literal
  | literal value _ => [value]
  | path _ _ => []
  | member e _ _ => e.literals
  | unary _ e _ => e.literals
  | binary _ l r _ => l.literals ++ r.literals
  | conditional c t e _ => c.literals ++ t.literals ++ e.literals
  | call _ args _ => literalsAll args
  | map c _ b _ => c.literals ++ b.literals
  | filter c _ b _ => c.literals ++ b.literals
  | lambda _ b _ => b.literals
  | letIn _ v b _ => v.literals ++ b.literals
  | object es _ => literalsEntries es
  | array es _ => literalsAll es

def literalsAll : List Expr → List Literal
  | [] => []
  | e :: es => e.literals ++ literalsAll es

def literalsEntries : List (String × Expr) → List Literal
  | [] => []
  | (_, e) :: es => e.literals ++ literalsEntries es

end

/-- All numbers in the expression are finite. -/
def IsFinite (e : Expr) : Prop :=
  ∀ value ∈ e.literals, value.IsFinite

theorem isFinite_of_mem {e : Expr} {es : List Expr} (h : ∀ value ∈ literalsAll es, value.IsFinite)
    (he : e ∈ es) : e.IsFinite := by
  induction es with
  | nil => cases he
  | cons first es ih =>
    obtain ⟨hfirst, hes⟩ := List.forall_mem_append.mp h
    rcases List.mem_cons.mp he with rfl | he
    · exact hfirst
    · exact ih hes he

theorem isFinite_of_entry {key : String} {e : Expr} {es : List (String × Expr)}
    (h : ∀ value ∈ literalsEntries es, value.IsFinite) (he : (key, e) ∈ es) : e.IsFinite := by
  induction es with
  | nil => cases he
  | cons first es ih =>
    obtain ⟨hfirst, hes⟩ := List.forall_mem_append.mp h
    rcases List.mem_cons.mp he with rfl | he
    · exact hfirst
    · exact ih hes he

theorem toJsonAll_eq_map (es : List Expr) : toJsonAll es = es.map toJson := by
  induction es with
  | nil => rfl
  | cons e es ih => rw [toJsonAll, ih, List.map_cons]

/-- The document of an entry of an object. -/
def entryJson (entry : String × Expr) : Json :=
  .object [("key", .string entry.1), ("value", entry.2.toJson)]

theorem toJsonEntries_eq_map (es : List (String × Expr)) : toJsonEntries es = es.map entryJson := by
  induction es with
  | nil => rfl
  | cons entry es ih => rw [toJsonEntries, ih, List.map_cons, entryJson]

/-! ### Nodes -/

theorem Kind.find?_name (kind : Kind) : (all.find? fun other => other.name == kind.name) = some kind := by
  cases kind <;> rfl

/-- The keys of a node that has its place do not repeat. -/
theorem Kind.nodup_keys (kind : Kind) : ("kind" :: kind.fields ++ ["location"]).Nodup := by
  cases kind <;> decide

/-- The fields are those of a kind of node. -/
def IsNode (kind : Kind) (fields : List (String × Json)) : Prop :=
  Entries.keys fields = kind.fields

namespace IsNode

variable {α : Type} {kind : Kind} {fields : List (String × Json)} {location : Option Location}

theorem nodup_keys (h : IsNode kind fields) :
    ("kind" :: Entries.keys fields ++ ["location"]).Nodup := by
  rw [show Entries.keys fields = kind.fields from h]
  exact kind.nodup_keys

theorem refuseRepeated (h : IsNode kind fields) (names : List String) :
    (node kind fields location).refuseRepeated names = .ok () := by
  apply Json.refuseRepeated_object
  have hkeys := h.nodup_keys
  cases location with
  | some place => simpa [Entries.keys] using hkeys
  | none =>
    have hfront : ("kind" :: Entries.keys fields).Nodup := (List.nodup_append.mp hkeys).1
    simpa [Entries.keys] using hfront

theorem locationOf_node (h : IsNode kind fields) :
    locationOf (node kind fields location) = .ok location := by
  have hfresh : "location" ∉ Entries.keys (("kind", Json.string kind.name) :: fields) := by
    have hkeys := h.nodup_keys
    rw [List.nodup_append] at hkeys
    intro hmem
    exact hkeys.2.2 "location" hmem "location" (List.mem_singleton.mpr rfl) rfl
  have hnone := Entries.lookup_eq_none_iff.mpr hfresh
  cases location with
  | none =>
    rw [locationOf, node, Json.get?, List.append_nil, hnone]
    rfl
  | some place =>
    have hplace : (node kind fields (some place)).get? "location" = some place.toJson := by
      rw [node, Json.get?, List.lookup_append, hnone]
      rfl
    rw [locationOf, hplace]
    dsimp only
    rw [Json.asOption_eq_some place.toJson_ne_null place.ofJson_toJson, Misfit.within_ok]

theorem field (h : IsNode kind fields) {read : Json → Except Misfit α} {name : String} {part : Json}
    (hpart : fields.lookup name = some part) :
    ((node kind fields location).field name fun part _ => read part) = read part := by
  apply Json.field_object
  have hname : name ≠ "kind" := by
    rintro rfl
    have hmem := Entries.mem_keys_of_mem (Entries.mem_of_lookup hpart)
    have hkeys := h.nodup_keys
    exact (List.nodup_cons.mp hkeys).1 (List.mem_append_left _ hmem)
  rw [List.cons_append, List.lookup_cons, beq_false_of_ne hname]
  dsimp only
  rw [List.lookup_append, hpart]
  rfl

/-- Reading a node as it is written comes to reading the fields of its kind. -/
theorem ofJson_node (h : IsNode kind fields) : ofJson (node kind fields location) =
    unplaced (nodeOf (node kind fields location) kind location fun part _ => ofJson part) := by
  have hkind : ((node kind fields location).field "kind" fun part _ =>
      part.asTag true Kind.name Kind.all) = .ok kind := by
    unfold node
    rw [List.cons_append, Json.field_object List.lookup_cons_self, Json.asTag_name kind.find?_name]
  rw [ofJson, h.refuseRepeated, h.locationOf_node, ok_bind, ok_bind, hkind, ok_bind, h.refuseRepeated,
    ok_bind]

end IsNode

/-! ### Reading back, kind by kind -/

/-- The expression is what its document is read as. -/
def ReadBack (e : Expr) : Prop :=
  ofJson e.toJson = .ok e

theorem IsNode.readBack {kind : Kind} {fields : List (String × Json)} {location : Option Location}
    {e : Expr} (h : IsNode kind fields) (hjson : e.toJson = node kind fields location)
    (hread : nodeOf (node kind fields location) kind location (fun part _ => ofJson part) = .ok e) :
    e.ReadBack := by
  rw [ReadBack, hjson, h.ofJson_node]
  exact Misfit.unplaced_eq_ok hread

section ReadBack

variable {object operand left right c t e collection body value : Expr} {location : Option Location}

theorem readBack_literal {value : Literal} (hvalue : value.IsFinite) :
    (literal value location).ReadBack := by
  have hnode : IsNode .literal [("value", value.toJson)] := rfl
  apply hnode.readBack rfl
  simp [nodeOf, hnode.field, Literal.ofJson_toJson hvalue, ok_bind, pure_eq_ok]

theorem readBack_path (p : String) : (path p location).ReadBack := by
  have hnode : IsNode .path [("path", .string p)] := rfl
  apply hnode.readBack rfl
  simp [nodeOf, hnode.field, Json.asString, ok_bind, pure_eq_ok]

theorem readBack_member (property : String) (hobject : object.ReadBack) :
    (member object property location).ReadBack := by
  have hnode : IsNode .member [("object", object.toJson), ("property", .string property)] := rfl
  rw [ReadBack] at hobject
  apply hnode.readBack rfl
  simp [nodeOf, hnode.field, List.lookup_cons, Json.asString, hobject, ok_bind, pure_eq_ok]

theorem readBack_unary (op : UnaryOp) (hoperand : operand.ReadBack) :
    (unary op operand location).ReadBack := by
  have hnode : IsNode .unary [("op", .string op.symbol), ("operand", operand.toJson)] := rfl
  rw [ReadBack] at hoperand
  apply hnode.readBack rfl
  simp [nodeOf, hnode.field, List.lookup_cons, op.asName_symbol, hoperand, ok_bind, pure_eq_ok]

theorem readBack_binary (op : BinaryOp) (hleft : left.ReadBack) (hright : right.ReadBack) :
    (binary op left right location).ReadBack := by
  have hnode : IsNode .binary
      [("op", .string op.symbol), ("left", left.toJson), ("right", right.toJson)] := rfl
  rw [ReadBack] at hleft hright
  apply hnode.readBack rfl
  simp [nodeOf, hnode.field, List.lookup_cons, op.asName_symbol, hleft, hright, ok_bind, pure_eq_ok]

theorem readBack_conditional (hc : c.ReadBack) (ht : t.ReadBack) (he : e.ReadBack) :
    (conditional c t e location).ReadBack := by
  have hnode : IsNode .conditional
      [("condition", c.toJson), ("then_branch", t.toJson), ("else_branch", e.toJson)] := rfl
  rw [ReadBack] at hc ht he
  apply hnode.readBack rfl
  simp [nodeOf, hnode.field, List.lookup_cons, hc, ht, he, ok_bind, pure_eq_ok]

theorem readBack_call (name : String) {args : List Expr} (hargs : ∀ arg ∈ args, arg.ReadBack) :
    (call name args location).ReadBack := by
  have hnode : IsNode .call [("name", .string name), ("args", .array (args.map toJson))] := rfl
  apply hnode.readBack (by rw [toJson, toJsonAll_eq_map])
  simp [nodeOf, hnode.field, List.lookup_cons, Json.asString, Json.asList_map hargs, ok_bind, pure_eq_ok]

theorem readBack_array {elements : List Expr} (helements : ∀ element ∈ elements, element.ReadBack) :
    (array elements location).ReadBack := by
  have hnode : IsNode .array [("elements", .array (elements.map toJson))] := rfl
  apply hnode.readBack (by rw [toJson, toJsonAll_eq_map])
  simp [nodeOf, hnode.field, Json.asList_map helements, ok_bind, pure_eq_ok]

theorem paramsOf_paramsJson (params : List String) : paramsOf (paramsJson params) = .ok params :=
  Json.asList_strings params

theorem functionOf_object (params : List String) (hbody : body.ReadBack) :
    (functionOf (.object [("params", paramsJson params), ("body", body.toJson)]) fun part _ =>
      ofJson part) = .ok (params, body) := by
  rw [ReadBack] at hbody
  rw [functionOf, Json.asRecord_object ["params", "body"] rfl (by decide) (by decide)]
  simp [paramsOf_paramsJson, hbody, ok_bind, pure_eq_ok]

theorem readBack_map (params : List String) (hcollection : collection.ReadBack)
    (hbody : body.ReadBack) : (map collection params body location).ReadBack := by
  have hnode : IsNode .map [("collection", collection.toJson),
      ("lambda", .object [("params", paramsJson params), ("body", body.toJson)])] := rfl
  rw [ReadBack] at hcollection
  apply hnode.readBack rfl
  simp [nodeOf, hnode.field, List.lookup_cons, hcollection, functionOf_object params hbody, ok_bind, pure_eq_ok]

theorem readBack_filter (params : List String) (hcollection : collection.ReadBack)
    (hbody : body.ReadBack) : (filter collection params body location).ReadBack := by
  have hnode : IsNode .filter [("collection", collection.toJson),
      ("lambda", .object [("params", paramsJson params), ("body", body.toJson)])] := rfl
  rw [ReadBack] at hcollection
  apply hnode.readBack rfl
  simp [nodeOf, hnode.field, List.lookup_cons, hcollection, functionOf_object params hbody, ok_bind, pure_eq_ok]

theorem readBack_lambda (params : List String) (hbody : body.ReadBack) :
    (lambda params body location).ReadBack := by
  have hnode : IsNode .lambda [("params", paramsJson params), ("body", body.toJson)] := rfl
  rw [ReadBack] at hbody
  apply hnode.readBack rfl
  simp [nodeOf, hnode.field, List.lookup_cons, paramsOf_paramsJson, hbody, ok_bind, pure_eq_ok]

theorem readBack_letIn (name : String) (hvalue : value.ReadBack) (hbody : body.ReadBack) :
    (letIn name value body location).ReadBack := by
  have hnode : IsNode .letIn
      [("name", .string name), ("value", value.toJson), ("body", body.toJson)] := rfl
  rw [ReadBack] at hvalue hbody
  apply hnode.readBack rfl
  simp [nodeOf, hnode.field, List.lookup_cons, Json.asString, hvalue, hbody, ok_bind, pure_eq_ok]

theorem entryOf_entryJson {entry : String × Expr} (hvalue : entry.2.ReadBack) :
    (entryOf (entryJson entry) fun part _ => ofJson part) = .ok entry := by
  rw [ReadBack] at hvalue
  rw [entryOf, entryJson, Json.asRecord_object ["key", "value"] rfl (by decide) (by decide)]
  simp [Json.asString, hvalue, ok_bind, pure_eq_ok]

theorem readBack_object {entries : List (String × Expr)}
    (hentries : ∀ entry ∈ entries, entry.2.ReadBack) : (Expr.object entries location).ReadBack := by
  have hnode : IsNode .object [("entries", .array (entries.map entryJson))] := rfl
  have hread : ((Json.array (entries.map entryJson)).asList fun item _ =>
      entryOf item fun part _ => ofJson part) = .ok entries := by
    apply Json.asList_map
    intro entry hentry
    exact entryOf_entryJson (hentries entry hentry)
  apply hnode.readBack (by rw [toJson, toJsonEntries_eq_map])
  simp [nodeOf, hnode.field, hread, ok_bind, pure_eq_ok]

end ReadBack

/-- An expression whose numbers are finite is read back from its document. -/
theorem ofJson_toJson_of_isFinite (e : Expr) (hfinite : e.IsFinite) : ofJson e.toJson = .ok e := by
  change e.ReadBack
  induction e with
  | literal value location => exact readBack_literal (hfinite value (List.mem_singleton.mpr rfl))
  | path p location => exact readBack_path p
  | member object property location ih => exact readBack_member property (ih hfinite)
  | unary op operand location ih => exact readBack_unary op (ih hfinite)
  | binary op left right location ihleft ihright =>
    obtain ⟨hleft, hright⟩ := List.forall_mem_append.mp hfinite
    exact readBack_binary op (ihleft hleft) (ihright hright)
  | conditional c t e location ihc iht ihe =>
    obtain ⟨hboth, he⟩ := List.forall_mem_append.mp hfinite
    obtain ⟨hc, ht⟩ := List.forall_mem_append.mp hboth
    exact readBack_conditional (ihc hc) (iht ht) (ihe he)
  | call name args location ih _ =>
    apply readBack_call
    intro arg harg
    exact ih arg harg (isFinite_of_mem hfinite harg)
  | map collection params body location ihcollection ihbody =>
    obtain ⟨hcollection, hbody⟩ := List.forall_mem_append.mp hfinite
    exact readBack_map params (ihcollection hcollection) (ihbody hbody)
  | filter collection params body location ihcollection ihbody =>
    obtain ⟨hcollection, hbody⟩ := List.forall_mem_append.mp hfinite
    exact readBack_filter params (ihcollection hcollection) (ihbody hbody)
  | lambda params body location ih => exact readBack_lambda params (ih hfinite)
  | letIn name value body location ihvalue ihbody =>
    obtain ⟨hvalue, hbody⟩ := List.forall_mem_append.mp hfinite
    exact readBack_letIn name (ihvalue hvalue) (ihbody hbody)
  | object entries location ih =>
    apply readBack_object
    rintro ⟨key, value⟩ hentry
    exact ih key value hentry (isFinite_of_entry hfinite hentry)
  | array elements location ih =>
    apply readBack_array
    intro element helement
    exact ih element helement (isFinite_of_mem hfinite helement)

/-- Places with and without a file, a negative zero, and a function inside a call. -/
theorem ofJson_toJson_of_isFinite_of_reduce :
    let zero : Literal := .number ⟨0x8000000000000000⟩
    let total : Expr := .binary .add (.path "acc" (some ⟨none, 3, 7⟩)) (.literal zero none) none
    let call : Expr := .call "reduce" [.array [.literal (.integer (-5)) none] none,
      .lambda ["acc", "x"] total (some ⟨some "a/b.utlx", 3, 1⟩),
      .object [("", .literal .null none)] none] none
    call.IsFinite ∧ ofJson call.toJson = .ok call := by
  intro zero total call
  have hfinite : call.IsFinite := by
    intro value hvalue
    have hliterals : call.literals = [.integer (-5), zero, .null] := rfl
    rw [hliterals] at hvalue
    simp only [List.mem_cons, List.not_mem_nil, or_false] at hvalue
    rcases hvalue with rfl | rfl | rfl
    · trivial
    · rfl
    · trivial
  exact ⟨hfinite, ofJson_toJson_of_isFinite call hfinite⟩

end Expr

end SchemaInfer
