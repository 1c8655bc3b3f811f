import SchemaInfer.JsonSchema.Export
import SchemaInfer.Proofs.Equality
import SchemaInfer.Proofs.Outcomes

/-!
# What is exported as a JSON Schema

A type without functions and variables has a schema. The schema of a type is an object, and the
results below say what that object is for each kind of type: which keywords it has, and that a union is
written in one of two ways, by widening the schema of the one alternative besides null or by listing the
schemas of all.
-/

namespace SchemaInfer

namespace Ty

/-- No function and no type variable stands anywhere in the type. -/
def IsData (t : Ty) : Prop :=
  t.Everywhere fun s => s.isFunction = false ∧ s.isVar = false

instance : DecidablePred IsData :=
  inferInstanceAs (DecidablePred (Everywhere fun s => s.isFunction = false ∧ s.isVar = false))

/-- One type besides null. -/
def isNullable : List Ty → Bool
  | [a, b] => a.isNull != b.isNull
  | _ => false

theorem isNullable_iff {ms : List Ty} : isNullable ms = true ↔
    ∃ m, m.isNull = false ∧ (ms = [m, null] ∨ ms = [null, m]) := by
  constructor
  · intro h
    match ms, h with
    | [a, b], h =>
      cases ha : a.isNull with
      | true =>
        obtain rfl := eq_null_of_isNull ha
        exact ⟨b, by simpa [isNullable, ha] using h, Or.inr rfl⟩
      | false =>
        obtain rfl : b = null := eq_null_of_isNull (by simpa [isNullable, ha] using h)
        exact ⟨a, ha, Or.inl rfl⟩
  · have hnull : null.isNull = true := rfl
    rintro ⟨m, hm, rfl | rfl⟩
    · simp [isNullable, hm, hnull]
    · simp [isNullable, hm, hnull]

theorem mem_nullable_iff {m s : Ty} {ms : List Ty} (h : ms = [m, null] ∨ ms = [null, m]) :
    s ∈ ms ↔ s = m ∨ s = null := by
  rcases h with rfl | rfl
  · simp
  · simp [or_comm]

theorem mem_of_nullable {m : Ty} {ms : List Ty} (h : ms = [m, null] ∨ ms = [null, m]) : m ∈ ms :=
  (mem_nullable_iff h).mpr (Or.inl rfl)

end Ty

theorem Json.stringAt?_object_eq_some_iff {entries : List (String × Json)} {key text : String} :
    (Json.object entries).stringAt? key = some text ↔ entries.lookup key = some (.string text) := by
  change (entries.lookup key).bind string? = some text ↔ _
  constructor
  · intro h
    obtain ⟨value, hvalue, htext⟩ := Option.bind_eq_some_iff.mp h
    cases value with
    | string s =>
      cases htext
      exact hvalue
    | _ => cases htext
  · intro h
    rw [h]
    rfl

namespace JsonSchema

variable {t : Ty} {schema : Json} {schemas : List Json} {ms : List Ty} {ps : Properties}
  {isOpen : Bool}

/-! ### The schemas of the parts -/

theorem ofTypes_eq_ok_iff : ofTypes ms = .ok schemas ↔
    List.Forall₂ (fun m s => ofType m = .ok s) ms schemas := by
  induction ms generalizing schemas with
  | nil =>
    rw [ofTypes, List.forall₂_nil_left_iff]
    exact ⟨fun h => (Except.ok.inj h).symm, fun h => congrArg Except.ok h.symm⟩
  | cons m ms ih =>
    rw [ofTypes, bind_eq_ok_iff, List.forall₂_cons_left_iff]
    refine exists_congr fun s => ?_
    rw [bind_eq_ok_iff]
    constructor
    · rintro ⟨hm, rest, hrest, heq⟩
      exact ⟨rest, hm, ih.mp hrest, (Except.ok.inj heq).symm⟩
    · rintro ⟨rest, hm, hrest, rfl⟩
      exact ⟨hm, rest, ih.mpr hrest, rfl⟩

/-- What a property and its entry among the schemas have in common. -/
def IsPropertySchema (entry : String × Property Ty) (named : String × Json) : Prop :=
  ∃ schema, ofType entry.2.ty = .ok schema ∧
    named = (entry.1, describe entry.2.description schema)

theorem ofProperties_eq_ok_iff {schemas : List (String × Json)} :
    ofProperties ps = .ok schemas ↔ List.Forall₂ IsPropertySchema ps schemas := by
  induction ps generalizing schemas with
  | nil =>
    rw [ofProperties, List.forall₂_nil_left_iff]
    exact ⟨fun h => (Except.ok.inj h).symm, fun h => congrArg Except.ok h.symm⟩
  | cons entry ps ih =>
    obtain ⟨name, p⟩ := entry
    rw [ofProperties, bind_eq_ok_iff, List.forall₂_cons_left_iff]
    constructor
    · rintro ⟨schema, hschema, h⟩
      obtain ⟨rest, hrest, heq⟩ := bind_eq_ok_iff.mp h
      exact ⟨_, rest, ⟨schema, hschema, rfl⟩, ih.mp hrest, (Except.ok.inj heq).symm⟩
    · rintro ⟨_, rest, ⟨schema, hschema, rfl⟩, hrest, rfl⟩
      exact ⟨schema, hschema, bind_eq_ok_iff.mpr ⟨rest, ih.mpr hrest, rfl⟩⟩

section PropertySchemas

variable {named : List (String × Json)} (hnamed : List.Forall₂ IsPropertySchema ps named)
include hnamed

theorem keys_propertySchemas : Entries.keys named = Entries.keys ps := by
  induction hnamed with
  | nil => rfl
  | cons hschema _ ih =>
    obtain ⟨_, _, rfl⟩ := hschema
    rw [Entries.keys, List.map_cons, Entries.keys, List.map_cons]
    exact congrArg _ ih

theorem exists_propertySchema {name : String} {p : Property Ty} (hp : (name, p) ∈ ps) :
    ∃ schema, ofType p.ty = .ok schema ∧ (name, describe p.description schema) ∈ named := by
  obtain ⟨_, hmem, schema, hschema, rfl⟩ := exists_related_of_mem hnamed hp
  exact ⟨schema, hschema, hmem⟩

theorem exists_property {name : String} {s : Json} (hs : (name, s) ∈ named) :
    ∃ p schema, (name, p) ∈ ps ∧ ofType p.ty = .ok schema ∧ s = describe p.description schema := by
  obtain ⟨⟨_, p⟩, hp, schema, hschema, heq⟩ := exists_related_of_mem hnamed.flip hs
  obtain ⟨rfl, rfl⟩ := Prod.mk.inj heq
  exact ⟨p, schema, hp, hschema, rfl⟩

end PropertySchemas

theorem mem_demanded {name : String} :
    name ∈ demanded ps ↔ ∃ p, (name, p) ∈ ps ∧ p.isOptional = false := by
  simp only [demanded, List.mem_map, List.mem_filter, Bool.not_eq_true']
  constructor
  · rintro ⟨⟨_, p⟩, ⟨hp, hoptional⟩, rfl⟩
    exact ⟨p, hp, hoptional⟩
  · rintro ⟨p, hp, hoptional⟩
    exact ⟨(name, p), ⟨hp, hoptional⟩, rfl⟩

theorem ofType_array_eq_ok_iff : ofType (.array t) = .ok schema ↔
    ∃ items, ofType t = .ok items ∧
      schema = .object [("type", .string "array"), ("items", items)] := by
  rw [ofType, bind_eq_ok_iff]
  refine exists_congr fun items => and_congr_right fun _ => ?_
  exact ⟨fun h => (Except.ok.inj h).symm, fun h => congrArg Except.ok h.symm⟩

theorem ofType_object_eq_ok_iff : ofType (.object ps isOpen) = .ok schema ↔
    ∃ schemas, List.Forall₂ IsPropertySchema ps schemas ∧
      schema = ofObject schemas (demanded ps) isOpen := by
  rw [ofType, bind_eq_ok_iff]
  refine exists_congr fun schemas => and_congr ofProperties_eq_ok_iff ?_
  exact ⟨fun h => (Except.ok.inj h).symm, fun h => congrArg Except.ok h.symm⟩

theorem ofType_union_eq_ok_iff : ofType (.union ms) = .ok schema ↔
    ∃ schemas, ofTypes ms = .ok schemas ∧ schema = ofUnion (ms.zip schemas) := by
  rw [ofType, bind_eq_ok_iff]
  refine exists_congr fun schemas => and_congr_right fun _ => ?_
  exact ⟨fun h => (Except.ok.inj h).symm, fun h => congrArg Except.ok h.symm⟩

/-! ### Unions -/

theorem ofUnion_of_not_isNullable (hms : Ty.isNullable ms = false)
    (hlength : ms.length = schemas.length) : ofUnion (ms.zip schemas) = anyOf schemas := by
  have hsnd : (ms.zip schemas).map Prod.snd = schemas := List.map_snd_zip (Nat.le_of_eq hlength.symm)
  unfold ofUnion
  split
  · rename_i m s hfilter
    split
    · rename_i htwo
      rw [List.length_zip, ← hlength, Nat.min_self] at htwo
      obtain ⟨a, b, rfl⟩ := List.length_eq_two.mp htwo
      obtain ⟨sa, sb, rfl⟩ := List.length_eq_two.mp (hlength ▸ htwo)
      cases ha : a.isNull <;> cases hb : b.isNull <;>
        simp [Ty.isNullable, ha, hb] at hms hfilter
    · rw [hsnd]
  · rw [hsnd]

theorem ofUnion_null_last {m : Ty} (hm : m.isNull = false) {nulls : Json} :
    ofUnion [(m, schema), (.null, nulls)] = allowingNull schema := by
  have hnull : Ty.null.isNull = true := rfl
  simp [ofUnion, hm, hnull]

theorem ofUnion_null_first {m : Ty} (hm : m.isNull = false) {nulls : Json} :
    ofUnion [(.null, nulls), (m, schema)] = allowingNull schema := by
  have hnull : Ty.null.isNull = true := rfl
  simp [ofUnion, hm, hnull]

theorem ofType_union_null_last {m : Ty} {inner : Json} (hm : m.isNull = false)
    (hinner : ofType m = .ok inner) : ofType (.union [m, .null]) = .ok (allowingNull inner) := by
  rw [ofType_union_eq_ok_iff]
  refine ⟨[inner, ofKind "null"], ?_, (ofUnion_null_last hm).symm⟩
  exact ofTypes_eq_ok_iff.mpr (.cons hinner (.cons rfl .nil))

theorem ofType_nullable {m : Ty} (hm : m.isNull = false) (hms : ms = [m, .null] ∨ ms = [.null, m])
    (h : ofType (.union ms) = .ok schema) :
    ∃ inner, ofType m = .ok inner ∧ schema = allowingNull inner := by
  obtain ⟨schemas, hschemas, rfl⟩ := ofType_union_eq_ok_iff.mp h
  rw [ofTypes_eq_ok_iff] at hschemas
  rcases hms with rfl | rfl
  · obtain _ | ⟨hinner, _ | ⟨_, _ | _⟩⟩ := hschemas
    exact ⟨_, hinner, ofUnion_null_last hm⟩
  · obtain _ | ⟨_, _ | ⟨hinner, _ | _⟩⟩ := hschemas
    exact ⟨_, hinner, ofUnion_null_first hm⟩

/-- Null is allowed by widening a single `type`, and otherwise by a list of schemas. -/
theorem allowingNull_cases (entries : List (String × Json)) :
    (∃ name, entries.lookup "type" = some (.string name) ∧ allowingNull (.object entries) =
      .object (Entries.insert "type" (.array [.string name, .string "null"]) entries)) ∨
    allowingNull (.object entries) = anyOf [.object entries, ofKind "null"] := by
  unfold allowingNull
  split
  · rename_i entries' name hobject htype
    cases hobject
    exact Or.inl ⟨name, Json.stringAt?_object_eq_some_iff.mp htype, rfl⟩
  · exact Or.inr rfl

/-- The two ways in which a union is written. -/
theorem ofType_union_cases (h : ofType (.union ms) = .ok schema) :
    (∃ m inner, m.isNull = false ∧ (ms = [m, .null] ∨ ms = [.null, m]) ∧
      ofType m = .ok inner ∧ schema = allowingNull inner) ∨
    (Ty.isNullable ms = false ∧ ∃ schemas, List.Forall₂ (fun m s => ofType m = .ok s) ms schemas ∧
      schema = anyOf schemas) := by
  cases hms : Ty.isNullable ms with
  | true =>
    left
    obtain ⟨m, hm, hpair⟩ := Ty.isNullable_iff.mp hms
    obtain ⟨inner, hinner, hschema⟩ := ofType_nullable hm hpair h
    exact ⟨m, inner, hm, hpair, hinner, hschema⟩
  | false =>
    right
    obtain ⟨schemas, hschemas, rfl⟩ := ofType_union_eq_ok_iff.mp h
    rw [ofTypes_eq_ok_iff] at hschemas
    exact ⟨rfl, schemas, hschemas, ofUnion_of_not_isNullable hms hschemas.length_eq⟩

/-! ### Data types have schemas -/

theorem exists_ofType (ht : t.IsData) : ∃ schema, ofType t = .ok schema := by
  induction t with
  | string | number | integer | boolean | null | any => exact ⟨_, rfl⟩
  | var name => cases ht.head.2
  | function params r _ _ => cases ht.head.1
  | array t ih =>
    obtain ⟨items, hitems⟩ := ih (Ty.Everywhere.array_iff.mp ht).2
    exact ⟨_, ofType_array_eq_ok_iff.mpr ⟨items, hitems, rfl⟩⟩
  | object ps isOpen ih =>
    have hps := (Ty.Everywhere.object_iff.mp ht).2
    have hparts : ∀ entry ∈ ps, ∃ named, IsPropertySchema entry named := by
      rintro ⟨name, p⟩ hmem
      obtain ⟨schema, hschema⟩ := ih name p hmem (hps name p hmem)
      exact ⟨_, schema, hschema, rfl⟩
    obtain ⟨schemas, hschemas⟩ := exists_forall₂_of_forall hparts
    exact ⟨_, ofType_object_eq_ok_iff.mpr ⟨schemas, hschemas, rfl⟩⟩
  | union ms ih =>
    have hms := (Ty.Everywhere.union_iff.mp ht).2
    obtain ⟨schemas, hschemas⟩ := exists_forall₂_of_forall fun m hm => ih m hm (hms m hm)
    exact ⟨_, ofType_union_eq_ok_iff.mpr ⟨schemas, ofTypes_eq_ok_iff.mpr hschemas, rfl⟩⟩

/-! ### The keywords of exported schemas -/

/-- The keywords that exported schemas use. -/
def vocabulary : List String :=
  ["type", "items", "properties", "required", "additionalProperties", "anyOf"]

/-- The schema is an object in the vocabulary of exports, and it says nothing besides its `anyOf` if it
has one. -/
structure IsExported (entries : List (String × Json)) : Prop where
  keys : ∀ key ∈ Entries.keys entries, key ∈ vocabulary
  anyOf : "anyOf" ∈ Entries.keys entries → "type" ∉ Entries.keys entries

theorem IsExported.lookup_eq_none {entries : List (String × Json)} (h : IsExported entries)
    {key : String} (hkey : key ∉ vocabulary) : entries.lookup key = none :=
  Entries.lookup_eq_none_iff.mpr fun hmem => hkey (h.keys key hmem)

theorem isExported_anyOf : IsExported [("anyOf", .array schemas)] :=
  ⟨by simp [Entries.keys, vocabulary], by simp [Entries.keys]⟩

theorem IsExported.insert_of_mem {entries : List (String × Json)} (h : IsExported entries)
    {key : String} (hkey : key ∈ Entries.keys entries) (value : Json) :
    IsExported (Entries.insert key value entries) := by
  have hkeys : Entries.keys (Entries.insert key value entries) = Entries.keys entries :=
    Entries.keys_insert_of_mem hkey
  constructor
  · rw [hkeys]
    exact h.keys
  · rw [hkeys]
    exact h.anyOf

theorem exists_isExported (h : ofType t = .ok schema) :
    ∃ entries, schema = .object entries ∧ IsExported entries := by
  induction t generalizing schema with
  | string | number | integer | boolean | null | any =>
    cases h
    exact ⟨_, rfl, by decide, by decide⟩
  | var name => cases h
  | function params r _ _ => cases h
  | array t _ =>
    obtain ⟨items, _, rfl⟩ := ofType_array_eq_ok_iff.mp h
    exact ⟨_, rfl, by simp [Entries.keys, vocabulary], by simp [Entries.keys]⟩
  | object ps isOpen _ =>
    obtain ⟨schemas, _, rfl⟩ := ofType_object_eq_ok_iff.mp h
    exact ⟨_, rfl, by simp [Entries.keys, vocabulary], by simp [Entries.keys]⟩
  | union ms ih =>
    rcases ofType_union_cases h with ⟨m, inner, _, hms, hinner, rfl⟩ | ⟨_, schemas, _, rfl⟩
    · obtain ⟨entries, rfl, hentries⟩ := ih m (Ty.mem_of_nullable hms) hinner
      rcases allowingNull_cases entries with ⟨name, htype, heq⟩ | heq
      · have hkey := Entries.mem_keys_of_mem (Entries.mem_of_lookup htype)
        exact ⟨_, heq, hentries.insert_of_mem hkey _⟩
      · exact ⟨_, heq, isExported_anyOf⟩
    · exact ⟨_, rfl, isExported_anyOf⟩

/-- The schema of a union has a `type` with null beside the name of one type, or it lists the schemas of
all members, where null may have moved. -/
theorem ofType_union_forms (h : ofType (.union ms) = .ok schema) :
    (∃ m name entries, (ms = [m, .null] ∨ ms = [.null, m]) ∧ ofType m = .ok (.object entries) ∧
      entries.lookup "type" = some (.string name) ∧ schema = .object
        (Entries.insert "type" (.array [.string name, .string "null"]) entries)) ∨
    ∃ listed schemas, listed.Perm ms ∧ List.Forall₂ (fun m s => ofType m = .ok s) listed schemas ∧
      schema = anyOf schemas := by
  rcases ofType_union_cases h with ⟨m, inner, _, hms, hinner, rfl⟩ | ⟨_, schemas, hschemas, rfl⟩
  · obtain ⟨entries, rfl, _⟩ := exists_isExported hinner
    rcases allowingNull_cases entries with ⟨name, htype, heq⟩ | heq
    · exact Or.inl ⟨m, name, entries, hms, hinner, htype, heq⟩
    · refine Or.inr ⟨[m, .null], _, ?_, .cons hinner (.cons rfl .nil), heq⟩
      rcases hms with rfl | rfl
      · exact .refl _
      · exact .swap _ _ _
  · exact Or.inr ⟨ms, schemas, .refl _, hschemas, rfl⟩

end JsonSchema

end SchemaInfer
