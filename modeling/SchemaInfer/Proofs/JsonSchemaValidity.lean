import SchemaInfer.Proofs.JsonEquality
import SchemaInfer.Proofs.JsonSchemaImport
import SchemaInfer.Proofs.Values

/-!
# The values that a JSON Schema allows

`JsonSchema.Valid` gives the keywords of exported schemas their meaning: each keyword is a condition of
its own on the value, and one that speaks of objects or of arrays says nothing about other values. The
schema of a data type allows exactly the values that conform to the type. Where null is added to a type
by widening its `type` keyword, the other keywords stay in place, and it is their silence about null that
makes this right.

Versions of JSON Schema differ in whether `1.0` is an integer. Validity therefore takes a function that
says which doubles count as which integers, and the result holds for all of them.
-/

namespace SchemaInfer

namespace Json

variable {whole : Binary64 → Option Int} {v : Json}

/-! ### Doubles that count as integers -/

/-- The value with the doubles that count as integers written as integers. -/
def withWhole (whole : Binary64 → Option Int) : Json → Json
  | float x => (whole x).elim (float x) int
  | array items => array (items.map (withWhole whole))
  | object entries => object (entries.map fun entry => (entry.1, withWhole whole entry.2))
  | null => null
  | bool b => bool b
  | int n => int n
  | string s => string s
termination_by v => sizeOf v
decreasing_by
  · exact sizeOf_lt_of_item ‹_›
  · exact sizeOf_lt_of_entry ‹_›

/-- If no double counts as an integer, values are as they are written. -/
theorem withWhole_none : v.withWhole (fun _ => none) = v := by
  induction v with
  | null | bool _ | int _ | float _ | string _ => simp [withWhole]
  | array items ih =>
    rw [withWhole, (List.map_congr_left ih).trans (List.map_id' items)]
  | object entries ih =>
    rw [withWhole]
    congr 1
    refine (List.map_congr_left fun entry hentry => ?_).trans (List.map_id' entries)
    rw [ih entry.1 entry.2 hentry]

theorem withWhole_eq_null_iff : v.withWhole whole = null ↔ v = null := by
  cases v with
  | float x => cases hx : whole x <;> simp [withWhole, hx]
  | _ => simp [withWhole]

theorem withWhole_eq_array_iff {items : List Json} : v.withWhole whole = array items ↔
    ∃ items', v = array items' ∧ items = items'.map (withWhole whole) := by
  cases v with
  | float x => cases hx : whole x <;> simp [withWhole, hx]
  | _ => simp [withWhole, eq_comm]

theorem withWhole_eq_object_iff {entries : List (String × Json)} :
    v.withWhole whole = object entries ↔ ∃ entries', v = object entries' ∧
      entries = entries'.map fun entry => (entry.1, entry.2.withWhole whole) := by
  cases v with
  | float x => cases hx : whole x <;> simp [withWhole, hx]
  | _ => simp [withWhole, eq_comm]

/-! ### Kinds of values -/

/-- The names under `type` that allow the value. -/
def kinds (whole : Binary64 → Option Int) : Json → List String
  | null => ["null"]
  | bool _ => ["boolean"]
  | int _ => ["integer", "number"]
  | float x => if (whole x).isSome then ["integer", "number"] else ["number"]
  | string _ => ["string"]
  | array _ => ["array"]
  | object _ => ["object"]

/-- The value is of the kind, or of one of the kinds, that `type` names. -/
def OfKind (whole : Binary64 → Option Int) (v : Json) : Json → Prop
  | string name => name ∈ v.kinds whole
  | array names => ∃ name ∈ v.kinds whole, string name ∈ names
  | _ => False

theorem null_mem_kinds_iff : "null" ∈ v.kinds whole ↔ v = null := by
  cases v with
  | float x => cases hx : whole x <;> simp [kinds, hx]
  | _ => simp [kinds]

theorem ofKind_orNull_iff {name : String} :
    v.OfKind whole (array [string name, string "null"]) ↔
      v.OfKind whole (string name) ∨ v = null := by
  rw [← @null_mem_kinds_iff whole v]
  simp only [OfKind, List.mem_cons, string.injEq, List.not_mem_nil, or_false]
  constructor
  · rintro ⟨kind, hkind, rfl | rfl⟩
    · exact Or.inl hkind
    · exact Or.inr hkind
  · rintro (hkind | hnull)
    · exact ⟨name, hkind, Or.inl rfl⟩
    · exact ⟨"null", hnull, Or.inr rfl⟩

end Json

namespace JsonSchema

open Json (Conforms)

variable {whole : Binary64 → Option Int} {v schema s : Json} {t : Ty} {ps : Properties}
  {entries entries' : List (String × Json)}

/-- The value meets a schema: it meets each of the keywords. -/
def Valid (whole : Binary64 → Option Int) (v schema : Json) : Prop :=
  match schema with
  | .bool allowed => allowed = true
  | .object keywords =>
    (∀ names, keywords.lookup "type" = some names → v.OfKind whole names) ∧
    (∀ items s, v = .array items → (_h : keywords.lookup "items" = some s) →
      ∀ item ∈ items, Valid whole item s) ∧
    (∀ entries schemas, v = .object entries →
      (_h : keywords.lookup "properties" = some (.object schemas)) →
      ∀ name s w, (_hs : (name, s) ∈ schemas) → (name, w) ∈ entries → Valid whole w s) ∧
    (∀ entries names, v = .object entries → keywords.lookup "required" = some (.array names) →
      ∀ name, .string name ∈ names → name ∈ Entries.keys entries) ∧
    (∀ entries, v = .object entries → keywords.lookup "additionalProperties" = some (.bool false) →
      ∀ name ∈ Entries.keys entries, ∃ schemas,
        keywords.lookup "properties" = some (.object schemas) ∧ name ∈ Entries.keys schemas) ∧
    (∀ schemas, (_h : keywords.lookup "anyOf" = some (.array schemas)) →
      ∃ s, ∃ _hs : s ∈ schemas, Valid whole v s)
  | _ => False
termination_by sizeOf schema
decreasing_by
  · exact Json.sizeOf_lt_of_entry (Entries.mem_of_lookup _h)
  · exact Nat.lt_trans (Json.sizeOf_lt_of_entry _hs)
      (Json.sizeOf_lt_of_entry (Entries.mem_of_lookup _h))
  · exact Nat.lt_trans (Json.sizeOf_lt_of_item _hs)
      (Json.sizeOf_lt_of_entry (Entries.mem_of_lookup _h))

/-! ### The keywords of exported schemas -/

theorem valid_congr (h : SameExcept ["description"] entries entries') :
    Valid whole v (.object entries) ↔ Valid whole v (.object entries') := by
  rw [Valid, Valid]
  simp only [h "type" (by decide), h "items" (by decide), h "properties" (by decide),
    h "required" (by decide), h "additionalProperties" (by decide), h "anyOf" (by decide)]

theorem valid_describe_iff (description : Option String) :
    Valid whole v (describe description schema) ↔ Valid whole v schema := by
  unfold describe
  split
  · exact valid_congr (.insert List.mem_cons_self _)
  · rfl

theorem valid_empty : Valid whole v (.object []) := by
  simp [Valid]

theorem valid_ofKind_iff {name : String} :
    Valid whole v (ofKind name) ↔ name ∈ v.kinds whole := by
  simp [ofKind, Valid, Json.OfKind, List.lookup_cons]

theorem valid_anyOf_iff {schemas : List Json} :
    Valid whole v (anyOf schemas) ↔ ∃ s ∈ schemas, Valid whole v s := by
  simp [anyOf, Valid, List.lookup_cons]

theorem valid_array_iff :
    Valid whole v (.object [("type", .string "array"), ("items", s)]) ↔
      ∃ items, v = .array items ∧ ∀ item ∈ items, Valid whole item s := by
  cases v with
  | array items => simp [Valid, Json.OfKind, Json.kinds, List.lookup_cons]
  | float x => cases hx : whole x <;> simp [Valid, Json.OfKind, Json.kinds, List.lookup_cons, hx]
  | _ => simp [Valid, Json.OfKind, Json.kinds, List.lookup_cons]

theorem valid_ofObject_iff {schemas : List (String × Json)} {names : List String} {isOpen : Bool} :
    Valid whole v (ofObject schemas names isOpen) ↔ ∃ entries, v = .object entries ∧
      (∀ name s w, (name, s) ∈ schemas → (name, w) ∈ entries → Valid whole w s) ∧
      (∀ name ∈ names, name ∈ Entries.keys entries) ∧
      (isOpen = false → ∀ name ∈ Entries.keys entries, name ∈ Entries.keys schemas) := by
  cases v with
  | object entries => simp [ofObject, Valid, Json.OfKind, Json.kinds, List.lookup_cons]
  | float x =>
    cases hx : whole x <;> simp [ofObject, Valid, Json.OfKind, Json.kinds, List.lookup_cons, hx]
  | _ => simp [ofObject, Valid, Json.OfKind, Json.kinds, List.lookup_cons]

/-- Null besides the values of a schema. If the schema has a single `type`, that is widened, and the
other keywords have nothing to say about null. -/
theorem valid_allowingNull_iff (hentries : IsExported entries) :
    Valid whole v (allowingNull (.object entries)) ↔ Valid whole v (.object entries) ∨ v = .null := by
  rcases allowingNull_cases entries with ⟨name, htype, heq⟩ | heq
  · have hany : entries.lookup "anyOf" = none := by
      refine Entries.lookup_eq_none_iff.mpr fun hmem => hentries.anyOf hmem ?_
      exact Entries.mem_keys_of_mem (Entries.mem_of_lookup htype)
    have hother : ∀ key, key ≠ "type" → (Entries.insert "type"
        (.array [.string name, .string "null"]) entries).lookup key = entries.lookup key :=
      fun key hkey => Entries.lookup_insert_of_ne hkey
    rw [heq, Valid, Valid]
    simp only [hother _ (show "items" ≠ "type" by decide), hother _ (show "properties" ≠ "type" by decide),
      hother _ (show "required" ≠ "type" by decide),
      hother _ (show "additionalProperties" ≠ "type" by decide),
      hother _ (show "anyOf" ≠ "type" by decide), Entries.lookup_insert_self, htype, hany,
      Option.some.injEq, forall_eq', Json.ofKind_orNull_iff]
    by_cases hnull : v = .null
    · subst hnull
      simp
    · simp [hnull]
  · rw [heq, valid_anyOf_iff]
    simp [valid_ofKind_iff, Json.null_mem_kinds_iff]

/-! ### Schemas of types -/

theorem valid_properties_iff {schemas entries : List (String × Json)}
    (hschemas : List.Forall₂ IsPropertySchema ps schemas)
    (hps : ∀ name p schema w, (name, p) ∈ ps → ofType p.ty = .ok schema →
      (Valid whole w schema ↔ Conforms (w.withWhole whole) p.ty)) :
    (∀ name s w, (name, s) ∈ schemas → (name, w) ∈ entries → Valid whole w s) ↔
      ∀ name p w, (name, p) ∈ ps → (name, w) ∈ entries → Conforms (w.withWhole whole) p.ty := by
  constructor
  · intro hvalid name p w hp hw
    obtain ⟨schema, hschema, hmem⟩ := exists_propertySchema hschemas hp
    have hdescribed := hvalid name _ w hmem hw
    exact (hps name p schema w hp hschema).mp ((valid_describe_iff _).mp hdescribed)
  · intro hconforms name s w hs hw
    obtain ⟨p, schema, hp, hschema, rfl⟩ := exists_property hschemas hs
    rw [valid_describe_iff, hps name p schema w hp hschema]
    exact hconforms name p w hp hw

theorem keys_withWhole {entries : List (String × Json)} :
    Entries.keys (entries.map fun entry => (entry.1, entry.2.withWhole whole)) =
      Entries.keys entries := by
  simp [Entries.keys, Function.comp_def]

/-- The schema of a type allows what conforms to the type. -/
theorem valid_iff_conforms (hschema : ofType t = .ok schema) :
    Valid whole v schema ↔ Conforms (v.withWhole whole) t := by
  induction t generalizing schema v with
  | string | number | integer | boolean | null =>
    cases hschema
    rw [valid_ofKind_iff, Ty.conforms_iff_admits]
    cases v with
    | float x => cases hx : whole x <;> simp [Json.kinds, Json.withWhole, Ty.admits, hx]
    | _ => simp [Json.kinds, Json.withWhole, Ty.admits]
  | any =>
    cases hschema
    exact ⟨fun _ => .any, fun _ => valid_empty⟩
  | var name => cases hschema
  | function params r _ _ => cases hschema
  | array t ih =>
    obtain ⟨items, hitems, rfl⟩ := ofType_array_eq_ok_iff.mp hschema
    have hitem : ∀ w, Valid whole w items ↔ Conforms (w.withWhole whole) t := fun w => ih hitems
    rw [valid_array_iff, Ty.conforms_array_iff]
    simp [Json.withWhole_eq_array_iff, hitem]
  | object ps isOpen ih =>
    obtain ⟨schemas, hschemas, rfl⟩ := ofType_object_eq_ok_iff.mp hschema
    have hproperties := fun entries => @valid_properties_iff whole ps schemas entries hschemas
      fun name p schema w hp => ih name p hp
    rw [valid_ofObject_iff, Ty.conforms_object_iff, keys_propertySchemas hschemas]
    constructor
    · rintro ⟨entries, rfl, hvalid, hpresent, hclosed⟩
      refine ⟨_, Json.withWhole_eq_object_iff.mpr ⟨entries, rfl, rfl⟩, ?_, ?_, ?_⟩
      · intro name p hp hoptional
        rw [keys_withWhole]
        exact hpresent name (mem_demanded.mpr ⟨p, hp, hoptional⟩)
      · intro name p w hp hw
        obtain ⟨⟨_, w⟩, hmem, heq⟩ := List.mem_map.mp hw
        obtain ⟨rfl, rfl⟩ := Prod.mk.inj heq
        exact (hproperties entries).mp hvalid _ p w hp hmem
      · rw [keys_withWhole]
        exact hclosed
    · rintro ⟨_, heq, hpresent, hconforms, hclosed⟩
      obtain ⟨entries, rfl, rfl⟩ := Json.withWhole_eq_object_iff.mp heq
      rw [keys_withWhole] at hpresent hclosed
      refine ⟨entries, rfl, (hproperties entries).mpr ?_, ?_, hclosed⟩
      · intro name p w hp hw
        exact hconforms name p _ hp (List.mem_map.mpr ⟨(name, w), hw, rfl⟩)
      · intro name hname
        obtain ⟨p, hp, hoptional⟩ := mem_demanded.mp hname
        exact hpresent name p hp hoptional
  | union ms ih =>
    rw [Ty.conforms_iff_alternatives, Ty.alternatives]
    rcases ofType_union_cases hschema with
      ⟨m, inner, _, hpair, hinner, rfl⟩ | ⟨_, schemas, hschemas, rfl⟩
    · obtain ⟨entries, rfl, hentries⟩ := exists_isExported hinner
      have hmem := Ty.mem_of_nullable hpair
      have hnull : Conforms (v.withWhole whole) .null ↔ v = .null := by
        rw [Ty.conforms_null_iff, Json.withWhole_eq_null_iff]
      rw [valid_allowingNull_iff hentries, ih m hmem hinner]
      rcases hpair with rfl | rfl
      · simp [hnull]
      · simp [hnull, or_comm]
    · rw [valid_anyOf_iff]
      constructor
      · rintro ⟨s, hs, hvalid⟩
        obtain ⟨m, hm, hschema⟩ := exists_related_of_mem hschemas.flip hs
        exact ⟨m, hm, (ih m hm hschema).mp hvalid⟩
      · rintro ⟨m, hm, hconforms⟩
        obtain ⟨s, hs, hschema⟩ := exists_related_of_mem hschemas hm
        exact ⟨s, hs, (ih m hm hschema).mpr hconforms⟩

/-- **The schema of a type allows exactly its values.** A data type has a schema, and a value is valid
against it if and only if it conforms to the type: as it is written, and also when doubles count as
integers, whichever of them do. -/
theorem valid_ofType_iff_conforms (hdata : t.IsData) :
    ∃ schema, ofType t = .ok schema ∧ ∀ v, (Valid (fun _ => none) v schema ↔ Conforms v t) ∧
      ∀ whole, Valid whole v schema ↔ Conforms (v.withWhole whole) t := by
  obtain ⟨schema, hschema⟩ := exists_ofType hdata
  refine ⟨schema, hschema, fun v => ⟨?_, fun whole => valid_iff_conforms hschema⟩⟩
  rw [valid_iff_conforms hschema, Json.withWhole_none]

/-- Null is allowed where the schema of the lines was widened, and a key that is not declared is not. -/
theorem valid_ofType_iff_conforms_of_nullable :
    let t : Ty := .object
      [("lines", .mandatory (.union [.null, .array .number])),
        ("note", .optional (.union [.any, .string, .null]))] false
    let missing : Json := .object [("lines", .null)]
    let extra : Json := .object [("lines", .array [.int 1]), ("total", .int 1)]
    t.IsData ∧ ∃ schema, ofType t = .ok schema ∧ Valid (fun _ => none) missing schema ∧
      ¬ Valid (fun _ => none) extra schema := by
  intro t missing extra
  have hdata : t.IsData := by decide
  obtain ⟨schema, hschema, hvalid⟩ := valid_ofType_iff_conforms hdata
  refine ⟨hdata, schema, hschema, (hvalid missing).1.mpr (by decide), ?_⟩
  rw [(hvalid extra).1]
  decide

end JsonSchema

end SchemaInfer
