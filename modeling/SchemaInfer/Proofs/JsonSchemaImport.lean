import SchemaInfer.JsonSchema.Import
import SchemaInfer.Proofs.JsonSchemaExport

/-!
# Reading an exported JSON Schema

`Ty.throughSchema` says what becomes of a type on its way through a schema: the occurrence counts of
properties are reset to those that go with being optional or not, null moves behind the type that it
is added to, and what is equal afterwards is one alternative. `reads_ofType` shows that importing the
exported schema gives exactly this, wherever the schema stands in a document.
-/

namespace SchemaInfer

/-! ### Types on their way through a schema -/

namespace Ty

/-- Null as the second of two types. -/
def nullLast : List Ty → List Ty
  | [null, t] => [t, null]
  | ts => ts

/-- A property as a schema has it: its type, whether it may be absent, and its description. -/
def writtenProperty (p : Property Ty) (ty : Ty) : Property Ty :=
  { (if p.isOptional then Property.optional ty else Property.mandatory ty) with
    description := p.description }

mutual

/-- The type that comes back when a type is exported and imported. -/
def throughSchema : Ty → Ty
  | array t => array t.throughSchema
  | object ps isOpen => object (propertiesThroughSchema ps) isOpen
  | union ms => oneOf (nullLast (allThroughSchema ms))
  | var name => var name
  | function params r => function params r
  | string => string
  | number => number
  | integer => integer
  | boolean => boolean
  | null => null
  | any => any

def allThroughSchema : List Ty → List Ty
  | [] => []
  | t :: ts => t.throughSchema :: allThroughSchema ts

def propertiesThroughSchema : List (String × Property Ty) → List (String × Property Ty)
  | [] => []
  | (name, p) :: ps => (name, writtenProperty p p.ty.throughSchema) :: propertiesThroughSchema ps

end

theorem allThroughSchema_eq_map (ts : List Ty) : allThroughSchema ts = ts.map throughSchema := by
  induction ts with
  | nil => rfl
  | cons t ts ih => rw [allThroughSchema, ih, List.map_cons]

theorem propertiesThroughSchema_eq_map (ps : Properties) : propertiesThroughSchema ps =
    ps.map fun entry => (entry.1, writtenProperty entry.2 entry.2.ty.throughSchema) := by
  induction ps with
  | nil => rfl
  | cons entry ps ih => rw [propertiesThroughSchema, ih, List.map_cons]

theorem keys_propertiesThroughSchema (ps : Properties) :
    Entries.keys (propertiesThroughSchema ps) = Entries.keys ps := by
  rw [propertiesThroughSchema_eq_map, Entries.keys, Entries.keys, List.map_map]
  rfl

theorem isNull_throughSchema {t : Ty} (ht : t.isUnion = false) :
    t.throughSchema.isNull = t.isNull := by
  cases t with
  | union ms => cases ht
  | _ => rfl

theorem isNullable_throughSchema {ms : List Ty} (hms : ∀ m ∈ ms, m.isUnion = false) :
    isNullable (ms.map throughSchema) = isNullable ms := by
  match ms with
  | [] | [_] | _ :: _ :: _ :: _ => rfl
  | [a, b] =>
    have ha := isNull_throughSchema (hms a List.mem_cons_self)
    have hb := isNull_throughSchema (hms b (List.mem_cons_of_mem _ List.mem_cons_self))
    rw [List.map_cons, List.map_cons, List.map_nil, isNullable, isNullable, ha, hb]

theorem nullLast_of_null_last (t : Ty) : nullLast [t, null] = [t, null] := by
  cases t <;> rfl

theorem nullLast_of_not_isNullable {ts : List Ty} (h : isNullable ts = false) :
    nullLast ts = ts := by
  unfold nullLast
  split
  · rename_i t
    have hnull : t.isNull = true := by simpa [isNullable, isNull] using h
    rw [eq_null_of_isNull hnull]
  · rfl

end Ty

namespace JsonSchema

variable {deref : String → Except ImportError Ty} {path name : String} {t : Ty} {schema : Json}
  {entries entries' : List (String × Json)} {ms : List Ty} {ps : Properties}

/-! ### Keywords that make no difference -/

/-- The same values under all keys but some. -/
def SameExcept (ignored : List String) (entries entries' : List (String × Json)) : Prop :=
  ∀ key ∉ ignored, entries.lookup key = entries'.lookup key

theorem SameExcept.insert {ignored : List String} {key : String} (hkey : key ∈ ignored)
    (value : Json) : SameExcept ignored (Entries.insert key value entries) entries := by
  intro other hother
  apply Entries.lookup_insert_of_ne
  rintro rfl
  exact hother hkey

theorem requiredNames_congr (h : SameExcept ["type", "description"] entries entries') :
    requiredNames entries = requiredNames entries' := by
  rw [requiredNames, requiredNames, h "required" (by decide)]

theorem convertObject_congr (h : SameExcept ["type", "description"] entries entries') :
    convertObject deref path entries = convertObject deref path entries' := by
  have hproperties := h "properties" (by decide)
  rw [convertObject, convertObject, convertDeclared, convertDeclared, requiredNames_congr h]
  simp only [isOpen, h "additionalProperties" (by decide)]
  -- the match keeps the equation of its look-up for termination, which `rw` cannot rewrite
  generalize entries.lookup "properties" = found at hproperties ⊢
  subst hproperties
  rfl

theorem convertArray_congr (h : SameExcept ["type", "description"] entries entries') :
    convertArray deref path entries = convertArray deref path entries' := by
  have hprefix := h "prefixItems" (by decide)
  have hitems := h "items" (by decide)
  rw [convertArray, convertArray, convertPositions, convertPositions, convertOthers, convertOthers]
  generalize entries.lookup "prefixItems" = positions at hprefix ⊢
  generalize entries.lookup "items" = others at hitems ⊢
  subst hprefix hitems
  rfl

theorem convertNamed_congr (h : SameExcept ["type", "description"] entries entries') :
    convertNamed deref path entries name = convertNamed deref path entries' name := by
  rw [convertNamed.eq_def, convertNamed.eq_def, convertArray_congr h, convertObject_congr h]

theorem convertTyped_congr (h : SameExcept ["description"] entries entries') :
    convertTyped deref path entries = convertTyped deref path entries' := by
  have hnamed : SameExcept ["type", "description"] entries entries' :=
    fun key hkey => h key (fun hmem => hkey (List.mem_cons_of_mem _ hmem))
  rw [convertTyped, convertTyped]
  simp only [h "type" (by decide), Entries.hasKey, h "properties" (by decide),
    h "required" (by decide), h "items" (by decide), h "prefixItems" (by decide),
    convertObject_congr hnamed, convertArray_congr hnamed, convertNamed_congr hnamed]
  rfl

theorem convertCombinator_congr {keyword : String} (h : entries.lookup keyword = entries'.lookup keyword) :
    convertCombinator deref path keyword entries = convertCombinator deref path keyword entries' := by
  rw [convertCombinator, convertCombinator]
  generalize entries.lookup keyword = found at h ⊢
  subst h
  rfl

theorem convertAlternatives_congr {base : Ty} (h : SameExcept ["description"] entries entries') :
    convertAlternatives deref path base entries = convertAlternatives deref path base entries' := by
  rw [convertAlternatives, convertAlternatives, convertCombinator_congr (h "oneOf" (by decide)),
    convertCombinator_congr (h "anyOf" (by decide))]

/-- The description of a schema has no influence on its type. -/
theorem convert_congr (h : SameExcept ["description"] entries entries') :
    convert deref path (.object entries) = convert deref path (.object entries') := by
  rw [convert, convert, convertBody, convertBody, convertInline, convertInline]
  simp only [nullableType, h "$ref" (by decide), h "nullable" (by decide), h "const" (by decide),
    h "enum" (by decide), convertTyped_congr h, convertCombinator_congr (h "allOf" (by decide)),
    convertAlternatives_congr h]

/-! ### Reading the keywords of exports -/

theorem convertCombinator_of_lookup_none {keyword : String} (h : entries.lookup keyword = none) :
    convertCombinator deref path keyword entries = .ok none := by
  rw [convertCombinator]
  generalize entries.lookup keyword = found at h ⊢
  subst h
  rfl

theorem convertCombinator_of_items {keyword : String} {schemas : List Json} {types : List Ty}
    (hlookup : entries.lookup keyword = some (.array schemas))
    (h : ∀ path, convertItems deref path 0 schemas = .ok types) :
    convertCombinator deref path keyword entries = .ok (some types) := by
  rw [convertCombinator]
  generalize entries.lookup keyword = found at hlookup ⊢
  subst hlookup
  change (convertBranches deref (path ++ "/" ++ keyword) (.array schemas) >>= fun parts =>
    .ok (some parts)) = _
  rw [convertBranches, h]
  rfl

theorem convert_eq_convertInline (href : entries.lookup "$ref" = none)
    (hnullable : entries.lookup "nullable" = none) :
    convert deref path (.object entries) = convertInline deref path entries := by
  rw [convert, convertBody, href]
  simp only [nullableType, hnullable]
  exact bind_pure _

theorem convert_eq_convertTyped (h : IsExported entries) (hany : entries.lookup "anyOf" = none) :
    convert deref path (.object entries) = convertTyped deref path entries := by
  have hall : entries.lookup "allOf" = none := h.lookup_eq_none (by decide)
  have hone : entries.lookup "oneOf" = none := h.lookup_eq_none (by decide)
  have hconst : entries.lookup "const" = none := h.lookup_eq_none (by decide)
  have henum : entries.lookup "enum" = none := h.lookup_eq_none (by decide)
  rw [convert_eq_convertInline (h.lookup_eq_none (by decide)) (h.lookup_eq_none (by decide)),
    convertInline, hconst, henum]
  simp only [convertAlternatives, convertCombinator_of_lookup_none hall,
    convertCombinator_of_lookup_none hone, convertCombinator_of_lookup_none hany]
  exact bind_pure (convertTyped deref path entries)

/-- A schema that says nothing by itself says what its combinators say. -/
theorem convert_eq_combinators (href : entries.lookup "$ref" = none)
    (hnullable : entries.lookup "nullable" = none) (hconst : entries.lookup "const" = none)
    (henum : entries.lookup "enum" = none) (htyped : convertTyped deref path entries = .ok .any) :
    convert deref path (.object entries) = (do
      let parts ← convertCombinator deref path "allOf" entries
      convertAlternatives deref path ((parts.getD []).foldl Ty.pool .any) entries) := by
  rw [convert_eq_convertInline href hnullable, convertInline, hconst, henum]
  dsimp only
  rw [htyped, ok_bind]

theorem convert_anyOf {schemas : List Json} {types : List Ty}
    (h : ∀ path, convertItems deref path 0 schemas = .ok types) :
    convert deref path (anyOf schemas) = .ok (Ty.oneOf types) := by
  have hpool : types.map (fun part => Ty.any.pool part) = types := by
    simp [Ty.pool]
  have htyped : convertTyped deref path [("anyOf", .array schemas)] = .ok .any := by
    rw [convertTyped]
    rfl
  rw [anyOf, convert_eq_combinators rfl rfl rfl rfl htyped, convertCombinator_of_lookup_none rfl, ok_bind,
    convertAlternatives, convertCombinator_of_lookup_none rfl, ok_bind]
  dsimp only
  rw [convertCombinator_of_items rfl h, ok_bind]
  change Except.ok (Ty.oneOf (types.map fun part => Ty.any.pool part)) = _
  rw [hpool]

theorem convertTyped_of_name (h : entries.lookup "type" = some (.string name)) :
    convertTyped deref path entries = convertNamed deref path entries name := by
  rw [convertTyped, h]

theorem convertTyped_of_names {names : List String} {types : List Ty}
    (h : entries.lookup "type" = some (.array (names.map .string)))
    (hnames : List.Forall₂ (fun name t => convertNamed deref path entries name = .ok t) names types) :
    convertTyped deref path entries = .ok (Ty.oneOf types) := by
  rw [convertTyped, h]
  refine bind_eq_ok_iff.mpr ⟨types, ?_, rfl⟩
  clear h
  induction hnames with
  | nil => rfl
  | cons hname _ ih =>
    rw [List.map_cons, List.mapM_cons, ih]
    simp only [hname]
    rfl

/-- Importing the schema gives the type, whatever references stand for and wherever the schema
stands. -/
def Reads (schema : Json) (t : Ty) : Prop :=
  ∀ (deref : String → Except ImportError Ty) path, convert deref path schema = .ok t

theorem convertItems_of_forall₂ {schemas : List Json} {types : List Ty} {position : Nat}
    (h : List.Forall₂ (fun schema t => ∀ path, convert deref path schema = .ok t) schemas types) :
    convertItems deref path position schemas = .ok types := by
  induction h generalizing position with
  | nil =>
    rw [convertItems]
    rfl
  | cons hschema _ ih =>
    rw [convertItems, hschema, ih]
    rfl

theorem convertItems_of_reads {schemas : List Json} {types : List Ty} {position : Nat}
    (h : List.Forall₂ Reads schemas types) :
    convertItems deref path position schemas = .ok types :=
  convertItems_of_forall₂ (h.imp fun _ _ hreads => hreads deref)

theorem reads_anyOf {schemas : List Json} {types : List Ty} (h : List.Forall₂ Reads schemas types) :
    Reads (anyOf schemas) (Ty.oneOf types) := by
  intro deref path
  exact convert_anyOf fun path => convertItems_of_reads h

theorem reads_describe (description : Option String) (h : Reads schema t) :
    Reads (describe description schema) t := by
  unfold describe
  split
  · intro deref path
    rw [convert_congr (.insert List.mem_cons_self _)]
    exact h deref path
  · exact h

/-- A name under `type` leaves no room for other ways to say what is allowed. -/
theorem convert_eq_convertNamed (h : IsExported entries)
    (htype : entries.lookup "type" = some (.string name)) :
    convert deref path (.object entries) = convertNamed deref path entries name := by
  have hany : entries.lookup "anyOf" = none := by
    refine Entries.lookup_eq_none_iff.mpr fun hmem => h.anyOf hmem ?_
    exact Entries.mem_keys_of_mem (Entries.mem_of_lookup htype)
  rw [convert_eq_convertTyped h hany, convertTyped_of_name htype]

theorem reads_ofKind_null : Reads (ofKind "null") .null := by
  intro deref path
  rw [ofKind, convert_eq_convertNamed ⟨by decide, by decide⟩ rfl, convertNamed]
  rfl

theorem reads_allowingNull (hentries : IsExported entries) (h : Reads (.object entries) t) :
    Reads (allowingNull (.object entries)) (Ty.oneOf [t, .null]) := by
  rcases allowingNull_cases entries with ⟨name, htype, heq⟩ | heq
  · intro deref path
    have hkey := Entries.mem_keys_of_mem (Entries.mem_of_lookup htype)
    have hwidened := hentries.insert_of_mem hkey (.array [.string name, .string "null"])
    have hany : (Entries.insert "type" (.array [.string name, .string "null"]) entries).lookup
        "anyOf" = none := by
      rw [Entries.lookup_insert_of_ne (by decide), Entries.lookup_eq_none_iff]
      exact fun hmem => hentries.anyOf hmem hkey
    rw [heq, convert_eq_convertTyped hwidened hany]
    refine @convertTyped_of_names _ _ _ [name, "null"] _ Entries.lookup_insert_self
      (.cons ?_ (.cons ?_ .nil))
    · rw [convertNamed_congr (.insert List.mem_cons_self _), ← convert_eq_convertNamed hentries htype]
      exact h deref path
    · rw [convertNamed]
      rfl
  · rw [heq]
    exact reads_anyOf (.cons h (.cons reads_ofKind_null .nil))

/-! ### Objects -/

theorem mem_demanded_iff (hkeys : (Entries.keys ps).Nodup) {p : Property Ty}
    (hmem : (name, p) ∈ ps) : name ∈ demanded ps ↔ p.isOptional = false := by
  rw [mem_demanded]
  constructor
  · rintro ⟨q, hq, hoptional⟩
    rwa [Entries.eq_of_mem hkeys hmem hq]
  · intro hoptional
    exact ⟨p, hmem, hoptional⟩

theorem declared_describe {required : List String} {p : Property Ty} (hentries : IsExported entries)
    (hrequired : name ∈ required ↔ p.isOptional = false) :
    declared required name (describe p.description (.object entries)) t =
      Ty.writtenProperty p t := by
  have hdescription :
      (describe p.description (.object entries)).stringAt? "description" = p.description := by
    cases p.description with
    | none =>
      change (entries.lookup "description").bind Json.string? = none
      rw [hentries.lookup_eq_none (by decide)]
      rfl
    | some text => exact Json.stringAt?_object_eq_some_iff.mpr Entries.lookup_insert_self
  unfold declared Ty.writtenProperty
  rw [hdescription]
  cases hoptional : p.isOptional with
  | true => simp [hrequired, hoptional]
  | false => simp [hrequired, hoptional]

/-- What an entry among the schemas of properties is read as. -/
def ReadsProperty (required : List String) (named : String × Json)
    (entry : String × Property Ty) : Prop :=
  ∃ t, Reads named.2 t ∧ entry = (named.1, declared required named.1 named.2 t)

theorem convertProperties_of_reads {required : List String} {schemas : List (String × Json)}
    (h : List.Forall₂ (ReadsProperty required) schemas ps) :
    convertProperties deref path required schemas = .ok ps := by
  induction h with
  | nil =>
    rw [convertProperties]
    rfl
  | cons hfirst _ ih =>
    obtain ⟨t, hreads, rfl⟩ := hfirst
    rw [convertProperties, hreads, ih]
    rfl

theorem keys_of_readsProperty {required : List String} {schemas : List (String × Json)}
    (h : List.Forall₂ (ReadsProperty required) schemas ps) :
    Entries.keys ps = Entries.keys schemas := by
  induction h with
  | nil => rfl
  | cons hfirst _ ih =>
    obtain ⟨_, _, rfl⟩ := hfirst
    rw [Entries.keys, List.map_cons, Entries.keys, List.map_cons]
    exact congrArg _ ih

theorem readsProperty_throughSchema {required : List String} {schemas : List (String × Json)}
    (hschemas : List.Forall₂ IsPropertySchema ps schemas)
    (hreads : ∀ name p schema, (name, p) ∈ ps → ofType p.ty = .ok schema →
      Reads schema p.ty.throughSchema)
    (hrequired : ∀ name p, (name, p) ∈ ps → (name ∈ required ↔ p.isOptional = false)) :
    List.Forall₂ (ReadsProperty required) schemas (Ty.propertiesThroughSchema ps) := by
  induction hschemas with
  | nil => exact .nil
  | @cons entry _ ps schemas hschema _ ih =>
    obtain ⟨name, p⟩ := entry
    obtain ⟨schema, hschema, rfl⟩ := hschema
    obtain ⟨entries, rfl, hentries⟩ := exists_isExported hschema
    have hty := reads_describe p.description (hreads name p _ List.mem_cons_self hschema)
    have hoptional := hrequired name p List.mem_cons_self
    refine .cons ⟨_, hty, ?_⟩ (ih ?_ ?_)
    · rw [declared_describe hentries hoptional]
    · exact fun name p schema hmem => hreads name p schema (List.mem_cons_of_mem _ hmem)
    · exact fun name p hmem => hrequired name p (List.mem_cons_of_mem _ hmem)

theorem addUndeclared_eq_self {names : List String} (h : ∀ name ∈ names, name ∈ Entries.keys ps) :
    addUndeclared names ps = ps := by
  induction names with
  | nil => rfl
  | cons name names ih =>
    obtain ⟨hname, hnames⟩ := List.forall_mem_cons.mp h
    unfold addUndeclared at ih ⊢
    rw [List.foldl_cons, if_pos (Entries.hasKey_iff.mpr hname)]
    exact ih hnames

theorem requiredNames_of_lookup {names : List String}
    (h : entries.lookup "required" = some (.array (names.map .string))) :
    requiredNames entries = names := by
  rw [requiredNames, h]
  simp [List.filterMap_map, Function.comp_def, Json.string?]

theorem isOpen_of_lookup {isOpen : Bool}
    (h : entries.lookup "additionalProperties" = some (.bool isOpen)) :
    JsonSchema.isOpen entries = isOpen := by
  rw [JsonSchema.isOpen, h]
  cases isOpen <;> rfl

theorem reads_object {names : List String} {schemas : List (String × Json)} {isOpen : Bool}
    (hentries : IsExported entries) (htype : entries.lookup "type" = some (.string "object"))
    (hproperties : entries.lookup "properties" = some (.object schemas))
    (hrequired : entries.lookup "required" = some (.array (names.map .string)))
    (hopen : entries.lookup "additionalProperties" = some (.bool isOpen))
    (hschemas : (Entries.keys schemas).Nodup) (hnames : ∀ name ∈ names, name ∈ Entries.keys schemas)
    (h : List.Forall₂ (ReadsProperty names) schemas ps) :
    Reads (.object entries) (.object ps isOpen) := by
  intro deref path
  have hkeys := keys_of_readsProperty h
  have hproperties' := @convertProperties_of_reads deref (path ++ "/properties/") _ _ _ h
  rw [convert_eq_convertNamed hentries htype, convertNamed, convertObject, convertDeclared,
    isOpen_of_lookup hopen, requiredNames_of_lookup hrequired]
  generalize entries.lookup "properties" = found at hproperties ⊢
  subst hproperties
  change (do
    let properties ← convertProperties deref (path ++ "/properties/") names schemas
    return Ty.object (addUndeclared names (Entries.ofList properties)) isOpen) = _
  rw [hproperties']
  change Except.ok (Ty.object (addUndeclared names (Entries.ofList ps)) isOpen) = _
  rw [Entries.ofList_eq_self (hkeys ▸ hschemas), addUndeclared_eq_self (hkeys ▸ hnames)]

/-! ### All types -/

theorem reads_array {items : List (String × Json)} (hentries : IsExported entries)
    (htype : entries.lookup "type" = some (.string "array"))
    (hitems : entries.lookup "items" = some (.object items)) (h : Reads (.object items) t) :
    Reads (.object entries) (.array t) := by
  intro deref path
  have hprefix : entries.lookup "prefixItems" = none := hentries.lookup_eq_none (by decide)
  have hpositions : convertPositions deref path entries = .ok [] := by
    rw [convertPositions]
    generalize entries.lookup "prefixItems" = positions at hprefix ⊢
    subst hprefix
    rfl
  have hothers : convertOthers deref path entries = .ok [t] := by
    rw [convertOthers]
    generalize entries.lookup "items" = others at hitems ⊢
    subst hitems
    change (convert deref (path ++ "/items") (.object items) >>= fun ty => .ok [ty]) = _
    rw [h, ok_bind]
  rw [convert_eq_convertNamed hentries htype, convertNamed, convertArray, hpositions, hothers]
  rfl

/-- Importing what a type is exported to gives the type as it comes through a schema. -/
theorem reads_ofType (ht : t.WellFormed) (hschema : ofType t = .ok schema) :
    Reads schema t.throughSchema := by
  induction t generalizing schema with
  | string | number | integer | boolean | null =>
    cases hschema
    intro deref path
    rw [ofKind, convert_eq_convertNamed ⟨by decide, by decide⟩ rfl, convertNamed, Ty.throughSchema]
    rfl
  | any =>
    cases hschema
    intro deref path
    rw [convert_eq_convertTyped ⟨by decide, by decide⟩ rfl, convertTyped, Ty.throughSchema]
    rfl
  | var name => cases hschema
  | function params r _ _ => cases hschema
  | array t ih =>
    obtain ⟨items, hitems, rfl⟩ := ofType_array_eq_ok_iff.mp hschema
    obtain ⟨_, heq, hentries⟩ := exists_isExported hschema
    cases heq
    obtain ⟨entries, rfl, _⟩ := exists_isExported hitems
    rw [Ty.throughSchema]
    exact reads_array hentries rfl rfl (ih (Ty.WellFormed.array_iff.mp ht) hitems)
  | object ps isOpen ih =>
    obtain ⟨hkeys, hps⟩ := Ty.WellFormed.object_iff.mp ht
    obtain ⟨schemas, hschemas, rfl⟩ := ofType_object_eq_ok_iff.mp hschema
    obtain ⟨_, heq, hentries⟩ := exists_isExported hschema
    cases heq
    have hsame := keys_propertySchemas hschemas
    rw [Ty.throughSchema]
    apply reads_object hentries rfl rfl rfl rfl
    · rwa [hsame]
    · intro name hname
      obtain ⟨p, hp, _⟩ := mem_demanded.mp hname
      rw [hsame]
      exact Entries.mem_keys_of_mem hp
    · apply readsProperty_throughSchema hschemas
      · exact fun name p schema hmem => ih name p hmem (hps name p hmem)
      · exact fun name p hmem => mem_demanded_iff hkeys hmem
  | union ms ih =>
    obtain ⟨_, hflat, _, hms⟩ := Ty.WellFormed.union_iff.mp ht
    rw [Ty.throughSchema, Ty.allThroughSchema_eq_map]
    rcases ofType_union_cases hschema with
      ⟨m, inner, _, hpair, hinner, rfl⟩ | ⟨hnot, schemas, hschemas, rfl⟩
    · obtain ⟨entries, rfl, hentries⟩ := exists_isExported hinner
      rcases hpair with rfl | rfl
      · have hm := ih m List.mem_cons_self (hms m List.mem_cons_self) hinner
        have hlast : Ty.nullLast ([m, .null].map Ty.throughSchema) = [m.throughSchema, .null] :=
          Ty.nullLast_of_null_last _
        rw [hlast]
        exact reads_allowingNull hentries hm
      · have hmem : m ∈ [.null, m] := List.mem_cons_of_mem _ List.mem_cons_self
        exact reads_allowingNull hentries (ih m hmem (hms m hmem) hinner)
    · -- no member becomes null on the way, so null is not moved either
      rw [Ty.nullLast_of_not_isNullable (Ty.isNullable_throughSchema hflat ▸ hnot)]
      have hreads : ∀ m ∈ ms, ∀ schema, ofType m = .ok schema → Reads schema m.throughSchema :=
        fun m hm schema => ih m hm (hms m hm)
      have hparts := (List.forall₂_and_left _ _).mpr ⟨hreads, hschemas⟩
      apply reads_anyOf
      rw [List.forall₂_map_right_iff]
      exact (hparts.imp fun m schema h => h.1 schema h.2).flip

end JsonSchema

end SchemaInfer
