import SchemaInfer.Avro.Document
import SchemaInfer.Avro.Import
import SchemaInfer.Proofs.Outcomes
import Mathlib.Data.List.Nodup

/-!
# References in Avro schemas

A reference is looked up in one table, in which every named type of the document stands twice: under its
full name and under its short name. The first entry counts. `namedTypes` lists the named types in the
order of the document, and the table is this list with two entries for each type (`definitions_eq`). So a
reference means the first type that has it as one of its two names (`lookup_definitions`).

In a document that was read, short names hold no dots (`ofJson_shortNames`), and then a full name with a
namespace in it means the type with that full name. A full name without a dot may also be the short name of
a type in some namespace, and if that type is defined first, the reference means that one.
-/

namespace SchemaInfer.Avro.Schema

/-! ### The named types of a document -/

/-- The name of a record, an enumeration or fixed-size bytes. -/
def typeName? : Schema → Option Name
  | record name _ _ => some name
  | enum name _ _ => some name
  | fixed name _ => some name
  | _ => none

/-- A type with a name. -/
structure NamedType where
  name : Name
  type : Schema
  named : type.typeName? = some name

mutual

/-- The named types of a schema, in the order of the document. -/
def namedTypes : Schema → List NamedType
  | record name doc fields => ⟨name, record name doc fields, rfl⟩ :: namedTypesOfFields fields
  | enum name symbols doc => [⟨name, enum name symbols doc, rfl⟩]
  | fixed name size => [⟨name, fixed name size, rfl⟩]
  | array items => items.namedTypes
  | map values => values.namedTypes
  | logical _ base => base.namedTypes
  | union branches => namedTypesOfAll branches
  | _ => []
termination_by structural schema => schema

def namedTypesOfFields : List Field → List NamedType
  | [] => []
  | ⟨_, _, schema, _⟩ :: fields => schema.namedTypes ++ namedTypesOfFields fields
termination_by structural fields => fields

def namedTypesOfAll : List Schema → List NamedType
  | [] => []
  | schema :: schemas => schema.namedTypes ++ namedTypesOfAll schemas
termination_by structural schemas => schemas

end

/-- The entries of a named type in the table. -/
def NamedType.tableEntries (type : NamedType) : List (String × Schema) :=
  [(type.name.full, type.type), (type.name.name, type.type)]

/-- Whether a reference is one of the two names of a type. -/
def NamedType.answersTo (reference : String) (type : NamedType) : Bool :=
  reference == type.name.full || reference == type.name.name

mutual

theorem definitions_eq : ∀ schema : Schema,
    schema.definitions = schema.namedTypes.flatMap NamedType.tableEntries
  | record name doc fields => by
    rw [definitions, namedTypes, List.flatMap_cons, definitionsOfFields_eq fields]
    rfl
  | enum name symbols doc => rfl
  | fixed name size => rfl
  | array items => by
    rw [definitions, namedTypes]
    exact definitions_eq items
  | map values => by
    rw [definitions, namedTypes]
    exact definitions_eq values
  | logical type base => by
    rw [definitions, namedTypes]
    exact definitions_eq base
  | union branches => by
    rw [definitions, namedTypes]
    exact definitionsOfAll_eq branches
  | null | boolean | int | long | float | double | bytes | string => rfl
  | named reference => rfl
termination_by structural schema => schema

theorem definitionsOfFields_eq : ∀ fields : List Field,
    definitionsOfFields fields = (namedTypesOfFields fields).flatMap NamedType.tableEntries
  | [] => rfl
  | ⟨_, _, schema, _⟩ :: fields => by
    rw [definitionsOfFields, namedTypesOfFields, List.flatMap_append, definitions_eq schema,
      definitionsOfFields_eq fields]
termination_by structural fields => fields

theorem definitionsOfAll_eq : ∀ schemas : List Schema,
    definitionsOfAll schemas = (namedTypesOfAll schemas).flatMap NamedType.tableEntries
  | [] => rfl
  | schema :: schemas => by
    rw [definitionsOfAll, namedTypesOfAll, List.flatMap_append, definitions_eq schema,
      definitionsOfAll_eq schemas]
termination_by structural schemas => schemas

end

/-- A reference means the first type that has it as its full or its short name. -/
theorem lookup_definitions (schema : Schema) (reference : String) :
    schema.definitions.lookup reference =
      (schema.namedTypes.find? (NamedType.answersTo reference)).map NamedType.type := by
  rw [definitions_eq]
  induction schema.namedTypes with
  | nil => rfl
  | cons type types ih =>
    simp only [List.flatMap_cons, NamedType.tableEntries, List.cons_append, List.nil_append,
      List.lookup_cons, ih, List.find?_cons, NamedType.answersTo]
    cases reference == type.name.full with
    | true => rfl
    | false =>
      cases reference == type.name.name with
      | true => rfl
      | false => rfl

/-! ### Short names hold no dots -/

theorem notMem_of_cutAt? {separator : Char} {cs before after : List Char}
    (h : Text.cutAt? separator cs = some (before, after)) : separator ∉ before := by
  induction cs generalizing before with
  | nil => cases h
  | cons c cs ih =>
    rw [Text.cutAt?] at h
    by_cases hc : c = separator
    · rw [if_pos hc] at h
      cases h
      simp
    · rw [if_neg hc] at h
      obtain ⟨⟨first, rest⟩, hcut, heq⟩ := Option.map_eq_some_iff.mp h
      cases heq
      simp [Ne.symm hc, ih hcut]

theorem notMem_of_cutAt?_eq_none {separator : Char} {cs : List Char}
    (h : Text.cutAt? separator cs = none) : separator ∉ cs := by
  induction cs with
  | nil => simp
  | cons c cs ih =>
    rw [Text.cutAt?] at h
    by_cases hc : c = separator
    · simp [hc] at h
    · rw [if_neg hc, Option.map_eq_none_iff] at h
      simp [Ne.symm hc, ih h]

theorem nameOf_shortName (space : Option String) (path : String) (entries : List (String × Json)) :
    Yields (fun name => '.' ∉ name.name.toList) (nameOf space path entries) := by
  unfold nameOf
  split
  · trivial
  · rename_i name _
    split
    · rename_i before after hcut
      obtain ⟨⟨first, rest⟩, hfirst, heq⟩ := Option.map_eq_some_iff.mp hcut
      cases heq
      have hdot := notMem_of_cutAt? hfirst
      change '.' ∉ (String.ofList first.reverse).toList
      simpa using hdot
    · rename_i hcut
      have hdot := notMem_of_cutAt?_eq_none (Option.map_eq_none_iff.mp hcut)
      change '.' ∉ name.toList
      simpa using hdot

/-- No short name of these types holds a dot. -/
def ShortNames (types : List NamedType) : Prop :=
  ∀ type ∈ types, '.' ∉ type.name.name.toList

theorem shortNames_append {types others : List NamedType} :
    ShortNames (types ++ others) ↔ ShortNames types ∧ ShortNames others :=
  List.forall_mem_append

theorem shortNames_primitive? (name : String) :
    ShortNames ((primitive? name).getD (named name)).namedTypes := by
  unfold primitive?
  split <;> exact List.forall_mem_nil _

mutual

theorem read_shortNames (space : Option String) (path : String) (json : Json) :
    Yields (fun schema => ShortNames schema.namedTypes) (read space path json) := by
  rw [read.eq_def]
  split
  · exact shortNames_primitive? _
  · exact (readBranches_shortNames space path 0 _).bind fun schemas hschemas => hschemas
  · exact readObject_shortNames space path _
  · trivial
termination_by (sizeOf json, 0)

theorem readBranches_shortNames (space : Option String) (path : String) (position : Nat)
    (branches : List Json) : Yields (fun schemas => ShortNames (namedTypesOfAll schemas))
      (readBranches space path position branches) := by
  cases branches with
  | nil =>
    rw [readBranches]
    exact List.forall_mem_nil _
  | cons branch others =>
    rw [readBranches]
    refine (read_shortNames space _ branch).bind fun schema hschema => ?_
    refine (readBranches_shortNames space path (position + 1) others).bind fun schemas hschemas => ?_
    exact shortNames_append.mpr ⟨hschema, hschemas⟩
termination_by (sizeOf branches, 0)

theorem readObject_shortNames (space : Option String) (path : String)
    (entries : List (String × Json)) :
    Yields (fun schema => ShortNames schema.namedTypes) (readObject space path entries) := by
  rw [readObject]
  split
  · exact (readTyped_shortNames space path entries).bind fun base hbase => hbase
  · exact readTyped_shortNames space path entries
termination_by (sizeOf entries, 2)

theorem readTyped_shortNames (space : Option String) (path : String)
    (entries : List (String × Json)) :
    Yields (fun schema => ShortNames schema.namedTypes) (readTyped space path entries) := by
  rw [readTyped]
  split
  · trivial
  · exact readRecord_shortNames space path entries
  · exact readRecord_shortNames space path entries
  · exact (nameOf_shortName space path entries).bind fun name hname =>
      List.forall_mem_singleton.mpr hname
  · exact (nameOf_shortName space path entries).bind fun name hname =>
      List.forall_mem_singleton.mpr hname
  · split
    · exact (read_shortNames space _ _).bind fun items hitems => hitems
    · trivial
  · split
    · exact (read_shortNames space _ _).bind fun values hvalues => hvalues
    · trivial
  · exact read_shortNames space _ _
termination_by (sizeOf entries, 1)
decreasing_by
  · exact .right _ (by decide)
  · exact .right _ (by decide)
  all_goals exact .left _ _ (Entries.sizeOf_lt_of_lookup ‹_›)

theorem readRecord_shortNames (space : Option String) (path : String)
    (entries : List (String × Json)) :
    Yields (fun schema => ShortNames schema.namedTypes) (readRecord space path entries) := by
  rw [readRecord]
  refine (nameOf_shortName space path entries).bind fun name hname => ?_
  split
  · refine (readFields_shortNames name.space path 0 _).bind fun fields hfields => ?_
    exact List.forall_mem_cons.mpr ⟨hname, hfields⟩
  · trivial
termination_by (sizeOf entries, 0)
decreasing_by
  have := Entries.sizeOf_lt_of_lookup ‹_›
  exact .left _ _ (by simp_all; omega)

theorem readFields_shortNames (space : Option String) (path : String) (position : Nat)
    (fields : List Json) : Yields (fun fields => ShortNames (namedTypesOfFields fields))
      (readFields space path position fields) := by
  cases fields with
  | nil =>
    rw [readFields]
    exact List.forall_mem_nil _
  | cons field others =>
    rw [readFields]
    refine (readField_shortNames space _ field).bind fun first hfirst => ?_
    refine (readFields_shortNames space path (position + 1) others).bind fun rest hrest => ?_
    cases first
    exact shortNames_append.mpr ⟨hfirst, hrest⟩
termination_by (sizeOf fields, 0)

theorem readField_shortNames (space : Option String) (path : String) (field : Json) :
    Yields (fun field => ShortNames field.schema.namedTypes) (readField space path field) := by
  rw [readField.eq_def]
  split
  · split
    · trivial
    · trivial
    · exact (read_shortNames space _ _).bind fun schema hschema => hschema
  · trivial
termination_by (sizeOf field, 0)
decreasing_by
  have := Entries.sizeOf_lt_of_lookup ‹_›
  exact .left _ _ (by simp_all; omega)

end

theorem ofJson_shortNames {json : Json} {schema : Schema} (h : ofJson json = .ok schema) :
    ShortNames schema.namedTypes :=
  (read_shortNames none "$" json).of_eq_ok h

/-! ### What a full name means -/

/-- A reference has the type of the definition that it means. -/
theorem convert_named {defined : List (String × Schema)} {available : List String}
    {reference : String} {type : NamedType} (h : defined.lookup reference = some type.type) :
    convert defined available (named reference) = convert defined available type.type := by
  obtain ⟨name, schema, hname⟩ := type
  rw [convert, h]
  cases schema with
  | record _ _ _ => rw [convert]
  | enum _ _ _ => rw [convert]
  | fixed _ _ => rw [convert]
  | _ => cases hname

theorem find?_answersTo {types : List NamedType} {reference : String}
    (h : ∀ type ∈ types, type.name.full ≠ reference) :
    types.find? (NamedType.answersTo reference) =
      types.find? fun type => type.name.name == reference := by
  induction types with
  | nil => rfl
  | cons type types ih =>
    obtain ⟨htype, htypes⟩ := List.forall_mem_cons.mp h
    simp only [List.find?_cons, ih htypes, NamedType.answersTo, beq_false_of_ne (Ne.symm htype),
      Bool.false_or, Bool.beq_comm]

/-- Where full names are different, the types are. -/
theorem type_ne_of_full_ne {type other : NamedType} (h : other.name.full ≠ type.name.full) :
    other.type ≠ type.type := by
  intro heq
  have hname : some other.name = some type.name := by rw [← other.named, ← type.named, heq]
  exact h (by rw [Option.some.inj hname])

section Document

variable {schema : Schema} {type : NamedType} {before after : List NamedType}

theorem full_ne_of_mem_before
    (hdistinct : (schema.namedTypes.map fun type => type.name.full).Nodup)
    (hsplit : schema.namedTypes = before ++ type :: after) {other : NamedType}
    (hother : other ∈ before) : other.name.full ≠ type.name.full := by
  rw [hsplit, List.map_append, List.nodup_append] at hdistinct
  apply hdistinct.2.2
  · exact List.mem_map_of_mem hother
  · exact List.mem_map_of_mem List.mem_cons_self

/-- A full name means the first type with this short name among those in front of the type with this
full name, and the latter if there is none. -/
theorem lookup_full (hdistinct : (schema.namedTypes.map fun type => type.name.full).Nodup)
    (hsplit : schema.namedTypes = before ++ type :: after) :
    schema.definitions.lookup type.name.full =
      some ((before.find? fun other => other.name.name == type.name.full).getD type).type := by
  have hbefore := find?_answersTo fun _ => full_ne_of_mem_before hdistinct hsplit
  have hown : type.answersTo type.name.full = true := by simp [NamedType.answersTo]
  rw [lookup_definitions, hsplit, List.find?_append, hbefore, List.find?_cons_of_pos hown]
  cases before.find? fun other => other.name.name == type.name.full with
  | none => rfl
  | some other => rfl

theorem lookup_full_eq_iff (hdistinct : (schema.namedTypes.map fun type => type.name.full).Nodup)
    (hsplit : schema.namedTypes = before ++ type :: after) :
    schema.definitions.lookup type.name.full = some type.type ↔
      ∀ other ∈ before, other.name.name ≠ type.name.full := by
  rw [lookup_full hdistinct hsplit]
  cases hfind : before.find? fun other => other.name.name == type.name.full with
  | none =>
    simp only [List.find?_eq_none, beq_iff_eq] at hfind
    simpa using hfind
  | some other =>
    have hmem : other ∈ before := List.mem_of_find?_eq_some hfind
    have hshort : other.name.name = type.name.full := by simpa using List.find?_some hfind
    constructor
    · intro h
      exact absurd (Option.some.inj h)
        (type_ne_of_full_ne (full_ne_of_mem_before hdistinct hsplit hmem))
    · intro h
      exact absurd hshort (h other hmem)

end Document

/-- **A full name means its own type unless an earlier type has it as its short name.** In a document
whose named types have different full names, a full name that holds a dot means the type with that full
name, whatever else the document defines. Any full name means that type exactly if no type defined before
it has the name as its short name. The first of those is what it means otherwise. The conversion of a
reference is the conversion of the type that it means. -/
theorem reference_resolves_iff {json : Json} {schema : Schema} {type : NamedType}
    {before after : List NamedType} (hread : ofJson json = .ok schema)
    (hdistinct : (schema.namedTypes.map fun type => type.name.full).Nodup)
    (hsplit : schema.namedTypes = before ++ type :: after) :
    ('.' ∈ type.name.full.toList → schema.definitions.lookup type.name.full = some type.type) ∧
    (schema.definitions.lookup type.name.full = some type.type ↔
      ∀ other ∈ before, other.name.name ≠ type.name.full) ∧
    (∀ other, before.find? (fun other => other.name.name == type.name.full) = some other →
      schema.definitions.lookup type.name.full = some other.type) ∧
    ∀ available (meant : NamedType), schema.definitions.lookup type.name.full = some meant.type →
      convert schema.definitions available (named type.name.full) =
        convert schema.definitions available meant.type := by
  have hiff := lookup_full_eq_iff hdistinct hsplit
  refine ⟨?_, hiff, ?_, ?_⟩
  · intro hdot
    apply hiff.mpr
    intro other hother hshort
    have hmem : other ∈ schema.namedTypes := by simp [hsplit, hother]
    apply ofJson_shortNames hread other hmem
    rw [hshort]
    exact hdot
  · intro other hfind
    simp [lookup_full hdistinct hsplit, hfind]
  · intro available meant hmeant
    exact convert_named hmeant

/-! ### A name that two types answer to -/

/-- A record with one field. -/
def withField (name : Name) (field : String) (type : Schema) : NamedType :=
  ⟨name, record name none [⟨field, none, type, none⟩], rfl⟩

/-- The document of a record with one field. -/
def fieldDocument (name field type : String) : Json :=
  .object [("type", .string "record"), ("name", .string name),
    ("fields", .array [.object [("name", .string field), ("type", .string type)]])]

theorem read_fieldDocument (name : Name) {path field type raw : String}
    (hname : nameOf none path [("type", .string "record"), ("name", .string raw),
      ("fields", .array [.object [("name", .string field), ("type", .string type)]])] = .ok name) :
    read none path (fieldDocument raw field type) =
      .ok (withField name field ((primitive? type).getD (named type))).type := by
  have hfield : ∀ space path, readField space path
      (.object [("name", .string field), ("type", .string type)]) =
        .ok ⟨field, none, (primitive? type).getD (named type), none⟩ := by
    intro space path
    rw [readField]
    change (read space _ (.string type) >>= _) = _
    rw [read]
    rfl
  have hfields : readFields name.space path 0
      [.object [("name", .string field), ("type", .string type)]] =
        .ok [⟨field, none, (primitive? type).getD (named type), none⟩] := by
    rw [readFields, hfield, readFields]
    rfl
  rw [fieldDocument, read, readObject]
  change readTyped none path _ = _
  rw [readTyped]
  change readRecord none path _ = _
  rw [readRecord, hname]
  change (readFields name.space path 0 _ >>= _) = _
  rw [hfields]
  rfl

/-- An address in a shop. -/
def shopAddress : NamedType := withField ⟨"Address", some "shop"⟩ "city" string

/-- An address outside of any namespace. -/
def address : NamedType := withField ⟨"Address", none⟩ "zip" int

/-- A customer, with a reference to an address. -/
def customer : NamedType := withField ⟨"Customer", none⟩ "address" (named "Address")

/-- A document with two types that have the same short name, one of which has no namespace. -/
def addresses : Json :=
  .array [fieldDocument "shop.Address" "city" "string", fieldDocument "Address" "zip" "int",
    fieldDocument "Customer" "address" "Address"]

theorem ofJson_addresses :
    ofJson addresses = .ok (union [shopAddress.type, address.type, customer.type]) := by
  rw [ofJson, addresses, read, readBranches, read_fieldDocument ⟨"Address", some "shop"⟩ rfl,
    readBranches, read_fieldDocument ⟨"Address", none⟩ rfl,
    readBranches, read_fieldDocument ⟨"Customer", none⟩ rfl, readBranches]
  rfl

theorem fullNames_addresses : ((union [shopAddress.type, address.type, customer.type]).namedTypes.map
    fun type => type.name.full).Nodup := by
  decide

/-- The short name that two types share does not get in the way of the name with a namespace. -/
theorem reference_resolves_iff_of_addresses :
    let schema := union [shopAddress.type, address.type, customer.type]
    ofJson addresses = .ok schema ∧ schema.namedTypes = [shopAddress, address] ++ customer :: [] ∧
      schema.definitions.lookup "shop.Address" = some shopAddress.type ∧
      schema.definitions.lookup "Customer" = some customer.type := by
  intro schema
  have hshop : schema.namedTypes = [] ++ shopAddress :: [address, customer] := rfl
  have hcustomer : schema.namedTypes = [shopAddress, address] ++ customer :: [] := rfl
  obtain ⟨hdotted, _⟩ := reference_resolves_iff ofJson_addresses fullNames_addresses hshop
  obtain ⟨_, hiff, _⟩ := reference_resolves_iff ofJson_addresses fullNames_addresses hcustomer
  refine ⟨ofJson_addresses, hcustomer, hdotted (by decide), hiff.mpr ?_⟩
  decide

theorem convert_withField {defined : List (String × Schema)} {available : List String}
    (name : Name) (field : String) {type : Schema} {ty : Ty} (havailable : name.full ∈ available)
    (htype : convert defined (Expansion.without name.full available) type = .ok ty) :
    convert defined available (withField name field type).type =
      .ok (.closedObject [(field, fieldProperty ⟨field, none, type, none⟩ ty)]) := by
  rw [withField, convert, Expansion.expanding, dif_pos havailable, convertFields, htype, convertFields]
  rfl

/-- The address without a namespace cannot be referred to: its name means the one in the shop. -/
theorem reference_hidden_by_short_name :
    let schema := union [shopAddress.type, address.type, customer.type]
    let available := ["shop.Address", "Address", "Customer"]
    ofJson addresses = .ok schema ∧
      (schema.namedTypes.map fun type => type.name.full).Nodup ∧
      address ∈ schema.namedTypes ∧ address.name.full = "Address" ∧
      schema.definitions.lookup "Address" = some shopAddress.type ∧
      convert schema.definitions available (named "Address") =
        .ok (.closedObject [("city", Property.mandatory .string)]) ∧
      convert schema.definitions available address.type =
        .ok (.closedObject [("zip", Property.mandatory .integer)]) := by
  intro schema available
  have hlookup : schema.definitions.lookup "Address" = some shopAddress.type := by rfl
  have hcity : ∀ rest, convert schema.definitions rest string = .ok .string := by
    intro rest
    rw [convert]
    rfl
  have hzip : ∀ rest, convert schema.definitions rest int = .ok .integer := by
    intro rest
    rw [convert]
    rfl
  refine ⟨ofJson_addresses, fullNames_addresses, ?_, rfl, hlookup, ?_, ?_⟩
  · exact List.mem_cons_of_mem _ List.mem_cons_self
  · rw [convert_named hlookup]
    exact convert_withField shopAddress.name "city" (by decide : "shop.Address" ∈ available) (hcity _)
  · exact convert_withField address.name "zip" (by decide : "Address" ∈ available) (hzip _)

end SchemaInfer.Avro.Schema
