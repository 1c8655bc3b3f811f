import SchemaInfer.Proofs.JsonSchemaEquivalence
import SchemaInfer.Proofs.JsonSchemaTypes

/-!
# Exporting and importing an imported type

A type that was imported from a JSON Schema can be exported, and what is imported from there is equivalent
to it. It is equal to it exactly if every property has the upper bound that goes with its type. The
properties of a single schema have, but pooling changes the type of a property and leaves its upper bound,
so that a property which becomes an array keeps the bound one, and one which ceases to be an array stays
unbounded. What was imported from an export is stable.
-/

namespace SchemaInfer

namespace Ty

variable {a b t : Ty} {p q : Property Ty}

/-! ### Upper bounds -/

/-- The upper bound is the one that goes with the type. -/
def BoundByType (p : Property Ty) : Prop :=
  p.maxOccurs = if p.ty.isArray then unbounded else 1

instance : DecidablePred BoundByType :=
  fun p => inferInstanceAs (Decidable (p.maxOccurs = if p.ty.isArray then unbounded else 1))

def BoundedNode : Ty → Prop
  | object ps _ => Entries.All BoundByType ps
  | _ => True

instance : DecidablePred BoundedNode
  | object ps _ => inferInstanceAs (Decidable (Entries.All BoundByType ps))
  | string | number | integer | boolean | null | any | array _ | union _ | var _ | function _ _ =>
    inferInstanceAs (Decidable True)

/-- All properties inside the type have the upper bounds that go with their types. -/
def Bounded (t : Ty) : Prop :=
  t.Everywhere BoundedNode

instance : DecidablePred Bounded :=
  inferInstanceAs (DecidablePred (Everywhere BoundedNode))

theorem canonicalNode_iff : CanonicalNode t ↔ CountedNode t ∧ BoundedNode t := by
  cases t with
  | object ps isOpen =>
    constructor
    · intro h
      exact ⟨fun name p hp => (canonicalProperty_iff.mp (h name p hp)).2,
        fun name p hp => (canonicalProperty_iff.mp (h name p hp)).1⟩
    · rintro ⟨hcounted, hbounded⟩ name p hp
      exact canonicalProperty_iff.mpr ⟨hbounded name p hp, hcounted name p hp⟩
  | _ => exact ⟨fun _ => ⟨trivial, trivial⟩, fun _ => trivial⟩

theorem canonical_iff : t.Canonical ↔ t.Counted ∧ t.Bounded := by
  constructor
  · intro h
    exact ⟨fun s hs => (canonicalNode_iff.mp (h s hs)).1, fun s hs => (canonicalNode_iff.mp (h s hs)).2⟩
  · rintro ⟨hcounted, hbounded⟩ s hs
    exact canonicalNode_iff.mpr ⟨hcounted s hs, hbounded s hs⟩

/-! ### Canonical types -/

theorem canonicalProperty_written (p : Property Ty) (ty : Ty) :
    CanonicalProperty (writtenProperty p ty) := by
  unfold writtenProperty
  split
  · exact Or.inr rfl
  · exact Or.inl rfl

/-- A condition on nodes that all primitive types, arrays and unions meet, and all objects whose
properties come through a schema, holds everywhere in what comes through a schema. -/
theorem Everywhere.throughSchema {P : Ty → Prop} (hprimitive : ∀ t, t.isPrimitive = true → P t)
    (harray : ∀ t, P (array t)) (hunion : ∀ ms, P (union ms))
    (hobject : ∀ ps isOpen, P (object (propertiesThroughSchema ps) isOpen)) (ht : t.IsData) :
    t.throughSchema.Everywhere P := by
  induction t with
  | string | number | integer | boolean | null | any => exact .of_isPrimitive rfl (hprimitive _ rfl)
  | var _ | function _ _ => simp [IsData, isVar, isFunction] at ht
  | array t ih => exact Everywhere.array_iff.mpr ⟨harray _, ih (Everywhere.array_iff.mp ht).2⟩
  | object ps isOpen ih =>
    obtain ⟨_, hps⟩ := Everywhere.object_iff.mp ht
    refine Everywhere.object_iff.mpr ⟨hobject ps isOpen, fun name q hq => ?_⟩
    obtain ⟨p, hp, rfl⟩ := mem_propertiesThroughSchema hq
    rw [writtenProperty_ty]
    exact ih name p hp (hps name p hp)
  | union ms ih =>
    obtain ⟨_, hms⟩ := Everywhere.union_iff.mp ht
    rw [Ty.throughSchema, allThroughSchema_eq_map]
    refine Everywhere.oneOf (hprimitive null rfl) hunion fun s hs => ?_
    obtain ⟨m, hm, rfl⟩ := List.mem_map.mp (mem_nullLast.mp hs)
    exact ih m hm (hms m hm)

theorem isData_throughSchema (ht : t.IsData) : t.throughSchema.IsData := by
  refine Everywhere.throughSchema (fun s hs => ?_) (fun _ => ⟨rfl, rfl⟩) (fun _ => ⟨rfl, rfl⟩)
    (fun _ _ => ⟨rfl, rfl⟩) ht
  cases s with
  | var name | function params r => cases hs
  | _ => exact ⟨rfl, rfl⟩

theorem canonical_throughSchema (ht : t.IsData) : t.throughSchema.Canonical := by
  refine Everywhere.throughSchema (fun s hs => ?_) (fun _ => trivial) (fun _ => trivial)
    (fun ps isOpen name q hq => ?_) ht
  · cases s with
    | object ps isOpen => cases hs
    | _ => trivial
  · obtain ⟨p, _, rfl⟩ := mem_propertiesThroughSchema hq
    exact canonicalProperty_written p _

theorem canonicalProperty_of_same (h : SameProperty p q) (hq : CanonicalProperty q) :
    CanonicalProperty p := by
  rw [canonicalProperty_iff] at hq ⊢
  rw [h.maxOccurs, h.minOccurs, h.required, isArray_eq_of_beq h.ty]
  exact hq

/-- Equality looks at the counts of every property on its left. -/
theorem canonical_of_beq (h : (a == b) = true) (hb : b.Canonical) : a.Canonical := by
  induction a generalizing b with
  | string | number | integer | boolean | null | any => exact .of_isPrimitive rfl trivial
  | var name => exact Everywhere.var_iff.mpr trivial
  | array t ih =>
    obtain ⟨u, rfl, htu⟩ := exists_of_array_beq h
    exact Everywhere.array_iff.mpr ⟨trivial, ih htu (Everywhere.array_iff.mp hb).2⟩
  | object ps isOpen ih =>
    obtain ⟨qs, rfl, _, hproperties⟩ := exists_of_object_beq h
    obtain ⟨hnode, hqs⟩ := Everywhere.object_iff.mp hb
    refine Everywhere.object_iff.mpr ⟨fun name p hp => ?_, fun name p hp => ?_⟩
    · obtain ⟨q, hq, hsame⟩ := hproperties name p hp
      exact canonicalProperty_of_same hsame (hnode name q (Entries.mem_of_lookup hq))
    · obtain ⟨q, hq, hsame⟩ := hproperties name p hp
      exact ih name p hp hsame.ty (hqs name q (Entries.mem_of_lookup hq))
  | union ms ih =>
    obtain ⟨ns, rfl, _, hmembers⟩ := exists_of_union_beq h
    obtain ⟨_, hns⟩ := Everywhere.union_iff.mp hb
    refine Everywhere.union_iff.mpr ⟨trivial, fun m hm => ?_⟩
    obtain ⟨n, hn, hmn⟩ := hmembers m hm
    exact ih m hm hmn (hns n hn)
  | function params r ihparams ihresult =>
    obtain ⟨params', r', rfl, hparams, hresult⟩ := exists_of_function_beq h
    obtain ⟨_, hparams', hresult'⟩ := Everywhere.function_iff.mp hb
    refine Everywhere.function_iff.mpr ⟨trivial, fun p hp => ?_, ihresult hresult hresult'⟩
    obtain ⟨q, hq, hpq⟩ := exists_related_of_mem hparams hp
    exact ihparams p hp hpq (hparams' q hq)

theorem throughSchema_beq_iff (ht : t.WellFormed) (hdata : t.IsData) :
    (t.throughSchema == t) = true ↔ t.Canonical := by
  constructor
  · intro h
    exact canonical_of_beq (beq_symm (wellFormed_throughSchema ht) ht h) (canonical_throughSchema hdata)
  · exact throughSchema_beq ht

end Ty

namespace JsonSchema

variable {document : Json} {t : Ty}

theorem toType_of_ofType {schema : Json} (ht : t.WellFormed) (hschema : ofType t = .ok schema) :
    toType schema = .ok t.throughSchema :=
  reads_ofType ht hschema _ _

/-- A schema that says nothing by itself pools the schemas that it is made of. -/
theorem convert_allOf {deref : String → Except ImportError Ty} {schemas : List Json} {types : List Ty}
    (h : List.Forall₂ (fun schema t => ∀ path, convert deref path schema = .ok t) schemas types)
    (path : String) :
    convert deref path (.object [("allOf", .array schemas)]) = .ok (types.foldl Ty.pool .any) := by
  have htyped : convertTyped deref path [("allOf", .array schemas)] = .ok .any := by
    rw [convertTyped]
    rfl
  rw [convert_eq_combinators rfl rfl rfl rfl htyped,
    convertCombinator_of_items rfl fun path => convertItems_of_forall₂ h, ok_bind, convertAlternatives,
    convertCombinator_of_lookup_none rfl, ok_bind]
  dsimp only
  rw [convertCombinator_of_lookup_none rfl]
  rfl

theorem reads_allOf {schemas : List Json} {types : List Ty} (h : List.Forall₂ Reads schemas types) :
    Reads (.object [("allOf", .array schemas)]) (types.foldl Ty.pool .any) := by
  intro deref path
  exact convert_allOf (h.imp fun _ _ hreads => hreads deref) path

/-- **What a JSON Schema describes can be exported, and comes back equivalent.** It comes back equal
exactly if all its properties have the upper bounds that go with their types; what comes back is exported
and imported again without a change. -/
theorem toType_ofType_of_imported (h : toType document = .ok t) :
    ∃ schema back, ofType t = .ok schema ∧ toType schema = .ok back ∧
      t.subtypeOf back = true ∧ back.subtypeOf t = true ∧
      ((back == t) = true ↔ t.Bounded) ∧
      ∃ schema' again, ofType back = .ok schema' ∧ toType schema' = .ok again ∧
        (again == back) = true := by
  obtain ⟨ht, hdata, hcounted⟩ := (toType_describable document).of_eq_ok h
  have hback := Ty.wellFormed_throughSchema ht
  obtain ⟨schema, hschema⟩ := exists_ofType hdata
  obtain ⟨hforth, hfits⟩ := Ty.fits_both_throughSchema ht
  obtain ⟨schema', hschema'⟩ := exists_ofType (Ty.isData_throughSchema hdata)
  refine ⟨schema, t.throughSchema, hschema, toType_of_ofType ht hschema,
    Ty.subtypeOf_of_fits ht hback hforth, Ty.subtypeOf_of_fits hback ht hfits, ?_,
    schema', _, hschema', toType_of_ofType hback hschema', ?_⟩
  · rw [Ty.throughSchema_beq_iff ht hdata, Ty.canonical_iff]
    exact and_iff_right hcounted
  · exact Ty.throughSchema_beq hback (Ty.canonical_throughSchema hdata)

/-- An object schema with the one property `tags`. -/
def tagged (tags : Json) (required : List Json) : Json :=
  .object [("type", .string "object"), ("properties", .object [("tags", tags)]),
    ("required", .array required), ("additionalProperties", .bool true)]

/-- One schema demands the property and another one gives its type. -/
theorem toType_ofType_of_imported_of_demanded :
    let document : Json := .object [("allOf", .array
      [tagged (.object []) [.string "tags"], tagged (.object [("type", .string "string")]) []])]
    let t : Ty := .object [("tags", .mandatory .string)] true
    toType document = .ok t ∧
      ∃ schema back, ofType t = .ok schema ∧ toType schema = .ok back ∧ (back == t) = true := by
  intro document t
  have hdocument : toType document = .ok t := by
    have hdemands : Reads (tagged (.object []) [.string "tags"])
        (.object [("tags", .mandatory .any)] true) :=
      reads_ofType (t := .object [("tags", .mandatory .any)] true) (by decide) rfl
    have htypes : Reads (tagged (.object [("type", .string "string")]) [])
        (.object [("tags", .optional .string)] true) :=
      reads_ofType (t := .object [("tags", .optional .string)] true) (by decide) rfl
    exact reads_allOf (.cons hdemands (.cons htypes .nil)) _ _
  obtain ⟨schema, back, hschema, hback, _, _, hiff, _⟩ := toType_ofType_of_imported hdocument
  exact ⟨hdocument, schema, back, hschema, hback, hiff.mpr (by decide)⟩

/-- The second schema makes the property an array, but its upper bound stays one. -/
theorem toType_ofType_ne_of_retyped :
    let document : Json := .object [("allOf", .array
      [tagged (.object []) [],
        tagged (.object [("type", .string "array"), ("items", .object [("type", .string "string")])]) []])]
    let t : Ty := .object [("tags", { Property.optional (.array .string) with maxOccurs := 1 })] true
    toType document = .ok t ∧
      ∃ schema back, ofType t = .ok schema ∧ toType schema = .ok back ∧ (back == t) = false := by
  intro document t
  have hfree : Reads (tagged (.object []) []) (.object [("tags", .optional .any)] true) :=
    reads_ofType (t := .object [("tags", .optional .any)] true) (by decide) rfl
  have hlisted : Reads
      (tagged (.object [("type", .string "array"), ("items", .object [("type", .string "string")])]) [])
      (.object [("tags", .optional (.array .string))] true) :=
    reads_ofType (t := .object [("tags", .optional (.array .string))] true) (by decide) rfl
  refine ⟨reads_allOf (.cons hfree (.cons hlisted .nil)) _ _, _, t.throughSchema, rfl, ?_, by decide⟩
  exact toType_of_ofType (by decide) rfl

end JsonSchema

end SchemaInfer
