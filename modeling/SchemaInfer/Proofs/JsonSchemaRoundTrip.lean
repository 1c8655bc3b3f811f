import SchemaInfer.Proofs.JsonSchemaImport
import SchemaInfer.Proofs.Unions

/-!
# Export to JSON Schema and import undo each other

A schema has no place for the occurrence counts of properties. A well-formed data type in which they are
the ones that go with being demanded or not comes back equal when it is exported and imported: no two
alternatives become equal on the way, so that none is dropped, and equality does not see where null
stands among the alternatives. The type that comes back has the same schema.
-/

namespace SchemaInfer

namespace Ty

variable {t : Ty} {ts ms : List Ty} {ps : Properties}

/-! ### Canonical properties -/

/-- Up to its description, the property is one that is demanded or one that may be absent, with the
occurrence counts that go with that. -/
def CanonicalProperty (p : Property Ty) : Prop :=
  p = { Property.mandatory p.ty with description := p.description } ∨
    p = { Property.optional p.ty with description := p.description }

theorem canonicalProperty_iff {p : Property Ty} : CanonicalProperty p ↔
    p.maxOccurs = (if p.ty.isArray then unbounded else 1) ∧
      p.minOccurs = if p.required then 1 else 0 := by
  obtain ⟨ty, required, minOccurs, maxOccurs, description⟩ := p
  cases required with
  | true => simp [CanonicalProperty, Property.mandatory, Property.optional, and_comm]
  | false => simp [CanonicalProperty, Property.mandatory, Property.optional, and_comm]

instance : DecidablePred CanonicalProperty :=
  fun _ => decidable_of_iff _ canonicalProperty_iff.symm

def CanonicalNode : Ty → Prop
  | object ps _ => Entries.All CanonicalProperty ps
  | _ => True

instance : DecidablePred CanonicalNode
  | object ps _ => inferInstanceAs (Decidable (Entries.All CanonicalProperty ps))
  | string | number | integer | boolean | null | any | array _ | union _ | var _ | function _ _ =>
    inferInstanceAs (Decidable True)

/-- All properties inside the type are canonical. -/
def Canonical (t : Ty) : Prop :=
  t.Everywhere CanonicalNode

instance : DecidablePred Canonical :=
  inferInstanceAs (DecidablePred (Everywhere CanonicalNode))

/-! ### What comes through a schema -/

theorem mem_nullLast : t ∈ nullLast ts ↔ t ∈ ts := by
  unfold nullLast
  split
  · simp [or_comm]
  · rfl

theorem length_nullLast (ts : List Ty) : (nullLast ts).length = ts.length := by
  unfold nullLast
  split <;> rfl

theorem wellFormed_nullLast (h : (union ts).WellFormed) : (union (nullLast ts)).WellFormed := by
  unfold nullLast
  split
  · rename_i t
    obtain ⟨hlength, hflat, hdistinct, hts⟩ := WellFormed.union_iff.mp h
    have hmem : ∀ s, s ∈ [t, null] ↔ s ∈ [null, t] := by simp [or_comm]
    have hne : (null == t) = false := (List.pairwise_cons.mp hdistinct).1 t List.mem_cons_self
    have ht : t.WellFormed := hts t (List.mem_cons_of_mem _ List.mem_cons_self)
    refine WellFormed.union_iff.mpr ⟨hlength, fun s hs => hflat s ((hmem s).mp hs), ?_,
      fun s hs => hts s ((hmem s).mp hs)⟩
    simpa using beq_eq_false_symm (.of_isPrimitive rfl) ht hne
  · exact h

theorem mem_propertiesThroughSchema {name : String} {q : Property Ty}
    (h : (name, q) ∈ propertiesThroughSchema ps) :
    ∃ p, (name, p) ∈ ps ∧ q = writtenProperty p p.ty.throughSchema := by
  rw [propertiesThroughSchema_eq_map] at h
  obtain ⟨⟨_, p⟩, hp, heq⟩ := List.mem_map.mp h
  obtain ⟨rfl, rfl⟩ := Prod.mk.inj heq
  exact ⟨p, hp, rfl⟩

theorem writtenProperty_ty (p : Property Ty) (ty : Ty) : (writtenProperty p ty).ty = ty := by
  unfold writtenProperty
  split <;> rfl

theorem isOptional_writtenProperty (p : Property Ty) (ty : Ty) :
    (writtenProperty p ty).isOptional = p.isOptional := by
  unfold writtenProperty
  split
  · rename_i h
    rw [h]
    rfl
  · rename_i h
    rw [Bool.eq_false_iff.mpr h]
    rfl

theorem wellFormed_throughSchema (ht : t.WellFormed) : t.throughSchema.WellFormed := by
  induction t with
  | string | number | integer | boolean | null | any | var _ | function _ _ => exact ht
  | array t ih => exact WellFormed.array_iff.mpr (ih (WellFormed.array_iff.mp ht))
  | object ps isOpen ih =>
    obtain ⟨hkeys, hps⟩ := WellFormed.object_iff.mp ht
    rw [throughSchema, WellFormed.object_iff, keys_propertiesThroughSchema]
    refine ⟨hkeys, fun name q hq => ?_⟩
    obtain ⟨p, hp, rfl⟩ := mem_propertiesThroughSchema hq
    rw [writtenProperty_ty]
    exact ih name p hp (hps name p hp)
  | union ms ih =>
    obtain ⟨_, _, _, hms⟩ := WellFormed.union_iff.mp ht
    rw [throughSchema, allThroughSchema_eq_map]
    apply wellFormed_oneOf
    intro s hs
    obtain ⟨m, hm, rfl⟩ := List.mem_map.mp (mem_nullLast.mp hs)
    exact ih m hm (hms m hm)

/-! ### Equality with what comes through a schema -/

theorem isArray_eq_of_beq {a b : Ty} (h : (a == b) = true) : a.isArray = b.isArray := by
  cases a with
  | array t =>
    obtain ⟨u, rfl, _⟩ := exists_of_array_beq h
    rfl
  | _ =>
    cases b with
    | array u => cases h
    | _ => rfl

theorem sameProperty_written {p : Property Ty} {ty : Ty} (hp : CanonicalProperty p)
    (hty : (ty == p.ty) = true) : SameProperty (writtenProperty p ty) p := by
  have harray := isArray_eq_of_beq hty
  obtain ⟨hmax, hmin⟩ := canonicalProperty_iff.mp hp
  cases hrequired : p.required with
  | true =>
    have hoptional : p.isOptional = false := by simp [Property.isOptional, hrequired, hmin]
    constructor <;>
      simp [writtenProperty, hoptional, Property.mandatory, hty, hrequired, hmin, hmax, harray]
  | false =>
    have hoptional : p.isOptional = true := by simp [Property.isOptional, hrequired]
    constructor <;>
      simp [writtenProperty, hoptional, Property.optional, Property.mandatory, hty, hrequired, hmin,
        hmax, harray]

/-- The alternatives stay distinct on the way, as equals among them would have been equal before. -/
theorem throughSchema_union (hms : (union ms).WellFormed)
    (heq : ∀ m ∈ ms, (m.throughSchema == m) = true) :
    (union ms).throughSchema = union (nullLast (ms.map throughSchema)) := by
  obtain ⟨hlength, hflat, hdistinct, hwf⟩ := WellFormed.union_iff.mp hms
  rw [throughSchema, allThroughSchema_eq_map]
  apply oneOf_eq_union
  apply wellFormed_nullLast
  refine WellFormed.union_iff.mpr ⟨by rwa [List.length_map], ?_, ?_, ?_⟩
  · intro s hs
    obtain ⟨m, hm, rfl⟩ := List.mem_map.mp hs
    rw [isUnion_eq_of_beq (heq m hm)]
    exact hflat m hm
  · rw [List.pairwise_map]
    refine hdistinct.imp_of_mem fun {m n} hm hn hne => Bool.eq_false_iff.mpr fun hequal => ?_
    -- `m` is equal to what becomes of it, hence to what becomes of `n`, hence to `n`
    have hm' := beq_symm (wellFormed_throughSchema (hwf m hm)) (hwf m hm) (heq m hm)
    rw [beq_trans hm' (beq_trans hequal (heq n hn))] at hne
    cases hne
  · intro s hs
    obtain ⟨m, hm, rfl⟩ := List.mem_map.mp hs
    exact wellFormed_throughSchema (hwf m hm)

theorem throughSchema_beq (ht : t.WellFormed) (hcanonical : t.Canonical) :
    (t.throughSchema == t) = true := by
  induction t with
  | string | number | integer | boolean | null | any | var _ | function _ _ => exact beq_refl ht
  | array t ih => exact ih (WellFormed.array_iff.mp ht) (Everywhere.array_iff.mp hcanonical).2
  | object ps isOpen ih =>
    obtain ⟨hkeys, hps⟩ := WellFormed.object_iff.mp ht
    obtain ⟨hnode, hcanonical⟩ := Everywhere.object_iff.mp hcanonical
    rw [throughSchema, object_beq_iff]
    refine ⟨?_, fun name q hq => ?_, rfl⟩
    · simpa [Entries.keys] using congrArg List.length (keys_propertiesThroughSchema ps)
    · obtain ⟨p, hp, rfl⟩ := mem_propertiesThroughSchema hq
      refine ⟨p, (Entries.lookup_eq_some_iff_mem hkeys).mpr hp, ?_⟩
      exact sameProperty_written (hnode name p hp) (ih name p hp (hps name p hp) (hcanonical name p hp))
  | union ms ih =>
    obtain ⟨_, _, _, hms⟩ := WellFormed.union_iff.mp ht
    have hcanonical := (Everywhere.union_iff.mp hcanonical).2
    have heq : ∀ m ∈ ms, (m.throughSchema == m) = true :=
      fun m hm => ih m hm (hms m hm) (hcanonical m hm)
    rw [throughSchema_union ht heq, union_beq_iff, length_nullLast, List.length_map]
    refine ⟨rfl, fun s hs => ?_⟩
    obtain ⟨m, hm, rfl⟩ := List.mem_map.mp (mem_nullLast.mp hs)
    exact ⟨m, hm, heq m hm⟩

end Ty

namespace JsonSchema

variable {t : Ty} {schema : Json} {ps : Properties}

/-! ### Exporting what comes through a schema -/

theorem demanded_propertiesThroughSchema (ps : Properties) :
    demanded (Ty.propertiesThroughSchema ps) = demanded ps := by
  induction ps with
  | nil => rfl
  | cons entry ps ih =>
    obtain ⟨name, p⟩ := entry
    unfold demanded at ih ⊢
    rw [Ty.propertiesThroughSchema]
    cases hp : p.isOptional with
    | true => simp [Ty.isOptional_writtenProperty, hp, ih]
    | false => simp [Ty.isOptional_writtenProperty, hp, ih]

theorem isPropertySchema_throughSchema {schemas : List (String × Json)}
    (hschemas : List.Forall₂ IsPropertySchema ps schemas)
    (hps : ∀ name p schema, (name, p) ∈ ps → ofType p.ty = .ok schema →
      ofType p.ty.throughSchema = .ok schema) :
    List.Forall₂ IsPropertySchema (Ty.propertiesThroughSchema ps) schemas := by
  induction hschemas with
  | nil => exact .nil
  | @cons entry _ ps schemas hschema _ ih =>
    obtain ⟨name, p⟩ := entry
    obtain ⟨schema, hschema, rfl⟩ := hschema
    refine .cons ⟨schema, ?_, rfl⟩ (ih ?_)
    · rw [Ty.writtenProperty_ty]
      exact hps name p schema List.mem_cons_self hschema
    · exact fun name p schema hmem => hps name p schema (List.mem_cons_of_mem _ hmem)

theorem ofType_throughSchema (ht : t.WellFormed) (hcanonical : t.Canonical)
    (hschema : ofType t = .ok schema) : ofType t.throughSchema = .ok schema := by
  induction t generalizing schema with
  | string | number | integer | boolean | null | any | var _ | function _ _ => exact hschema
  | array t ih =>
    obtain ⟨items, hitems, rfl⟩ := ofType_array_eq_ok_iff.mp hschema
    have hback := ih (Ty.WellFormed.array_iff.mp ht) (Ty.Everywhere.array_iff.mp hcanonical).2 hitems
    exact ofType_array_eq_ok_iff.mpr ⟨items, hback, rfl⟩
  | object ps isOpen ih =>
    obtain ⟨_, hps⟩ := Ty.WellFormed.object_iff.mp ht
    obtain ⟨_, hcanonical⟩ := Ty.Everywhere.object_iff.mp hcanonical
    obtain ⟨schemas, hschemas, rfl⟩ := ofType_object_eq_ok_iff.mp hschema
    rw [Ty.throughSchema, ofType_object_eq_ok_iff, demanded_propertiesThroughSchema]
    refine ⟨schemas, isPropertySchema_throughSchema hschemas ?_, rfl⟩
    exact fun name p schema hmem => ih name p hmem (hps name p hmem) (hcanonical name p hmem)
  | union ms ih =>
    obtain ⟨_, hflat, _, hms⟩ := Ty.WellFormed.union_iff.mp ht
    have hmembers := (Ty.Everywhere.union_iff.mp hcanonical).2
    have hback : ∀ m ∈ ms, ∀ schema, ofType m = .ok schema → ofType m.throughSchema = .ok schema :=
      fun m hm schema => ih m hm (hms m hm) (hmembers m hm)
    rw [Ty.throughSchema_union ht fun m hm => Ty.throughSchema_beq (hms m hm) (hmembers m hm)]
    rcases ofType_union_cases hschema with
      ⟨m, inner, hm, hpair, hinner, rfl⟩ | ⟨hnot, schemas, hschemas, rfl⟩
    · have hmem := Ty.mem_of_nullable hpair
      have hlast : Ty.nullLast (ms.map Ty.throughSchema) = [m.throughSchema, .null] := by
        rcases hpair with rfl | rfl
        · exact Ty.nullLast_of_null_last _
        · rfl
      have hnull : m.throughSchema.isNull = false := by
        rw [Ty.isNull_throughSchema (hflat m hmem), hm]
      rw [hlast]
      exact ofType_union_null_last hnull (hback m hmem inner hinner)
    · have hparts := (List.forall₂_and_left _ _).mpr ⟨hback, hschemas⟩
      have hnullable := Ty.isNullable_throughSchema hflat
      rw [Ty.nullLast_of_not_isNullable (hnullable.trans hnot), ofType_union_eq_ok_iff]
      refine ⟨schemas, ?_, ?_⟩
      · rw [ofTypes_eq_ok_iff, List.forall₂_map_left_iff]
        exact hparts.imp fun m schema h => h.1 schema h.2
      · rw [ofUnion_of_not_isNullable (hnullable.trans hnot)]
        rw [List.length_map, hschemas.length_eq]

/-- **JSON Schema export and import undo each other.** A well-formed data type with canonical
properties has a schema; importing the schema gives a type equal to it, and that type has exactly the
same schema. -/
theorem toType_ofType (ht : t.WellFormed) (hdata : t.IsData) (hcanonical : t.Canonical) :
    ∃ schema back, ofType t = .ok schema ∧ toType schema = .ok back ∧ (back == t) = true ∧
      ofType back = .ok schema := by
  obtain ⟨schema, hschema⟩ := exists_ofType hdata
  have hreads : Reads schema t.throughSchema := reads_ofType ht hschema
  exact ⟨schema, t.throughSchema, hschema, hreads _ _, Ty.throughSchema_beq ht hcanonical,
    ofType_throughSchema ht hcanonical hschema⟩

/-- Null first, a union with `any`, and unions inside arrays and properties. -/
theorem toType_ofType_of_unions :
    let t : Ty := .object
      [("id", { Property.mandatory .integer with description := some "key" }),
        ("tags", Property.optional (.array (.union [.null, .string]))),
        ("extra", Property.mandatory (.union [.any, .null])),
        ("choice", Property.optional (.union [.null, .boolean, .object [] true]))] false
    (t.WellFormed ∧ t.IsData ∧ t.Canonical) ∧
      ∃ schema back, ofType t = .ok schema ∧ toType schema = .ok back ∧ (back == t) = true ∧
        ofType back = .ok schema := by
  intro t
  have ht : t.WellFormed := by decide
  have hdata : t.IsData := by decide
  have hcanonical : t.Canonical := by decide
  exact ⟨⟨ht, hdata, hcanonical⟩, toType_ofType ht hdata hcanonical⟩

end JsonSchema

end SchemaInfer
